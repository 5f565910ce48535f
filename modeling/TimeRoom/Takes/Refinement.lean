import Mathlib.Data.List.Chain
import TimeRoom.Buffer.Steps
import TimeRoom.Takes.Recording

/-!
# The buffer refines the abstract recorder

The stored fragments are the most recent takes of a recording: consecutive
creation numbers up to `fileCounter`, the last fragment recording and the others
saved or loaded.  `addFrame` follows the abstract recorder command by command;
`getFrame`, in either version, is invisible to it.
-/

namespace TimeRoom.Takes
open TimeRoom.Frame Buffer Runs VideoBuffer

variable {w h : ℤ} {L : ℚ} {R : Recording RgbdFrame} {b : VideoBuffer}
  {kept : List VideoFragment} {last : VideoFragment}

/-- What a fragment is created with, as a function of its creation number. -/
structure Tracked (origin : ℚ) (w h : ℤ) (L : ℚ) (f : VideoFragment) : Prop where
  start : f.startTimestamp = origin + ((f.id : ℚ) - 1) * L
  filename : f.filename = fragmentFileName f.id
  width : f.width = w
  height : f.height = h

theorem Tracked.congr {origin : ℚ} {f f' : VideoFragment} (hf : Tracked origin w h L f)
    (hc : f'.created = f.created) : Tracked origin w h L f' := by
  simp only [VideoFragment.created, Prod.mk.injEq] at hc
  rcases hc with ⟨hid, hstart, hname, hwidth, hheight⟩
  exact ⟨by rw [hstart, hid, hf.start], by rw [hname, hid, hf.filename], hwidth.trans hf.width,
    hheight.trans hf.height⟩

/-- Saved or loaded: its recorder is closed. -/
def Sealed (f : VideoFragment) : Prop := f.state = .onDisk ∨ f.state = .inMemory

theorem Sealed.not_recording {f : VideoFragment} (hf : Sealed f) : f.state ≠ .recording := by
  rcases hf with hf | hf <;> simp [hf]

/-- The buffer stores the takes of `R` from some creation number on. -/
structure Stores (w h : ℤ) (L : ℚ) (R : Recording RgbdFrame) (b : VideoBuffer)
    (kept : List VideoFragment) (last : VideoFragment) : Prop where
  fragmentLength : b.fragmentLength = L
  videoWidth : b.videoWidth = w
  videoHeight : b.videoHeight = h
  fragments : b.fragments = kept ++ [last]
  counter : b.fileCounter = R.done.length + 1
  stored : kept.length ≤ R.done.length
  ids : (kept ++ [last]).map (·.id) =
    List.range' (R.done.length + 1 - kept.length) (kept.length + 1)
  tracked : ∀ f ∈ kept ++ [last], Tracked R.origin w h L f
  kept_sealed : ∀ f ∈ kept, Sealed f
  running : last.state = .recording

/-- The simulation relation. -/
def Refines (w h : ℤ) (L : ℚ) (b : VideoBuffer) : Option (Recording RgbdFrame) → Prop
  | none => b = .new w h L
  | some R => ∃ kept last, Stores w h L R b kept last

namespace Stores

theorem last_id (s : Stores w h L R b kept last) : last.id = b.fileCounter := by
  have hl := congrArg List.getLast? s.ids
  rw [List.map_append, List.map_singleton, List.getLast?_concat, List.range'_concat,
    List.getLast?_concat, Option.some_inj] at hl
  have hk := s.stored
  have hc := s.counter
  omega

theorem last_tracked (s : Stores w h L R b kept last) : Tracked R.origin w h L last :=
  s.tracked last (by simp)

theorem last_start (s : Stores w h L R b kept last) :
    last.startTimestamp = R.currentStart L := by
  rw [s.last_tracked.start, s.last_id, s.counter, Recording.currentStart]
  push_cast
  ring

/-- The roll-over test of the source is the one of the abstract recorder. -/
theorem exceeded_iff (s : Stores w h L R b kept last) (t : ℚ) :
    t - last.startTimestamp ≥ b.fragmentLength ↔ R.Exceeded L t := by
  rw [Recording.Exceeded, s.last_start, s.fragmentLength]

theorem opened_tracked (s : Stores w h L R b kept last) :
    Tracked R.origin w h L (b.opened (last.startTimestamp + b.fragmentLength)) where
  start := by
    rw [s.last_start, s.fragmentLength, Recording.currentStart]
    simp only [opened, s.counter]
    push_cast
    ring
  filename := rfl
  width := s.videoWidth
  height := s.videoHeight

theorem steps (s : Stores w h L R b kept last) :
    b.fragments.IsChain (fun f g => g.startTimestamp = f.startTimestamp + L) := by
  have hids : b.fragments.IsChain (fun f g => g.id = f.id + 1) := by
    rw [← List.isChain_map (fun f : VideoFragment => f.id) (R := fun i j => j = i + 1),
      s.fragments, s.ids]
    exact List.isChain_range' _ _ 1
  refine hids.imp_of_mem_imp ?_
  intro f g hf hg hid
  rw [s.fragments] at hf hg
  rw [(s.tracked f hf).start, (s.tracked g hg).start, hid]
  push_cast
  ring

theorem next_ids (s : Stores w h L R b kept last) (start : ℚ) :
    (kept ++ [last.saveOnDisk.1] ++ [b.opened start]).map (·.id) =
      List.range' (R.done.length + 1 - kept.length) (kept.length + 2) := by
  have hids := s.ids
  have hid : last.saveOnDisk.1.id = last.id := rfl
  have hnew : R.done.length + 1 - kept.length + (kept.length + 1) = R.done.length + 2 := by
    have hstored := s.stored
    omega
  rw [List.map_append, List.map_singleton] at hids
  rw [List.map_append, List.map_append, List.map_singleton, List.map_singleton, hid, hids,
    List.range'_concat (n := kept.length + 1), one_mul, hnew]
  simp [opened, s.counter]

theorem next_tracked (s : Stores w h L R b kept last) :
    ∀ f ∈ kept ++ [last.saveOnDisk.1] ++ [b.opened (last.startTimestamp + b.fragmentLength)],
      Tracked R.origin w h L f := by
  intro f hf
  rw [List.mem_append, List.mem_append, List.mem_singleton, List.mem_singleton] at hf
  rcases hf with (hf | rfl) | rfl
  · exact s.tracked f (List.mem_append_left _ hf)
  · exact s.last_tracked.congr rfl
  · exact s.opened_tracked

theorem next_sealed (s : Stores w h L R b kept last) :
    ∀ f ∈ kept ++ [last.saveOnDisk.1], Sealed f := by
  intro f hf
  rw [List.mem_append, List.mem_singleton] at hf
  rcases hf with hf | rfl
  · exact s.kept_sealed f hf
  · exact Or.inl rfl

theorem addFrame_next (s : Stores w h L R b kept last) {t : ℚ} (ht : R.Exceeded L t)
    (x : RgbdFrame) :
    Stores w h L (Recording.record L (some R) (t, x)) (b.addFrame t x).1
        (kept ++ [last.saveOnDisk.1]) (b.opened (last.startTimestamp + b.fragmentLength)) ∧
      commands (b.addFrame t x).2 = orders w h L (some R) (t, x) := by
  have hstep := VideoBuffer.addFrame_next s.fragments ((s.exceeded_iff t).mpr ht) x
  rw [Recording.record_next ht, hstep]
  constructor
  · constructor
    · exact s.fragmentLength
    · exact s.videoWidth
    · exact s.videoHeight
    · simp
    · simp [s.counter]
    · simpa using s.stored
    · rw [s.next_ids]
      simp
    · exact s.next_tracked
    · exact s.next_sealed
    · rfl
  · simp [orders, if_pos ht, VideoFragment.saveOnDisk, VideoFragment.stopRecording, s.running,
      opening, s.last_id, s.counter, takeLog, s.videoWidth, s.videoHeight]

theorem addFrame_same (s : Stores w h L R b kept last) {t : ℚ} (ht : ¬ R.Exceeded L t)
    (x : RgbdFrame) :
    Stores w h L (Recording.record L (some R) (t, x)) (b.addFrame t x).1 kept last ∧
      commands (b.addFrame t x).2 = orders w h L (some R) (t, x) := by
  have hlast : last.addFrame x = (last, [.command last.id .rgb (.addFrame x.colorImage)]) := by
    simp [VideoFragment.addFrame, s.running]
  have hstep := VideoBuffer.addFrame_same s.fragments (fun h => ht ((s.exceeded_iff t).mp h)) x
  rw [hlast, ← s.fragments] at hstep
  rw [Recording.record_same ht, hstep]
  constructor
  · exact ⟨s.fragmentLength, s.videoWidth, s.videoHeight, s.fragments, s.counter, s.stored, s.ids,
      s.tracked, s.kept_sealed, s.running⟩
  · simp [orders, if_neg ht, s.last_id, s.counter]

end Stores

theorem Stores.addFrame_nil (w h : ℤ) (L t : ℚ) (x : RgbdFrame) :
    Stores w h L (Recording.record L none (t, x)) ((VideoBuffer.new w h L).addFrame t x).1 []
        ((VideoBuffer.new w h L).opened t) ∧
      commands ((VideoBuffer.new w h L).addFrame t x).2 = orders w h L none (t, x) := by
  rw [VideoBuffer.addFrame_nil _ rfl, Recording.record_none]
  constructor
  · constructor <;> try rfl
    · intro f hf
      rw [List.nil_append, List.mem_singleton] at hf
      subst hf
      exact ⟨by simp [opened, VideoBuffer.new], rfl, rfl, rfl⟩
    · simp
  · rfl

theorem Refines.addFrame {R : Option (Recording RgbdFrame)} (hb : Refines w h L b R) (t : ℚ)
    (x : RgbdFrame) :
    (∃ kept last, Stores w h L (Recording.record L R (t, x)) (b.addFrame t x).1 kept last) ∧
      commands (b.addFrame t x).2 = orders w h L R (t, x) := by
  cases R with
  | none =>
    obtain rfl : b = .new w h L := hb
    obtain ⟨hs, hcmd⟩ := Stores.addFrame_nil w h L t x
    exact ⟨⟨_, _, hs⟩, hcmd⟩
  | some R =>
    obtain ⟨kept, last, s⟩ := hb
    by_cases ht : R.Exceeded L t
    · obtain ⟨hs, hcmd⟩ := s.addFrame_next ht x
      exact ⟨⟨_, _, hs⟩, hcmd⟩
    · obtain ⟨hs, hcmd⟩ := s.addFrame_same ht x
      exact ⟨⟨_, _, hs⟩, hcmd⟩

/-- A back part of the vector, up to tags and players, still stores the recording. -/
theorem Stores.replace {dropped kept' : List VideoFragment} {last' : VideoFragment}
    (s : Stores w h L R b (dropped ++ kept) last)
    (hcreated : (kept' ++ [last']).map (·.created) = (kept ++ [last]).map (·.created))
    (hsealed : ∀ f ∈ kept', Sealed f) (hrunning : last'.state = .recording) :
    Stores w h L R { b with fragments := kept' ++ [last'] } kept' last' := by
  have hlen : kept'.length = kept.length := by simpa using congrArg List.length hcreated
  have hstored := s.stored
  rw [List.length_append] at hstored
  constructor
  · exact s.fragmentLength
  · exact s.videoWidth
  · exact s.videoHeight
  · rfl
  · exact s.counter
  · omega
  · have hids := congrArg (List.drop dropped.length) s.ids
    rw [List.append_assoc, List.map_append, List.drop_left' (by simp), List.drop_range'] at hids
    have hmap : (kept' ++ [last']).map (·.id) = (kept ++ [last]).map (·.id) := by
      simpa [Function.comp_def, VideoFragment.created] using congrArg (List.map Prod.fst) hcreated
    rw [hmap, hids, List.length_append, hlen]
    congr 1 <;> omega
  · intro f' hf'
    have hmem : f'.created ∈ (kept ++ [last]).map (·.created) := by
      rw [← hcreated]
      exact List.mem_map_of_mem hf'
    obtain ⟨f, hf, hc⟩ := List.mem_map.mp hmem
    have hin : f ∈ dropped ++ kept ++ [last] := by
      rw [List.append_assoc]
      exact List.mem_append_right _ hf
    exact (s.tracked f hin).congr hc.symm
  · exact hsealed
  · exact hrunning

/-- Serving the last fragment, which is not on disk, after evicting all others. -/
theorem Stores.serve_last {f' : VideoFragment} {tr : List Event}
    (s : Stores w h L R b kept last) (hserves : Serves last f' tr) :
    Stores w h L R { b with fragments := [f'] } [] f' := by
  have hstate : f'.state = .recording := by
    rcases hserves.state with hst | hst
    · rw [hst, s.running]
    · simp [s.running] at hst
  have hall : Stores w h L R b (kept ++ []) last := by rwa [List.append_nil]
  have hcreated : ([] ++ [f']).map VideoFragment.created =
      ([] ++ [last]).map VideoFragment.created := by
    simp [hserves.created]
  exact hall.replace hcreated (by simp) hstate

/-- Serving an earlier fragment after evicting those before it. -/
theorem Stores.serve_kept {dropped others : List VideoFragment} {f f' : VideoFragment}
    {tr : List Event} (s : Stores w h L R b (dropped ++ f :: others) last)
    (hserves : Serves f f' tr) :
    Stores w h L R { b with fragments := f' :: others ++ [last] } (f' :: others) last := by
  have hsealed : Sealed f' := by
    have hf := s.kept_sealed f (by simp)
    rcases hserves.state with hst | hst
    · rwa [Sealed, hst]
    · exact Or.inr hst.2
  have hkept : ∀ k ∈ f' :: others, Sealed k := by
    intro k hk
    rcases List.mem_cons.mp hk with rfl | hk
    · exact hsealed
    · exact s.kept_sealed k (by simp [hk])
  exact s.replace (by simp [hserves.created]) hkept s.running

/-- `getFrame` keeps a nonempty back part, serves its first fragment, and sends
no command. -/
theorem Stores.getFrame (s : Stores w h L R b kept last) (timestamp : ℚ) :
    ∃ kept' last', Stores w h L R (b.getFrame timestamp).2.1 kept' last' ∧
      last'.created = last.created ∧ commands (b.getFrame timestamp).2.2 = [] := by
  have hne : b.fragments ≠ [] := by simp [s.fragments]
  obtain ⟨dropped, f, others, f', tr, hsplit, hserves, hstep⟩ := getFrame_cases b hne timestamp
  rw [hstep]
  rw [s.fragments] at hsplit
  cases others using List.reverseRecOn with
  | nil =>
    obtain ⟨rfl, hlast⟩ := List.append_inj' hsplit rfl
    obtain rfl : last = f := by simpa using hlast
    refine ⟨[], f', s.serve_last hserves, hserves.created, ?_⟩
    rw [commands_append, hserves.commands,
      commands_discard (fun g hg => (s.kept_sealed g hg).not_recording)]
    rfl
  | append_singleton others g _ =>
    rw [← List.cons_append, ← List.append_assoc] at hsplit
    obtain ⟨rfl, hlast⟩ := List.append_inj' hsplit rfl
    obtain rfl : last = g := by simpa using hlast
    refine ⟨f' :: others, last, s.serve_kept hserves, rfl, ?_⟩
    rw [commands_append, hserves.commands, commands_discard
      (fun k hk => (s.kept_sealed k (List.mem_append_left _ hk)).not_recording)]
    rfl

/-- The events of a query: saved or loaded fragments are evicted, a saved one is
loaded, and some fragment's player is read. -/
theorem Stores.mem_getFrame (s : Stores w h L R b kept last) {timestamp : ℚ} {e : Event}
    (he : e ∈ (b.getFrame timestamp).2.2) :
    (∃ f ∈ b.fragments, f.state ≠ .recording ∧
        (e = .called f.id .removeFromDisk f.state ∨ e = .deleted f.id)) ∨
      (∃ f ∈ b.fragments, f.state = .onDisk ∧ (e = .called f.id .loadFromDisk .onDisk ∨
        e = .load f.id .rgb (f.filename ++ "_rgb.mov") ∨
        e = .load f.id .depth (f.filename ++ "_depth.mov"))) ∨
      ∃ i st, e = .called i .getFrame st := by
  have hne : b.fragments ≠ [] := by simp [s.fragments]
  obtain ⟨dropped, f, others, f', tr, hsplit, hserves, hstep⟩ := getFrame_cases b hne timestamp
  rw [hstep, List.mem_append, List.mem_flatMap] at he
  rcases he with ⟨g, hg, he⟩ | he
  · have hkept : g ∈ kept := by
      have hlast : (f :: others).dropLast ++ [(f :: others).getLast (by simp)] = f :: others :=
        List.dropLast_concat_getLast _
      rw [s.fragments, ← hlast, ← List.append_assoc] at hsplit
      rw [(List.append_inj' hsplit rfl).1]
      exact List.mem_append_left _ hg
    have hstate := (s.kept_sealed g hkept).not_recording
    rw [discard_eq hstate, List.mem_cons, List.mem_singleton] at he
    exact Or.inl ⟨g, by simp [s.fragments, hkept], hstate, he⟩
  · rcases hserves.mem he with ⟨hdisk, he⟩ | he
    · exact Or.inr (Or.inl ⟨f, by simp [hsplit], hdisk, he⟩)
    · exact Or.inr (Or.inr ⟨_, _, he⟩)

theorem Refines.mem_addFrame {R : Option (Recording RgbdFrame)} (hb : Refines w h L b R) {t : ℚ}
    {x : RgbdFrame} {e : Event} (he : e ∈ (b.addFrame t x).2) :
    (∃ i ch c, e = .command i ch c) ∨ ∃ i, e = .called i .saveOnDisk .recording := by
  have hopening (b : VideoBuffer) (he : e ∈ b.opening x) : ∃ i ch c, e = .command i ch c := by
    simp only [opening, List.mem_cons, List.not_mem_nil, or_false] at he
    rcases he with rfl | rfl | rfl <;> exact ⟨_, _, _, rfl⟩
  cases R with
  | none =>
    obtain rfl : b = .new w h L := hb
    rw [VideoBuffer.addFrame_nil _ rfl] at he
    exact Or.inl (hopening _ he)
  | some R =>
    obtain ⟨kept, last, s⟩ := hb
    by_cases ht : t - last.startTimestamp ≥ b.fragmentLength
    · rw [VideoBuffer.addFrame_next s.fragments ht, List.mem_append] at he
      rcases he with he | he
      · simp only [VideoFragment.saveOnDisk, VideoFragment.stopRecording, s.running, if_true,
          List.mem_cons, List.not_mem_nil, or_false] at he
        rcases he with rfl | rfl
        · exact Or.inr ⟨_, rfl⟩
        · exact Or.inl ⟨_, _, _, rfl⟩
      · exact Or.inl (hopening _ he)
    · rw [VideoBuffer.addFrame_same s.fragments ht] at he
      simp only [VideoFragment.addFrame, s.running, reduceCtorEq, if_false, List.nil_append,
        List.mem_singleton] at he
      exact Or.inl ⟨_, _, _, he⟩

theorem Refines.addFrame_guarded {R : Option (Recording RgbdFrame)} (hb : Refines w h L b R)
    (t : ℚ) (x : RgbdFrame) {P : List Event → Event → Prop}
    (hcommand : ∀ pre i ch c, P pre (.command i ch c))
    (hsave : ∀ pre i, P pre (.called i .saveOnDisk .recording)) :
    Guarded P (b.addFrame t x).2 := by
  apply Guarded.of_forall
  intro e he pre
  rcases hb.mem_addFrame he with ⟨i, ch, c, rfl⟩ | ⟨i, rfl⟩
  · exact hcommand pre i ch c
  · exact hsave pre i

/-- A condition on the events of a query need only be checked on a stored recording. -/
theorem Refines.query_guarded {R : Option (Recording RgbdFrame)} (hb : Refines w h L b R)
    (earlyReturn : Bool) (timestamp : ℚ) {P : List Event → Event → Prop}
    (hstored : ∀ R' kept last, R = some R' → Stores w h L R' b kept last →
      Guarded P (b.getFrame timestamp).2.2) :
    Guarded P (b.query earlyReturn timestamp).2.2 := by
  cases earlyReturn with
  | true => exact Guarded.nil _
  | false =>
    cases R with
    | none =>
      obtain rfl : b = .new w h L := hb
      exact Guarded.nil _
    | some R =>
      obtain ⟨kept, last, s⟩ := hb
      exact hstored R kept last rfl s

def refinement (earlyReturn : Bool) (w h : ℤ) (L : ℚ) :
    Simulation (machine earlyReturn) (recorder w h L) Call.recorded? Event.command? where
  rel := Refines w h L
  visible b R c p hrel hc := by
    cases c with
    | getFrame ts => simp [Call.recorded?] at hc
    | addFrame t x =>
      obtain rfl : (t, x) = p := by simpa [Call.recorded?] using hc
      exact hrel.addFrame t x
  silent b R c hrel hc := by
    cases c with
    | addFrame t x => simp [Call.recorded?] at hc
    | getFrame ts =>
      cases earlyReturn with
      | true => exact ⟨hrel, rfl⟩
      | false =>
        cases R with
        | none =>
          obtain rfl : b = .new w h L := hrel
          exact ⟨rfl, rfl⟩
        | some R =>
          obtain ⟨kept, last, s⟩ := hrel
          obtain ⟨kept', last', hs, -, hcmd⟩ := s.getFrame ts
          exact ⟨⟨kept', last', hs⟩, hcmd⟩

/-! ### Whole runs -/

section Execution
variable (earlyReturn : Bool) (w h : ℤ) (L : ℚ) (calls : List Call)

/-- After any calls, the buffer stores the takes of the frames it was given, and
the recorders received what the abstract recorder sent. -/
theorem execute_refines :
    Refines w h L (execute earlyReturn w h L calls).1 (Recording.cut L (recordedFrames calls)) ∧
      commands (execute earlyReturn w h L calls).2 =
        ((recorder w h L).run none (recordedFrames calls)).2 := by
  have hrun := (refinement earlyReturn w h L).run (.new w h L) none rfl calls
  rw [← recordedFrames, recorder_run_fst] at hrun
  exact hrun

theorem execute_new (hcalls : recordedFrames calls = []) :
    (execute earlyReturn w h L calls).1 = .new w h L := by
  have hrun := (execute_refines earlyReturn w h L calls).1
  rw [hcalls] at hrun
  exact hrun

theorem execute_stores {R : Recording RgbdFrame}
    (hcut : Recording.cut L (recordedFrames calls) = some R) :
    ∃ kept last, Stores w h L R (execute earlyReturn w h L calls).1 kept last := by
  have hrun := (execute_refines earlyReturn w h L calls).1
  rw [hcut] at hrun
  exact hrun

/-- A buffer is new until the first frame, and stores a recording from then on. -/
theorem execute_cases :
    recordedFrames calls = [] ∧ (execute earlyReturn w h L calls).1 = .new w h L ∨
      ∃ R kept last, Recording.cut L (recordedFrames calls) = some R ∧
        Stores w h L R (execute earlyReturn w h L calls).1 kept last := by
  cases hcut : Recording.cut L (recordedFrames calls) with
  | none =>
    have hnil := (Recording.cut_eq_none_iff L _).mp hcut
    exact Or.inl ⟨hnil, execute_new earlyReturn w h L calls hnil⟩
  | some R =>
    obtain ⟨kept, last, s⟩ := execute_stores earlyReturn w h L calls hcut
    exact Or.inr ⟨R, kept, last, rfl, s⟩

theorem execute_size :
    (execute earlyReturn w h L calls).1.videoWidth = w ∧
      (execute earlyReturn w h L calls).1.videoHeight = h := by
  rcases execute_cases earlyReturn w h L calls with ⟨-, hnew⟩ | ⟨R, kept, last, -, s⟩
  · rw [hnew]
    exact ⟨rfl, rfl⟩
  · exact ⟨s.videoWidth, s.videoHeight⟩

theorem execute_rgb_log (i : ℕ) :
    recorderLog i .rgb (execute earlyReturn w h L calls).2 =
      (Recording.cut L (recordedFrames calls)).elim [] (log w h · i) := by
  rw [recorderLog, (execute_refines earlyReturn w h L calls).2]
  exact (received_run w h L _ i).1

theorem execute_log {R : Recording RgbdFrame}
    (hcut : Recording.cut L (recordedFrames calls) = some R) (i : ℕ) :
    recorderLog i .rgb (execute earlyReturn w h L calls).2 = log w h R i := by
  rw [execute_rgb_log, hcut, Option.elim_some]

theorem execute_depth_log (i : ℕ) :
    recorderLog i .depth (execute earlyReturn w h L calls).2 = [] := by
  rw [recorderLog, (execute_refines earlyReturn w h L calls).2]
  exact (received_run w h L _ i).2

theorem execute_guarded_iff {P : List Event → Event → Prop}
    (hadd : ∀ pre t x, Guarded (fun y => P ((execute earlyReturn w h L pre).2 ++ y))
      ((execute earlyReturn w h L pre).1.addFrame t x).2) :
    Guarded P (execute earlyReturn w h L calls).2 ↔
      ∀ pre timestamp post, calls = pre ++ .getFrame timestamp :: post →
        Guarded (fun y => P ((execute earlyReturn w h L pre).2 ++ y))
          ((execute earlyReturn w h L pre).1.query earlyReturn timestamp).2.2 := by
  rw [execute, Guarded.run_iff]
  constructor
  · intro hsteps pre timestamp post hsplit
    exact hsteps pre _ post hsplit
  · rintro hqueries pre c post hsplit
    cases c with
    | addFrame t x => exact hadd pre t x
    | getFrame timestamp => exact hqueries pre timestamp post hsplit

end Execution

end TimeRoom.Takes
