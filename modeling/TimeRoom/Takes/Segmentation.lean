import TimeRoom.Takes.Refinement
import TimeRoom.Takes.Windows

/-!
# The online segmentation in closed form

How many fragments a run creates, which of them are still stored, where they
start, and which frames are filed in the fragment whose window covers them.
-/

namespace TimeRoom.Takes
open TimeRoom.Frame Buffer Runs Numeric Recording

def frameTimes (calls : List Call) : List ℚ := (recordedFrames calls).map Prod.fst

/-- The segmentation of frames at the given times.  The numbers of frames and of
fragments count from one, the index `j` from zero. -/
structure SegmentedBy (L : ℚ) (times : List ℚ) (hpos : 0 < times.length) (b : VideoBuffer)
    (ms : List (ℕ × Channel × Command)) : Prop where
  counter : IsLeast {q : ℤ | ∃ j, ∃ hj : j < times.length,
    q = ⌊(times[j] - times[0]) / L⌋ + (times.length - 1 - j : ℕ)} ((b.fileCounter : ℤ) - 1)
  created : createdFragments ms = List.range' 1 b.fileCounter
  received : (frameReceivers ms).length = times.length
  newest : ∃ last, b.fragments.getLast? = some last ∧
    (frameReceivers ms).getLast? = some last.id ∧
    last.startTimestamp = times[0] + ((b.fileCounter : ℚ) - 1) * L ∧
    last.startTimestamp ≤ times.getLast (List.ne_nil_of_length_pos hpos)
  stored : b.fragments.map (·.id) =
    List.range' (b.fileCounter + 1 - b.fragments.length) b.fragments.length
  start : ∀ f ∈ b.fragments, f.startTimestamp = times[0] + ((f.id : ℚ) - 1) * L
  steps : b.fragments.IsChain
    (fun f g => f.startTimestamp < g.startTimestamp ∧ g.startTimestamp = f.startTimestamp + L)

variable {earlyReturn : Bool} {w h : ℤ} {L : ℚ}

theorem frameReceivers_length (xs : List (ℚ × RgbdFrame)) :
    (frameReceivers ((recorder w h L).run none xs).2).length = xs.length := by
  induction xs using List.reverseRecOn with
  | nil => rfl
  | append_singleton xs p ih => simp [frameReceivers_run, ih]

/-- The closed form of the segmentation, for every run with at least one frame at
times that do not decrease, whatever queries are made in between. -/
theorem execute_segmentedBy (earlyReturn : Bool) (w h : ℤ) (L : ℚ) (hL : 0 < L)
    (calls : List Call) (hmono : (frameTimes calls).Pairwise (· ≤ ·))
    (hpos : 0 < (frameTimes calls).length) :
    SegmentedBy L (frameTimes calls) hpos (execute earlyReturn w h L calls).1
      (commands (execute earlyReturn w h L calls).2) := by
  have hcmd := (execute_refines earlyReturn w h L calls).2
  obtain ⟨xs, p, hxs⟩ : ∃ xs p, recordedFrames calls = xs ++ [p] := by
    have hne : recordedFrames calls ≠ [] := fun hnil => by simp [frameTimes, hnil] at hpos
    exact ⟨_, _, (List.dropLast_concat_getLast hne).symm⟩
  have hcut := cut_concat L xs p
  rw [← hxs] at hcut
  obtain ⟨kept, last, s⟩ := execute_stores earlyReturn w h L calls hcut
  have horigin : (record L (cut L xs) p).origin = (frameTimes calls)[0] := by
    rw [cut_origin hcut, ← frameTimes, List.headD_eq_head?_getD, List.head?_eq_getElem?,
      List.getElem?_eq_getElem hpos, Option.getD_some]
  have hcounter : ((execute earlyReturn w h L calls).1.fileCounter : ℤ) - 1 =
      (record L (cut L xs) p).done.length := by
    rw [s.counter]
    push_cast
    ring
  constructor
  · rw [hcounter, ← raised_windows L _ hpos]
    exact cut_count hL hmono hcut
  · rw [hcmd, createdFragments_run, hcut, s.counter]
    rfl
  · rw [hcmd, frameReceivers_length, frameTimes, List.length_map]
  · refine ⟨last, by rw [s.fragments, List.getLast?_concat], ?_, ?_, ?_⟩
    · rw [hcmd, hxs, frameReceivers_run, List.getLast?_concat, s.last_id, s.counter]
    · rw [s.last_tracked.start, s.last_id, horigin]
    · have hlast : (frameTimes calls).getLast (List.ne_nil_of_length_pos hpos) = p.1 := by
        simp [frameTimes, hxs]
      rw [hlast, s.last_start]
      rw [frameTimes, hxs] at hmono
      rw [hxs] at hcut
      exact currentStart_le hL hmono hcut
  · have hlen := congrArg List.length s.fragments
    rw [List.length_append, List.length_singleton] at hlen
    rw [hlen, s.fragments, s.ids, s.counter]
    congr 1
    omega
  · intro f hf
    rw [s.fragments] at hf
    rw [(s.tracked f hf).start, horigin]
  · refine s.steps.imp ?_
    intro f g hfg
    exact ⟨by rw [hfg]; linarith, hfg⟩

/-- A run with a stall: the second fragment is opened at 40 s and starts at 15 s. -/
theorem stalled_run_segmentedBy :
    SegmentedBy 15 (frameTimes [.addFrame 0 (.pixel 1), .addFrame 40 (.pixel 2), .getFrame 20])
      (by decide)
      (execute false 1280 720 15
        [.addFrame 0 (.pixel 1), .addFrame 40 (.pixel 2), .getFrame 20]).1
      (commands (execute false 1280 720 15
        [.addFrame 0 (.pixel 1), .addFrame 40 (.pixel 2), .getFrame 20]).2) :=
  execute_segmentedBy false 1280 720 15 (by norm_num) _ (by decide +kernel) (by decide)

/-! ### Frames and windows -/

/-- The fragment that receives a frame added at time `t` covers `t`. -/
def FiledInWindow (b : VideoBuffer) (t : ℚ) (x : RgbdFrame) : Prop :=
  ∃ f ∈ (b.addFrame t x).1.fragments,
    Event.command f.id .rgb (.addFrame x.colorImage) ∈ (b.addFrame t x).2 ∧
      f.startTimestamp ≤ t ∧ t < f.startTimestamp + b.fragmentLength

instance (b : VideoBuffer) (t : ℚ) (x : RgbdFrame) : Decidable (FiledInWindow b t x) :=
  inferInstanceAs (Decidable (∃ f ∈ _, _))

theorem Refines.filedInWindow_iff {b : VideoBuffer} {R : Option (Recording RgbdFrame)}
    (hb : Refines w h L b R) (t : ℚ) (x : RgbdFrame) :
    FiledInWindow b t x ↔ Holds L (record L R (t, x)) t := by
  have hlen : b.fragmentLength = L := by
    cases R with
    | none => rw [show b = .new w h L from hb]; rfl
    | some R =>
      obtain ⟨kept, last, s⟩ := hb
      exact s.fragmentLength
  obtain ⟨⟨kept, last, s⟩, hcmd⟩ := hb.addFrame t x
  rw [FiledInWindow, hlen, Holds, ← s.last_start]
  constructor
  · rintro ⟨f, hf, hsent, hwindow⟩
    rw [← mem_commands, hcmd, addFrame_mem_orders w h L R (t, x), ← s.counter, ← s.last_id] at hsent
    rw [s.fragments] at hf
    rw [(s.tracked f hf).start, hsent, ← s.last_tracked.start] at hwindow
    exact hwindow
  · intro hwindow
    refine ⟨last, by simp [s.fragments], ?_, hwindow⟩
    rw [← mem_commands, hcmd, addFrame_mem_orders w h L R (t, x), ← s.counter, s.last_id]

/-- Every frame of the run was filed in a fragment that covers it. -/
def FiledThroughout (earlyReturn : Bool) (w h : ℤ) (L : ℚ) (calls : List Call) : Prop :=
  ∀ pre t x post, calls = pre ++ .addFrame t x :: post →
    FiledInWindow (execute earlyReturn w h L pre).1 t x

theorem filedThroughout_concat (calls : List Call) (c : Call) :
    FiledThroughout earlyReturn w h L (calls ++ [c]) ↔
      FiledThroughout earlyReturn w h L calls ∧
        ∀ t x, c = .addFrame t x → FiledInWindow (execute earlyReturn w h L calls).1 t x := by
  have hguard (cs : List Call) : FiledThroughout earlyReturn w h L cs ↔
      Guarded (fun pre c => ∀ t x, c = .addFrame t x →
        FiledInWindow (execute earlyReturn w h L pre).1 t x) cs := by
    constructor
    · rintro hcs pre c post hsplit t x rfl
      exact hcs pre t x post hsplit
    · intro hcs pre t x post hsplit
      exact hcs pre _ post hsplit t x rfl
  rw [hguard, hguard, Guarded.concat_iff]

theorem filedThroughout_getFrame (calls : List Call) (timestamp : ℚ) :
    FiledThroughout earlyReturn w h L (calls ++ [.getFrame timestamp]) ↔
      FiledThroughout earlyReturn w h L calls := by
  rw [filedThroughout_concat]
  simp

theorem filedThroughout_addFrame (calls : List Call) (t : ℚ) (x : RgbdFrame) :
    FiledThroughout earlyReturn w h L (calls ++ [.addFrame t x]) ↔
      FiledThroughout earlyReturn w h L calls ∧
        Holds L (record L (cut L (recordedFrames calls)) (t, x)) t := by
  rw [filedThroughout_concat, ← (execute_refines earlyReturn w h L calls).1.filedInWindow_iff]
  constructor
  · rintro ⟨hcalls, hlast⟩
    exact ⟨hcalls, hlast t x rfl⟩
  · rintro ⟨hcalls, hfiled⟩
    refine ⟨hcalls, ?_⟩
    rintro t' x' heq
    cases heq
    exact hfiled

/-- Frames are filed in their windows throughout exactly when no window is skipped:
consecutive frames fall into the same or into adjacent windows. -/
theorem filedThroughout_iff (earlyReturn : Bool) (w h : ℤ) (L : ℚ) (hL : 0 < L)
    (calls : List Call) (hmono : (frameTimes calls).Pairwise (· ≤ ·)) :
    FiledThroughout earlyReturn w h L calls ↔ NoSkippedWindow L (frameTimes calls) := by
  induction calls using List.reverseRecOn with
  | nil => simp [FiledThroughout, NoSkippedWindow, frameTimes, recordedFrames, windows]
  | append_singleton calls c ih =>
    cases c with
    | getFrame ts =>
      have hsame : frameTimes (calls ++ [.getFrame ts]) = frameTimes calls := by
        simp [frameTimes, recordedFrames, Call.recorded?]
      rw [hsame] at hmono ⊢
      rw [filedThroughout_getFrame, ih hmono]
    | addFrame t x =>
      have hframes : recordedFrames (calls ++ [.addFrame t x]) =
          recordedFrames calls ++ [(t, x)] := by
        simp [recordedFrames, Call.recorded?]
      rw [frameTimes, hframes] at hmono ⊢
      have hxs : (frameTimes calls).Pairwise (· ≤ ·) := by
        rw [List.map_append, List.pairwise_append] at hmono
        exact hmono.1
      rw [filedThroughout_addFrame, ih hxs, frameTimes, noSkippedWindow_step hL hmono]

/-- Frames every ten seconds never skip a window of fifteen. -/
theorem steady_frames_filed :
    FiledThroughout false 1280 720 15
      [.addFrame 0 (.pixel 1), .getFrame 5, .addFrame 10 (.pixel 2), .addFrame 20 (.pixel 3)] :=
  (filedThroughout_iff false 1280 720 15 (by norm_num) _ (by decide +kernel)).mpr
    (by decide +kernel)

/-- A camera that stalls for 40 s while fragments are 15 s long: the next frame goes
to the fragment of 15 s to 30 s. -/
theorem stalled_frame_not_filed :
    (frameTimes [.addFrame 0 (.pixel 1), .addFrame 40 (.pixel 2)]).Pairwise (· ≤ ·) ∧
      ¬ FiledThroughout true 1280 720 15 [.addFrame 0 (.pixel 1), .addFrame 40 (.pixel 2)] := by
  refine ⟨by decide +kernel, ?_⟩
  intro hfiled
  have hsecond := hfiled [.addFrame 0 (.pixel 1)] 40 (.pixel 2) [] rfl
  revert hsecond
  decide +kernel

end TimeRoom.Takes
