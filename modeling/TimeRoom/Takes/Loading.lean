import TimeRoom.Takes.Retrieval

/-!
# Frames are read from loaded players

A fragment that is tagged `inMemory` was loaded at some time, and a query loads the
first fragment if it is on disk.  What is missing is the fragment still being
recorded: where it is the only one, the query for a time since its start reads
players that never opened a file.
-/

namespace TimeRoom.Takes
open TimeRoom.Frame Buffer Runs VideoBuffer Recording

/-- After the events `pre`, a read finds the fragment tagged `inMemory` and loaded before. -/
def ReadAllowed (pre : List Event) (e : Event) : Prop :=
  ∀ i st, e = .called i .getFrame st →
    st = .inMemory ∧ ∃ st', .called i .loadFromDisk st' ∈ pre

/-- Over a whole run, players are read after they are loaded, and a query that reads none
answers blank. -/
structure ReadsLoaded (w h : ℤ) (L : ℚ) (calls : List Call) : Prop where
  loaded : Guarded ReadAllowed (execute false w h L calls).2
  blank : ∀ pre timestamp post, calls = pre ++ .getFrame timestamp :: post →
    (∀ i st, .called i .getFrame st ∉
      ((execute false w h L pre).1.getFrame timestamp).2.2) →
    ((execute false w h L pre).1.getFrame timestamp).1 = .blank w h

/-- A query at this time reads the only fragment, which is still being recorded. -/
def ReadsOnly (b : VideoBuffer) (timestamp : ℚ) : Prop :=
  ∃ f, b.fragments = [f] ∧ f.startTimestamp ≤ timestamp

theorem readsOnly_iff {b : VideoBuffer} {timestamp : ℚ} {f : VideoFragment}
    {rest : List VideoFragment} (hb : b.fragments = f :: rest) :
    ReadsOnly b timestamp ↔ rest = [] ∧ f.startTimestamp ≤ timestamp := by
  constructor
  · rintro ⟨k, hk, hstart⟩
    obtain ⟨rfl, rfl⟩ := List.cons.inj (hb.symm.trans hk)
    exact ⟨rfl, hstart⟩
  · rintro ⟨rfl, hstart⟩
    exact ⟨f, hb, hstart⟩

/-! ### The tag `inMemory` -/

/-- Whatever is tagged `inMemory` was loaded during the events `tr`, and has its files open. -/
def LoadedTag (b : VideoBuffer) (tr : List Event) : Prop :=
  ∀ f ∈ b.fragments, f.state = .inMemory →
    f.openFiles = f.ownFiles ∧ ∃ st, .called f.id .loadFromDisk st ∈ tr

namespace LoadedTag
variable {b : VideoBuffer} {tr : List Event}

theorem append (hb : LoadedTag b tr) (tr' : List Event) {f : VideoFragment} (hf : f ∈ b.fragments)
    (hstate : f.state = .inMemory) :
    f.openFiles = f.ownFiles ∧ ∃ st, .called f.id .loadFromDisk st ∈ tr ++ tr' := by
  rcases hb f hf hstate with ⟨hfiles, st, hmem⟩
  exact ⟨hfiles, st, List.mem_append_left _ hmem⟩

theorem addFrame (hb : LoadedTag b tr) (t : ℚ) (x : RgbdFrame) :
    LoadedTag (b.addFrame t x).1 (tr ++ (b.addFrame t x).2) := by
  intro f hf hstate
  rcases List.eq_nil_or_concat b.fragments with hnil | ⟨kept, last, hfr⟩
  · rw [VideoBuffer.addFrame_nil b hnil, List.mem_singleton] at hf
    subst hf
    cases hstate
  · rw [List.concat_eq_append] at hfr
    by_cases ht : t - last.startTimestamp ≥ b.fragmentLength
    · rw [VideoBuffer.addFrame_next hfr ht] at hf ⊢
      simp only [List.mem_append, List.mem_cons, List.not_mem_nil, or_false] at hf
      rcases hf with hf | rfl | rfl
      · exact hb.append _ (by simp [hfr, hf]) hstate
      · cases hstate
      · cases hstate
    · rw [VideoBuffer.addFrame_same hfr ht] at hf ⊢
      rw [List.mem_append, List.mem_singleton] at hf
      rcases hf with hf | rfl
      · exact hb.append _ (by simp [hfr, hf]) hstate
      · have hlast : (last.addFrame x).1 = last := by
          by_cases hprep : last.state = .preparedForRecording
          · simp [VideoFragment.addFrame, hprep] at hstate
          · simp [VideoFragment.addFrame, hprep]
        rw [hlast] at hstate ⊢
        exact hb.append _ (by simp [hfr]) hstate

theorem getFrame (hb : LoadedTag b tr) (timestamp : ℚ) :
    LoadedTag (b.getFrame timestamp).2.1 (tr ++ (b.getFrame timestamp).2.2) := by
  intro f hf hstate
  by_cases hnil : b.fragments = []
  · simp [VideoBuffer.getFrame, hnil] at hf
  · obtain ⟨dropped, g, others, g', tr', hfr, hserves, hstep⟩ := getFrame_cases b hnil timestamp
    rw [hstep] at hf ⊢
    rcases List.mem_cons.mp hf with rfl | hf
    · have hcreated := hserves.created
      simp only [VideoFragment.created, Prod.mk.injEq] at hcreated
      have hid : f.id = g.id := hcreated.1
      have hown : f.ownFiles = g.ownFiles := by
        rw [VideoFragment.ownFiles, VideoFragment.ownFiles, hcreated.2.2.1]
      rw [hid]
      rcases hserves.inMemory hstate with ⟨hg, hopen⟩ | ⟨hload, hopen⟩
      · rw [hopen, hown]
        exact hb.append _ (by simp [hfr]) hg
      · exact ⟨hopen, g.state, by simp [hload]⟩
    · exact hb.append _ (by simp [hfr, hf]) hstate

end LoadedTag

theorem execute_loadedTag (earlyReturn : Bool) (w h : ℤ) (L : ℚ) (calls : List Call) :
    LoadedTag (execute earlyReturn w h L calls).1 (execute earlyReturn w h L calls).2 := by
  apply Machine.run_invariant (I := LoadedTag)
  · intro f hf
    cases hf
  · intro b tr c hb
    cases c with
    | addFrame t x => exact hb.addFrame t x
    | getFrame timestamp =>
      cases earlyReturn with
      | true => exact fun f hf => hb.append [] hf
      | false => exact hb.getFrame timestamp

/-- A fragment that was never saved has no file open. -/
def UnsavedTag (b : VideoBuffer) : Prop :=
  ∀ f ∈ b.fragments, f.state ≠ .onDisk ∧ f.state ≠ .inMemory → f.openFiles = (none, none)

namespace UnsavedTag
variable {b : VideoBuffer}

theorem addFrame (hb : UnsavedTag b) (t : ℚ) (x : RgbdFrame) : UnsavedTag (b.addFrame t x).1 := by
  intro f hf hstate
  rcases List.eq_nil_or_concat b.fragments with hnil | ⟨kept, last, hfr⟩
  · rw [VideoBuffer.addFrame_nil b hnil, List.mem_singleton] at hf
    rw [hf]
    rfl
  · rw [List.concat_eq_append] at hfr
    by_cases ht : t - last.startTimestamp ≥ b.fragmentLength
    · rw [VideoBuffer.addFrame_next hfr ht] at hf
      simp only [List.mem_append, List.mem_cons, List.not_mem_nil, or_false] at hf
      rcases hf with hf | rfl | rfl
      · exact hb f (by simp [hfr, hf]) hstate
      · exact absurd rfl hstate.1
      · rfl
    · rw [VideoBuffer.addFrame_same hfr ht, List.mem_append, List.mem_singleton] at hf
      rcases hf with hf | rfl
      · exact hb f (by simp [hfr, hf]) hstate
      · by_cases hprep : last.state = .preparedForRecording
        · have hlast := hb last (by simp [hfr]) (by simp [hprep])
          simpa [VideoFragment.addFrame, hprep, VideoFragment.openFiles] using hlast
        · have hsame : (last.addFrame x).1 = last := by simp [VideoFragment.addFrame, hprep]
          rw [hsame] at hstate ⊢
          exact hb last (by simp [hfr]) hstate

theorem getFrame (hb : UnsavedTag b) (timestamp : ℚ) :
    UnsavedTag (b.getFrame timestamp).2.1 := by
  intro f hf hstate
  by_cases hnil : b.fragments = []
  · simp [VideoBuffer.getFrame, hnil] at hf
  · obtain ⟨dropped, g, others, g', tr', hfr, hserves, hstep⟩ := getFrame_cases b hnil timestamp
    rw [hstep] at hf
    rcases List.mem_cons.mp hf with rfl | hf
    · obtain ⟨hsame, hopen⟩ := hserves.unsaved hstate
      rw [← hsame] at hstate
      rw [hopen]
      exact hb g (by simp [hfr]) hstate
    · exact hb f (by simp [hfr, hf]) hstate

end UnsavedTag

theorem execute_unsavedTag (earlyReturn : Bool) (w h : ℤ) (L : ℚ) (calls : List Call) :
    UnsavedTag (execute earlyReturn w h L calls).1 := by
  apply Machine.run_invariant (I := fun b _ => UnsavedTag b)
  · intro f hf
    cases hf
  · intro b tr c hb
    cases c with
    | addFrame t x => exact hb.addFrame t x
    | getFrame timestamp =>
      cases earlyReturn with
      | true => exact hb
      | false => exact hb.getFrame timestamp

/-! ### Queries -/

section Queries
variable {w h : ℤ} {L : ℚ} {R : Recording RgbdFrame} {b : VideoBuffer}
  {kept : List VideoFragment} {last : VideoFragment} {tr : List Event}

theorem ReadAllowed.guarded {es : List Event} (hnone : ∀ i st, .called i .getFrame st ∉ es) :
    Guarded (fun x => ReadAllowed (tr ++ x)) es := by
  apply Guarded.of_forall
  rintro e he x i st rfl
  exact absurd he (hnone i st)

theorem blank_of_not_read {timestamp : ℚ}
    (hnone : ∀ i st, .called i .getFrame st ∉ (b.getFrame timestamp).2.2) :
    (b.getFrame timestamp).1 = .blank b.videoWidth b.videoHeight := by
  apply getFrame_blank
  intro hreads
  have hfirst := hreads
  rcases hfirst with ⟨f, rest, hb, -⟩
  rw [getFrame_first hb hreads] at hnone
  exact hnone f.id f.prepare.1.state (by simp [VideoFragment.getFrame])

theorem read_notMem_prepare {f : VideoFragment} (i : ℕ) (st : FragmentState) :
    .called i .getFrame st ∉ f.prepare.2 := by
  rw [VideoFragment.prepare]
  split <;> simp [VideoFragment.loadFromDisk]

theorem read_notMem_discard {dropped : List VideoFragment} (i : ℕ) (st : FragmentState) :
    .called i .getFrame st ∉ dropped.flatMap VideoBuffer.discard := by
  intro hmem
  rcases mem_discard hmem with ⟨f, -, he | he | he⟩ <;> cases he

theorem Sealed.prepare {f : VideoFragment} (hf : Sealed f) (htag : f.state = .inMemory →
      ∃ st, .called f.id .loadFromDisk st ∈ tr) :
    f.prepare.1.state = .inMemory ∧
      ∃ st, .called f.prepare.1.id .loadFromDisk st ∈ tr ++ f.prepare.2 := by
  rcases hf with hdisk | hmemory
  · rw [VideoFragment.prepare, if_pos hdisk]
    exact ⟨rfl, .onDisk, by simp [VideoFragment.loadFromDisk, hdisk]⟩
  · have hprep : f.prepare = (f, []) := by simp [VideoFragment.prepare, hmemory]
    rw [hprep, List.append_nil]
    exact ⟨hmemory, htag hmemory⟩

namespace Stores

/-- A query reads a loaded player unless it reads the only fragment. -/
theorem readAllowed_iff (s : Stores w h L R b kept last) (htag : LoadedTag b tr) (timestamp : ℚ) :
    Guarded (fun x => ReadAllowed (tr ++ x)) (b.getFrame timestamp).2.2 ↔
      ¬ ReadsOnly b timestamp := by
  obtain ⟨f, rest, hb, hways⟩ := s.getFrame_ways timestamp
  rw [readsOnly_iff hb]
  rcases hways with ⟨hts, hstep⟩ | ⟨hfrom, -, hstep⟩ | ⟨-, ⟨g, hg, -⟩, hstep⟩
  · rw [hstep]
    apply iff_of_true
    · exact ReadAllowed.guarded read_notMem_prepare
    · exact fun honly => honly.2.not_gt hts
  · rw [hstep]
    simp only [VideoFragment.getFrame, VideoFragment.prepare_id]
    rw [Guarded.concat_iff]
    cases rest with
    | nil =>
      have hrunning := s.only_running hb
      have hprep : f.prepare = (f, []) := by simp [VideoFragment.prepare, hrunning]
      apply iff_of_false
      · rintro ⟨-, hread⟩
        have hstate := (hread f.id f.prepare.1.state rfl).1
        rw [hprep, hrunning] at hstate
        cases hstate
      · exact fun hnot => hnot ⟨rfl, hfrom⟩
    | cons g rest =>
      have hprepared := (s.first_sealed hb).prepare
        (fun hmemory => (htag f (by simp [hb]) hmemory).2)
      rw [VideoFragment.prepare_id] at hprepared
      apply iff_of_true
      · refine ⟨ReadAllowed.guarded read_notMem_prepare, ?_⟩
        intro i st heq
        cases heq
        exact hprepared
      · simp
  · rw [hstep]
    apply iff_of_true
    · exact ReadAllowed.guarded read_notMem_discard
    · rintro ⟨rfl, -⟩
      cases hg

end Stores

end Queries

/-- One query, at any time of a run: it reads loaded players only exactly when it does not read
the fragment that is the only one. -/
theorem execute_readAllowed_iff (w h : ℤ) (L : ℚ) (calls : List Call) (timestamp : ℚ) :
    Guarded (fun x => ReadAllowed ((execute false w h L calls).2 ++ x))
        ((execute false w h L calls).1.getFrame timestamp).2.2 ↔
      ¬ ReadsOnly (execute false w h L calls).1 timestamp := by
  have htag := execute_loadedTag false w h L calls
  rcases execute_cases false w h L calls with ⟨-, hnew⟩ | ⟨R, kept, last, -, s⟩
  · rw [hnew]
    apply iff_of_true
    · exact Guarded.nil _
    · rintro ⟨f, hf, -⟩
      cases hf
  · exact s.readAllowed_iff htag timestamp

/-- A run reads loaded players only exactly when none of its queries reads the fragment that
is the only one. -/
theorem readsLoaded_iff (w h : ℤ) (L : ℚ) (calls : List Call) :
    ReadsLoaded w h L calls ↔
      ∀ pre timestamp post, calls = pre ++ .getFrame timestamp :: post →
        ¬ ReadsOnly (execute false w h L pre).1 timestamp := by
  have hadd (pre : List Call) (t : ℚ) (x : RgbdFrame) :
      Guarded (fun y => ReadAllowed ((execute false w h L pre).2 ++ y))
        ((execute false w h L pre).1.addFrame t x).2 := by
    apply (execute_refines false w h L pre).1.addFrame_guarded
    · intro y i ch c j st he
      cases he
    · intro y i j st he
      cases he
  have hqueries : Guarded ReadAllowed (execute false w h L calls).2 ↔
      ∀ pre timestamp post, calls = pre ++ .getFrame timestamp :: post →
        ¬ ReadsOnly (execute false w h L pre).1 timestamp := by
    rw [execute_guarded_iff false w h L calls hadd]
    refine forall₃_congr ?_
    intro pre timestamp post
    exact imp_congr_right (fun _ => execute_readAllowed_iff w h L pre timestamp)
  constructor
  · intro hreads
    exact hqueries.mp hreads.loaded
  · intro hnone
    constructor
    · exact hqueries.mpr hnone
    · intro pre timestamp post _ hread
      obtain ⟨hwidth, hheight⟩ := execute_size false w h L pre
      rw [blank_of_not_read hread, hwidth, hheight]

/-- The first frame is being recorded, and the query for the present reads its players. -/
theorem present_not_loaded :
    (recordedFrames [.addFrame 0 (.pixel 1), .getFrame 0]).map Prod.fst = [0] ∧
      ¬ ReadsLoaded 1280 720 15 [.addFrame 0 (.pixel 1), .getFrame 0] := by
  refine ⟨by decide +kernel, ?_⟩
  intro hreads
  have hevents : (execute false 1280 720 15 [.addFrame 0 (.pixel 1), .getFrame 0]).2 =
      (execute false 1280 720 15 [.addFrame 0 (.pixel 1)]).2 ++
        .called 1 .getFrame .recording :: [] := by
    decide +kernel
  have hread := hreads.loaded _ _ _ hevents 1 .recording rfl
  cases hread.1

end TimeRoom.Takes
