import TimeRoom.Buffer.FileNames
import TimeRoom.Takes.Retrieval
import TimeRoom.Takes.Tags

/-!
# Files written and files opened

The writer sets up one recorder per fragment, for the colour file; the reader
opens a depth file as well.  So a colour file is always complete when it is
opened, a depth file never exists, and a run opens only files it wrote exactly
when no query of it loads a fragment.
-/

namespace TimeRoom.Takes
open TimeRoom.Frame Buffer Runs VideoBuffer Recording

/-- During the events `pre`, the file was set up as the output of one of the fragment's
recorders, which received a frame and was closed. -/
def Written (pre : List Event) (i : ℕ) (path : String) : Prop :=
  ∃ ch w h fps pixels, .setup path w h fps ∈ recorderLog i ch pre ∧
    .addFrame pixels ∈ recorderLog i ch pre ∧ .close ∈ recorderLog i ch pre

/-- Every file that a player opens was written before. -/
def OpensWritten (tr : List Event) : Prop :=
  Guarded (fun pre e => ∀ i ch path, e = .load i ch path → Written pre i path) tr

/-- A query at this time loads the first fragment: there is a second one, the first is on
disk, and the time is not in its window. -/
def WillLoad (b : VideoBuffer) (timestamp : ℚ) : Prop :=
  ∃ f ∈ b.fragments[0]?, ∃ g ∈ b.fragments[1]?, f.state = .onDisk ∧
    (timestamp < f.startTimestamp ∨ g.startTimestamp ≤ timestamp)

variable {w h : ℤ} {L : ℚ} {R : Recording RgbdFrame} {b : VideoBuffer}
  {kept : List VideoFragment} {last : VideoFragment}

theorem load_notMem_discard {dropped : List VideoFragment} (i : ℕ) (ch : Channel)
    (path : String) : .load i ch path ∉ dropped.flatMap VideoBuffer.discard := by
  intro hmem
  rcases mem_discard hmem with ⟨f, -, he | he | he⟩ <;> cases he

theorem load_mem_prepare {f : VideoFragment} {i : ℕ} {ch : Channel} {path : String}
    (hmem : .load i ch path ∈ f.prepare.2) : f.state = .onDisk := by
  by_contra hdisk
  simp [VideoFragment.prepare, hdisk] at hmem

theorem depth_mem_prepare {f : VideoFragment} (hdisk : f.state = .onDisk) :
    .load f.id .depth (f.filename ++ "_depth.mov") ∈ f.prepare.2 := by
  simp [VideoFragment.prepare, hdisk, VideoFragment.loadFromDisk]

namespace Stores

theorem load_mem_getFrame (s : Stores w h L R b kept last) {timestamp : ℚ} {i : ℕ}
    {ch : Channel} {path : String} (hmem : .load i ch path ∈ (b.getFrame timestamp).2.2) :
    ∃ f ∈ b.fragments, f.state = .onDisk ∧ f.id = i ∧ path = f.filename ++ ch.suffix := by
  rcases s.mem_getFrame hmem with ⟨_, _, _, he | he⟩ | ⟨f, hf, hdisk, he | he | he⟩ | ⟨_, _, he⟩
  · cases he
  · cases he
  · cases he
  · cases he
    exact ⟨f, hf, hdisk, rfl, rfl⟩
  · cases he
    exact ⟨f, hf, hdisk, rfl, rfl⟩
  · cases he

theorem willLoad_of_mem (s : Stores w h L R b kept last) {timestamp : ℚ} {i : ℕ}
    {ch : Channel} {path : String} (hmem : .load i ch path ∈ (b.getFrame timestamp).2.2) :
    WillLoad b timestamp := by
  obtain ⟨f, rest, hb, hways⟩ := s.getFrame_ways timestamp
  have hsecond (hdisk : f.state = .onDisk)
      (hzone : ∀ g ∈ rest.head?, timestamp < f.startTimestamp ∨ g.startTimestamp ≤ timestamp) :
      WillLoad b timestamp := by
    obtain ⟨g, rest', rfl⟩ := List.exists_cons_of_ne_nil (s.not_alone hb hdisk)
    exact ⟨f, by simp [hb], g, by simp [hb], hdisk, hzone g rfl⟩
  rcases hways with ⟨hts, hstep⟩ | ⟨-, hnext, hstep⟩ | ⟨-, -, hstep⟩
  · rw [hstep] at hmem
    exact hsecond (load_mem_prepare hmem) (fun _ _ => Or.inl hts)
  · rw [hstep, List.mem_append] at hmem
    rcases hmem with hmem | hmem
    · exact hsecond (load_mem_prepare hmem) (fun g hg => Or.inr (hnext g hg))
    · simp [VideoFragment.getFrame] at hmem
  · rw [hstep] at hmem
    exact absurd hmem (load_notMem_discard i ch path)

theorem depth_mem_of_willLoad (s : Stores w h L R b kept last) {timestamp : ℚ}
    (hload : WillLoad b timestamp) : ∃ f ∈ b.fragments,
      .load f.id .depth (f.filename ++ "_depth.mov") ∈ (b.getFrame timestamp).2.2 := by
  obtain ⟨f, hf, g, hg, hdisk, hzone⟩ := hload
  obtain ⟨f', rest, hb, hways⟩ := s.getFrame_ways timestamp
  obtain rfl : f' = f := by simpa [hb] using hf
  refine ⟨f', by simp [hb], ?_⟩
  rcases hways with ⟨-, hstep⟩ | ⟨-, -, hstep⟩ | ⟨hfrom, ⟨g', hg', hgap⟩, -⟩
  · rw [hstep]
    exact depth_mem_prepare hdisk
  · rw [hstep]
    exact List.mem_append_left _ (depth_mem_prepare hdisk)
  · obtain rfl : g' = g := by
      rw [hb, List.getElem?_cons_succ, ← List.head?_eq_getElem?, hg'] at hg
      exact Option.some_inj.mp hg
    rcases hzone with hts | hts
    · exact absurd hfrom hts.not_ge
    · exact absurd hgap hts.not_gt

end Stores

theorem setup_mem_log {i : ℕ} {path : String} {w' h' : ℤ} {fps : ℕ}
    (hmem : .setup path w' h' fps ∈ log w h R i) : path = fragmentFileName i ++ "_rgb.mov" := by
  cases i with
  | zero => simp [log] at hmem
  | succ j =>
    rcases lt_trichotomy j R.done.length with hj | rfl | hj
    · simp only [log_done w h R hj, takeLog, List.cons_append, List.mem_cons, reduceCtorEq,
        List.mem_append, List.mem_map, List.not_mem_nil, or_false, and_false,
        exists_false, Command.setup.injEq] at hmem
      exact hmem.1
    · simp only [log_current, takeLog, List.mem_cons, reduceCtorEq, List.mem_map,
        and_false, exists_false, or_false, Command.setup.injEq] at hmem
      exact hmem.1
    · simp [log_future w h R hj] at hmem

/-- A query sends no command, so the logs in the middle of it are those before it. -/
theorem Stores.recorderLog_during (s : Stores w h L R b kept last) {tr pre post : List Event}
    {e : Event} {timestamp : ℚ} (hsplit : (b.getFrame timestamp).2.2 = pre ++ e :: post) (i : ℕ)
    (ch : Channel) : recorderLog i ch (tr ++ pre) = recorderLog i ch tr := by
  obtain ⟨_, _, -, -, hsilent⟩ := s.getFrame timestamp
  rw [hsplit, commands_append, List.append_eq_nil_iff] at hsilent
  rw [recorderLog_append, recorderLog, recorderLog, hsilent.1, received_nil, List.append_nil]

theorem Refines.addFrame_loads {R : Option (Recording RgbdFrame)} (hb : Refines w h L b R) (t : ℚ)
    (x : RgbdFrame) {P : List Event → Event → Prop}
    (hP : ∀ pre e, (∀ i ch path, e ≠ .load i ch path) → P pre e) :
    Guarded P (b.addFrame t x).2 := by
  apply hb.addFrame_guarded
  · intro pre i ch c
    exact hP pre _ (fun _ _ _ he => by cases he)
  · intro pre i
    exact hP pre _ (fun _ _ _ he => by cases he)

/-- A colour file is complete whenever it is opened. -/
theorem execute_colour_written (w h : ℤ) (L : ℚ) (calls : List Call) :
    Guarded (fun pre e => ∀ i path, e = .load i .rgb path → Written pre i path)
      (execute false w h L calls).2 := by
  rw [execute_guarded_iff false w h L calls (fun pre t x =>
    (execute_refines false w h L pre).1.addFrame_loads t x
      (fun _ e he i path h => absurd h (he i .rgb path)))]
  intro pre timestamp post _
  apply (execute_refines false w h L pre).1.query_guarded
  rintro R kept last hcut s x e y hsplit i path rfl
  have hlog : recorderLog i .rgb ((execute false w h L pre).2 ++ x) = log w h R i := by
    rw [s.recorderLog_during hsplit, execute_log false w h L pre hcut]
  have hmem : .load i .rgb path ∈ ((execute false w h L pre).1.getFrame timestamp).2.2 := by
    rw [hsplit]
    simp
  obtain ⟨f, hf, hdisk, rfl, rfl⟩ := s.load_mem_getFrame hmem
  obtain ⟨j, hj, hid⟩ := s.kept_id (s.mem_kept hf (by simp [hdisk]))
  have hname : f.filename = fragmentFileName f.id := by
    rw [s.fragments] at hf
    exact (s.tracked f hf).filename
  rw [hid, log_done w h R hj] at hlog
  refine ⟨.rgb, w, h, 15, R.done[j].first.colorImage, ?_⟩
  rw [hid, hlog, hname, hid]
  simp [takeLog, Take.frames, Channel.suffix]

theorem Stores.depth_not_written (s : Stores w h L R b kept last) {tr : List Event}
    (hrgb : ∀ i, recorderLog i .rgb tr = log w h R i) (hdepth : ∀ i, recorderLog i .depth tr = [])
    {f : VideoFragment} (hf : f ∈ b.fragments) :
    ¬ Written tr f.id (f.filename ++ "_depth.mov") := by
  rintro ⟨ch, w', h', fps, pixels, hsetup, -⟩
  cases ch with
  | depth =>
    rw [hdepth] at hsetup
    cases hsetup
  | rgb =>
    rw [s.fragments] at hf
    rw [hrgb] at hsetup
    have hpath := setup_mem_log hsetup
    rw [(s.tracked f hf).filename, String.append_right_inj] at hpath
    revert hpath
    decide

/-- One query, at any time of a run: it opens only files that were written exactly when it loads
nothing.  By `execute_colour_written` it is the depth file that is missing. -/
theorem execute_opensWritten_iff (w h : ℤ) (L : ℚ) (pre : List Call) (timestamp : ℚ) :
    Guarded (fun x e => ∀ i ch path, e = .load i ch path →
        Written ((execute false w h L pre).2 ++ x) i path)
        ((execute false w h L pre).1.getFrame timestamp).2.2 ↔
      ¬ WillLoad (execute false w h L pre).1 timestamp := by
  constructor
  · intro hguard hload
    rcases execute_cases false w h L pre with ⟨-, hnew⟩ | ⟨R, kept, last, hcut, s⟩
    · rw [hnew] at hload
      obtain ⟨f, hf, -⟩ := hload
      cases hf
    · obtain ⟨f, hf, hmem⟩ := s.depth_mem_of_willLoad hload
      obtain ⟨x, y, hevents⟩ := List.append_of_mem hmem
      have hwritten := hguard x _ y hevents f.id .depth _ rfl
      refine s.depth_not_written ?_ ?_ hf hwritten
      · intro i
        rw [s.recorderLog_during hevents, execute_log false w h L pre hcut]
      · intro i
        rw [s.recorderLog_during hevents, execute_depth_log]
  · intro hno
    apply (execute_refines false w h L pre).1.query_guarded false
    intro R kept last _ s
    apply Guarded.of_forall
    rintro e he x i ch path rfl
    exact absurd (s.willLoad_of_mem he) hno

/-- A run opens only files that it wrote exactly when none of its queries loads. -/
theorem opensWritten_iff (w h : ℤ) (L : ℚ) (calls : List Call) :
    OpensWritten (execute false w h L calls).2 ↔
      ∀ pre timestamp post, calls = pre ++ .getFrame timestamp :: post →
        ¬ WillLoad (execute false w h L pre).1 timestamp := by
  rw [OpensWritten, execute_guarded_iff false w h L calls (fun pre t x =>
    (execute_refines false w h L pre).1.addFrame_loads t x
      (fun _ e he i ch path h => absurd h (he i ch path)))]
  refine forall₃_congr ?_
  intro pre timestamp post
  exact imp_congr_right (fun _ => execute_opensWritten_iff w h L pre timestamp)

/-- The query for the present, with two fragments stored, opens a depth file that nobody
wrote. -/
theorem depth_file_missing :
    (recordedFrames [.addFrame 0 (.pixel 1), .addFrame 20 (.pixel 2), .getFrame 20]).map Prod.fst =
        [0, 20] ∧
      ¬ OpensWritten (execute false 1280 720 15
        [.addFrame 0 (.pixel 1), .addFrame 20 (.pixel 2), .getFrame 20]).2 := by
  refine ⟨by decide +kernel, ?_⟩
  intro hopens
  obtain ⟨ch, w', h', fps, pixels, hsetup, -⟩ := hopens
    ((execute false 1280 720 15
      [.addFrame 0 (.pixel 1), .addFrame 20 (.pixel 2), .getFrame 20]).2.take 10)
    (.load 1 .depth "fragments/00001_depth.mov") [.called 1 .getFrame .inMemory]
    (by decide +kernel) 1 .depth _ rfl
  cases ch with
  | rgb =>
    have hlog : recorderLog 1 .rgb ((execute false 1280 720 15
        [.addFrame 0 (.pixel 1), .addFrame 20 (.pixel 2), .getFrame 20]).2.take 10) =
          [.setup "fragments/00001_rgb.mov" 1280 720 15, .start,
            .addFrame (RgbdFrame.pixel 1).colorImage, .close] := by
      decide +kernel
    rw [hlog] at hsetup
    simp at hsetup
  | depth =>
    have hlog : recorderLog 1 .depth ((execute false 1280 720 15
        [.addFrame 0 (.pixel 1), .addFrame 20 (.pixel 2), .getFrame 20]).2.take 10) = [] := by
      decide +kernel
    rw [hlog] at hsetup
    cases hsetup

end TimeRoom.Takes
