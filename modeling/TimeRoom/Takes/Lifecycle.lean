import TimeRoom.Buffer.Destruction
import TimeRoom.Takes.Refinement

/-!
# Fragments from creation to destruction

Every stored fragment but the last is closed, and the destructor closes the
last one.  So it ends, and afterwards the recorders' logs, read in creation
order, are exactly the frames the buffer was given.
-/

namespace TimeRoom.Takes
open TimeRoom.Frame Buffer Runs VideoBuffer Recording

variable {w h : ℤ} {L : ℚ} {R : Recording RgbdFrame} {b : VideoBuffer}
  {kept : List VideoFragment} {last : VideoFragment}

theorem start_mem_takeLog (i : ℕ) (frames : List RgbdFrame) : .start ∈ takeLog w h i frames := by
  simp [takeLog]

theorem close_notMem_takeLog (i : ℕ) (frames : List RgbdFrame) :
    .close ∉ takeLog w h i frames := by
  simp [takeLog]

namespace Stores

theorem kept_id (s : Stores w h L R b kept last) {f : VideoFragment} (hf : f ∈ kept) :
    ∃ j, j < R.done.length ∧ f.id = j + 1 := by
  have hstored := s.stored
  have hids : kept.map (·.id) = List.range' (R.done.length + 1 - kept.length) kept.length := by
    have hall := s.ids
    rw [List.map_append, List.map_singleton, List.range'_concat] at hall
    exact (List.append_inj' hall rfl).1
  have hmem : f.id ∈ kept.map (·.id) := List.mem_map_of_mem hf
  rw [hids, List.mem_range'_1] at hmem
  exact ⟨f.id - 1, by omega, by omega⟩

theorem ids_nodup (s : Stores w h L R b kept last) : (b.fragments.map (·.id)).Nodup := by
  rw [s.fragments, s.ids]
  exact List.nodup_range'

theorem running_only (s : Stores w h L R b kept last) :
    b.fragments.filter (·.state = .recording) = [last] := by
  have hkept : kept.filter (·.state = .recording) = [] := by
    rw [List.filter_eq_nil_iff]
    intro f hf
    simp [(s.kept_sealed f hf).not_recording]
  rw [s.fragments, List.filter_append, hkept]
  simp [s.running]

theorem mem_kept (s : Stores w h L R b kept last) {f : VideoFragment} (hf : f ∈ b.fragments)
    (hstate : f.state ≠ .recording) : f ∈ kept := by
  rw [s.fragments, List.mem_append, List.mem_singleton] at hf
  rcases hf with hf | rfl
  · exact hf
  · exact absurd s.running hstate

theorem close_mem_log (s : Stores w h L R b kept last) {f : VideoFragment} (hf : f ∈ kept) :
    .close ∈ log w h R f.id := by
  obtain ⟨j, hj, hid⟩ := s.kept_id hf
  rw [hid, log_done w h R hj]
  simp

theorem closed (s : Stores w h L R b kept last) {f : VideoFragment} (hf : f ∈ b.fragments) :
    .close ∈ log w h R f.id ++ received f.id .rgb (commands (removeAll b.fragments).2) := by
  rw [commands_removeAll, s.running_only, List.mem_append]
  by_cases hstate : f.state = .recording
  · have hlast : f ∈ b.fragments.filter (·.state = .recording) := by simp [hf, hstate]
    rw [s.running_only, List.mem_singleton] at hlast
    subst hlast
    right
    simp [received_cons]
  · left
    exact s.close_mem_log (s.mem_kept hf hstate)

end Stores

section Destruction
variable (earlyReturn : Bool) (w h : ℤ) (L : ℚ) (calls : List Call)
  (isRecording : ℕ → ℕ → Channel → Bool)

theorem fragments_stop
    (hrec : RecordersStop ((execute earlyReturn w h L calls).2 ++
      (removeAll (execute earlyReturn w h L calls).1.fragments).2) isRecording) :
    ∀ f ∈ (execute earlyReturn w h L calls).1.fragments,
      ∃ N, ∀ n ≥ N, ∀ ch, isRecording n f.id ch = false := by
  intro f hf
  rcases execute_cases earlyReturn w h L calls with ⟨-, hnew⟩ | ⟨R, kept, last, hcut, s⟩
  · rw [hnew] at hf
    cases hf
  · have hclose : .close ∈ recorderLog f.id .rgb ((execute earlyReturn w h L calls).2 ++
        (removeAll (execute earlyReturn w h L calls).1.fragments).2) := by
      rw [recorderLog_append, execute_log earlyReturn w h L calls hcut]
      exact s.closed hf
    have hdepth : recorderLog f.id .depth ((execute earlyReturn w h L calls).2 ++
        (removeAll (execute earlyReturn w h L calls).1.fragments).2) = [] := by
      rw [recorderLog_append, execute_depth_log, recorderLog, commands_removeAll, s.running_only]
      simp [received_cons]
    obtain ⟨N, hN⟩ := hrec.closed f.id .rgb hclose
    refine ⟨N, ?_⟩
    intro n hn ch
    cases ch with
    | rgb => exact hN n hn
    | depth => exact hrec.unused f.id .depth (by simp [hdepth]) n

/-- A recorder of fragment 2 that needs four polls to finish its file. -/
def slowRecorder (n i : ℕ) (ch : Channel) : Bool := i = 2 ∧ ch = .rgb ∧ n < 4

/-- Two fragments, one of them saved, and a query. -/
def twoFragments : List Call :=
  [.addFrame 0 (.pixel 1), .addFrame 10 (.pixel 2), .getFrame 5, .addFrame 20 (.pixel 3)]

theorem slowRecorder_stops :
    RecordersStop ((execute false 1280 720 15 twoFragments).2 ++
      (removeAll (execute false 1280 720 15 twoFragments).1.fragments).2) slowRecorder := by
  constructor
  · intro i ch _
    refine ⟨4, ?_⟩
    intro n hn
    simp [slowRecorder, hn]
  · intro i ch hnever n
    by_contra hread
    obtain ⟨rfl, rfl, -⟩ : i = 2 ∧ ch = .rgb ∧ n < 4 := by simpa [slowRecorder] using hread
    apply hnever "fragments/00002_rgb.mov" 1280 720 15
    decide +kernel

/-- The destructor ends in every reachable state, deletes every stored fragment once and
never one that is recording, and closes the last fragment's recorder only. -/
theorem execute_destroysOrderly
    (hrec : RecordersStop ((execute earlyReturn w h L calls).2 ++
      (removeAll (execute earlyReturn w h L calls).1.fragments).2) isRecording) :
    ∃ tr, (∃ fuel₀, ∀ fuel ≥ fuel₀,
        (execute earlyReturn w h L calls).1.destruct isRecording fuel = some tr) ∧
      DestroysOrderly isRecording (execute earlyReturn w h L calls).1 tr := by
  obtain ⟨tr, hends, hdeleted, hstopped, hcmd⟩ := destruct_total _
    (fragments_stop earlyReturn w h L calls isRecording hrec)
  refine ⟨tr, hends, hdeleted, ?_, hstopped, ?_⟩
  · rcases execute_cases earlyReturn w h L calls with ⟨-, hnew⟩ | ⟨R, kept, last, -, s⟩
    · rw [hnew]
      exact List.nodup_nil
    · exact s.ids_nodup
  · rcases execute_cases earlyReturn w h L calls with ⟨-, hnew⟩ | ⟨R, kept, last, -, s⟩
    · rw [hcmd, hnew]
      rfl
    · rw [hcmd, s.running_only, s.fragments, List.getLast?_concat]
      rfl

/-- The destructor waits for the slow recorder. -/
theorem slowRecorder_destroyed :
    ∃ tr, (∃ fuel₀, ∀ fuel ≥ fuel₀,
        (execute false 1280 720 15 twoFragments).1.destruct slowRecorder fuel = some tr) ∧
      DestroysOrderly slowRecorder (execute false 1280 720 15 twoFragments).1 tr :=
  execute_destroysOrderly false 1280 720 15 twoFragments slowRecorder slowRecorder_stops

/-! ### Nothing is lost -/

/-- The commands `ms` record the frames `xs`: every fragment is created once, its
recorder is set up, started, given at least one frame and closed, and the frames read in
creation order are `xs`.  No other recorder receives a command. -/
structure Lossless (xs : List (Image UInt8)) (ms : List (ℕ × Channel × Command)) : Prop where
  created : (createdFragments ms).Nodup
  shape : ∀ i ∈ createdFragments ms, ∃ path w h fps x xs,
    received i .rgb ms = .setup path w h fps :: .start :: (x :: xs).map .addFrame ++ [.close]
  frames : (createdFragments ms).flatMap (fun i => (received i .rgb ms).filterMap Command.frame?) =
    xs
  only : ∀ i ch c, (i, ch, c) ∈ ms → i ∈ createdFragments ms ∧ ch = .rgb

def takes (R : Recording RgbdFrame) : List (Take RgbdFrame) := R.done ++ [R.current]

theorem log_closed (R : Recording RgbdFrame) (i : ℕ) :
    log w h R (i + 1) ++ (if R.done.length = i then [.close] else []) =
      (takes R)[i]?.elim [] (fun k => takeLog w h (i + 1) k.frames ++ [.close]) := by
  rcases lt_trichotomy i R.done.length with hi | rfl | hi
  · rw [log_done w h R hi, if_neg hi.ne', takes, List.getElem?_append_left hi,
      List.getElem?_eq_getElem hi]
    simp
  · rw [log_current, takes]
    simp
  · rw [log_future w h R hi, if_neg hi.ne, takes, List.getElem?_eq_none (by simp; omega)]
    rfl

theorem takeLog_frames (i : ℕ) (frames : List RgbdFrame) :
    (takeLog w h i frames ++ [Command.close]).filterMap Command.frame? =
      frames.map (·.colorImage) := by
  have hmap : (frames.map (fun x => Command.addFrame x.colorImage)).filterMap Command.frame? =
      frames.map (·.colorImage) := by
    rw [List.filterMap_map]
    exact congrFun List.filterMap_eq_map frames
  rw [takeLog, List.cons_append, List.cons_append, List.filterMap_cons_none rfl,
    List.filterMap_cons_none rfl, List.filterMap_append, hmap, List.filterMap_cons_none rfl,
    List.filterMap_nil, List.append_nil]

theorem takeLog_closed (i : ℕ) (frames : List RgbdFrame) :
    takeLog w h i frames ++ [.close] =
      .setup (fragmentFileName i ++ "_rgb.mov") w h 15 :: .start ::
        (frames.map (·.colorImage)).map .addFrame ++ [.close] := by
  rw [takeLog, List.map_map]
  rfl

/-- The commands `ms` are those of the recording `R`, its open take closed. -/
structure LogsOf (w h : ℤ) (R : Recording RgbdFrame) (ms : List (ℕ × Channel × Command)) :
    Prop where
  created : createdFragments ms = List.range' 1 (R.done.length + 1)
  rgb : ∀ i, received i .rgb ms =
    log w h R i ++ (if R.done.length + 1 = i then [.close] else [])
  depth : ∀ i, received i .depth ms = []

namespace LogsOf

variable {w h : ℤ} {R : Recording RgbdFrame} {ms : List (ℕ × Channel × Command)}

theorem received_succ (m : LogsOf w h R ms) (i : ℕ) : received (i + 1) .rgb ms =
    (takes R)[i]?.elim [] (fun k => takeLog w h (i + 1) k.frames ++ [.close]) := by
  rw [m.rgb, ← log_closed]
  simp

theorem received_zero (m : LogsOf w h R ms) : received 0 .rgb ms = [] := by
  rw [m.rgb]
  simp [log]

theorem mem_created (m : LogsOf w h R ms) {i : ℕ} :
    i ∈ createdFragments ms ↔ ∃ j, j < (takes R).length ∧ i = j + 1 := by
  have htakes : (takes R).length = R.done.length + 1 := by simp [takes]
  rw [m.created, List.mem_range'_1, htakes]
  constructor
  · intro hi
    exact ⟨i - 1, by omega, by omega⟩
  · rintro ⟨j, hj, rfl⟩
    omega

theorem shape (m : LogsOf w h R ms) {i : ℕ} (hi : i ∈ createdFragments ms) :
    ∃ path w h fps x xs, received i .rgb ms =
      .setup path w h fps :: .start :: (x :: xs).map .addFrame ++ [.close] := by
  obtain ⟨j, hj, rfl⟩ := m.mem_created.mp hi
  refine ⟨fragmentFileName (j + 1) ++ "_rgb.mov", w, h, 15, (takes R)[j].first.colorImage,
    (takes R)[j].rest.map (·.colorImage), ?_⟩
  rw [m.received_succ, List.getElem?_eq_getElem hj]
  simp [takeLog, Take.frames]

theorem frames (m : LogsOf w h R ms) :
    (createdFragments ms).flatMap (fun i => (received i .rgb ms).filterMap Command.frame?) =
      R.frames.map (·.colorImage) := by
  have htakes : R.done.length + 1 = (takes R).length := by simp [takes]
  have hread : (List.range' 1 (takes R).length).map (fun i => (takes R)[i - 1]?) =
      (takes R).map some := by
    apply List.ext_getElem
    · simp
    · intro j hj hj'
      simp at hj'
      simp [hj']
  have htake : ∀ i ∈ createdFragments ms,
      (received i .rgb ms).filterMap Command.frame? =
        (takes R)[i - 1]?.elim [] (fun k => k.frames.map (·.colorImage)) := by
    intro i hi
    obtain ⟨j, -, rfl⟩ := m.mem_created.mp hi
    rw [m.received_succ, Nat.add_sub_cancel]
    cases (takes R)[j]? with
    | none => rfl
    | some k => exact takeLog_frames (w := w) (h := h) (j + 1) k.frames
  calc (createdFragments ms).flatMap (fun i => (received i .rgb ms).filterMap Command.frame?)
      = (createdFragments ms).flatMap
          (fun i => (takes R)[i - 1]?.elim [] (fun k => k.frames.map (·.colorImage))) :=
        List.flatMap_congr htake
    _ = ((List.range' 1 (takes R).length).map (fun i => (takes R)[i - 1]?)).flatMap
          (fun o => o.elim [] (fun k => k.frames.map (·.colorImage))) := by
        rw [m.created, htakes, List.flatMap_map]
    _ = R.frames.map (·.colorImage) := by
        rw [hread, List.flatMap_map]
        simp [takes, Recording.frames, List.map_flatMap]

theorem only (m : LogsOf w h R ms) {i : ℕ} {ch : Channel} {c : Command}
    (hm : (i, ch, c) ∈ ms) : i ∈ createdFragments ms ∧ ch = .rgb := by
  have hmem : c ∈ received i ch ms := by
    rw [received, List.mem_filterMap]
    exact ⟨_, hm, by simp⟩
  cases ch with
  | depth => simp [m.depth] at hmem
  | rgb =>
    refine ⟨?_, rfl⟩
    cases i with
    | zero => simp [m.received_zero] at hmem
    | succ j =>
      rw [m.mem_created]
      by_contra hout
      have hj : (takes R).length ≤ j := by
        by_contra hlt
        exact hout ⟨j, by omega, rfl⟩
      rw [m.received_succ, List.getElem?_eq_none hj] at hmem
      cases hmem

theorem lossless (m : LogsOf w h R ms) : Lossless (R.frames.map (·.colorImage)) ms where
  created := by
    rw [m.created]
    exact List.nodup_range'
  shape _ hi := m.shape hi
  frames := m.frames
  only _ _ _ hm := m.only hm

end LogsOf

/-- The commands of a run, and the last one of its destructor. -/
theorem execute_logsOf {R : Recording RgbdFrame}
    (hcut : Recording.cut L (recordedFrames calls) = some R) :
    LogsOf w h R (commands (execute earlyReturn w h L calls).2 ++
      [(R.done.length + 1, .rgb, .close)]) := by
  constructor
  · rw [createdFragments, List.filterMap_append, ← createdFragments,
      (execute_refines earlyReturn w h L calls).2, createdFragments_run, hcut]
    simp
  · intro i
    rw [received_append, ← recorderLog, execute_log earlyReturn w h L calls hcut, received_cons]
    simp
  · intro i
    rw [received_append, ← recorderLog, execute_depth_log, received_cons]
    simp

/-- Recording and destroying loses, repeats and reorders no frame, whatever queries are
made in between. -/
theorem execute_lossless
    (hrec : RecordersStop ((execute earlyReturn w h L calls).2 ++
      (removeAll (execute earlyReturn w h L calls).1.fragments).2) isRecording) :
    ∃ tr, (∃ fuel₀, ∀ fuel ≥ fuel₀,
        (execute earlyReturn w h L calls).1.destruct isRecording fuel = some tr) ∧
      Lossless ((recordedFrames calls).map (·.2.colorImage))
        (commands ((execute earlyReturn w h L calls).2 ++ tr)) := by
  obtain ⟨tr, hends, -, -, hcmd⟩ := destruct_total _
    (fragments_stop earlyReturn w h L calls isRecording hrec)
  refine ⟨tr, hends, ?_⟩
  have hrun := (execute_refines earlyReturn w h L calls).2
  rcases execute_cases earlyReturn w h L calls with ⟨hnil, hnew⟩ | ⟨R, kept, last, hcut, s⟩
  · rw [hnew] at hcmd
    rw [hnil] at hrun ⊢
    rw [commands_append, hrun, hcmd]
    constructor <;> simp [createdFragments, VideoBuffer.new]
  · have hclose : commands tr = [(R.done.length + 1, .rgb, .close)] := by
      rw [hcmd, s.running_only, List.map_singleton, s.last_id, s.counter]
    have hframes : (recordedFrames calls).map (·.2.colorImage) =
        R.frames.map (·.colorImage) := by
      have hall := cut_frames L (recordedFrames calls)
      rw [hcut, Option.elim_some] at hall
      rw [hall, List.map_map]
      rfl
    rw [hframes, commands_append, hclose]
    exact (execute_logsOf earlyReturn w h L calls hcut).lossless

/-- Three frames in two fragments. -/
theorem twoFragments_lossless :
    ∃ tr, (∃ fuel₀, ∀ fuel ≥ fuel₀,
        (execute false 1280 720 15 twoFragments).1.destruct slowRecorder fuel = some tr) ∧
      Lossless ((recordedFrames twoFragments).map (·.2.colorImage))
        (commands ((execute false 1280 720 15 twoFragments).2 ++ tr)) :=
  execute_lossless false 1280 720 15 twoFragments slowRecorder slowRecorder_stops

end Destruction

end TimeRoom.Takes
