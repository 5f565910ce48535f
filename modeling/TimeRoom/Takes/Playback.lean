import TimeRoom.Takes.Refinement

/-!
# Playback never disturbs recording

Queries are silent inputs of the simulation, so two runs that record the same
frames send the same commands.  What the recording side sees of the buffer is a
function of the abstract recording alone.
-/

namespace TimeRoom.Takes
open TimeRoom.Frame Buffer Runs VideoBuffer Recording

/-- What `addFrame` works with: the number of fragments, and the start, file name and tag
of the last one. -/
def recordingView (b : VideoBuffer) : ℕ × Option (ℚ × String × FragmentState) :=
  (b.fileCounter, b.fragments.getLast?.map (fun f => (f.startTimestamp, f.filename, f.state)))

structure LeavesRecording (b : VideoBuffer) (timestamp : ℚ) : Prop where
  nonempty : b.fragments ≠ [] → (b.getFrame timestamp).2.1.fragments ≠ []
  counter : (b.getFrame timestamp).2.1.fileCounter = b.fileCounter
  last : (b.getFrame timestamp).2.1.fragments.getLast?.map (fun f => (f.created, f.state)) =
    b.fragments.getLast?.map (fun f => (f.created, f.state))
  silent : commands (b.getFrame timestamp).2.2 = []

/-- Two runs record alike: the same commands to all recorders, the same view of the buffer
after equally many frames, and no query on the way disturbs the recording. -/
structure RecordAlike (w h : ℤ) (L : ℚ) (calls calls' : List Call) : Prop where
  commands : commands (execute false w h L calls).2 = commands (execute false w h L calls').2
  view : ∀ pre pre', pre <+: calls → pre' <+: calls' →
    (recordedFrames pre).length = (recordedFrames pre').length →
    recordingView (execute false w h L pre).1 = recordingView (execute false w h L pre').1
  queries : ∀ pre timestamp, pre <+: calls ∨ pre <+: calls' →
    LeavesRecording (execute false w h L pre).1 timestamp

variable {w h : ℤ} {L : ℚ} {b : VideoBuffer}

def abstractView (L : ℚ) : Option (Recording RgbdFrame) → ℕ × Option (ℚ × String × FragmentState)
  | none => (0, none)
  | some R => (R.done.length + 1,
      some (R.currentStart L, fragmentFileName (R.done.length + 1), .recording))

theorem Refines.view {R : Option (Recording RgbdFrame)} (hb : Refines w h L b R) :
    recordingView b = abstractView L R := by
  cases R with
  | none =>
    obtain rfl : b = .new w h L := hb
    rfl
  | some R =>
    obtain ⟨kept, last, s⟩ := hb
    rw [recordingView, s.fragments, List.getLast?_concat, Option.map_some, s.last_start,
      s.last_tracked.filename, s.last_id, s.counter, s.running, abstractView]

theorem Refines.leavesRecording {R : Option (Recording RgbdFrame)} (hb : Refines w h L b R)
    (timestamp : ℚ) : LeavesRecording b timestamp := by
  cases R with
  | none =>
    obtain rfl : b = .new w h L := hb
    constructor
    · intro hne
      exact absurd rfl hne
    · rfl
    · rfl
    · rfl
  | some R =>
    obtain ⟨kept, last, s⟩ := hb
    obtain ⟨kept', last', s', hcreated, hsilent⟩ := s.getFrame timestamp
    constructor
    · intro _
      simp [s'.fragments]
    · rw [s'.counter, s.counter]
    · rw [s'.fragments, s.fragments, List.getLast?_concat, List.getLast?_concat, Option.map_some,
        Option.map_some, hcreated, s'.running, s.running]
    · exact hsilent

/-- Runs that record the same frames at the same times record alike, whatever they query. -/
theorem execute_recordAlike (w h : ℤ) (L : ℚ) (calls calls' : List Call)
    (hsame : recordedFrames calls = recordedFrames calls') : RecordAlike w h L calls calls' := by
  constructor
  · exact ((refinement false w h L).noninterference (.new w h L) none rfl calls calls' hsame).1
  · intro pre pre' hpre hpre' hlen
    have hframes : recordedFrames pre = recordedFrames pre' := by
      have hp : recordedFrames pre <+: recordedFrames calls := hpre.filterMap _
      have hp' : recordedFrames pre' <+: recordedFrames calls := by
        rw [hsame]
        exact hpre'.filterMap _
      exact (List.prefix_of_prefix_length_le hp hp' hlen.le).eq_of_length hlen
    obtain ⟨-, R, hR, hR'⟩ :=
      (refinement false w h L).noninterference (.new w h L) none rfl pre pre' hframes
    exact (Refines.view hR).trans (Refines.view hR').symm
  · intro pre timestamp _
    exact (execute_refines false w h L pre).1.leavesRecording timestamp

/-- With and without queries of the past, the present and the future. -/
theorem queried_run_recordAlike :
    RecordAlike 1280 720 15
      [.addFrame 0 (.pixel 1), .addFrame 20 (.pixel 2), .addFrame 35 (.pixel 3)]
      [.getFrame 3, .addFrame 0 (.pixel 1), .getFrame 7, .addFrame 20 (.pixel 2), .getFrame (-1),
        .getFrame 20, .addFrame 35 (.pixel 3), .getFrame 60] :=
  execute_recordAlike 1280 720 15 _ _ rfl

end TimeRoom.Takes
