import Mathlib.Algebra.Order.Floor.Semiring
import TimeRoom.Takes.Loading
import TimeRoom.Takes.Segmentation

/-!
# Which moment a replay shows

The recorder receives frames without their times, and a query turns a time into a
fraction of the fragment's length.  What a player shows then is up to the video
library, which is a parameter: of a finished file with `n` frames it shows frame
number `⌊p * n⌋` at position `p`, the last one at most, and without a file nothing.

A closed fragment is read only when the window of the next one has begun, at a
position of one or more.  So its last frame is shown, the most recent one that it
has at the time asked for.
-/

namespace TimeRoom.Takes
open TimeRoom.Frame Buffer Runs VideoBuffer Recording

/-! ### Players -/

/-- Number, from zero, of the recorded frame that a player shows, by the commands that the
recorder of its file received. -/
abbrev Playback := List Command → VideoPlayer → Option ℕ

/-- The frame shown at position `p`, a fraction of the whole, when `n` frames last equally
long. -/
def evenFrame (n : ℕ) (p : ℚ) : ℕ := min ⌊p * n⌋₊ (n - 1)

theorem evenFrame_late {n : ℕ} {p : ℚ} (hp : 1 ≤ p) : evenFrame n p = n - 1 := by
  have hpred : ((n - 1 : ℕ) : ℚ) ≤ n := by exact_mod_cast Nat.sub_le n 1
  have hmul : (n : ℚ) ≤ p * n := le_mul_of_one_le_left (Nat.cast_nonneg n) hp
  exact min_eq_right (Nat.le_floor (hpred.trans hmul))

/-- The files of closed recorders are played evenly. -/
structure PlaysEvenly (playback : Playback) : Prop where
  closed : ∀ path w h fps (pixels : List (Image UInt8)) (player : VideoPlayer), pixels ≠ [] →
    player.file = some path →
    playback (.setup path w h fps :: .start :: pixels.map .addFrame ++ [.close]) player =
      some (evenFrame pixels.length player.position)
  noFile : ∀ log (player : VideoPlayer), player.file = none → playback log player = none

/-- A video library that plays closed files only. -/
def closedPlayback : Playback
  | .setup path _ _ _ :: log, player =>
    if .close ∈ log ∧ player.file = some path then
      some (evenFrame (log.filterMap Command.frame?).length player.position)
    else none
  | _, _ => none

theorem closedPlayback_even : PlaysEvenly closedPlayback := by
  constructor
  · intro path w h fps pixels player _ hfile
    have hframes : (pixels.map Command.addFrame).filterMap Command.frame? = pixels := by
      rw [List.filterMap_map]
      exact List.filterMap_some
    have hlog : (Command.start :: pixels.map Command.addFrame ++ [Command.close]).filterMap
        Command.frame? = pixels := by
      rw [List.filterMap_append, List.filterMap_cons_none rfl, hframes]
      exact List.append_nil pixels
    have hclose : Command.close ∈
        Command.start :: pixels.map Command.addFrame ++ [Command.close] := by
      simp
    have hlength := congrArg (fun frames => some (evenFrame frames.length player.position)) hlog
    exact (if_pos ⟨hclose, hfile⟩).trans hlength
  · intro log player hfile
    rw [closedPlayback.eq_def]
    split
    · simp [hfile]
    · rfl

/-- The number of the frame that a reply shows, after the events `tr`. -/
def shownFrame (playback : Playback) (tr : List Event) : Reply → Option ℕ
  | .blank _ _ => none
  | .played i rgbPlayer _ => playback (recorderLog i .rgb tr) rgbPlayer

/-! ### Moments -/

variable {b : VideoBuffer} {tr : List Event} {f g : VideoFragment} {rest : List VideoFragment}
  {timestamp : ℚ}

namespace Stores
variable {w h : ℤ} {L : ℚ} {R : Recording RgbdFrame} {kept : List VideoFragment}
  {last : VideoFragment}

theorem shownFrame_kept (s : Stores w h L R b kept last) (htag : LoadedTag b tr)
    (hlog : ∀ i, recorderLog i .rgb tr = log w h R i) {playback : Playback}
    (hplays : PlaysEvenly playback) (hf : f ∈ kept) (position : ℚ) :
    shownFrame playback tr (f.prepare.1.getFrame position).1 =
      some (evenFrame ((recorderLog f.id .rgb tr).filterMap Command.frame?).length position) := by
  obtain ⟨j, hj, hid⟩ := s.kept_id hf
  have hmem : f ∈ kept ++ [last] := List.mem_append_left _ hf
  have hfile : f.prepare.1.rgbPlayer.file = some (fragmentFileName f.id ++ "_rgb.mov") := by
    rw [← (s.tracked f hmem).filename]
    rcases s.kept_sealed f hf with hdisk | hmemory
    · simp [VideoFragment.prepare, hdisk, VideoFragment.loadFromDisk, VideoPlayer.load]
    · have hfiles := (htag f (by rwa [s.fragments]) hmemory).1
      have hrgb : f.rgbPlayer.file = some (f.filename ++ "_rgb.mov") := congrArg Prod.fst hfiles
      simpa [VideoFragment.prepare, hmemory] using hrgb
  have hclosed : log w h R f.id = .setup (fragmentFileName f.id ++ "_rgb.mov") w h 15 :: .start ::
      (R.done[j].frames.map (·.colorImage)).map .addFrame ++ [.close] := by
    rw [hid, log_done w h R hj, takeLog_closed]
  have hframes : (log w h R f.id).filterMap Command.frame? =
      R.done[j].frames.map (·.colorImage) := by
    rw [hid, log_done w h R hj, takeLog_frames]
  simp only [VideoFragment.getFrame, VideoFragment.prepare_id, shownFrame, hlog]
  rw [hframes, hclosed]
  exact hplays.closed _ w h 15 _ _ (by simp [Take.frames]) hfile

end Stores

/-- Two frames in the first window, and a third one that closes their fragment. -/
def filmedRun : List Call :=
  [.addFrame 0 (.pixel 1), .addFrame 1 (.pixel 2), .addFrame 20 (.pixel 3)]

end TimeRoom.Takes
