import TimeRoom.Takes.Replay
import TimeRoom.Takes.Shelf

/-!
# The pictures that a buffer shows

The oldest fragment is read only when its window is over, at a position of one or
more.  So whatever the caller asks, the buffer shows the last frame of the oldest
take, or nothing.
-/

namespace TimeRoom.Takes
open TimeRoom.Frame Numeric Buffer Runs VideoBuffer Recording

/-- The picture that a reply shows, after the events `tr`. -/
def shownPicture (playback : Playback) (tr : List Event) : Reply → Option (Image UInt8)
  | .blank _ _ => none
  | .played i rgbPlayer depthPlayer =>
    (shownFrame playback tr (.played i rgbPlayer depthPlayer)).bind
      (((recorderLog i .rgb tr).filterMap Command.frame?)[·]?)

def Take.last {X : Type*} (k : Take X) : X := k.frames.getLast (by simp [Take.frames])

/-- The frame that a shelf has to show for a timestamp. -/
def Shelf.picture {X : Type*} (L : ℚ) (S : Shelf X) (timestamp : ℚ) : Option X :=
  if S.start L + L ≤ timestamp then S.recording.done[S.oldest]?.map Take.last else none

variable {playback : Playback} {w h : ℤ} {L : ℚ} {S : Shelf RgbdFrame} {b : VideoBuffer}
  {tr : List Event} {f : VideoFragment} {rest : List VideoFragment} {timestamp : ℚ}

namespace Shelves

/-- The first of several fragments shows the last frame of its take. -/
theorem shown_first (hb : Shelves w h L b (some S)) (hplays : PlaysEvenly playback) (hL : 0 < L)
    (htag : LoadedTag b tr) (hlog : ∀ i, recorderLog i .rgb tr = log w h S.recording i)
    (hfr : b.fragments = f :: rest) (hmore : S.oldest < S.recording.done.length)
    (hts : S.start L + L ≤ timestamp) :
    shownPicture playback tr (f.prepare.1.getFrame ((timestamp - f.startTimestamp) / L)).1 =
      some S.recording.done[S.oldest].last.colorImage := by
  have hfirst := hb.first hfr
  have hsecond := (hb.second_iff hfr).mpr hmore
  rcases hb with ⟨kept, last, s, -⟩
  obtain ⟨g, rest', rfl⟩ := List.exists_cons_of_ne_nil hsecond
  have hkept : f ∈ kept := s.mem_kept (by simp [hfr]) (s.first_sealed hfr).not_recording
  have hlate : 1 ≤ (timestamp - f.startTimestamp) / L := by
    rw [one_le_div hL, hfirst.2]
    linarith
  have hframes : (recorderLog f.id .rgb tr).filterMap Command.frame? =
      S.recording.done[S.oldest].frames.map (·.colorImage) := by
    rw [hlog, hfirst.1, log_done w h S.recording hmore, takeLog_frames]
  have hshown := s.shownFrame_kept htag hlog hplays hkept ((timestamp - f.startTimestamp) / L)
  rw [evenFrame_late hlate, hframes] at hshown
  simp only [VideoFragment.getFrame, VideoFragment.prepare_id] at hshown ⊢
  rw [shownPicture, hshown, hframes, Option.bind_some, ← List.getLast?_eq_getElem?,
    List.getLast?_map, Take.last, List.getLast?_eq_getLast_of_ne_nil]
  rfl

/-- The only fragment shows nothing: its players have no file. -/
theorem shown_only (hb : Shelves w h L b (some S)) (hplays : PlaysEvenly playback)
    (hunsaved : UnsavedTag b) (hfr : b.fragments = f :: rest)
    (hmore : ¬ S.oldest < S.recording.done.length) (position : ℚ) :
    shownPicture playback tr (f.prepare.1.getFrame position).1 = none := by
  have hsecond := (hb.second_iff hfr).not.mpr hmore
  rw [ne_eq, not_not] at hsecond
  subst hsecond
  rcases hb with ⟨kept, last, s, -⟩
  have hrunning := s.only_running hfr
  have hfile := hunsaved f (by simp [hfr]) (by simp [hrunning])
  have hrgb : (f.rgbPlayer.setPosition position).file = none := congrArg Prod.fst hfile
  have hprep : f.prepare = (f, []) := by simp [VideoFragment.prepare, hrunning]
  simp only [hprep, VideoFragment.getFrame, shownPicture, shownFrame]
  rw [hplays.noFile _ _ hrgb]
  rfl

theorem shown (hb : Shelves w h L b (some S)) (hplays : PlaysEvenly playback) (hL : 0 < L)
    (htag : LoadedTag b tr) (hunsaved : UnsavedTag b)
    (hlog : ∀ i, recorderLog i .rgb tr = log w h S.recording i) (timestamp : ℚ) :
    shownPicture playback tr (b.getFrame timestamp).1 =
      (S.picture L timestamp).map (·.colorImage) := by
  have hshelves := hb
  rcases hb with ⟨kept, last, s, -⟩
  rcases s.getFrame_ways timestamp with ⟨f, rest, hfr, hways⟩
  have hstart := (hshelves.first hfr).2
  rcases hways with ⟨hts, hstep⟩ | ⟨hts, hnext, hstep⟩ | ⟨hts, ⟨g, hg, hgap⟩, hstep⟩
  · rw [hstart] at hts
    rw [hstep, Shelf.picture, if_neg (by linarith)]
    rfl
  · rw [hstep, s.fragmentLength]
    by_cases hmore : S.oldest < S.recording.done.length
    · have hend : S.start L + L ≤ timestamp := by
        obtain ⟨g, rest', rfl⟩ := List.exists_cons_of_ne_nil ((hshelves.second_iff hfr).mpr hmore)
        rw [← hshelves.second hfr]
        exact hnext g rfl
      rw [Shelf.picture, if_pos hend, List.getElem?_eq_getElem hmore, Option.map_some,
        Option.map_some]
      exact hshelves.shown_first hplays hL htag hlog hfr hmore hend
    · have hnone : S.recording.done[S.oldest]? = none :=
        List.getElem?_eq_none (not_lt.mp hmore)
      have hpicture : S.picture L timestamp = none := by
        rw [Shelf.picture, hnone]
        split <;> rfl
      rw [hpicture]
      exact hshelves.shown_only hplays hunsaved hfr hmore _
  · cases rest with
    | nil => simp at hg
    | cons g' rest =>
      obtain rfl : g' = g := by simpa using hg
      rw [hshelves.second hfr] at hgap
      rw [hstep, Shelf.picture, if_neg hgap.not_ge]
      rfl

end Shelves

theorem execute_picture (hplays : PlaysEvenly playback) (w h : ℤ) (hL : 0 < L)
    (calls : List Call) (timestamp : ℚ) :
    shownPicture playback (execute false w h L calls).2
        ((execute false w h L calls).1.getFrame timestamp).1 =
      (shelfAfter L calls).elim none
        (fun S => (S.picture L timestamp).map (·.colorImage)) := by
  have hshelves := execute_shelves w h L calls
  cases hS : shelfAfter L calls with
  | none =>
    rw [hS] at hshelves
    have hnew : (execute false w h L calls).1 = .new w h L := hshelves
    rw [hnew]
    rfl
  | some S =>
    rw [hS] at hshelves
    apply hshelves.shown hplays hL (execute_loadedTag false w h L calls)
      (execute_unsavedTag false w h L calls)
    intro i
    have hcut : Recording.cut L (recordedFrames calls) = some S.recording := by
      rw [← shelfAfter_recording, hS]
      rfl
    exact execute_log false w h L calls hcut i

/-! ### All pictures of a run -/

/-- What the queries among some calls show, one after the other, in a run that began with
`before`. -/
def shownIn (playback : Playback) (w h : ℤ) (L : ℚ) :
    List Call → List Call → List (Option (Image UInt8))
  | _, [] => []
  | before, .addFrame t x :: calls => shownIn playback w h L (before ++ [.addFrame t x]) calls
  | before, .getFrame ts :: calls =>
    shownPicture playback (execute false w h L before).2
        ((execute false w h L before).1.getFrame ts).1 ::
      shownIn playback w h L (before ++ [.getFrame ts]) calls

/-- A shelf that shows the last frame of its oldest take, once the window of that take is over,
and nothing otherwise. -/
def gallery (L : ℚ) :
    Machine (Option (Shelf RgbdFrame)) (Request RgbdFrame) (Option (Image UInt8)) where
  step S
    | .record t x => (((shelf L).step S (.record t x)).1, [])
    | .ask timestamp => (((shelf L).step S (.ask timestamp)).1,
        [S.elim none (fun S => (S.picture L timestamp).map (·.colorImage))])

theorem shelfAfter_concat (L : ℚ) (calls : List Call) (c : Call) :
    shelfAfter L (calls ++ [c]) = ((shelf L).step (shelfAfter L calls) (request c)).1 := by
  rw [shelfAfter, List.map_append, List.map_singleton, Machine.run_concat, ← shelfAfter]

theorem shownIn_gallery (hplays : PlaysEvenly playback) (w h : ℤ) (hL : 0 < L)
    (before calls : List Call) :
    shownIn playback w h L before calls =
      ((gallery L).run (shelfAfter L before) (calls.map request)).2 := by
  induction calls generalizing before with
  | nil => rfl
  | cons c calls ih =>
    have hnext := ih (before ++ [c])
    rw [shelfAfter_concat] at hnext
    cases c with
    | addFrame t x =>
      rw [shownIn, hnext]
      rfl
    | getFrame ts =>
      rw [shownIn, hnext, execute_picture hplays w h hL]
      rfl

/-- In every run, all queries together show what a gallery shows. -/
theorem execute_shows (playback : Playback) (hplays : PlaysEvenly playback) (w h : ℤ) (L : ℚ)
    (hL : 0 < L) (calls : List Call) :
    shownIn playback w h L [] calls = ((gallery L).run none (calls.map request)).2 :=
  shownIn_gallery hplays w h hL [] calls

/-- Two frames, and a third one that closes their fragment; then three queries. -/
def filmedQueries : List Call := filmedRun ++ [.getFrame 20, .getFrame 5, .getFrame 20]

theorem filmedQueries_shown :
    shownIn closedPlayback 1280 720 15 [] filmedQueries =
      ((gallery 15).run none (filmedQueries.map request)).2 :=
  execute_shows closedPlayback closedPlayback_even 1280 720 15 (by norm_num) filmedQueries

/-- At 20 s the second frame is shown; the query for 5 s loses it. -/
example : ((gallery 15).run none (filmedQueries.map request)).2 =
    [some (RgbdFrame.pixel 2).colorImage, none, none] := by
  decide +kernel

end TimeRoom.Takes
