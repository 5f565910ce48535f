import TimeRoom.Takes.Shelf
import TimeRoom.Takes.Windows

/-!
# Looking back by fixed delays

The program works in rounds: it reads the clock, records at most one frame, and
then asks for the moments that lie some delays back.  If rounds and frames follow
each other within a window, a delay of two windows or more is never answered: it
comes to the oldest take while that take's window is not over, and so loses it.
For the same reason the shelf stays short.
-/

namespace TimeRoom.Takes
open TimeRoom.Frame Buffer Runs VideoBuffer Recording

/-- The clock at the beginning, and the frame of this round with the clock by then. -/
structure Round (X : Type*) where
  time : ℚ
  frame : Option (ℚ × X)

variable {X : Type*}

def Round.requests (delays : List ℚ) (r : Round X) : List (Request X) :=
  (r.frame.map (fun p => .record p.1 p.2)).toList ++ delays.map (fun d => .ask (r.time - d))

def newest (rounds : List (Round X)) : Option ℚ :=
  ((rounds.filterMap Round.frame).map Prod.fst).getLast?

/-- The round `r` may follow the rounds `before`: the clock does not run backwards, and since
the last round and the newest frame, and within the round, less than a window passes. -/
structure KeepsUp (L : ℚ) (before : List (Round X)) (r : Round X) : Prop where
  round : ∀ q ∈ before.getLast?, q.time ≤ r.time ∧ r.time < q.time + L
  newest : ∀ c ∈ newest before, c ≤ r.time ∧ r.time < c + L ∧ ∀ p ∈ r.frame, p.1 < c + L
  frame : ∀ p ∈ r.frame, r.time ≤ p.1 ∧ p.1 < r.time + L

/-- Rounds and frames follow each other within a window. -/
def Steady (L : ℚ) (rounds : List (Round X)) : Prop := Guarded (KeepsUp L) rounds

def Shelf.stored (S : Shelf X) : ℕ := S.recording.done.length + 1 - S.oldest

/-- The takes lie next to each other, a window wide. -/
theorem Shelf.stored_lt (S : Shelf X) {L width : ℚ} (hL : 0 < L)
    (hwidth : S.recording.currentStart L < S.start L + width) :
    (S.stored : ℚ) < width / L + 1 := by
  have hcount : (S.stored : ℚ) = S.recording.done.length + 1 - S.oldest := by
    have hle := S.oldest_le
    rw [Shelf.stored, Nat.cast_sub (by omega)]
    push_cast
    ring
  have hspan : (S.recording.done.length - S.oldest : ℚ) * L < width := by
    rw [Shelf.start, Recording.start, Recording.currentStart] at hwidth
    linarith
  rw [← lt_div_iff₀ hL] at hspan
  rw [hcount]
  linarith

/-- The shelf has the frame of time `c` in its open window, and the oldest window is not over
for a delay of two windows or more, seen from the time `t`. -/
structure Follows (L : ℚ) (delays : List ℚ) (t c : ℚ) (S : Shelf X) : Prop where
  started : S.recording.currentStart L ≤ c
  before_end : c < S.recording.currentStart L + L
  recent : t < c + L
  ahead : ∀ d ∈ delays, 2 * L ≤ d → t - d < S.start L + L

namespace Follows
variable {L t c d : ℚ} {delays ds : List ℚ} {S : Shelf X}

theorem oldest_start_le (hL : 0 < L) (S : Shelf X) : S.start L ≤ S.recording.currentStart L := by
  have hle : (S.oldest : ℚ) ≤ S.recording.done.length := by exact_mod_cast S.oldest_le
  have hmul := mul_le_mul_of_nonneg_right hle hL.le
  rw [Shelf.start, Recording.start, Recording.currentStart]
  linarith

theorem more (h : Follows L delays t c S) (hd : 2 * L ≤ d) (hts : S.start L ≤ t - d) :
    S.oldest < S.recording.done.length := by
  by_contra hnot
  have hlast : S.oldest = S.recording.done.length := by
    have hle := S.oldest_le
    omega
  have hcurrent : S.start L = S.recording.currentStart L := by
    rw [Shelf.start, Recording.start, hlast, Recording.currentStart]
  have hend := h.before_end
  have hrecent := h.recent
  linarith

/-- A query with any delay keeps the shelf so, and its oldest window does not go back. -/
theorem ask (hL : 0 < L) (h : Follows L delays t c S) (d : ℚ) :
    Follows L delays t c (S.ask L (t - d)).2 ∧ S.start L ≤ (S.ask L (t - d)).2.start L := by
  have hrec := Shelf.ask_recording (L := L) S (t - d)
  have hstart : S.start L ≤ (S.ask L (t - d)).2.start L := by
    rw [Shelf.ask]
    split
    · exact le_rfl
    · split
      · exact oldest_start_le hL S
      · exact le_rfl
  refine ⟨⟨?_, ?_, h.recent, ?_⟩, hstart⟩
  · rw [hrec]
    exact h.started
  · rw [hrec]
    exact h.before_end
  · intro e he hlong
    have hahead := h.ahead e he hlong
    linarith

/-- A long delay is not answered, and afterwards the oldest window has not begun for it. -/
theorem ask_long (hL : 0 < L) (h : Follows L delays t c S) (hmem : d ∈ delays)
    (hd : 2 * L ≤ d) :
    (S.ask L (t - d)).1 = none ∧ t - d < (S.ask L (t - d)).2.start L := by
  have hahead := h.ahead d hmem hd
  rcases lt_or_ge (t - d) (S.start L) with hts | hts
  · rw [Shelf.ask_early hts]
    exact ⟨rfl, hts⟩
  · have hmore := h.more hd hts
    have hnext : S.start L + L ≤ S.recording.start L S.recording.done.length := by
      have hle : ((S.oldest + 1 : ℕ) : ℚ) ≤ S.recording.done.length := by exact_mod_cast hmore
      have hmul := mul_le_mul_of_nonneg_right hle hL.le
      rw [Shelf.start, ← Recording.start_succ, Recording.start, Recording.start]
      linarith
    rw [Shelf.ask_lose hts hmore hahead]
    exact ⟨rfl, hahead.trans_le hnext⟩

theorem asks (hL : 0 < L) (h : Follows L delays t c S) (hds : ∀ d ∈ ds, d ∈ delays) :
    ∃ S', ((shelf L).run (some S) (ds.map (fun d => .ask (t - d)))).1 = some S' ∧
      Follows L delays t c S' ∧ S.start L ≤ S'.start L ∧ S'.recording = S.recording ∧
      (∀ d ∈ ds, 2 * L ≤ d → t - d < S'.start L) ∧
      ∀ p ∈ ds.zip ((shelf L).run (some S) (ds.map (fun d => .ask (t - d)))).2,
        2 * L ≤ p.1 → p.2 = none := by
  induction ds generalizing S with
  | nil => exact ⟨S, rfl, h, le_rfl, rfl, by simp, by simp⟩
  | cons d ds ih =>
    have hask := h.ask hL d
    rcases ih hask.1 (fun e he => hds e (List.mem_cons_of_mem d he)) with
      ⟨S', hrun, hfollows, hstart, hrec, hbegun, hanswers⟩
    have hstep : (shelf L).run (some S) ((d :: ds).map (fun d => .ask (t - d))) =
        (((shelf L).run (some (S.ask L (t - d)).2) (ds.map (fun d => .ask (t - d)))).1,
          (S.ask L (t - d)).1 ::
            ((shelf L).run (some (S.ask L (t - d)).2) (ds.map (fun d => .ask (t - d)))).2) := rfl
    have hlong (hd : 2 * L ≤ d) := h.ask_long hL (hds d List.mem_cons_self) hd
    refine ⟨S', by rw [hstep]; exact hrun, hfollows, hask.2.trans hstart, ?_, ?_, ?_⟩
    · rw [hrec, Shelf.ask_recording]
    · intro e he hd
      rcases List.mem_cons.mp he with rfl | he
      · exact (hlong hd).2.trans_le hstart
      · exact hbegun e he hd
    · intro p hp hd
      rw [hstep, List.zip_cons_cons, List.mem_cons] at hp
      rcases hp with rfl | hp
      · exact (hlong hd).1
      · exact hanswers p hp hd

theorem short (h : Follows L delays t c S) (hL : 0 < L) (hct : c < t + L) (hd : d ∈ delays)
    (hlong : 2 * L ≤ d) : (S.stored : ℚ) < d / L + 3 := by
  have hahead := h.ahead d hd hlong
  have hstarted := h.started
  have hstored := S.stored_lt hL
    (show S.recording.currentStart L < S.start L + (d + L + L) by linarith)
  rw [add_div, add_div, div_self hL.ne'] at hstored
  linarith

theorem put (hL : 0 < L) (hstarted : S.recording.currentStart L ≤ c)
    (hend : c < S.recording.currentStart L + L) (hahead : ∀ d ∈ delays, 2 * L ≤ d →
      t - d < S.start L + L) {c' : ℚ} (hc : c ≤ c') (hnext : c' < c + L) (ht : t ≤ c') (x : X) :
    Follows L delays t c' (Shelf.put L (some S) (c', x)) := by
  have hstart : (Shelf.put L (some S) (c', x)).start L = S.start L := by
    simp only [Shelf.start, Recording.start, Shelf.put, record_origin]
  have hrecent : t < c' + L := by linarith
  by_cases hx : S.recording.Exceeded L c'
  · have hover : S.recording.currentStart L + L ≤ c' := by
      rw [Exceeded] at hx
      linarith
    have hcurrent : (Shelf.put L (some S) (c', x)).recording.currentStart L =
        S.recording.currentStart L + L := by
      simp only [Shelf.put, record_next (p := (c', x)) hx, Recording.currentStart,
        List.length_append, List.length_singleton]
      push_cast
      ring
    refine ⟨?_, ?_, hrecent, ?_⟩
    · rw [hcurrent]
      exact hover
    · rw [hcurrent]
      linarith
    · rwa [hstart]
  · have hcurrent : (Shelf.put L (some S) (c', x)).recording.currentStart L =
        S.recording.currentStart L := by
      simp only [Shelf.put, record_same (p := (c', x)) hx, Recording.currentStart]
    have hinside : c' < S.recording.currentStart L + L := by
      rw [Exceeded] at hx
      linarith
    refine ⟨?_, ?_, hrecent, ?_⟩
    · rw [hcurrent]
      linarith
    · rwa [hcurrent]
    · rwa [hstart]

theorem put_none (hL : 0 < L) (ht : t ≤ c) (x : X) :
    Follows L delays t c (Shelf.put L none (c, x)) := by
  have hcurrent : (Shelf.put L none (c, x)).recording.currentStart L = c := by
    simp [Shelf.put, record_none, Recording.currentStart]
  have hstart : (Shelf.put L none (c, x)).start L = c := by
    simp [Shelf.put, record_none, Shelf.start, Recording.start]
  refine ⟨?_, ?_, by linarith, ?_⟩
  · rw [hcurrent]
  · rw [hcurrent]
    linarith
  · intro d _ hlong
    rw [hstart]
    linarith

end Follows

/-! ### Rounds -/

/-- What holds between two rounds: no long delay has reached the oldest window. -/
def Followed (L : ℚ) (delays : List ℚ) (rounds : List (Round X)) : Option (Shelf X) → Prop
  | none => newest rounds = none
  | some S => ∃ q c, rounds.getLast? = some q ∧ newest rounds = some c ∧ c < q.time + L ∧
      S.recording.currentStart L ≤ c ∧ c < S.recording.currentStart L + L ∧
      ∀ d ∈ delays, 2 * L ≤ d → q.time - d < S.start L

theorem newest_concat (rounds : List (Round X)) (r : Round X) :
    newest (rounds ++ [r]) = (r.frame.map Prod.fst).or (newest rounds) := by
  rw [newest, List.filterMap_append, List.map_append, newest]
  cases hr : r.frame with
  | none => simp [hr]
  | some p => simp [hr]

def Round.recorded (L : ℚ) (S : Option (Shelf X)) (r : Round X) : Option (Shelf X) :=
  r.frame.elim S (fun p => some (Shelf.put L S p))

theorem Round.run_requests (L : ℚ) (delays : List ℚ) (S : Option (Shelf X)) (r : Round X) :
    (shelf L).run S (r.requests delays) =
      (shelf L).run (r.recorded L S) (delays.map (fun d => .ask (r.time - d))) := by
  rw [Round.requests, Machine.run_append, Round.recorded]
  cases r.frame with
  | none => rfl
  | some p => rfl

theorem shelf_run_asks_none (L t : ℚ) (ds : List ℚ) : (shelf L).run (none : Option (Shelf X))
    (ds.map (fun d => .ask (t - d))) = (none, ds.map (fun _ => none)) := by
  induction ds with
  | nil => rfl
  | cons d ds ih =>
    rw [List.map_cons, Machine.run_cons]
    simp only [shelf] at ih ⊢
    rw [ih]
    rfl

section Rounds
variable {L : ℚ} {delays : List ℚ} {rounds : List (Round X)} {r : Round X} {S : Option (Shelf X)}

theorem Followed.recorded (hL : 0 < L) (hS : Followed L delays rounds S)
    (hr : KeepsUp L rounds r) :
    (r.recorded L S = none ∧ newest (rounds ++ [r]) = none) ∨
      ∃ S' c, r.recorded L S = some S' ∧ newest (rounds ++ [r]) = some c ∧ c < r.time + L ∧
        Follows L delays r.time c S' := by
  rw [newest_concat, Round.recorded]
  cases S with
  | none =>
    have hnone : newest rounds = none := hS
    cases hframe : r.frame with
    | none => exact Or.inl ⟨rfl, hnone⟩
    | some p =>
      have hp := hr.frame p hframe
      exact Or.inr ⟨_, p.1, rfl, rfl, hp.2, Follows.put_none hL hp.1 p.2⟩
  | some S =>
    right
    obtain ⟨q, c, hq, hc, hcq, hstarted, hend, hbegun⟩ := hS
    have hround := hr.round q hq
    have hnewest := hr.newest c hc
    have hahead : ∀ d ∈ delays, 2 * L ≤ d → r.time - d < S.start L + L := by
      intro d hd hlong
      have hlast := hbegun d hd hlong
      linarith
    cases hframe : r.frame with
    | none => exact ⟨S, c, rfl, hc, by linarith, hstarted, hend, hnewest.2.1, hahead⟩
    | some p =>
      have hp := hr.frame p hframe
      exact ⟨_, p.1, rfl, rfl, hp.2, Follows.put hL hstarted hend hahead (hnewest.1.trans hp.1)
        (hnewest.2.2 p hframe) hp.1 p.2⟩

theorem Followed.round (hL : 0 < L) (hS : Followed L delays rounds S)
    (hr : KeepsUp L rounds r) :
    Followed L delays (rounds ++ [r]) ((shelf L).run S (r.requests delays)).1 ∧
      ∀ p ∈ delays.zip ((shelf L).run S (r.requests delays)).2, 2 * L ≤ p.1 → p.2 = none := by
  rw [Round.run_requests]
  rcases hS.recorded hL hr with ⟨hnone, hnewest⟩ | ⟨S', c, hsome, hnewest, hcr, hfollows⟩
  · rw [hnone, shelf_run_asks_none]
    refine ⟨hnewest, ?_⟩
    intro p hp _
    have hanswer : delays ≠ [] ∧ p.2 = none := by simpa using (List.of_mem_zip hp).2
    exact hanswer.2
  · rw [hsome]
    rcases hfollows.asks hL (fun d hd => hd) with ⟨S'', hrun, hafter, -, -, hbegun, hanswers⟩
    rw [hrun]
    refine ⟨⟨r, c, by simp, hnewest, hcr, hafter.started, hafter.before_end, hbegun⟩, hanswers⟩

theorem Steady.followed (hL : 0 < L) (hsteady : Steady L rounds) :
    Followed L delays rounds ((shelf L).run none (rounds.flatMap (Round.requests delays))).1 := by
  induction rounds using List.reverseRecOn with
  | nil => rfl
  | append_singleton rounds r ih =>
    have hparts := (Guarded.concat_iff _ _ _).mp hsteady
    rw [List.flatMap_append, Machine.run_append, List.flatMap_singleton]
    exact ((ih hparts.1).round hL hparts.2).1

/-- In steady rounds the long delays are never answered. -/
theorem Steady.answers (hL : 0 < L) (hsteady : Steady L (rounds ++ [r])) :
    ∀ p ∈ delays.zip ((shelf L).run ((shelf L).run none
        (rounds.flatMap (Round.requests delays))).1 (r.requests delays)).2,
      2 * L ≤ p.1 → p.2 = none := by
  have hparts := (Guarded.concat_iff _ _ _).mp hsteady
  exact ((Steady.followed hL hparts.1).round hL hparts.2).2

/-- A shelf that is asked with a long delay stays short. -/
theorem Followed.short {S : Shelf X} (hL : 0 < L) (hS : Followed L delays rounds (some S)) {d : ℚ}
    (hd : d ∈ delays) (hlong : 2 * L ≤ d) : (S.stored : ℚ) < d / L + 2 := by
  obtain ⟨q, c, -, -, hcq, hstarted, -, hbegun⟩ := hS
  have hlast := hbegun d hd hlong
  have hstored := S.stored_lt hL (show S.recording.currentStart L < S.start L + (d + L) by linarith)
  rw [add_div, div_self hL.ne'] at hstored
  linarith

theorem Followed.short_within (hL : 0 < L) (hS : Followed L delays rounds S)
    (hr : KeepsUp L rounds r) {d : ℚ} (hd : d ∈ delays) (hlong : 2 * L ≤ d)
    {requests : List (Request X)} (hpre : requests <+: r.requests delays) :
    ∀ S' ∈ ((shelf L).run S requests).1, (S'.stored : ℚ) < d / L + 3 := by
  intro S' hS'
  have hasked (ds : List ℚ) (hds : ∀ e ∈ ds, e ∈ delays)
      (hrun : ((shelf L).run (r.recorded L S) (ds.map (fun d => .ask (r.time - d)))).1 = some S') :
      (S'.stored : ℚ) < d / L + 3 := by
    rcases hS.recorded hL hr with ⟨hnone, -⟩ | ⟨S₁, c, hsome, -, hcr, hfollows⟩
    · rw [hnone, shelf_run_asks_none] at hrun
      cases hrun
    · rcases hfollows.asks hL hds with ⟨S₂, hrun', hafter, -⟩
      rw [hsome, hrun'] at hrun
      obtain rfl := Option.some_inj.mp hrun
      exact hafter.short hL hcr hd hlong
  rcases prefix_append_cases hpre with hbefore | ⟨asks, hasks, rfl⟩
  · cases hframe : r.frame with
    | none =>
      obtain rfl : requests = [] := by simpa [hframe] using hbefore
      apply hasked [] (by simp)
      rwa [Round.recorded, hframe]
    | some p =>
      rw [hframe, Option.map_some, Option.toList_some, List.prefix_cons_iff] at hbefore
      rcases hbefore with rfl | ⟨_, rfl, hnil⟩
      · obtain rfl : S = some S' := hS'
        exact (hS.short hL hd hlong).trans (by linarith)
      · rw [List.prefix_nil.mp hnil] at hS'
        apply hasked [] (by simp)
        rw [Round.recorded, hframe]
        exact hS'
  · obtain ⟨ds, hds, rfl⟩ := List.prefix_map_iff.mp hasks
    apply hasked ds (fun e he => hds.subset he)
    rw [Machine.run_append] at hS'
    cases hframe : r.frame with
    | none =>
      rw [hframe] at hS'
      rwa [Round.recorded, hframe]
    | some p =>
      rw [hframe] at hS'
      rw [Round.recorded, hframe]
      exact hS'

theorem Steady.short_within (hL : 0 < L) (hsteady : Steady L rounds) {d : ℚ} (hd : d ∈ delays)
    (hlong : 2 * L ≤ d) {requests : List (Request X)}
    (hpre : requests <+: rounds.flatMap (Round.requests delays)) :
    ∀ S ∈ ((shelf L).run none requests).1, (S.stored : ℚ) < d / L + 3 := by
  induction rounds using List.reverseRecOn with
  | nil =>
    intro S hS
    rw [List.prefix_nil.mp hpre] at hS
    cases hS
  | append_singleton rounds r ih =>
    have hparts := (Guarded.concat_iff _ _ _).mp hsteady
    rw [List.flatMap_append, List.flatMap_singleton] at hpre
    rcases prefix_append_cases hpre with hbefore | ⟨requests, hround, rfl⟩
    · exact ih hparts.1 hbefore
    · rw [Machine.run_append]
      exact (Steady.followed hL hparts.1).short_within hL hparts.2 hd hlong hround

end Rounds

/-! ### The buffer in steady rounds -/

def Round.calls (delays : List ℚ) (r : Round RgbdFrame) : List Call :=
  (r.frame.map (fun p => .addFrame p.1 p.2)).toList ++
    delays.map (fun d => .getFrame (r.time - d))

theorem Round.calls_requests (delays : List ℚ) (r : Round RgbdFrame) :
    (r.calls delays).map request = r.requests delays := by
  rw [Round.calls, Round.requests, List.map_append, List.map_map]
  cases r.frame <;> rfl

section Buffer
variable {w h : ℤ} {L : ℚ} {b : VideoBuffer} {S : Option (Shelf RgbdFrame)}

/-- A reply from nowhere is a blank frame of the buffer's size. -/
theorem Shelves.blank (hb : Shelves w h L b S) {ts : ℚ}
    (hsource : (b.getFrame ts).1.source = none) : (b.getFrame ts).1 = .blank w h := by
  have hsize : b.videoWidth = w ∧ b.videoHeight = h := by
    cases S with
    | none =>
      obtain rfl : b = .new w h L := hb
      exact ⟨rfl, rfl⟩
    | some S =>
      rcases hb with ⟨kept, last, s, -⟩
      exact ⟨s.videoWidth, s.videoHeight⟩
  have hnot : ¬ b.ReadsFirst ts := by
    intro hreads
    have hfirst := hreads
    rcases hfirst with ⟨f, rest, hfr, -⟩
    rw [getFrame_first hfr hreads] at hsource
    simp [VideoFragment.getFrame, Reply.source] at hsource
  rw [getFrame_blank hnot, hsize.1, hsize.2]

theorem Shelves.replies_blank (hb : Shelves w h L b S) (calls : List Call) :
    ∀ reply ∈ ((conversation false).run b calls).2, reply.source = none → reply = .blank w h := by
  induction calls generalizing b S with
  | nil => simp
  | cons c calls ih =>
    have hnext := ((shelving w h L).visible b S c (request c) hb rfl).1
    intro reply hreply hsource
    rw [Machine.run_cons, List.mem_append] at hreply
    rcases hreply with hreply | hreply
    · cases c with
      | addFrame t x => simp [conversation] at hreply
      | getFrame ts =>
        obtain rfl : reply = (b.getFrame ts).1 := by simpa [conversation, query] using hreply
        exact hb.blank hsource
    · exact ih hnext reply hreply hsource

theorem Shelves.stored {S : Shelf RgbdFrame} (hb : Shelves w h L b (some S)) :
    b.fragments.length = S.stored := by
  have hlength := hb.length
  rw [Shelf.stored]
  omega

theorem Shelves.run (hb : Shelves w h L b S) (calls : List Call) :
    ((conversation false).run b calls).2.map Reply.source =
      ((shelf L).run S (calls.map request)).2 := by
  have hrun := ((shelving w h L).run b S hb calls).2
  rwa [List.filterMap_eq_map, List.filterMap_eq_map] at hrun

end Buffer

section Sessions
variable (w h : ℤ) {L : ℚ} (delays : List ℚ) {rounds : List (Round RgbdFrame)}
  {r : Round RgbdFrame}

theorem shelfAfter_rounds (rounds : List (Round RgbdFrame)) :
    shelfAfter L (rounds.flatMap (Round.calls delays)) =
      ((shelf L).run none (rounds.flatMap (Round.requests delays))).1 := by
  have hrequests : (rounds.flatMap (Round.calls delays)).map request =
      rounds.flatMap (Round.requests delays) := by
    rw [List.map_flatMap]
    exact List.flatMap_congr (fun r _ => r.calls_requests delays)
  rw [shelfAfter, hrequests]

/-- The replies of a steady round to its long delays are blank. -/
theorem Steady.replies (hL : 0 < L) (hsteady : Steady L (rounds ++ [r])) :
    ∀ p ∈ delays.zip ((conversation false).run
        (execute false w h L (rounds.flatMap (Round.calls delays))).1 (r.calls delays)).2,
      2 * L ≤ p.1 → p.2 = .blank w h := by
  intro p hp hlong
  have hshelves := execute_shelves w h L (rounds.flatMap (Round.calls delays))
  have hsources := hshelves.run (r.calls delays)
  rw [Round.calls_requests, shelfAfter_rounds] at hsources
  have hanswer : (p.1, p.2.source) ∈ delays.zip ((shelf L).run ((shelf L).run none
      (rounds.flatMap (Round.requests delays))).1 (r.requests delays)).2 := by
    rw [← hsources, List.zip_map_right]
    exact List.mem_map_of_mem hp
  apply hshelves.replies_blank (r.calls delays) p.2 (List.of_mem_zip hp).2
  exact Steady.answers hL hsteady _ hanswer hlong

theorem Steady.stored (hL : 0 < L) (hsteady : Steady L rounds) {d : ℚ} (hd : d ∈ delays)
    (hlong : 2 * L ≤ d) :
    ((execute false w h L (rounds.flatMap (Round.calls delays))).1.fragments.length : ℚ) <
      d / L + 2 := by
  have hshelves := execute_shelves w h L (rounds.flatMap (Round.calls delays))
  have hfollowed : Followed L delays rounds ((shelf L).run none
      (rounds.flatMap (Round.requests delays))).1 := Steady.followed hL hsteady
  rw [← shelfAfter_rounds] at hfollowed
  cases hS : shelfAfter L (rounds.flatMap (Round.calls delays)) with
  | none =>
    rw [hS] at hshelves
    have hnew : (execute false w h L (rounds.flatMap (Round.calls delays))).1 = .new w h L :=
      hshelves
    have hpos : 0 < d / L := div_pos (by linarith) hL
    rw [hnew, VideoBuffer.new, List.length_nil]
    push_cast
    linarith
  | some S =>
    rw [hS] at hshelves hfollowed
    rw [hshelves.stored]
    exact hfollowed.short hL hd hlong

theorem Steady.stored_within (hL : 0 < L) (hsteady : Steady L rounds) {d : ℚ} (hd : d ∈ delays)
    (hlong : 2 * L ≤ d) {calls : List Call}
    (hpre : calls <+: rounds.flatMap (Round.calls delays)) :
    ((execute false w h L calls).1.fragments.length : ℚ) < d / L + 3 := by
  have hshelves := execute_shelves w h L calls
  have hrequests := hpre.map request
  rw [List.map_flatMap, List.flatMap_congr (fun r _ => r.calls_requests delays)] at hrequests
  cases hS : shelfAfter L calls with
  | none =>
    rw [hS] at hshelves
    have hnew : (execute false w h L calls).1 = .new w h L := hshelves
    have hpos : 0 < d / L := div_pos (by linarith) hL
    rw [hnew, VideoBuffer.new, List.length_nil]
    push_cast
    linarith
  | some S =>
    rw [hS] at hshelves
    rw [hshelves.stored]
    exact hsteady.short_within hL hd hlong hrequests S hS

/-- In every session of steady rounds, whatever the delays: a delay of two windows or more is
always answered with a blank frame, and keeps the number of stored fragments bounded. -/
theorem steady_rounds_blank (w h : ℤ) (L : ℚ) (hL : 0 < L) (delays : List ℚ)
    (rounds : List (Round RgbdFrame)) (r : Round RgbdFrame)
    (hsteady : Steady L (rounds ++ [r])) :
    (∀ p ∈ delays.zip ((conversation false).run
        (execute false w h L (rounds.flatMap (Round.calls delays))).1 (r.calls delays)).2,
      2 * L ≤ p.1 → p.2 = .blank w h) ∧
    ∀ d ∈ delays, 2 * L ≤ d →
      ((execute false w h L ((rounds ++ [r]).flatMap (Round.calls delays))).1.fragments.length :
        ℚ) < d / L + 2 :=
  ⟨Steady.replies w h delays hL hsteady,
    fun _ hd hlong => Steady.stored w h delays hL hsteady hd hlong⟩

/-- A frame every ten seconds, for a minute. -/
def tenSeconds : List (Round RgbdFrame) :=
  [⟨0, some (1, .pixel 1)⟩, ⟨10, some (11, .pixel 2)⟩, ⟨20, some (21, .pixel 3)⟩,
    ⟨30, some (31, .pixel 4)⟩, ⟨40, some (41, .pixel 5)⟩, ⟨50, some (51, .pixel 6)⟩,
    ⟨60, some (61, .pixel 7)⟩]

/-- The first round in which the moment of a minute ago was recorded. -/
def lastRound : Round RgbdFrame := ⟨70, some (71, .pixel 8)⟩

theorem tenSeconds_steady : Steady 15 (tenSeconds ++ [lastRound]) := by
  simp only [Steady, tenSeconds, List.cons_append, List.nil_append, Guarded.cons_iff,
    Guarded.nil, and_true]
  refine ⟨?_, ?_, ?_, ?_, ?_, ?_, ?_, ?_⟩ <;> constructor <;> decide +kernel

/-- Rounds with the delays of the program. -/
theorem tenSeconds_blank :
    (∀ p ∈ ([60, 0] : List ℚ).zip ((conversation false).run
        (execute false 1280 720 15 (tenSeconds.flatMap (Round.calls [60, 0]))).1
        (lastRound.calls [60, 0])).2,
      2 * 15 ≤ p.1 → p.2 = .blank 1280 720) ∧
    ∀ d ∈ ([60, 0] : List ℚ), 2 * 15 ≤ d →
      ((execute false 1280 720 15 ((tenSeconds ++ [lastRound]).flatMap
        (Round.calls [60, 0]))).1.fragments.length : ℚ) < d / 15 + 2 :=
  steady_rounds_blank 1280 720 15 (by norm_num) [60, 0] tenSeconds lastRound tenSeconds_steady

end Sessions

end TimeRoom.Takes
