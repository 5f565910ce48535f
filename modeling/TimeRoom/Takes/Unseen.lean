import TimeRoom.Takes.Delays
import TimeRoom.Takes.Pictures

/-!
# No delay shows the past

A query that looks back further than the newest frame is old comes to a closed
take while the window of that take is not over, and so loses it; and the players
of the open take have no file.  So in steady rounds nothing is ever shown for such
a delay, however short it is compared with a window.
-/

namespace TimeRoom.Takes
open TimeRoom.Frame Buffer Runs VideoBuffer Recording

variable {X : Type*} {L δ s s' t d timestamp : ℚ} {S : Shelf X} {delays ds : List ℚ}
  {rounds : List (Round X)} {r : Round X}

/-- The oldest take on the shelf is the open one, or begins after the moment `s`. -/
def Shelf.Hides (L s : ℚ) (S : Shelf X) : Prop :=
  S.oldest = S.recording.done.length ∨ s < S.start L

namespace Shelf.Hides

theorem mono (h : S.Hides L s) (hs : s' ≤ s) : S.Hides L s' :=
  h.imp_right hs.trans_lt

/-- What ended after `timestamp` is not shown for it. -/
theorem picture (h : S.Hides L (timestamp - L)) : S.picture L timestamp = none := by
  rw [Shelf.picture]
  rcases h with hopen | hlate
  · rw [hopen, List.getElem?_eq_none le_rfl]
    split <;> rfl
  · exact if_neg (by linarith)

theorem lt_start (h : S.Hides L s) (hs : s < S.recording.currentStart L) : s < S.start L := by
  rcases h with hopen | hlate
  · rwa [Shelf.start, Recording.start, hopen, ← Recording.currentStart]
  · exact hlate

theorem ask (h : S.Hides L s) (timestamp : ℚ) :
    (S.ask L timestamp).2.Hides L s := by
  rw [Shelf.ask]
  split
  · exact h
  · split
    · exact Or.inl rfl
    · exact h

theorem ask_self (h : S.Hides L (timestamp - L)) : (S.ask L timestamp).2.Hides L timestamp := by
  rw [Shelf.ask]
  split_ifs with hearly hlose
  · exact Or.inr hearly
  · exact Or.inl rfl
  · rcases h with hopen | hlate
    · exact Or.inl hopen
    · have hlast : ¬ S.oldest < S.recording.done.length := by
        intro hmore
        exact hlose ⟨hmore, by linarith⟩
      exact Or.inl (le_antisymm S.oldest_le (not_lt.mp hlast))

theorem put (h : S.Hides L s) (hs : s < S.recording.currentStart L) (p : ℚ × X) :
    (Shelf.put L (some S) p).Hides L s := by
  have hstart : (Shelf.put L (some S) p).start L = S.start L := by
    simp only [Shelf.start, Recording.start, Shelf.put, record_origin]
  right
  rw [hstart]
  exact h.lt_start hs

end Shelf.Hides

/-- The newest frame is less than `δ` old at the beginning of every round. -/
def Recent (δ : ℚ) (rounds : List (Round X)) : Prop :=
  Guarded (fun before r => ∀ c ∈ newest before, r.time < c + δ) rounds

/-- What holds between two rounds: the oldest closed take begins after all long delays. -/
def Unseen (L δ : ℚ) (delays : List ℚ) (rounds : List (Round X)) : Option (Shelf X) → Prop
  | none => True
  | some S => ∃ q, rounds.getLast? = some q ∧ ∀ d ∈ delays, δ ≤ d → S.Hides L (q.time - d)

section Rounds
variable {S : Option (Shelf X)} (hS : Unseen L δ delays rounds S)
  (hfollowed : Followed L delays rounds S) (hr : KeepsUp L rounds r)
  (hrecent : ∀ c ∈ newest rounds, r.time < c + δ)

include hS hfollowed hr hrecent

theorem Unseen.recorded :
    ∀ S' ∈ r.recorded L S, ∀ d ∈ delays, δ ≤ d → S'.Hides L (r.time - d - L) := by
  intro S' hS' d hd hlong
  rw [Round.recorded] at hS'
  cases S with
  | none =>
    cases hframe : r.frame with
    | none =>
      rw [hframe] at hS'
      cases hS'
    | some p =>
      rw [hframe] at hS'
      obtain rfl : Shelf.put L none p = S' := Option.some_inj.mp hS'
      exact Or.inl rfl
  | some S =>
    obtain ⟨q, hq, hhides⟩ := hS
    obtain ⟨-, c, -, hc, -, -, hend, -⟩ := hfollowed
    have hround := (hr.round q hq).2
    have hnewest := hrecent c hc
    have hbefore : S.Hides L (r.time - d - L) := (hhides d hd hlong).mono (by linarith)
    cases hframe : r.frame with
    | none =>
      rw [hframe] at hS'
      obtain rfl : S = S' := Option.some_inj.mp hS'
      exact hbefore
    | some p =>
      rw [hframe] at hS'
      obtain rfl : Shelf.put L (some S) p = S' := Option.some_inj.mp hS'
      exact hbefore.put (by linarith) p

theorem Unseen.asks (hds : ∀ d ∈ ds, d ∈ delays) :
    ∀ S' ∈ ((shelf L).run (r.recorded L S) (ds.map (fun d => .ask (r.time - d)))).1,
      (∀ d ∈ delays, δ ≤ d → S'.Hides L (r.time - d - L)) ∧
        ∀ d ∈ ds, δ ≤ d → S'.Hides L (r.time - d) := by
  induction ds using List.reverseRecOn with
  | nil =>
    intro S' hS'
    exact ⟨hS.recorded hfollowed hr hrecent S' hS', by simp⟩
  | append_singleton ds e ih =>
    intro S' hS'
    rw [List.map_append, List.map_singleton, Machine.run_concat] at hS'
    have hbefore := ih (fun d hd => hds d (List.mem_append_left _ hd))
    cases hrun : ((shelf L).run (r.recorded L S) (ds.map (fun d => .ask (r.time - d)))).1 with
    | none =>
      rw [hrun] at hS'
      cases hS'
    | some S'' =>
      rw [hrun] at hS'
      obtain rfl : (S''.ask L (r.time - e)).2 = S' := Option.some_inj.mp hS'
      obtain ⟨hlater, hasked⟩ := hbefore S'' hrun
      refine ⟨fun d hd hlong => (hlater d hd hlong).ask _, ?_⟩
      intro d hd hlong
      rcases List.mem_append.mp hd with hd | hd
      · exact (hasked d hd hlong).ask _
      · rw [List.mem_singleton.mp hd] at hlong ⊢
        exact (hlater e (hds e (by simp)) hlong).ask_self

end Rounds

theorem Steady.unseen (hL : 0 < L) (hsteady : Steady L rounds) (hrecent : Recent δ rounds) :
    Unseen L δ delays rounds ((shelf L).run none (rounds.flatMap (Round.requests delays))).1 := by
  induction rounds using List.reverseRecOn with
  | nil => trivial
  | append_singleton rounds r ih =>
    have hparts := (Guarded.concat_iff _ _ _).mp hsteady
    have hrecents := (Guarded.concat_iff _ _ _).mp hrecent
    have hasks := (ih hparts.1 hrecents.1).asks (Steady.followed hL hparts.1) hparts.2 hrecents.2
      (fun d hd => hd)
    rw [List.flatMap_append, Machine.run_append, List.flatMap_singleton, Round.run_requests]
    cases hrun : ((shelf L).run (r.recorded L ((shelf L).run none
        (rounds.flatMap (Round.requests delays))).1)
        (delays.map (fun d => .ask (r.time - d)))).1 with
    | none => trivial
    | some S => exact ⟨r, by simp, (hasks S hrun).2⟩

/-- In every session of rounds that are steady and have frames newer than `δ`: a query of a
round that looks back by `δ` or more shows nothing. -/
theorem steady_rounds_unseen (playback : Playback) (hplays : PlaysEvenly playback) (w h : ℤ)
    (L : ℚ) (hL : 0 < L) (δ : ℚ) (ds ds' : List ℚ) (d : ℚ)
    (hd : δ ≤ d) (rounds : List (Round RgbdFrame)) (r : Round RgbdFrame)
    (hsteady : Steady L (rounds ++ [r])) (hrecent : Recent δ (rounds ++ [r])) :
    let b := execute false w h L
      (rounds.flatMap (Round.calls (ds ++ d :: ds')) ++ r.calls ds)
    shownPicture playback b.2 (b.1.getFrame (r.time - d)).1 = none := by
  have hparts := (Guarded.concat_iff _ _ _).mp hsteady
  have hrecents := (Guarded.concat_iff _ _ _).mp hrecent
  have hunseen : Unseen L δ (ds ++ d :: ds') rounds _ := Steady.unseen hL hparts.1 hrecents.1
  have hasks := hunseen.asks (Steady.followed hL hparts.1) hparts.2 hrecents.2
    (fun e he => List.mem_append_left (d :: ds') he)
  have hshelf : shelfAfter L (rounds.flatMap (Round.calls (ds ++ d :: ds')) ++ r.calls ds) =
      ((shelf L).run (r.recorded L ((shelf L).run none
        (rounds.flatMap (Round.requests (ds ++ d :: ds')))).1)
        (ds.map (fun d => .ask (r.time - d)))).1 := by
    rw [shelfAfter, List.map_append, Machine.run_append, ← shelfAfter, shelfAfter_rounds,
      Round.calls_requests, Round.run_requests]
  rw [← hshelf] at hasks
  simp only [execute_picture hplays w h hL]
  cases hS : shelfAfter L (rounds.flatMap (Round.calls (ds ++ d :: ds')) ++ r.calls ds) with
  | none => rfl
  | some S =>
    have hhides := (hasks S hS).1 d (by simp) hd
    rw [Option.elim_some, hhides.picture]
    rfl

/-- A frame every ten seconds, and a query that looks back by as much. -/
theorem tenSeconds_unseen :
    let b := execute false 1280 720 15
      (tenSeconds.flatMap (Round.calls ([] ++ 10 :: [0])) ++ lastRound.calls [])
    shownPicture closedPlayback b.2 (b.1.getFrame (lastRound.time - 10)).1 = none := by
  apply steady_rounds_unseen closedPlayback closedPlayback_even 1280 720 15 (by norm_num) 10 []
    [0] 10 le_rfl tenSeconds lastRound tenSeconds_steady
  simp only [Recent, tenSeconds, List.cons_append, List.nil_append, Guarded.cons_iff,
    Guarded.nil, and_true]
  decide +kernel

end TimeRoom.Takes
