import TimeRoom.Buffer.VideoBuffer

/-!
# What the buffer is for: a recording cut into takes

An abstract recording is a sequence of nonempty takes, the last one still open.
Take number `k`, counted from zero, belongs to the window that starts at
`origin + k * L`, so the starts are determined by the type.  A frame goes to the
open take, or closes it and opens the next one.  The abstract recorder also says
which command goes to which take's recorder.
-/

namespace TimeRoom.Takes
open TimeRoom.Frame Buffer Runs

structure Take (X : Type*) where
  first : X
  rest : List X

def Take.frames {X : Type*} (k : Take X) : List X := k.first :: k.rest

def Take.extend {X : Type*} (k : Take X) (x : X) : Take X := { k with rest := k.rest ++ [x] }

theorem Take.frames_extend {X : Type*} (k : Take X) (x : X) :
    (k.extend x).frames = k.frames ++ [x] := rfl

/-- A recording that has received at least one frame. -/
structure Recording (X : Type*) where
  origin : ℚ
  done : List (Take X)
  current : Take X

namespace Recording
variable {X : Type*}

def currentStart (L : ℚ) (R : Recording X) : ℚ := R.origin + R.done.length * L

/-- The open take's window is over at time `t`. -/
def Exceeded (L : ℚ) (R : Recording X) (t : ℚ) : Prop := t - R.currentStart L ≥ L

instance (L : ℚ) (R : Recording X) (t : ℚ) : Decidable (R.Exceeded L t) :=
  inferInstanceAs (Decidable (_ ≥ _))

/-- One timed frame; at most one take is closed. -/
def record (L : ℚ) : Option (Recording X) → ℚ × X → Recording X
  | none, p => ⟨p.1, [], ⟨p.2, []⟩⟩
  | some R, p =>
    if R.Exceeded L p.1 then ⟨R.origin, R.done ++ [R.current], ⟨p.2, []⟩⟩
    else ⟨R.origin, R.done, R.current.extend p.2⟩

theorem record_none (L : ℚ) (p : ℚ × X) : record L none p = ⟨p.1, [], ⟨p.2, []⟩⟩ := rfl

theorem record_next {L : ℚ} {R : Recording X} {p : ℚ × X} (h : R.Exceeded L p.1) :
    record L (some R) p = ⟨R.origin, R.done ++ [R.current], ⟨p.2, []⟩⟩ := if_pos h

theorem record_same {L : ℚ} {R : Recording X} {p : ℚ × X} (h : ¬ R.Exceeded L p.1) :
    record L (some R) p = ⟨R.origin, R.done, R.current.extend p.2⟩ := if_neg h

def frames (R : Recording X) : List X := R.done.flatMap Take.frames ++ R.current.frames

theorem record_frames (L : ℚ) (R : Option (Recording X)) (p : ℚ × X) :
    (record L R p).frames = R.elim [] frames ++ [p.2] := by
  cases R with
  | none => rfl
  | some R =>
    by_cases h : R.Exceeded L p.1
    · simp [record_next h, frames, Take.frames]
    · simp [record_same h, frames, Take.frames_extend]

/-- The takes of a sequence of timed frames; `none` before the first one. -/
def cut (L : ℚ) (xs : List (ℚ × X)) : Option (Recording X) :=
  xs.foldl (fun R p => some (record L R p)) none

theorem cut_concat (L : ℚ) (xs : List (ℚ × X)) (p : ℚ × X) :
    cut L (xs ++ [p]) = some (record L (cut L xs) p) := by
  simp [cut, List.foldl_append]

theorem cut_eq_none_iff (L : ℚ) (xs : List (ℚ × X)) : cut L xs = none ↔ xs = [] := by
  cases xs using List.reverseRecOn with
  | nil => simp [cut]
  | append_singleton xs x => simp [cut_concat]

/-- Cutting loses, adds and reorders nothing. -/
theorem cut_frames (L : ℚ) (xs : List (ℚ × X)) :
    (cut L xs).elim [] frames = xs.map Prod.snd := by
  induction xs using List.reverseRecOn with
  | nil => rfl
  | append_singleton xs p ih =>
    rw [cut_concat, Option.elim_some, record_frames, ih, List.map_append, List.map_singleton]

end Recording

open Recording

/-! ### The commands of a recording -/

section Commands
variable (w h : ℤ)

/-- What the recorder of an open take has received. -/
def takeLog (i : ℕ) (frames : List RgbdFrame) : List Command :=
  .setup (fragmentFileName i ++ "_rgb.mov") w h 15 :: .start ::
    frames.map (fun x => .addFrame x.colorImage)

theorem takeLog_concat (i : ℕ) (frames : List RgbdFrame) (x : RgbdFrame) :
    takeLog w h i (frames ++ [x]) = takeLog w h i frames ++ [.addFrame x.colorImage] := by
  simp [takeLog]

/-- The log of take number `i`, counted from one: closed if the take is done. -/
def log (R : Recording RgbdFrame) : ℕ → List Command
  | 0 => []
  | j + 1 =>
    if hj : j < R.done.length then takeLog w h (j + 1) R.done[j].frames ++ [.close]
    else if j = R.done.length then takeLog w h (j + 1) R.current.frames else []

theorem log_done (R : Recording RgbdFrame) {j : ℕ} (hj : j < R.done.length) :
    log w h R (j + 1) = takeLog w h (j + 1) R.done[j].frames ++ [.close] := dif_pos hj

theorem log_current (R : Recording RgbdFrame) :
    log w h R (R.done.length + 1) = takeLog w h (R.done.length + 1) R.current.frames := by
  simp [log]

theorem log_future (R : Recording RgbdFrame) {j : ℕ} (hj : R.done.length < j) :
    log w h R (j + 1) = [] := by
  simp [log, hj.not_gt, hj.ne']

/-- Commands caused by one timed frame. -/
def orders (L : ℚ) : Option (Recording RgbdFrame) → ℚ × RgbdFrame → List (ℕ × Channel × Command)
  | none, p => (takeLog w h 1 [p.2]).map (fun c => (1, .rgb, c))
  | some R, p =>
    let i := R.done.length + 1
    if R.Exceeded L p.1 then
      (i, .rgb, .close) :: (takeLog w h (i + 1) [p.2]).map (fun c => (i + 1, .rgb, c))
    else [(i, .rgb, .addFrame p.2.colorImage)]

theorem addFrame_mem_orders (L : ℚ) (R : Option (Recording RgbdFrame)) (p : ℚ × RgbdFrame)
    (i : ℕ) : (i, .rgb, .addFrame p.2.colorImage) ∈ orders w h L R p ↔
      i = (record L R p).done.length + 1 := by
  cases R with
  | none => simp [orders, takeLog, record_none, eq_comm]
  | some R =>
    by_cases hx : R.Exceeded L p.1
    · simp [orders, hx, record_next hx, takeLog, eq_comm]
    · simp [orders, hx, record_same hx]

/-- The abstract recorder. -/
def recorder (L : ℚ) :
    Machine (Option (Recording RgbdFrame)) (ℚ × RgbdFrame) (ℕ × Channel × Command) where
  step R p := (some (record L R p), orders w h L R p)

theorem recorder_run_fst (L : ℚ) (xs : List (ℚ × RgbdFrame)) :
    ((recorder w h L).run none xs).1 = cut L xs := by
  induction xs using List.reverseRecOn with
  | nil => rfl
  | append_singleton xs x ih =>
    rw [Machine.run_concat, cut_concat, ← ih]
    rfl

private theorem log_next (R : Recording RgbdFrame) (x : RgbdFrame) (j : ℕ) :
    log w h ⟨R.origin, R.done ++ [R.current], ⟨x, []⟩⟩ (j + 1) =
      log w h R (j + 1) ++ (if R.done.length = j then [.close] else []) ++
        (if R.done.length + 1 = j then takeLog w h (j + 1) [x] else []) := by
  rcases lt_trichotomy j R.done.length with hj | rfl | hj
  · have hlt : j < (R.done ++ [R.current]).length := by rw [List.length_append]; omega
    rw [log_done w h ⟨_, _, _⟩ hlt, log_done w h R hj, if_neg hj.ne', if_neg (by omega)]
    simp [List.getElem_append_left hj]
  · rw [log_done w h ⟨_, _, _⟩ (by simp), log_current]
    simp
  · rw [log_future w h R hj, if_neg hj.ne]
    by_cases he : R.done.length + 1 = j
    · subst he
      simpa [Take.frames] using log_current w h ⟨R.origin, R.done ++ [R.current], ⟨x, []⟩⟩
    · have hlt : (R.done ++ [R.current]).length < j := by
        rw [List.length_append, List.length_singleton]
        omega
      rw [log_future w h ⟨_, _, _⟩ hlt, if_neg he]
      rfl

private theorem log_same (R : Recording RgbdFrame) (x : RgbdFrame) (j : ℕ) :
    log w h ⟨R.origin, R.done, R.current.extend x⟩ (j + 1) =
      log w h R (j + 1) ++ (if R.done.length = j then [.addFrame x.colorImage] else []) := by
  rcases lt_trichotomy j R.done.length with hj | rfl | hj
  · rw [log_done w h R hj, log_done w h ⟨R.origin, R.done, R.current.extend x⟩ hj,
      if_neg hj.ne', List.append_nil]
  · rw [log_current w h R, log_current w h ⟨R.origin, R.done, R.current.extend x⟩]
    simp [Take.frames_extend, takeLog_concat]
  · rw [log_future w h R hj, log_future w h ⟨R.origin, R.done, R.current.extend x⟩ hj,
      if_neg hj.ne]
    rfl

/-- One frame extends the log of the take it goes to, closes the take before it,
and touches no other recorder. -/
theorem log_record (L : ℚ) (R : Option (Recording RgbdFrame)) (p : ℚ × RgbdFrame) (i : ℕ) :
    log w h (record L R p) i = R.elim [] (log w h · i) ++ received i .rgb (orders w h L R p) := by
  cases R with
  | none =>
    rw [orders, received_map]
    match i with
    | 0 => simp [log]
    | 1 => simp [log, record_none, Take.frames]
    | j + 2 => simp [log, record_none]
  | some R =>
    match i with
    | 0 =>
      simp only [orders, Option.elim_some, log, List.nil_append]
      split <;> simp [received_cons, received_map]
    | j + 1 =>
      by_cases hx : R.Exceeded L p.1
      · rw [orders, if_pos hx, record_next hx, Option.elim_some, log_next, List.append_assoc]
        congr 1
        by_cases he : R.done.length + 1 = j
        · subst he
          simp [received_cons, received_map]
        · simp [received_cons, received_map, he]
      · rw [orders, if_neg hx, record_same hx, Option.elim_some, log_same]
        simp [received_cons]

theorem received_depth_orders (L : ℚ) (R : Option (Recording RgbdFrame)) (p : ℚ × RgbdFrame)
    (i : ℕ) : received i .depth (orders w h L R p) = [] := by
  cases R with
  | none => simp [orders, received_map]
  | some R =>
    simp only [orders]
    split <;> simp [received_cons, received_map]

theorem received_run (L : ℚ) (xs : List (ℚ × RgbdFrame)) (i : ℕ) :
    received i .rgb ((recorder w h L).run none xs).2 = (cut L xs).elim [] (log w h · i) ∧
      received i .depth ((recorder w h L).run none xs).2 = [] := by
  induction xs using List.reverseRecOn with
  | nil => exact ⟨rfl, rfl⟩
  | append_singleton xs p ih =>
    have hstep : ((recorder w h L).step ((recorder w h L).run none xs).1 p).2 =
        orders w h L (cut L xs) p := by
      rw [recorder_run_fst]
      rfl
    rw [Machine.run_concat, received_append, received_append, ih.1, ih.2, hstep,
      received_depth_orders, cut_concat, Option.elim_some, log_record]
    exact ⟨rfl, rfl⟩

theorem createdFragments_run (L : ℚ) (xs : List (ℚ × RgbdFrame)) :
    createdFragments ((recorder w h L).run none xs).2 =
      List.range' 1 ((cut L xs).elim 0 (·.done.length + 1)) := by
  induction xs using List.reverseRecOn with
  | nil => rfl
  | append_singleton xs p ih =>
    rw [Machine.run_concat, createdFragments, List.filterMap_append, ← createdFragments, ih,
      recorder_run_fst, cut_concat, recorder]
    cases cut L xs with
    | none => rfl
    | some R =>
      by_cases hx : R.Exceeded L p.1
      · simp only [Option.elim_some, record_next hx, List.length_append, List.length_singleton]
        rw [List.range'_concat (n := R.done.length + 1), one_mul, add_comm 1]
        simp [orders, hx, takeLog]
      · simp [orders, hx, record_same hx]

/-- Every frame is sent once, and the newest one to the open take. -/
theorem frameReceivers_run (L : ℚ) (xs : List (ℚ × RgbdFrame)) (p : ℚ × RgbdFrame) :
    frameReceivers ((recorder w h L).run none (xs ++ [p])).2 =
      frameReceivers ((recorder w h L).run none xs).2 ++
        [(record L (cut L xs) p).done.length + 1] := by
  rw [Machine.run_concat, frameReceivers, List.filterMap_append, ← frameReceivers,
    recorder_run_fst, recorder]
  congr 1
  cases cut L xs with
  | none => rfl
  | some R =>
    by_cases hx : R.Exceeded L p.1
    · simp [orders, hx, record_next hx, takeLog]
    · simp [orders, hx, record_same hx]

end Commands

end TimeRoom.Takes
