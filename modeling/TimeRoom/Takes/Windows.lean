import Mathlib.Data.List.Chain
import TimeRoom.Numeric.RateLimit
import TimeRoom.Takes.Recording

/-!
# How many takes a recording has

The clock moves through windows of length `L` from the first frame on.  The open
take follows the clock's window at a rate of one window per frame and is never
ahead of it, so the number of closed takes is the least raised window number.
The open take's window holds the newest frame exactly when it has caught up.
-/

namespace TimeRoom.Takes
open Numeric Recording

variable {X : Type*} {L : ℚ}

/-- The numbers of the windows that a sequence of times falls into. -/
def windows (L : ℚ) (times : List ℚ) : List ℤ := times.map (fun t => ⌊(t - times.headD 0) / L⌋)

@[simp] theorem windows_length (L : ℚ) (times : List ℚ) :
    (windows L times).length = times.length := List.length_map _

theorem windows_concat (L : ℚ) {times : List ℚ} (hne : times ≠ []) (t : ℚ) :
    windows L (times ++ [t]) = windows L times ++ [⌊(t - times.headD 0) / L⌋] := by
  cases times with
  | nil => exact absurd rfl hne
  | cons s times => simp [windows]

theorem windows_getElem (L : ℚ) (times : List ℚ) (hpos : 0 < times.length) (j : ℕ)
    (hj : j < times.length) (hj' : j < (windows L times).length) :
    (windows L times)[j] = ⌊(times[j] - times[0]) / L⌋ := by
  cases times with
  | nil => simp at hpos
  | cons s times =>
    simp only [windows, List.getElem_map, List.headD_cons, List.getElem_cons_zero]

theorem raised_windows (L : ℚ) (times : List ℚ) (hpos : 0 < times.length) :
    raised 1 (windows L times) = {q : ℤ | ∃ j, ∃ hj : j < times.length,
      q = ⌊(times[j] - times[0]) / L⌋ + (times.length - 1 - j : ℕ)} := by
  ext q
  simp only [raised, windows_length, nsmul_one, Set.mem_ofPred_eq]
  constructor
  · rintro ⟨j, hj, rfl⟩
    exact ⟨j, hj, by rw [windows_getElem L times hpos j hj]⟩
  · rintro ⟨j, hj, rfl⟩
    exact ⟨j, hj, by rw [windows_getElem L times hpos j hj]⟩

theorem exceeded_iff_lt (hL : 0 < L) (R : Recording X) (t : ℚ) :
    R.Exceeded L t ↔ (R.done.length : ℤ) + 1 ≤ ⌊(t - R.origin) / L⌋ := by
  rw [Int.le_floor, le_div_iff₀ hL, Exceeded, currentStart]
  push_cast
  constructor <;> intro h <;> linarith

/-- One frame: at most one more take, and none past the clock's window. -/
theorem record_count (hL : 0 < L) (R : Recording X) (p : ℚ × X)
    (hle : (R.done.length : ℤ) ≤ ⌊(p.1 - R.origin) / L⌋) :
    ((record L (some R) p).done.length : ℤ) =
      min ((R.done.length : ℤ) + 1) ⌊(p.1 - R.origin) / L⌋ := by
  by_cases hx : R.Exceeded L p.1
  · rw [record_next hx, min_eq_left ((exceeded_iff_lt hL R p.1).mp hx)]
    simp
  · have hlt := mt (exceeded_iff_lt hL R p.1).mpr hx
    rw [record_same hx, min_eq_right (by omega)]
    change (R.done.length : ℤ) = _
    omega

theorem record_origin (R : Recording X) (p : ℚ × X) :
    (record L (some R) p).origin = R.origin := by
  by_cases hx : R.Exceeded L p.1
  · rw [record_next hx]
  · rw [record_same hx]

theorem cut_origin {xs : List (ℚ × X)} {R : Recording X} (h : cut L xs = some R) :
    R.origin = (xs.map Prod.fst).headD 0 := by
  induction xs using List.reverseRecOn generalizing R with
  | nil => simp [cut] at h
  | append_singleton xs p ih =>
    rw [cut_concat, Option.some_inj] at h
    subst h
    cases hR : cut L xs with
    | none =>
      obtain rfl := (cut_eq_none_iff L xs).mp hR
      rfl
    | some R =>
      have hne : xs ≠ [] := fun h => by simp [(cut_eq_none_iff L xs).mpr h] at hR
      rw [record_origin, ih hR]
      cases xs with
      | nil => exact absurd rfl hne
      | cons q xs => rfl

theorem ne_nil_of_cut {xs : List (ℚ × X)} {R : Recording X} (h : cut L xs = some R) : xs ≠ [] := by
  intro hnil
  rw [(cut_eq_none_iff L xs).mpr hnil] at h
  cases h

/-- The open take is not ahead of a clock that does not run backwards. -/
private theorem not_ahead (hL : 0 < L) {xs : List (ℚ × X)} {p : ℚ × X}
    (hmono : ((xs ++ [p]).map Prod.fst).Pairwise (· ≤ ·)) {R : Recording X}
    (h : cut L xs = some R)
    (hleast : IsLeast (raised 1 (windows L (xs.map Prod.fst))) (R.done.length : ℤ)) :
    (R.done.length : ℤ) ≤ ⌊(p.1 - R.origin) / L⌋ := by
  have hne := ne_nil_of_cut h
  rw [cut_origin h]
  cases xs using List.reverseRecOn with
  | nil => exact absurd rfl hne
  | append_singleton xs q =>
    have hqp : q.1 ≤ p.1 := by
      rw [List.map_append, List.pairwise_append] at hmono
      exact hmono.2.2 q.1 (by simp) p.1 (by simp)
    have hq : (R.done.length : ℤ) ≤ ⌊(q.1 - ((xs ++ [q]).map Prod.fst).headD 0) / L⌋ := by
      rw [windows, List.map_map, List.map_append, List.map_singleton] at hleast
      exact isLeast_raised_le_last hleast
    apply hq.trans
    apply Int.floor_le_floor
    gcongr

/-- Closed form: the number of closed takes is the least raised window number. -/
theorem cut_count (hL : 0 < L) {xs : List (ℚ × X)} (hmono : (xs.map Prod.fst).Pairwise (· ≤ ·))
    {R : Recording X} (h : cut L xs = some R) :
    IsLeast (raised 1 (windows L (xs.map Prod.fst))) (R.done.length : ℤ) := by
  induction xs using List.reverseRecOn generalizing R with
  | nil => simp [cut] at h
  | append_singleton xs p ih =>
    rw [cut_concat, Option.some_inj] at h
    subst h
    cases hR : cut L xs with
    | none =>
      obtain rfl := (cut_eq_none_iff L xs).mp hR
      simp [windows, raised_singleton, record_none]
    | some R =>
      have hxs : (xs.map Prod.fst).Pairwise (· ≤ ·) := by
        rw [List.map_append, List.pairwise_append] at hmono
        exact hmono.1
      have hleast := ih hxs hR
      have hne : xs.map Prod.fst ≠ [] := by simpa using ne_nil_of_cut hR
      rw [record_count hL R p (not_ahead hL hmono hR hleast), List.map_append, List.map_singleton,
        windows_concat L hne, ← cut_origin hR]
      exact isLeast_raised_concat hleast _

theorem currentStart_le (hL : 0 < L) {xs : List (ℚ × X)} {p : ℚ × X}
    (hmono : ((xs ++ [p]).map Prod.fst).Pairwise (· ≤ ·)) {R : Recording X}
    (h : cut L (xs ++ [p]) = some R) : R.currentStart L ≤ p.1 := by
  have hle : (R.done.length : ℤ) ≤ ⌊(p.1 - R.origin) / L⌋ := by
    have hleast := cut_count hL hmono h
    rw [cut_origin h]
    rw [windows, List.map_map, List.map_append, List.map_singleton] at hleast
    exact isLeast_raised_le_last hleast
  rw [Int.le_floor, le_div_iff₀ hL] at hle
  rw [currentStart]
  push_cast at hle
  linarith

/-- The window of the open take holds the time `t`. -/
def Holds (L : ℚ) (R : Recording X) (t : ℚ) : Prop :=
  R.currentStart L ≤ t ∧ t < R.currentStart L + L

theorem holds_iff (hL : 0 < L) (R : Recording X) (t : ℚ) :
    Holds L R t ↔ (R.done.length : ℤ) = ⌊(t - R.origin) / L⌋ := by
  rw [eq_comm, Int.floor_eq_iff, le_div_iff₀ hL, div_lt_iff₀ hL, Holds, currentStart]
  push_cast
  constructor <;> rintro ⟨h₁, h₂⟩ <;> constructor <;> linarith

/-- Consecutive frames are in the same window or in adjacent ones. -/
def NoSkippedWindow (L : ℚ) (times : List ℚ) : Prop :=
  (windows L times).IsChain (fun q r => r ≤ q + 1)

instance (L : ℚ) (times : List ℚ) : Decidable (NoSkippedWindow L times) :=
  inferInstanceAs (Decidable (List.IsChain _ _))

theorem noSkippedWindow_concat (L : ℚ) (times : List ℚ) (s t : ℚ) :
    NoSkippedWindow L (times ++ [s] ++ [t]) ↔ NoSkippedWindow L (times ++ [s]) ∧
      ⌊(t - (times ++ [s]).headD 0) / L⌋ ≤ ⌊(s - (times ++ [s]).headD 0) / L⌋ + 1 := by
  have hlast : (windows L (times ++ [s])).getLast? = some ⌊(s - (times ++ [s]).headD 0) / L⌋ := by
    rw [windows, List.map_append, List.map_singleton, List.getLast?_concat]
  rw [NoSkippedWindow, windows_concat L (by simp), List.isChain_append, hlast]
  simp [NoSkippedWindow]

theorem holds_record_iff (hL : 0 < L) {xs : List (ℚ × X)} {q p : ℚ × X}
    (hmono : ((xs ++ [q] ++ [p]).map Prod.fst).Pairwise (· ≤ ·)) {R : Recording X}
    (hR : cut L (xs ++ [q]) = some R) (hq : Holds L R q.1) :
    Holds L (record L (some R) p) p.1 ↔
      ⌊(p.1 - R.origin) / L⌋ ≤ ⌊(q.1 - R.origin) / L⌋ + 1 := by
  have hxs : ((xs ++ [q]).map Prod.fst).Pairwise (· ≤ ·) := by
    rw [List.map_append, List.pairwise_append] at hmono
    exact hmono.1
  have hahead := not_ahead hL hmono hR (cut_count hL hxs hR)
  rw [holds_iff hL] at hq ⊢
  rw [record_origin, record_count hL R p hahead, hq, min_eq_right_iff]

/-- While no window is skipped, the open take's window holds the newest frame. -/
theorem holds_newest (hL : 0 < L) {xs : List (ℚ × X)} {p : ℚ × X}
    (hmono : ((xs ++ [p]).map Prod.fst).Pairwise (· ≤ ·))
    (hskip : NoSkippedWindow L ((xs ++ [p]).map Prod.fst)) :
    Holds L (record L (cut L xs) p) p.1 := by
  induction xs using List.reverseRecOn generalizing p with
  | nil => simp [cut, record_none, Holds, currentStart, hL]
  | append_singleton xs q ih =>
    have hxs : ((xs ++ [q]).map Prod.fst).Pairwise (· ≤ ·) := by
      rw [List.map_append, List.pairwise_append] at hmono
      exact hmono.1
    have hR := cut_concat L xs q
    rw [List.map_append, List.map_append, List.map_singleton, List.map_singleton,
      noSkippedWindow_concat, ← List.map_singleton, ← List.map_append, ← cut_origin hR] at hskip
    rw [hR, holds_record_iff hL hmono hR (ih hxs hskip.1)]
    exact hskip.2

theorem noSkippedWindow_step (hL : 0 < L) {xs : List (ℚ × X)} {p : ℚ × X}
    (hmono : ((xs ++ [p]).map Prod.fst).Pairwise (· ≤ ·)) :
    NoSkippedWindow L ((xs ++ [p]).map Prod.fst) ↔
      NoSkippedWindow L (xs.map Prod.fst) ∧ Holds L (record L (cut L xs) p) p.1 := by
  constructor
  · intro hskip
    refine ⟨?_, holds_newest hL hmono hskip⟩
    cases xs using List.reverseRecOn with
    | nil => exact List.isChain_nil
    | append_singleton xs q =>
      rw [List.map_append, List.map_append, List.map_singleton, List.map_singleton,
        noSkippedWindow_concat] at hskip
      rw [List.map_append, List.map_singleton]
      exact hskip.1
  · rintro ⟨hskip, hholds⟩
    cases xs using List.reverseRecOn with
    | nil => simp [NoSkippedWindow, windows]
    | append_singleton xs q =>
      have hxs : ((xs ++ [q]).map Prod.fst).Pairwise (· ≤ ·) := by
        rw [List.map_append, List.pairwise_append] at hmono
        exact hmono.1
      have hR := cut_concat L xs q
      rw [hR, holds_record_iff hL hmono hR (holds_newest hL hxs hskip), cut_origin hR] at hholds
      rw [List.map_append, List.map_singleton] at hskip hholds
      rw [List.map_append, List.map_append, List.map_singleton, List.map_singleton,
        noSkippedWindow_concat]
      exact ⟨hskip, hholds⟩

end TimeRoom.Takes
