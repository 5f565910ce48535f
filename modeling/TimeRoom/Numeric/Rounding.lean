import Mathlib.Data.Rat.Floor
import Mathlib.Algebra.Order.Group.MinMax
import Mathlib.Algebra.Order.Round
import Mathlib.Algebra.Order.Archimedean.Basic
import Mathlib.Data.Int.ConditionallyCompleteOrder
import Mathlib.Tactic.Linarith

/-!
# Rounding to the nearest integer, saturation, and their composed error

A rounding mode is any monotone map to a nearest integer; how it breaks ties
is left open.  Saturation clips to a range of natural numbers.  The results
bound the error of a saturated rounding against the clipped exact value.
-/

namespace TimeRoom.Numeric

/-- A monotone rounding to a nearest integer, with any tie rule. -/
structure RoundNearest where
  toFun : ℚ → ℤ
  mono : Monotone toFun
  nearest : ∀ x, |(toFun x : ℚ) - x| ≤ 1 / 2

instance : CoeFun RoundNearest (fun _ => ℚ → ℤ) := ⟨RoundNearest.toFun⟩

def RoundNearest.halfUp : RoundNearest where
  toFun := round
  mono := by
    intro x y hxy
    rw [round_eq, round_eq]
    exact Int.floor_mono (by linarith)
  nearest x := by
    rw [abs_sub_comm]
    exact abs_sub_round x

/-- A rounding is at most `n` below the midpoint after `n`, and at the midpoint if the tie
goes down. -/
theorem RoundNearest.le_iff (r : RoundNearest) (x : ℚ) (n : ℤ) :
    r x ≤ n ↔ x < n + 1 / 2 ∨ x = n + 1 / 2 ∧ r x = n := by
  have hnear := abs_le.mp (r.nearest x)
  constructor
  · intro hle
    have hle' : (r x : ℚ) ≤ n := by exact_mod_cast hle
    rcases lt_or_ge x (n + 1 / 2) with hx | hx
    · exact Or.inl hx
    · right
      have hmid : x = n + 1 / 2 := by linarith
      have heq : (r x : ℚ) = n := by linarith
      exact ⟨hmid, by exact_mod_cast heq⟩
  · rintro (hx | ⟨-, heq⟩)
    · have hlt : (r x : ℚ) < n + 1 := by linarith
      exact Int.lt_add_one_iff.mp (by exact_mod_cast hlt)
    · exact heq.le

/-- Clip an integer to `0 .. top`. -/
def saturate (top : ℕ) (z : ℤ) : ℕ := (min (max z 0) top).toNat

def clip (top : ℕ) (x : ℚ) : ℚ := min (max x 0) top

variable (top : ℕ)

theorem saturate_le (z : ℤ) : saturate top z ≤ top := by
  rw [saturate]
  omega

theorem saturate_mono {y z : ℤ} (h : y ≤ z) : saturate top y ≤ saturate top z := by
  rw [saturate, saturate]
  omega

theorem saturate_le_iff {k : ℕ} (hk : k < top) (z : ℤ) : saturate top z ≤ k ↔ z ≤ k := by
  rw [saturate]
  omega

theorem saturate_cast (z : ℤ) : (saturate top z : ℚ) = clip top z := by
  have hz : ((saturate top z : ℕ) : ℤ) = min (max z 0) top := by
    rw [saturate]
    omega
  rw [clip, ← Int.cast_natCast, hz]
  push_cast
  rfl

theorem clip_of_mem {x : ℚ} (h0 : 0 ≤ x) (htop : x ≤ top) : clip top x = x := by
  rw [clip, max_eq_left h0, min_eq_left htop]

theorem clip_of_nonneg {x : ℚ} (h0 : 0 ≤ x) : clip top x = min x top := by
  rw [clip, max_eq_left h0]

theorem abs_clip_sub_clip_le (x y : ℚ) : |clip top x - clip top y| ≤ |x - y| := by
  calc |clip top x - clip top y|
      ≤ max |max x 0 - max y 0| |(top : ℚ) - top| := abs_min_sub_min_le_max _ _ _ _
    _ = |max x 0 - max y 0| := by
        rw [sub_self, abs_zero]
        exact max_eq_left (abs_nonneg _)
    _ ≤ |x - y| := abs_max_sub_max_le_abs x y 0

/-- A saturated rounding is within half a unit of the clipped exact value. -/
theorem saturate_error (r : RoundNearest) (x : ℚ) :
    |(saturate top (r x) : ℚ) - clip top x| ≤ 1 / 2 := by
  rw [saturate_cast]
  exact (abs_clip_sub_clip_le top _ x).trans (r.nearest x)

/-- A second quantisation, on a scale of `top'` for `top`, adds half a unit to the scaled
error of the first. -/
theorem requantize_error (r r' : RoundNearest) (top top' : ℕ) (htop : 0 < top) (x : ℚ) :
    |(saturate top' (r' (saturate top (r x) * top' / top)) : ℚ) - clip top x * top' / top| ≤
      1 / 2 + top' / (2 * top) := by
  have htop' : (0 : ℚ) < top := by exact_mod_cast htop
  have hin : clip top' (saturate top (r x) * top' / top) = saturate top (r x) * top' / top := by
    apply clip_of_mem
    · positivity
    · have hle : (saturate top (r x) : ℚ) ≤ top := by exact_mod_cast saturate_le top (r x)
      rw [div_le_iff₀ htop']
      nlinarith [Nat.cast_nonneg (α := ℚ) top']
  have hsecond := saturate_error top' r' (saturate top (r x) * top' / top)
  have hfirst : |(saturate top (r x) : ℚ) * top' / top - clip top x * top' / top| ≤
      top' / (2 * top) := by
    have hfactor : (saturate top (r x) : ℚ) * top' / top - clip top x * top' / top =
        (saturate top (r x) - clip top x) * (top' / top) := by ring
    have hscale : (0 : ℚ) ≤ top' / top := by positivity
    calc |(saturate top (r x) : ℚ) * top' / top - clip top x * top' / top|
        = |(saturate top (r x) : ℚ) - clip top x| * (top' / top) := by
          rw [hfactor, abs_mul, abs_of_nonneg hscale]
      _ ≤ 1 / 2 * (top' / top) :=
          mul_le_mul_of_nonneg_right (saturate_error top r x) hscale
      _ = top' / (2 * top) := by ring
  rw [hin] at hsecond
  calc |(saturate top' (r' (saturate top (r x) * top' / top)) : ℚ) - clip top x * top' / top|
      ≤ |(saturate top' (r' (saturate top (r x) * top' / top)) : ℚ) -
            saturate top (r x) * top' / top| +
          |(saturate top (r x) : ℚ) * top' / top - clip top x * top' / top| :=
        abs_sub_le _ _ _
    _ ≤ 1 / 2 + top' / (2 * top) := add_le_add hsecond hfirst

end TimeRoom.Numeric
