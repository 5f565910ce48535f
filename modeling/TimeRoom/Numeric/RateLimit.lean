import Mathlib.Algebra.Order.Group.Basic
import Mathlib.Data.List.Induction
import Mathlib.Order.Bounds.Image

/-!
# A follower with a bounded rate

A quantity follows a sequence of targets: at every step it rises by at most `r`
and never ends above the target.  Its value is the least of the targets, each
raised by `r` for every later step.  This is the closed form of a recursion of
Lindley type, over any ordered commutative group.
-/

namespace TimeRoom.Numeric

section Raised
variable {α : Type*} [AddCommMonoid α]

/-- Every target, raised by `r` for each step after it. -/
def raised (r : α) (targets : List α) : Set α :=
  {x | ∃ j, ∃ hj : j < targets.length, x = targets[j] + (targets.length - 1 - j) • r}

/-- The newest target is not raised; the others are raised once more. -/
theorem raised_concat (r a : α) (targets : List α) :
    raised r (targets ++ [a]) = insert a ((· + r) '' raised r targets) := by
  ext x
  constructor
  · rintro ⟨j, hj, rfl⟩
    rw [List.length_append, List.length_singleton] at hj
    rcases Nat.lt_or_ge j targets.length with hlt | hge
    · apply Set.mem_insert_of_mem
      refine ⟨_, ⟨j, hlt, rfl⟩, ?_⟩
      have hsucc : targets.length - j = targets.length - 1 - j + 1 := by omega
      simp [List.getElem_append_left hlt, hsucc, add_assoc, succ_nsmul]
    · obtain rfl : j = targets.length := by omega
      simp
  · rintro (rfl | ⟨_, ⟨j, hj, rfl⟩, rfl⟩)
    · exact ⟨targets.length, by simp, by simp⟩
    · have hsucc : targets.length - j = targets.length - 1 - j + 1 := by omega
      refine ⟨j, by simp; omega, ?_⟩
      simp [List.getElem_append_left hj, hsucc, add_assoc, succ_nsmul]

theorem raised_singleton (r a : α) : raised r [a] = {a} := by
  ext x
  constructor
  · rintro ⟨j, hj, rfl⟩
    obtain rfl : j = 0 := by simpa using hj
    simp
  · rintro rfl
    exact ⟨0, by simp, by simp⟩

theorem isLeast_raised_le_last [Preorder α] {r c a : α} {targets : List α}
    (hc : IsLeast (raised r (targets ++ [a])) c) : c ≤ a := by
  apply hc.2
  rw [raised_concat]
  exact Set.mem_insert _ _

end Raised

variable {α : Type*} [AddCommGroup α] [LinearOrder α] [IsOrderedAddMonoid α]

/-- One step of the follower keeps it the least raised target. -/
theorem isLeast_raised_concat {r c : α} {targets : List α} (hc : IsLeast (raised r targets) c)
    (a : α) : IsLeast (raised r (targets ++ [a])) (min (c + r) a) := by
  have hmono : Monotone (fun x : α => x + r) := fun _ _ h => add_le_add_left h r
  rw [raised_concat, min_comm]
  exact (hmono.map_isLeast hc).insert a

end TimeRoom.Numeric
