import Mathlib.Data.List.Basic

/-!
# Draining a queue by polling its head

The loop polls the first element until it is ready, removes it, and goes on.
`ready n a` is what the `n`-th poll reads if `a` is first by then.  If every
element is ready from some poll on, the loop ends, and it removes every element
once, in order, each at a poll that read ready.
-/

namespace TimeRoom.Runs

variable {α : Type*}

/-- The polls of the loop: who was polled, and whether it was removed. -/
def drain (ready : ℕ → α → Bool) : ℕ → ℕ → List α → Option (List (α × Bool))
  | _, _, [] => some []
  | 0, _, _ :: _ => none
  | fuel + 1, n, a :: q =>
    if ready n a then (drain ready fuel (n + 1) q).map ((a, true) :: ·)
    else (drain ready fuel (n + 1) (a :: q)).map ((a, false) :: ·)

/-- From poll `n` on, with enough fuel, the loop makes the polls `ps`. -/
def Drains (ready : ℕ → α → Bool) (n : ℕ) (q : List α) (ps : List (α × Bool)) : Prop :=
  ∃ fuel₀, ∀ fuel ≥ fuel₀, drain ready fuel n q = some ps

namespace Drains

variable {ready : ℕ → α → Bool} {n : ℕ} {a : α} {q : List α} {ps : List (α × Bool)}

theorem nil : Drains ready n [] [] := ⟨0, fun fuel _ => by cases fuel <;> rfl⟩

theorem remove (hready : ready n a = true) (h : Drains ready (n + 1) q ps) :
    Drains ready n (a :: q) ((a, true) :: ps) := by
  rcases h with ⟨fuel₀, h⟩
  refine ⟨fuel₀ + 1, ?_⟩
  intro fuel hfuel
  obtain ⟨fuel, rfl⟩ : ∃ k, fuel = k + 1 := ⟨fuel - 1, by omega⟩
  simp [drain, hready, h fuel (by omega)]

theorem wait (hready : ready n a = false) (h : Drains ready (n + 1) (a :: q) ps) :
    Drains ready n (a :: q) ((a, false) :: ps) := by
  rcases h with ⟨fuel₀, h⟩
  refine ⟨fuel₀ + 1, ?_⟩
  intro fuel hfuel
  obtain ⟨fuel, rfl⟩ : ∃ k, fuel = k + 1 := ⟨fuel - 1, by omega⟩
  simp [drain, hready, h fuel (by omega)]

/-- The loop ends if every element is ready from some poll on.  The measure is the
length of the queue, then the number of polls until its head must be ready. -/
theorem total (hq : ∀ a ∈ q, ∃ N, ∀ k ≥ N, ready k a = true) (n : ℕ) :
    ∃ ps, Drains ready n q ps := by
  induction q generalizing n with
  | nil => exact ⟨[], nil⟩
  | cons a q ih =>
    obtain ⟨N, hN⟩ := hq a List.mem_cons_self
    have htail := ih (fun b hb => hq b (List.mem_cons_of_mem a hb))
    have hwait : ∀ d n, N - n = d → ∃ ps, Drains ready n (a :: q) ps := by
      intro d
      induction d with
      | zero =>
        intro n hn
        obtain ⟨ps, hps⟩ := htail (n + 1)
        exact ⟨_, remove (hN n (by omega)) hps⟩
      | succ d ihd =>
        intro n hn
        by_cases hready : ready n a = true
        · obtain ⟨ps, hps⟩ := htail (n + 1)
          exact ⟨_, remove hready hps⟩
        · obtain ⟨ps, hps⟩ := ihd (n + 1) (by omega)
          exact ⟨_, wait (Bool.not_eq_true _ ▸ hready) hps⟩
    exact hwait _ n rfl

end Drains

/-- What a finished loop did: one case per poll. -/
theorem drain_cases {ready : ℕ → α → Bool} {fuel n : ℕ} {q : List α} {ps : List (α × Bool)}
    (h : drain ready fuel n q = some ps) :
    (q = [] ∧ ps = []) ∨
      (∃ a q' ps', q = a :: q' ∧ ready n a = true ∧ ps = (a, true) :: ps' ∧
        ∃ k, drain ready k (n + 1) q' = some ps') ∨
      (∃ a q' ps', q = a :: q' ∧ ready n a = false ∧ ps = (a, false) :: ps' ∧
        ∃ k, drain ready k (n + 1) q = some ps') := by
  match fuel, q with
  | fuel, [] => exact .inl ⟨rfl, by cases fuel <;> simpa [drain] using h.symm⟩
  | 0, a :: q => simp [drain] at h
  | fuel + 1, a :: q =>
    right
    rw [drain] at h
    by_cases hready : ready n a = true
    · rw [if_pos hready, Option.map_eq_some_iff] at h
      obtain ⟨ps', hps', rfl⟩ := h
      exact .inl ⟨a, q, ps', rfl, hready, rfl, fuel, hps'⟩
    · rw [if_neg hready, Option.map_eq_some_iff] at h
      obtain ⟨ps', hps', rfl⟩ := h
      exact .inr ⟨a, q, ps', rfl, by simpa using hready, rfl, fuel, hps'⟩

theorem drain_removed {ready : ℕ → α → Bool} {fuel n : ℕ} {q : List α} {ps : List (α × Bool)}
    (h : drain ready fuel n q = some ps) :
    ps.filterMap (fun p => if p.2 then some p.1 else none) = q := by
  induction ps generalizing fuel n q with
  | nil =>
    obtain ⟨rfl, -⟩ | ⟨_, _, _, _, _, hps, _⟩ | ⟨_, _, _, _, _, hps, _⟩ := drain_cases h
    · rfl
    · cases hps
    · cases hps
  | cons p ps ih =>
    obtain ⟨_, hps⟩ | ⟨a, q', ps', rfl, -, hps, k, hk⟩ | ⟨a, q', ps', rfl, -, hps, k, hk⟩ :=
      drain_cases h
    · cases hps
    · cases hps
      simp [ih hk]
    · cases hps
      simp [ih hk]

theorem drain_polled {ready : ℕ → α → Bool} {fuel n : ℕ} {q : List α} {ps : List (α × Bool)}
    (h : drain ready fuel n q = some ps) {pre post : List (α × Bool)} {a : α} {r : Bool}
    (hps : ps = pre ++ (a, r) :: post) : ready (n + pre.length) a = r := by
  induction pre generalizing fuel n q ps with
  | nil =>
    obtain ⟨_, hnil⟩ | ⟨b, q', ps', _, hb, hcons, -⟩ | ⟨b, q', ps', _, hb, hcons, -⟩ :=
      drain_cases h
    · rw [hnil] at hps
      cases hps
    · rw [hcons] at hps
      cases hps
      exact hb
    · rw [hcons] at hps
      cases hps
      exact hb
  | cons p pre ih =>
    have hlen : n + (p :: pre).length = n + 1 + pre.length := by rw [List.length_cons]; omega
    rw [hlen]
    obtain ⟨_, hnil⟩ | ⟨b, q', ps', _, hb, hcons, k, hk⟩ | ⟨b, q', ps', _, hb, hcons, k, hk⟩ :=
      drain_cases h
    · rw [hnil] at hps
      cases hps
    · rw [hcons] at hps
      exact ih hk (List.cons.inj hps).2
    · rw [hcons] at hps
      exact ih hk (List.cons.inj hps).2

end TimeRoom.Runs
