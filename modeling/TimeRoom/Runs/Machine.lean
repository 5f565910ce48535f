import Mathlib.Data.List.Induction

/-!
# Machines with output, and what their runs keep

A machine answers every input with a new state and a finite list of events; a
run concatenates the events.  Machines can be made of others: a step may be the
last one, a batch machine takes several inputs of another one as a single input,
and in a cascade the events of the first machine are the inputs of the second.

`Guarded P` asks of a sequence that each member is admissible after the part
before it.  The guard of the events of a run is decided step by step
(`Guarded.run_iff`), with the same notion on the inputs.

A machine simulates another one through a projection of its inputs and of its
events; inputs projected to `none` must be invisible.  Two runs that agree on the
visible inputs then agree on all that the other machine determines.

A query answers from a state and leaves a new one.  Two queries are independent
at a state if neither changes the other's answer, and that can be decided on a
smaller state if answers and next states factor through it.
-/

namespace TimeRoom.Runs

variable {σ ι ε : Type*}

/-- A deterministic machine that emits events. -/
structure Machine (σ ι ε : Type*) where
  step : σ → ι → σ × List ε

namespace Machine

def run (m : Machine σ ι ε) : σ → List ι → σ × List ε
  | s, [] => (s, [])
  | s, i :: is =>
    ((m.run (m.step s i).1 is).1, (m.step s i).2 ++ (m.run (m.step s i).1 is).2)

@[simp] theorem run_nil (m : Machine σ ι ε) (s : σ) : m.run s [] = (s, []) := rfl

theorem run_cons (m : Machine σ ι ε) (s : σ) (i : ι) (is : List ι) :
    m.run s (i :: is) =
      ((m.run (m.step s i).1 is).1, (m.step s i).2 ++ (m.run (m.step s i).1 is).2) := rfl

theorem run_append (m : Machine σ ι ε) (s : σ) (is js : List ι) :
    m.run s (is ++ js) =
      ((m.run (m.run s is).1 js).1, (m.run s is).2 ++ (m.run (m.run s is).1 js).2) := by
  induction is generalizing s with
  | nil => rfl
  | cons i is ih => simp only [List.cons_append, run_cons, ih, List.append_assoc]

theorem run_concat (m : Machine σ ι ε) (s : σ) (is : List ι) (i : ι) :
    m.run s (is ++ [i]) =
      ((m.step (m.run s is).1 i).1, (m.run s is).2 ++ (m.step (m.run s is).1 i).2) := by
  rw [run_append, run_cons, run_nil, List.append_nil]

/-- What holds of a state with no trace behind it, and survives every step, holds of every
run. -/
theorem run_invariant (m : Machine σ ι ε) {I : σ → List ε → Prop} {s : σ} (hinit : I s [])
    (hstep : ∀ s tr i, I s tr → I (m.step s i).1 (tr ++ (m.step s i).2)) (is : List ι) :
    I (m.run s is).1 (m.run s is).2 := by
  induction is using List.reverseRecOn with
  | nil => exact hinit
  | append_singleton is i ih =>
    rw [run_concat]
    exact hstep _ _ i ih

/-! ### Machines made of others -/

section Composition
variable {τ κ : Type*}

/-- A machine whose steps may be its last. -/
def halting (step : σ → ι → Option σ × List ε) : Machine (Option σ) ι ε where
  step
    | none, _ => (none, [])
    | some s, i => step s i

section Halting
variable (step : σ → ι → Option σ × List ε)

theorem halting_stopped (is : List ι) : (halting step).run none is = (none, []) := by
  induction is with
  | nil => rfl
  | cons i is ih =>
    rw [run_cons]
    simp only [halting] at ih ⊢
    rw [ih]
    rfl

theorem halting_cons (s : σ) (i : ι) (is : List ι) :
    (halting step).run (some s) (i :: is) =
      (((halting step).run (step s i).1 is).1,
        (step s i).2 ++ ((halting step).run (step s i).1 is).2) := rfl

theorem halting_cons_running {s s'' : σ} {i : ι} {is : List ι}
    (hrun : ((halting step).run (some s) (i :: is)).1 = some s'') :
    ∃ s', (step s i).1 = some s' ∧ ((halting step).run (some s') is).1 = some s'' ∧
      ((halting step).run (some s) (i :: is)).2 =
        (step s i).2 ++ ((halting step).run (some s') is).2 := by
  rw [halting_cons] at hrun ⊢
  cases hstep : (step s i).1 with
  | none =>
    rw [hstep, halting_stopped] at hrun
    cases hrun
  | some s' =>
    rw [hstep] at hrun
    exact ⟨s', rfl, hrun, rfl⟩

theorem halting_concat {s : Option σ} {is : List ι} {i : ι} {s'' : σ}
    (hrun : ((halting step).run s (is ++ [i])).1 = some s'') :
    ∃ s', ((halting step).run s is).1 = some s' ∧ (step s' i).1 = some s'' ∧
      ((halting step).run s (is ++ [i])).2 =
        ((halting step).run s is).2 ++ (step s' i).2 := by
  rw [run_concat] at hrun ⊢
  cases hbefore : ((halting step).run s is).1 with
  | none =>
    rw [hbefore] at hrun
    cases hrun
  | some s' =>
    rw [hbefore] at hrun
    exact ⟨s', rfl, hrun, rfl⟩

end Halting

/-- A machine that takes several inputs at once. -/
def batch (m : Machine σ ι ε) (expand : κ → List ι) : Machine σ κ ε where
  step s k := m.run s (expand k)

theorem batch_run (m : Machine σ ι ε) (expand : κ → List ι) (s : σ) (ks : List κ) :
    (m.batch expand).run s ks = m.run s (ks.flatMap expand) := by
  induction ks generalizing s with
  | nil => rfl
  | cons k ks ih =>
    rw [run_cons, List.flatMap_cons, run_append, ih]
    rfl

/-- Every event of `m` is an input of `n`. -/
def cascade (m : Machine σ ι κ) (n : Machine τ κ ε) : Machine (σ × τ) ι ε where
  step s i :=
    (((m.step s.1 i).1, (n.run s.2 (m.step s.1 i).2).1), (n.run s.2 (m.step s.1 i).2).2)

/-- A run of a cascade is a run of the second machine on the trace of the first. -/
theorem cascade_run (m : Machine σ ι κ) (n : Machine τ κ ε) (s : σ) (t : τ) (is : List ι) :
    (m.cascade n).run (s, t) is =
      (((m.run s is).1, (n.run t (m.run s is).2).1), (n.run t (m.run s is).2).2) := by
  induction is generalizing s t with
  | nil => rfl
  | cons i is ih =>
    rw [run_cons, run_cons, run_append]
    simp only [cascade] at ih ⊢
    rw [ih]

end Composition

end Machine

theorem prefix_append_cases {is js pre : List ι} (h : pre <+: is ++ js) :
    pre <+: is ∨ ∃ rest, rest <+: js ∧ pre = is ++ rest := by
  rcases List.prefix_or_prefix_of_prefix h (List.prefix_append is js) with hfirst | ⟨rest, rfl⟩
  · exact Or.inl hfirst
  · exact Or.inr ⟨rest, (List.prefix_append_right_inj is).mp h, rfl⟩

/-- Every member of the sequence is admissible after the members before it. -/
def Guarded (P : List ε → ε → Prop) (tr : List ε) : Prop :=
  ∀ pre e post, tr = pre ++ e :: post → P pre e

namespace Guarded

@[simp] theorem nil (P : List ε → ε → Prop) : Guarded P [] := by
  intro pre e post h
  simp at h

theorem cons_iff (P : List ε → ε → Prop) (e : ε) (tr : List ε) :
    Guarded P (e :: tr) ↔ P [] e ∧ Guarded (fun pre => P (e :: pre)) tr := by
  constructor
  · intro h
    exact ⟨h [] e tr rfl, fun pre d post hd => h (e :: pre) d post (by rw [hd]; rfl)⟩
  · rintro ⟨he, htr⟩ pre d post hd
    cases pre with
    | nil =>
      obtain ⟨rfl, rfl⟩ := List.cons.inj hd
      exact he
    | cons c pre =>
      obtain ⟨rfl, htail⟩ := List.cons.inj hd
      exact htr pre d post htail

theorem append_iff (P : List ε → ε → Prop) (a b : List ε) :
    Guarded P (a ++ b) ↔ Guarded P a ∧ Guarded (fun pre => P (a ++ pre)) b := by
  induction a generalizing P with
  | nil => simp
  | cons e a ih => simp only [List.cons_append, cons_iff, ih, and_assoc]

theorem concat_iff (P : List ε → ε → Prop) (a : List ε) (e : ε) :
    Guarded P (a ++ [e]) ↔ Guarded P a ∧ P a e := by
  rw [append_iff, cons_iff]
  simp

theorem of_forall {P : List ε → ε → Prop} {tr : List ε} (h : ∀ e ∈ tr, ∀ pre, P pre e) :
    Guarded P tr := by
  rintro pre e post rfl
  exact h e (by simp) pre

/-- The guard of a run's trace holds when it holds within every step, on top of
the trace of the steps before it. -/
theorem run_iff (m : Machine σ ι ε) (s : σ) (P : List ε → ε → Prop) (is : List ι) :
    Guarded P (m.run s is).2 ↔
      Guarded (fun pre i =>
        Guarded (fun x => P ((m.run s pre).2 ++ x)) (m.step (m.run s pre).1 i).2) is := by
  induction is using List.reverseRecOn with
  | nil => simp
  | append_singleton is i ih => rw [Machine.run_concat, append_iff, concat_iff, ih]

end Guarded

/-! ### Simulation with silent inputs -/

section Simulation
variable {τ κ ο : Type*}

/-- Step conditions of a forward simulation. -/
structure Simulation (m : Machine σ ι ε) (a : Machine τ κ ο)
    (input : ι → Option κ) (output : ε → Option ο) where
  rel : σ → τ → Prop
  visible : ∀ s t i k, rel s t → input i = some k →
    rel (m.step s i).1 (a.step t k).1 ∧ (m.step s i).2.filterMap output = (a.step t k).2
  silent : ∀ s t i, rel s t → input i = none →
    rel (m.step s i).1 t ∧ (m.step s i).2.filterMap output = []

namespace Simulation

variable {m : Machine σ ι ε} {a : Machine τ κ ο} {input : ι → Option κ} {output : ε → Option ο}

/-- The simulation lifts to runs: related states, and the same projected events. -/
theorem run (sim : Simulation m a input output) (s : σ) (t : τ) (h : sim.rel s t)
    (is : List ι) :
    sim.rel (m.run s is).1 (a.run t (is.filterMap input)).1 ∧
      (m.run s is).2.filterMap output = (a.run t (is.filterMap input)).2 := by
  induction is generalizing s t with
  | nil => exact ⟨h, rfl⟩
  | cons i is ih =>
    cases hi : input i with
    | none =>
      obtain ⟨hrel, hout⟩ := sim.silent s t i h hi
      obtain ⟨hrun, htr⟩ := ih _ _ hrel
      rw [List.filterMap_cons_none hi, Machine.run_cons]
      exact ⟨hrun, by rw [List.filterMap_append, hout, htr, List.nil_append]⟩
    | some k =>
      obtain ⟨hrel, hout⟩ := sim.visible s t i k h hi
      obtain ⟨hrun, htr⟩ := ih _ _ hrel
      rw [List.filterMap_cons_some hi, Machine.run_cons, Machine.run_cons]
      exact ⟨hrun, by rw [List.filterMap_append, hout, htr]⟩

/-- Runs with the same visible inputs have the same projected events, and end in
states related to one abstract state. -/
theorem noninterference (sim : Simulation m a input output) (s : σ) (t : τ) (h : sim.rel s t)
    (is js : List ι) (hvis : is.filterMap input = js.filterMap input) :
    (m.run s is).2.filterMap output = (m.run s js).2.filterMap output ∧
      ∃ t', sim.rel (m.run s is).1 t' ∧ sim.rel (m.run s js).1 t' := by
  obtain ⟨hr, htr⟩ := sim.run s t h is
  obtain ⟨hr', htr'⟩ := sim.run s t h js
  rw [hvis] at hr htr
  exact ⟨htr.trans htr'.symm, _, hr, hr'⟩

end Simulation

end Simulation

/-! ### Queries with side effects -/

section Query
universe u v
variable {σ τ : Type u} {κ ρ : Type v}

/-- Neither query changes the answer to the other, in either order. -/
def IndependentAt (ask : σ → κ → ρ × σ) (s : σ) (a b : κ) : Prop :=
  (ask (ask s a).2 b).1 = (ask s b).1 ∧ (ask (ask s b).2 a).1 = (ask s a).1

theorem IndependentAt.symm {ask : σ → κ → ρ × σ} {s : σ} {a b : κ}
    (h : IndependentAt ask s a b) : IndependentAt ask s b a := And.symm h

/-- The query `ask` factors through the view `f` on the states that satisfy `P`. -/
structure Factors (P : σ → Prop) (f : σ → τ) (ask : σ → κ → ρ × σ) (ask' : τ → κ → ρ × τ) :
    Prop where
  keeps : ∀ s k, P s → P (ask s k).2
  answer : ∀ s k, P s → (ask s k).1 = (ask' (f s) k).1
  next : ∀ s k, P s → f (ask s k).2 = (ask' (f s) k).2

/-- Independence is a property of the view. -/
theorem Factors.independentAt_iff {P : σ → Prop} {f : σ → τ} {ask : σ → κ → ρ × σ}
    {ask' : τ → κ → ρ × τ} (h : Factors P f ask ask') {s : σ} (hs : P s) (a b : κ) :
    IndependentAt ask s a b ↔ IndependentAt ask' (f s) a b := by
  have hafter (k l : κ) : (ask (ask s k).2 l).1 = (ask' (ask' (f s) k).2 l).1 := by
    rw [h.answer _ l (h.keeps s k hs), h.next s k hs]
  rw [IndependentAt, IndependentAt, hafter, hafter, h.answer s a hs, h.answer s b hs]

end Query

end TimeRoom.Runs
