import Mathlib.Data.List.Nodup
import Mathlib.Data.List.Perm.Subperm
import TimeRoom.Runs.Machine

/-!
# Lifetimes of objects

Objects are created, touched and deleted.  A registry follows the objects that
exist and refuses an act on any other.  What it accepts from the beginning is a
discipline on the whole sequence: an object is created and deleted at most once,
and touched only in between.
-/

namespace TimeRoom.Runs

/-- What happens to an object. -/
inductive Act (κ : Type*) where
  | create (k : κ)
  | touch (k : κ)
  | delete (k : κ)
deriving DecidableEq, Repr

namespace Act
variable {κ : Type*}

def created? : Act κ → Option κ
  | .create k => some k
  | _ => none

def deleted? : Act κ → Option κ
  | .delete k => some k
  | _ => none

def map {μ : Type*} (f : κ → μ) : Act κ → Act μ
  | .create k => .create (f k)
  | .touch k => .touch (f k)
  | .delete k => .delete (f k)

theorem filterMap_created_concat (l : List (Act κ)) (a : Act κ) :
    (l ++ [a]).filterMap created? = l.filterMap created? ++ a.created?.toList := by
  cases a <;> simp [created?]

theorem filterMap_deleted_concat (l : List (Act κ)) (a : Act κ) :
    (l ++ [a]).filterMap deleted? = l.filterMap deleted? ++ a.deleted?.toList := by
  cases a <;> simp [deleted?]

theorem mem_created {l : List (Act κ)} {k : κ} :
    k ∈ l.filterMap created? ↔ .create k ∈ l := by
  rw [List.mem_filterMap]
  constructor
  · rintro ⟨a, ha, hk⟩
    cases a with
    | create j =>
      obtain rfl : j = k := Option.some_inj.mp hk
      exact ha
    | _ => cases hk
  · intro hk
    exact ⟨_, hk, rfl⟩

theorem mem_deleted {l : List (Act κ)} {k : κ} :
    k ∈ l.filterMap deleted? ↔ .delete k ∈ l := by
  rw [List.mem_filterMap]
  constructor
  · rintro ⟨a, ha, hk⟩
    cases a with
    | delete j =>
      obtain rfl : j = k := Option.some_inj.mp hk
      exact ha
    | _ => cases hk
  · intro hk
    exact ⟨_, hk, rfl⟩

/-- After the acts `before`: an object is new when it is created, and exists when it is
touched or deleted. -/
def Admissible (before : List (Act κ)) : Act κ → Prop
  | .create k => .create k ∉ before
  | .touch k => .create k ∈ before ∧ .delete k ∉ before
  | .delete k => .create k ∈ before ∧ .delete k ∉ before

end Act

/-- The objects ever created, and those of them that exist. -/
structure Registry (κ : Type*) where
  created : List κ
  live : List κ

namespace Registry
variable {κ : Type*} [DecidableEq κ]

def empty : Registry κ := ⟨[], []⟩

def act (r : Registry κ) : Act κ → Option (Registry κ)
  | .create k => if k ∈ r.created then none else some ⟨r.created ++ [k], r.live ++ [k]⟩
  | .touch k => if k ∈ r.live then some r else none
  | .delete k => if k ∈ r.live then some ⟨r.created, r.live.erase k⟩ else none

def acts (r : Registry κ) : List (Act κ) → Option (Registry κ)
  | [] => some r
  | a :: l => (r.act a).bind (·.acts l)

@[simp] theorem acts_nil (r : Registry κ) : r.acts [] = some r := rfl

theorem acts_cons (r : Registry κ) (a : Act κ) (l : List (Act κ)) :
    r.acts (a :: l) = (r.act a).bind (·.acts l) := rfl

theorem acts_append (r : Registry κ) (l l' : List (Act κ)) :
    r.acts (l ++ l') = (r.acts l).bind (·.acts l') := by
  induction l generalizing r with
  | nil => rfl
  | cons a l ih =>
    rw [List.cons_append, acts_cons, acts_cons, Option.bind_assoc]
    simp only [ih]

theorem acts_create {r : Registry κ} {k : κ} (hk : k ∉ r.created) (l : List (Act κ)) :
    r.acts (.create k :: l) = acts ⟨r.created ++ [k], r.live ++ [k]⟩ l := by
  rw [acts_cons, act, if_neg hk]
  rfl

theorem acts_touch {r : Registry κ} {l : List (Act κ)} (hl : ∀ a ∈ l, ∃ k ∈ r.live, a = .touch k) :
    r.acts l = some r := by
  induction l with
  | nil => rfl
  | cons a l ih =>
    obtain ⟨k, hk, rfl⟩ := hl a List.mem_cons_self
    rw [acts_cons, act, if_pos hk]
    exact ih (fun b hb => hl b (List.mem_cons_of_mem _ hb))

theorem acts_delete_head {created live : List κ} {k : κ} (l : List (Act κ)) :
    acts ⟨created, k :: live⟩ (.delete k :: l) = acts ⟨created, live⟩ l := by
  simp [acts_cons, act]

/-! ### Objects of several kinds -/

section Within
variable {μ : Type*} [DecidableEq μ]

/-- The objects of `r`, renamed, after and apart from all others. -/
def within (f : κ → μ) (others : Registry μ) (r : Registry κ) : Registry μ :=
  ⟨others.created ++ r.created.map f, others.live ++ r.live.map f⟩

variable {f : κ → μ} (hf : Function.Injective f) {others : Registry μ}
  (hcreated : ∀ k, f k ∉ others.created) (hlive : ∀ k, f k ∉ others.live)

include hf hcreated hlive in
theorem act_within (a : Act κ) (r : Registry κ) :
    (within f others r).act (a.map f) = (r.act a).map (within f others) := by
  have hmem (l : List κ) (k : κ) : f k ∈ l.map f ↔ k ∈ l := List.mem_map_of_injective hf
  cases a with
  | create k =>
    have hiff : f k ∈ (within f others r).created ↔ k ∈ r.created := by
      simp [within, hcreated, hmem]
    rw [Act.map, act, act]
    by_cases hk : k ∈ r.created
    · rw [if_pos hk, if_pos (hiff.mpr hk)]
      rfl
    · rw [if_neg hk, if_neg (fun h => hk (hiff.mp h))]
      simp [within]
  | touch k =>
    have hiff : f k ∈ (within f others r).live ↔ k ∈ r.live := by simp [within, hlive, hmem]
    rw [Act.map, act, act]
    by_cases hk : k ∈ r.live
    · rw [if_pos hk, if_pos (hiff.mpr hk)]
      rfl
    · rw [if_neg hk, if_neg (fun h => hk (hiff.mp h))]
      rfl
  | delete k =>
    have hiff : f k ∈ (within f others r).live ↔ k ∈ r.live := by simp [within, hlive, hmem]
    have herase : (within f others r).live.erase (f k) =
        others.live ++ (r.live.erase k).map f := by
      rw [within, List.erase_append_right _ (hlive k), List.map_erase hf]
    rw [Act.map, act, act]
    by_cases hk : k ∈ r.live
    · rw [if_pos hk, if_pos (hiff.mpr hk), herase]
      rfl
    · rw [if_neg hk, if_neg (fun h => hk (hiff.mp h))]
      rfl

include hf hcreated hlive in
theorem acts_within (l : List (Act κ)) (r : Registry κ) :
    (within f others r).acts (l.map (Act.map f)) = (r.acts l).map (within f others) := by
  induction l generalizing r with
  | nil => rfl
  | cons a l ih =>
    rw [List.map_cons, acts_cons, acts_cons, act_within hf hcreated hlive]
    cases r.act a with
    | none => rfl
    | some r' => exact ih r'

end Within

/-! ### What is accepted from the beginning -/

/-- The registry is up to date with the acts `l`, all of which were admissible. -/
structure Follows (l : List (Act κ)) (r : Registry κ) : Prop where
  guarded : Guarded Act.Admissible l
  created : r.created = l.filterMap Act.created?
  nodup : r.created.Nodup
  perm : r.created.Perm (l.filterMap Act.deleted? ++ r.live)

variable {l : List (Act κ)} {q r : Registry κ}

omit [DecidableEq κ] in
theorem Follows.empty : Follows [] (empty : Registry κ) :=
  ⟨Guarded.nil _, rfl, List.nodup_nil, .nil⟩

omit [DecidableEq κ] in
theorem Follows.live (h : Follows l q) {k : κ} (hk : k ∈ q.live) :
    .create k ∈ l ∧ .delete k ∉ l := by
  have hparts : (l.filterMap Act.deleted? ++ q.live).Nodup := h.perm.nodup_iff.mp h.nodup
  rw [← Act.mem_created, ← Act.mem_deleted, ← h.created]
  constructor
  · exact h.perm.mem_iff.mpr (List.mem_append_right _ hk)
  · intro hdel
    exact List.disjoint_of_nodup_append hparts hdel hk

theorem Follows.act (h : Follows l q) {a : Act κ} (ha : q.act a = some r) :
    Follows (l ++ [a]) r := by
  cases a with
  | create k =>
    simp only [Registry.act, Option.ite_none_left_eq_some, Option.some_inj] at ha
    obtain ⟨hk, rfl⟩ := ha
    have hadd : (q.created ++ [k]).Perm (l.filterMap Act.deleted? ++ q.live ++ [k]) :=
      h.perm.append_right [k]
    have hnew : .create k ∉ l := by rwa [h.created, Act.mem_created] at hk
    constructor
    · exact (Guarded.concat_iff _ _ _).mpr ⟨h.guarded, hnew⟩
    · rw [Act.filterMap_created_concat, ← h.created]
      rfl
    · rw [← List.concat_eq_append]
      exact (List.nodup_concat _ _).mpr ⟨hk, h.nodup⟩
    · rw [Act.filterMap_deleted_concat]
      simpa [Act.deleted?] using hadd
  | touch k =>
    simp only [Registry.act, Option.ite_none_right_eq_some, Option.some_inj] at ha
    obtain ⟨hk, rfl⟩ := ha
    constructor
    · exact (Guarded.concat_iff _ _ _).mpr ⟨h.guarded, h.live hk⟩
    · rw [Act.filterMap_created_concat]
      simpa [Act.created?] using h.created
    · exact h.nodup
    · rw [Act.filterMap_deleted_concat]
      simpa [Act.deleted?] using h.perm
  | delete k =>
    simp only [Registry.act, Option.ite_none_right_eq_some, Option.some_inj] at ha
    obtain ⟨hk, rfl⟩ := ha
    have hmove : q.live.Perm (k :: q.live.erase k) := List.perm_cons_erase hk
    have hdel := h.perm.trans (hmove.append_left (l.filterMap Act.deleted?))
    constructor
    · exact (Guarded.concat_iff _ _ _).mpr ⟨h.guarded, h.live hk⟩
    · rw [Act.filterMap_created_concat]
      simpa [Act.created?] using h.created
    · exact h.nodup
    · rw [Act.filterMap_deleted_concat]
      simpa [Act.deleted?] using hdel

/-- What is accepted from the beginning is admissible act by act. -/
theorem follows_of_acts (h : empty.acts l = some r) : Follows l r := by
  induction l using List.reverseRecOn generalizing r with
  | nil =>
    obtain rfl : empty = r := Option.some_inj.mp h
    exact Follows.empty
  | append_singleton l a ih =>
    rw [acts_append, Option.bind_eq_some_iff] at h
    obtain ⟨q, hq, ha⟩ := h
    rw [acts_cons, Option.bind_eq_some_iff] at ha
    obtain ⟨r', ha, hr⟩ := ha
    obtain rfl : r' = r := Option.some_inj.mp hr
    exact (ih hq).act ha

omit [DecidableEq κ] in
/-- If nothing is left, all that was created was deleted, and once. -/
theorem Follows.all_deleted (h : Follows l r) (hlive : r.live = []) :
    (l.filterMap Act.deleted?).Perm (l.filterMap Act.created?) ∧
      (l.filterMap Act.deleted?).Nodup := by
  have hperm := h.perm
  rw [hlive, List.append_nil] at hperm
  exact ⟨h.created ▸ hperm.symm, hperm.nodup_iff.mp h.nodup⟩

/-! ### Machines that own objects -/

variable {σ ι ε : Type*}

/-- If every step keeps the registry of the objects that the state owns, so does every run. -/
theorem acts_run (m : Machine σ ι ε) (toAct : ε → Act κ) {Owns : σ → Registry κ → Prop}
    (hstep : ∀ s r i, Owns s r → ∃ r', r.acts ((m.step s i).2.map toAct) = some r' ∧
      Owns (m.step s i).1 r') {s : σ} {r : Registry κ} (h : Owns s r) (is : List ι) :
    ∃ r', r.acts ((m.run s is).2.map toAct) = some r' ∧ Owns (m.run s is).1 r' := by
  induction is generalizing s r with
  | nil => exact ⟨r, rfl, h⟩
  | cons i is ih =>
    obtain ⟨q, hq, hown⟩ := hstep s r i h
    obtain ⟨r', hr', hown'⟩ := ih hown
    refine ⟨r', ?_, hown'⟩
    rw [Machine.run_cons, List.map_append, acts_append, hq]
    exact hr'

end Registry

end TimeRoom.Runs
