import TimeRoom.Runs.Drain
import TimeRoom.Buffer.Steps

/-!
# `~videoBuffer`

The first loop closes every recorder that is still recording.  The second one
has no bound of its own: it is a drain of the vector, so it ends if every stored
fragment reads stopped from some poll on.
-/

namespace TimeRoom.Buffer
open Runs

def Event.deleted? : Event → Option ℕ
  | .deleted i => some i
  | _ => none

def polls (tr : List Event) : ℕ := tr.countP (fun | .polled _ _ => true | _ => false)

/-- What is assumed of the recorders during the destructor's polls, if `tr` is what
happened before: a closed recorder reads stopped from some poll on, and one that was
never set up always does. -/
structure RecordersStop (tr : List Event) (isRecording : ℕ → ℕ → Channel → Bool) : Prop where
  closed : ∀ i ch, .close ∈ recorderLog i ch tr → ∃ N, ∀ n ≥ N, isRecording n i ch = false
  unused : ∀ i ch, (∀ path w h fps, .setup path w h fps ∉ recorderLog i ch tr) →
    ∀ n, isRecording n i ch = false

/-- The events `tr` destroy `b` in order: every stored fragment is deleted once, right
after a poll at which neither of its recorders was recording, and the only command
closes the last fragment's recorder. -/
structure DestroysOrderly (isRecording : ℕ → ℕ → Channel → Bool) (b : VideoBuffer)
    (tr : List Event) : Prop where
  deleted : tr.filterMap Event.deleted? = b.fragments.map (·.id)
  distinct : (b.fragments.map (·.id)).Nodup
  stopped : Guarded (fun pre e => ∀ i, e = .deleted i → ∃ before,
    pre = before ++ [.polled i true] ∧ ∀ ch, isRecording (polls before) i ch = false) tr
  closes : commands tr =
    match b.fragments.getLast? with
    | none => []
    | some last => [(last.id, .rgb, .close)]

namespace VideoBuffer

/-! ### The first loop -/

theorem removeAll_ids (fragments : List VideoFragment) :
    (removeAll fragments).1.map (·.id) = fragments.map (·.id) := by
  induction fragments with
  | nil => rfl
  | cons f fragments ih =>
    have hid : f.removeFromDisk.1.id = f.id := by
      rw [VideoFragment.removeFromDisk]
      split <;> rfl
    simp [removeAll, hid, ih]

theorem commands_removeAll (fragments : List VideoFragment) :
    commands (removeAll fragments).2 =
      (fragments.filter (·.state = .recording)).map (fun f => (f.id, .rgb, .close)) := by
  induction fragments with
  | nil => rfl
  | cons f fragments ih =>
    by_cases hf : f.state = .recording
    · simp [removeAll, VideoFragment.removeFromDisk, VideoFragment.stopRecording, hf, ih]
    · simp [removeAll, VideoFragment.removeFromDisk, hf, ih]

theorem mem_removeAll {fragments : List VideoFragment} {e : Event}
    (he : e ∈ (removeAll fragments).2) :
    (∃ i s, e = .called i .removeFromDisk s) ∨ ∃ i, e = .command i .rgb .close := by
  induction fragments with
  | nil => simp [removeAll] at he
  | cons f fragments ih =>
    rcases List.mem_append.mp he with he | he
    · by_cases hf : f.state = .recording
      · simp only [VideoFragment.removeFromDisk, hf, if_true, VideoFragment.stopRecording,
          List.mem_cons, List.not_mem_nil, or_false] at he
        exact he.imp (fun h => ⟨_, _, h⟩) (fun h => ⟨_, h⟩)
      · simp only [VideoFragment.removeFromDisk, hf, if_false, List.mem_singleton] at he
        exact Or.inl ⟨_, _, he⟩
    · exact ih he

theorem deleted_removeAll (fragments : List VideoFragment) :
    (removeAll fragments).2.filterMap Event.deleted? = [] := by
  rw [List.filterMap_eq_nil_iff]
  intro e he
  rcases mem_removeAll he with ⟨i, s, rfl⟩ | ⟨i, rfl⟩ <;> rfl

theorem polls_removeAll (fragments : List VideoFragment) :
    polls (removeAll fragments).2 = 0 := by
  rw [polls, List.countP_eq_zero]
  intro e he
  rcases mem_removeAll he with ⟨i, s, rfl⟩ | ⟨i, rfl⟩ <;> simp

/-! ### The second loop -/

def pollEvents (p : VideoFragment × Bool) : List Event :=
  .polled p.1.id p.2 :: if p.2 then [.deleted p.1.id] else []

/-- The fragment at the front reads stopped at the `n`-th poll. -/
def stoppedAt (isRecording : ℕ → ℕ → Channel → Bool) (n : ℕ) (f : VideoFragment) : Bool :=
  VideoFragment.isStopped (isRecording n f.id)

theorem stoppedAt_iff (isRecording : ℕ → ℕ → Channel → Bool) (n : ℕ) (f : VideoFragment) :
    stoppedAt isRecording n f = true ↔ ∀ ch, isRecording n f.id ch = false := by
  constructor
  · intro hstopped ch
    simp only [stoppedAt, VideoFragment.isStopped, Bool.and_eq_true, Bool.not_eq_true'] at hstopped
    cases ch with
    | rgb => exact hstopped.1
    | depth => exact hstopped.2
  · intro hread
    simp [stoppedAt, VideoFragment.isStopped, hread]

variable {isRecording : ℕ → ℕ → Channel → Bool}

theorem deleteLoop_eq (fuel n : ℕ) (fragments : List VideoFragment) :
    deleteLoop isRecording fuel n fragments =
      (drain (stoppedAt isRecording) fuel n fragments).map (·.flatMap pollEvents) := by
  induction fuel generalizing n fragments with
  | zero => cases fragments <;> rfl
  | succ fuel ih =>
    cases fragments with
    | nil => rfl
    | cons f rest =>
      rw [drain, deleteLoop, ← stoppedAt, ih, ih]
      by_cases hf : stoppedAt isRecording n f = true
      · rw [if_pos hf, if_pos hf, Option.map_map, Option.map_map]
        rfl
      · rw [if_neg hf, if_neg hf, Option.map_map, Option.map_map]
        rfl

theorem commands_polls (ps : List (VideoFragment × Bool)) :
    commands (ps.flatMap pollEvents) = [] := by
  induction ps with
  | nil => rfl
  | cons p ps ih =>
    rw [List.flatMap_cons, commands_append, ih, pollEvents]
    cases p.2 <;> rfl

theorem polls_append (a b : List Event) : polls (a ++ b) = polls a + polls b :=
  List.countP_append

theorem polls_polls (ps : List (VideoFragment × Bool)) :
    polls (ps.flatMap pollEvents) = ps.length := by
  induction ps with
  | nil => rfl
  | cons p ps ih =>
    have hone : polls (pollEvents p) = 1 := by
      rw [pollEvents]
      cases p.2 <;> rfl
    rw [List.flatMap_cons, polls_append, ih, hone, List.length_cons, add_comm]

theorem deleted_polls (ps : List (VideoFragment × Bool)) :
    (ps.flatMap pollEvents).filterMap Event.deleted? =
      (ps.filterMap (fun p => if p.2 then some p.1 else none)).map (·.id) := by
  induction ps with
  | nil => rfl
  | cons p ps ih =>
    rcases p with ⟨f, stopped⟩
    rw [List.flatMap_cons, List.filterMap_append, ih]
    cases stopped <;> rfl

theorem deleted_of_polls {ps : List (VideoFragment × Bool)} {pre post : List Event} {i : ℕ}
    (h : ps.flatMap pollEvents = pre ++ .deleted i :: post) :
    ∃ ps₁ f ps₂, ps = ps₁ ++ (f, true) :: ps₂ ∧ f.id = i ∧
      pre = ps₁.flatMap pollEvents ++ [.polled i true] := by
  induction ps generalizing pre with
  | nil => simp at h
  | cons p ps ih =>
    rcases p with ⟨f, stopped⟩
    rw [List.flatMap_cons] at h
    cases stopped with
    | true =>
      match pre with
      | [] => simp [pollEvents] at h
      | [e] =>
        obtain ⟨rfl, rfl, -⟩ : Event.polled f.id true = e ∧ f.id = i ∧ _ := by
          simpa [pollEvents] using h
        exact ⟨[], f, ps, rfl, rfl, rfl⟩
      | e :: e' :: pre =>
        obtain ⟨rfl, rfl, htail⟩ : Event.polled f.id true = e ∧ Event.deleted f.id = e' ∧
            ps.flatMap pollEvents = pre ++ .deleted i :: post := by
          simpa [pollEvents] using h
        obtain ⟨ps₁, g, ps₂, rfl, rfl, rfl⟩ := ih htail
        exact ⟨(f, true) :: ps₁, g, ps₂, rfl, rfl, rfl⟩
    | false =>
      match pre with
      | [] => simp [pollEvents] at h
      | e :: pre =>
        obtain ⟨rfl, htail⟩ : Event.polled f.id false = e ∧
            ps.flatMap pollEvents = pre ++ .deleted i :: post := by
          simpa [pollEvents] using h
        obtain ⟨ps₁, g, ps₂, rfl, rfl, rfl⟩ := ih htail
        exact ⟨(f, false) :: ps₁, g, ps₂, rfl, rfl, rfl⟩

/-- The first loop changes no number, so it does not matter to the polls. -/
theorem stoppedAt_removeAll {fragments : List VideoFragment}
    (hstop : ∀ f ∈ fragments, ∃ N, ∀ n ≥ N, ∀ ch, isRecording n f.id ch = false) :
    ∀ f ∈ (removeAll fragments).1, ∃ N, ∀ n ≥ N, stoppedAt isRecording n f = true := by
  intro f hf
  have hid : f.id ∈ fragments.map (·.id) := by
    rw [← removeAll_ids]
    exact List.mem_map_of_mem hf
  obtain ⟨g, hg, hgf⟩ := List.mem_map.mp hid
  obtain ⟨N, hN⟩ := hstop g hg
  refine ⟨N, ?_⟩
  intro n hn
  rw [stoppedAt_iff, ← hgf]
  exact hN n hn

/-! ### Both loops -/

/-- If every stored fragment reads stopped from some poll on, the destructor ends: it
deletes them all, each at a poll that read stopped, and closes the recorders that were
recording. -/
theorem destruct_total (b : VideoBuffer)
    (hstop : ∀ f ∈ b.fragments, ∃ N, ∀ n ≥ N, ∀ ch, isRecording n f.id ch = false) :
    ∃ tr, (∃ fuel₀, ∀ fuel ≥ fuel₀, b.destruct isRecording fuel = some tr) ∧
      tr.filterMap Event.deleted? = b.fragments.map (·.id) ∧
      Guarded (fun pre e => ∀ i, e = .deleted i → ∃ before,
        pre = before ++ [.polled i true] ∧ ∀ ch, isRecording (polls before) i ch = false) tr ∧
      commands tr =
        (b.fragments.filter (·.state = .recording)).map (fun f => (f.id, .rgb, .close)) := by
  obtain ⟨ps, fuel₀, hdrain⟩ := Drains.total (stoppedAt_removeAll hstop) 0
  have hps := hdrain fuel₀ le_rfl
  refine ⟨(removeAll b.fragments).2 ++ ps.flatMap pollEvents, ⟨fuel₀, ?_⟩, ?_, ?_, ?_⟩
  · intro fuel hfuel
    simp [destruct, deleteLoop_eq, hdrain fuel hfuel]
  · rw [List.filterMap_append, deleted_removeAll, List.nil_append, deleted_polls,
      drain_removed hps, removeAll_ids]
  · rw [Guarded.append_iff]
    constructor
    · apply Guarded.of_forall
      rintro e he pre i rfl
      rcases mem_removeAll he with ⟨_, _, h⟩ | ⟨_, h⟩ <;> cases h
    · rintro pre e post hsplit i rfl
      obtain ⟨ps₁, f, ps₂, hsplit', rfl, rfl⟩ := deleted_of_polls hsplit
      refine ⟨(removeAll b.fragments).2 ++ ps₁.flatMap pollEvents,
        (List.append_assoc _ _ _).symm, ?_⟩
      rw [polls_append, polls_removeAll, polls_polls, ← stoppedAt_iff]
      exact drain_polled hps hsplit'
  · rw [commands_append, commands_polls, List.append_nil, commands_removeAll]

end VideoBuffer

end TimeRoom.Buffer
