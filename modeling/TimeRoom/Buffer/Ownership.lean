import TimeRoom.Runs.Lifetimes
import TimeRoom.Buffer.Destruction

/-!
# Who owns the fragments

Fragments are created with `new` and kept as plain pointers.  The vector is their
only owner: `addFrame` appends the new one, the eviction loop and the destructor
delete from the front, and every method is called through a pointer that is still
stored.
-/

namespace TimeRoom.Buffer
open TimeRoom.Frame Runs VideoBuffer

/-- What an event does to a fragment.  The constructor is the one that sets up a recorder. -/
def Event.act : Event → Act ℕ
  | .command i _ (.setup _ _ _ _) => .create i
  | .command i _ _ => .touch i
  | .load i _ _ => .touch i
  | .called i _ _ => .touch i
  | .polled i _ => .touch i
  | .deleted i => .delete i

/-- The fragments of a buffer: all that it numbered, and those that it stores. -/
def VideoBuffer.registry (b : VideoBuffer) : Registry ℕ :=
  ⟨List.range' 1 b.fileCounter, b.fragments.map (·.id)⟩

namespace VideoBuffer

/-! ### Recording -/

def registryOpened (b : VideoBuffer) : Registry ℕ :=
  ⟨b.registry.created ++ [b.fileCounter + 1], b.registry.live ++ [b.fileCounter + 1]⟩

theorem acts_opening (b : VideoBuffer) (x : RgbdFrame) :
    b.registry.acts ((b.opening x).map Event.act) = some b.registryOpened := by
  have hnew : b.fileCounter + 1 ∉ b.registry.created := by
    rw [registry, List.mem_range'_1]
    omega
  simp only [opening, List.map_cons, List.map_nil, Event.act]
  rw [Registry.acts_create hnew]
  apply Registry.acts_touch
  intro a ha
  exact ⟨b.fileCounter + 1, by simp, by simpa using ha⟩

theorem registry_opened (b : VideoBuffer) (fragments : List VideoFragment) (start : ℚ)
    (hids : fragments.map (·.id) = b.fragments.map (·.id)) :
    ({ b with
      fileCounter := b.fileCounter + 1
      fragments := fragments ++ [b.opened start] } : VideoBuffer).registry = b.registryOpened := by
  have hcreated : List.range' 1 (b.fileCounter + 1) =
      List.range' 1 b.fileCounter ++ [b.fileCounter + 1] := by
    rw [List.range'_concat, one_mul, add_comm 1]
  simp [registry, registryOpened, hids, hcreated, opened]

theorem addFrame_use (b : VideoBuffer) (t : ℚ) (x : RgbdFrame) :
    ∃ used new, (b.addFrame t x).2 = used ++ new ∧
      (∀ e ∈ used, ∃ f ∈ b.fragments, e.act = .touch f.id) ∧
      (new = [] ∧ (b.addFrame t x).1.registry = b.registry ∨
        new = b.opening x ∧ (b.addFrame t x).1.registry = b.registryOpened) := by
  cases hb : b.fragments using List.reverseRecOn with
  | nil =>
    have hopen := registry_opened b [] t (by rw [hb])
    exact ⟨[], b.opening x, by rw [addFrame_nil b hb]; rfl, by simp,
      Or.inr ⟨rfl, by rw [addFrame_nil b hb]; exact hopen⟩⟩
  | append_singleton kept last _ =>
    by_cases ht : t - last.startTimestamp ≥ b.fragmentLength
    · have hopen := registry_opened b (kept ++ [last.saveOnDisk.1])
        (last.startTimestamp + b.fragmentLength) (by simp [hb, VideoFragment.saveOnDisk])
      rw [List.append_assoc] at hopen
      refine ⟨last.saveOnDisk.2, b.opening x, by rw [addFrame_next hb ht], ?_,
        Or.inr ⟨rfl, by rw [addFrame_next hb ht]; exact hopen⟩⟩
      intro e he
      refine ⟨last, by simp, ?_⟩
      simp only [VideoFragment.saveOnDisk, VideoFragment.stopRecording, List.mem_cons] at he
      rcases he with rfl | he
      · rfl
      · split at he
        · rw [List.mem_singleton.mp he]
          rfl
        · cases he
    · have hid : (last.addFrame x).1.id = last.id := by
        rw [VideoFragment.addFrame]
        split <;> rfl
      refine ⟨(last.addFrame x).2, [], by rw [addFrame_same hb ht, List.append_nil], ?_,
        Or.inl ⟨rfl, by rw [addFrame_same hb ht]; simp [registry, hb, hid]⟩⟩
      intro e he
      refine ⟨last, by simp, ?_⟩
      simp only [VideoFragment.addFrame, List.mem_append, List.mem_singleton] at he
      rcases he with he | rfl
      · split at he
        · rw [List.mem_singleton.mp he]
          rfl
        · cases he
      · rfl

theorem acts_addFrame (b : VideoBuffer) (t : ℚ) (x : RgbdFrame) :
    b.registry.acts ((b.addFrame t x).2.map Event.act) = some (b.addFrame t x).1.registry := by
  obtain ⟨used, new, hevents, hused, hnew⟩ := addFrame_use b t x
  have htouch : b.registry.acts (used.map Event.act) = some b.registry := by
    apply Registry.acts_touch
    intro a ha
    obtain ⟨e, he, rfl⟩ := List.mem_map.mp ha
    obtain ⟨f, hf, hact⟩ := hused e he
    exact ⟨f.id, List.mem_map_of_mem hf, hact⟩
  rw [hevents, List.map_append, Registry.acts_append, htouch, Option.bind_some]
  rcases hnew with ⟨rfl, hreg⟩ | ⟨rfl, hreg⟩
  · rw [hreg]
    rfl
  · rw [hreg, acts_opening]

/-! ### Playback -/

theorem acts_removeFromDisk (f : VideoFragment) {r : Registry ℕ} (hf : f.id ∈ r.live) :
    r.acts (f.removeFromDisk.2.map Event.act) = some r := by
  apply Registry.acts_touch
  intro a ha
  refine ⟨f.id, hf, ?_⟩
  simp only [VideoFragment.removeFromDisk, VideoFragment.stopRecording] at ha
  split at ha <;> simpa [Event.act] using ha

theorem acts_discard (created : List ℕ) (dropped : List VideoFragment) (live : List ℕ) :
    Registry.acts ⟨created, dropped.map (·.id) ++ live⟩
        ((dropped.flatMap discard).map Event.act) = some ⟨created, live⟩ := by
  induction dropped with
  | nil => rfl
  | cons f dropped ih =>
    have hremove := acts_removeFromDisk f
      (r := ⟨created, (f :: dropped).map (·.id) ++ live⟩) (by simp)
    rw [List.flatMap_cons, discard, List.append_assoc, List.map_append, Registry.acts_append,
      hremove, Option.bind_some]
    exact (Registry.acts_delete_head _).trans ih

theorem acts_serves {f f' : VideoFragment} {tr : List Event} (h : Serves f f' tr) {r : Registry ℕ}
    (hf : f.id ∈ r.live) : r.acts (tr.map Event.act) = some r := by
  apply Registry.acts_touch
  intro a ha
  obtain ⟨e, he, rfl⟩ := List.mem_map.mp ha
  refine ⟨f.id, hf, ?_⟩
  rcases h.mem he with ⟨-, rfl | rfl | rfl⟩ | rfl <;> rfl

theorem acts_query (earlyReturn : Bool) (b : VideoBuffer) (ts : ℚ) :
    b.registry.acts ((b.query earlyReturn ts).2.2.map Event.act) =
      some (b.query earlyReturn ts).2.1.registry := by
  cases earlyReturn with
  | true => rfl
  | false =>
    by_cases hb : b.fragments = []
    · simp [query, getFrame, hb]
    · obtain ⟨dropped, f, others, f', tr, hsplit, hserves, hstep⟩ := getFrame_cases b hb ts
      have hid : f'.id = f.id := congrArg Prod.fst hserves.created
      have hlive : b.registry = ⟨List.range' 1 b.fileCounter,
          dropped.map (·.id) ++ (f :: others).map (·.id)⟩ := by
        rw [registry, hsplit, List.map_append]
      simp only [query, Bool.false_eq_true, if_false, hstep]
      rw [List.map_append, Registry.acts_append, hlive, acts_discard, Option.bind_some,
        acts_serves hserves (by simp)]
      simp [registry, hid]

/-! ### Destruction -/

theorem acts_removeAll (fragments : List VideoFragment) {r : Registry ℕ}
    (hlive : ∀ f ∈ fragments, f.id ∈ r.live) :
    r.acts ((removeAll fragments).2.map Event.act) = some r := by
  induction fragments with
  | nil => rfl
  | cons f fragments ih =>
    rw [removeAll, List.map_append, Registry.acts_append,
      acts_removeFromDisk f (hlive f List.mem_cons_self)]
    exact ih (fun g hg => hlive g (List.mem_cons_of_mem f hg))

/-- Whatever the recorders read, a loop that ends has deleted every fragment, and polled only
fragments that it had not deleted. -/
theorem acts_deleteLoop {isRecording : ℕ → ℕ → Channel → Bool} {fuel n : ℕ}
    {fragments : List VideoFragment} {tr : List Event} (created : List ℕ)
    (h : deleteLoop isRecording fuel n fragments = some tr) :
    Registry.acts ⟨created, fragments.map (·.id)⟩ (tr.map Event.act) = some ⟨created, []⟩ := by
  induction fuel generalizing n fragments tr with
  | zero =>
    cases fragments with
    | nil =>
      obtain rfl : [] = tr := Option.some_inj.mp h
      rfl
    | cons f rest => cases h
  | succ fuel ih =>
    cases fragments with
    | nil =>
      obtain rfl : [] = tr := Option.some_inj.mp h
      rfl
    | cons f rest =>
      have hpoll (b : Bool) (l : List Event) :
          Registry.acts ⟨created, (f :: rest).map (·.id)⟩ ((.polled f.id b :: l).map Event.act) =
            Registry.acts ⟨created, (f :: rest).map (·.id)⟩ (l.map Event.act) := by
        simp [Event.act, Registry.acts_cons, Registry.act]
      rw [deleteLoop] at h
      split at h
      · obtain ⟨tr', htr', rfl⟩ := Option.map_eq_some_iff.mp h
        rw [hpoll, List.map_cons, List.map_cons, Event.act]
        exact (Registry.acts_delete_head _).trans (ih htr')
      · obtain ⟨tr', htr', rfl⟩ := Option.map_eq_some_iff.mp h
        rw [hpoll]
        exact ih htr'

theorem acts_destruct {b : VideoBuffer} {isRecording : ℕ → ℕ → Channel → Bool} {fuel : ℕ}
    {tr : List Event} (h : b.destruct isRecording fuel = some tr) :
    b.registry.acts (tr.map Event.act) = some ⟨List.range' 1 b.fileCounter, []⟩ := by
  obtain ⟨polls, hpolls, rfl⟩ := Option.map_eq_some_iff.mp h
  have hremove := acts_removeAll b.fragments (r := b.registry)
    (fun f hf => List.mem_map_of_mem hf)
  rw [List.map_append, Registry.acts_append, hremove, Option.bind_some, registry, ← removeAll_ids]
  exact acts_deleteLoop _ hpolls

/-! ### Deletions -/

theorem deleted_addFrame (b : VideoBuffer) (t : ℚ) (x : RgbdFrame) :
    (b.addFrame t x).2.filterMap Event.deleted? = [] := by
  obtain ⟨used, new, hevents, hused, hnew⟩ := addFrame_use b t x
  have htouch : used.filterMap Event.deleted? = [] := by
    rw [List.filterMap_eq_nil_iff]
    intro e he
    obtain ⟨f, -, hact⟩ := hused e he
    cases e with
    | deleted i => cases hact
    | _ => rfl
  rw [hevents, List.filterMap_append, htouch]
  rcases hnew with ⟨rfl, -⟩ | ⟨rfl, -⟩ <;> rfl

theorem deleted_query (earlyReturn : Bool) (b : VideoBuffer) (ts : ℚ) :
    (b.query earlyReturn ts).2.1.fileCounter = b.fileCounter ∧
      (b.query earlyReturn ts).2.2.filterMap Event.deleted? ++
        (b.query earlyReturn ts).2.1.fragments.map (·.id) = b.fragments.map (·.id) := by
  cases earlyReturn with
  | true => exact ⟨rfl, rfl⟩
  | false =>
    by_cases hb : b.fragments = []
    · simp [query, getFrame, hb]
    · obtain ⟨dropped, f, others, f', tr, hsplit, hserves, hstep⟩ := getFrame_cases b hb ts
      have hid : f'.id = f.id := congrArg Prod.fst hserves.created
      have hdropped (ds : List VideoFragment) :
          (ds.flatMap VideoBuffer.discard).filterMap Event.deleted? = ds.map (·.id) := by
        induction ds with
        | nil => rfl
        | cons d ds ih =>
          rw [List.flatMap_cons, List.filterMap_append, ih, VideoBuffer.discard,
            VideoFragment.removeFromDisk]
          split <;> rfl
      have hserve : tr.filterMap Event.deleted? = [] := by
        rw [List.filterMap_eq_nil_iff]
        intro e he
        rcases hserves.mem he with ⟨-, rfl | rfl | rfl⟩ | rfl <;> rfl
      simp only [query, Bool.false_eq_true, if_false, hstep]
      rw [List.filterMap_append, hdropped, hserve, hsplit]
      simp [hid]

end VideoBuffer

/-- What was deleted and what is stored are the fragments ever created, in their order. -/
theorem execute_conserves (earlyReturn : Bool) (w h : ℤ) (L : ℚ) (calls : List Call) :
    (execute earlyReturn w h L calls).2.filterMap Event.deleted? ++
        (execute earlyReturn w h L calls).1.registry.live =
      (execute earlyReturn w h L calls).1.registry.created := by
  apply (machine earlyReturn).run_invariant
    (I := fun b tr => tr.filterMap Event.deleted? ++ b.registry.live = b.registry.created) rfl
  intro b tr c hb
  rw [List.filterMap_append]
  cases c with
  | addFrame t x =>
    obtain ⟨_, _, -, -, hnew⟩ := addFrame_use b t x
    simp only [machine, deleted_addFrame, List.append_nil]
    rcases hnew with ⟨-, hreg⟩ | ⟨-, hreg⟩
    · rw [hreg, hb]
    · rw [hreg, registryOpened, ← List.append_assoc, hb]
  | getFrame ts =>
    obtain ⟨hcounter, hdeleted⟩ := deleted_query earlyReturn b ts
    simp only [machine, registry] at hb ⊢
    rw [List.append_assoc, hdeleted, hcounter, hb]

theorem acts_machine (earlyReturn : Bool) (b : VideoBuffer) (calls : List Call) :
    b.registry.acts (((machine earlyReturn).run b calls).2.map Event.act) =
      some ((machine earlyReturn).run b calls).1.registry := by
  have hstep (b : VideoBuffer) (r : Registry ℕ) (c : Call) (hr : r = b.registry) :
      ∃ r', r.acts (((machine earlyReturn).step b c).2.map Event.act) = some r' ∧
        r' = ((machine earlyReturn).step b c).1.registry := by
    subst hr
    cases c with
    | addFrame t x => exact ⟨_, acts_addFrame b t x, rfl⟩
    | getFrame ts => exact ⟨_, acts_query earlyReturn b ts, rfl⟩
  rcases Registry.acts_run (machine earlyReturn) Event.act hstep rfl calls with ⟨r, hacts, rfl⟩
  exact hacts

theorem acts_execute (earlyReturn : Bool) (w h : ℤ) (L : ℚ) (calls : List Call) :
    Registry.empty.acts ((execute earlyReturn w h L calls).2.map Event.act) =
      some (execute earlyReturn w h L calls).1.registry :=
  acts_machine earlyReturn (.new w h L) calls

/-! ### Whole lives -/

/-- In these events, `n` fragments are created and deleted, each once and in the order of their
numbers, and no method of a fragment is called before its creation or after its deletion. -/
structure OwnedForLife (n : ℕ) (tr : List Event) : Prop where
  guarded : Guarded Act.Admissible (tr.map Event.act)
  created : (tr.map Event.act).filterMap Act.created? = List.range' 1 n
  deleted : tr.filterMap Event.deleted? = List.range' 1 n

/-- At any time, the deleted fragments and then the stored ones are all that were created; and
the destructor, if the recorders let it end, completes orderly lifetimes for all of them. -/
theorem execute_owned (earlyReturn : Bool) (w h : ℤ) (L : ℚ) (calls : List Call)
    (isRecording : ℕ → ℕ → Channel → Bool)
    (hstop : ∀ f ∈ (execute earlyReturn w h L calls).1.fragments,
      ∃ N, ∀ n ≥ N, ∀ ch, isRecording n f.id ch = false) :
    (execute earlyReturn w h L calls).2.filterMap Event.deleted? ++
        (execute earlyReturn w h L calls).1.fragments.map (·.id) =
      List.range' 1 (execute earlyReturn w h L calls).1.fileCounter ∧
    ∃ tr, (∃ fuel₀, ∀ fuel ≥ fuel₀,
        (execute earlyReturn w h L calls).1.destruct isRecording fuel = some tr) ∧
      OwnedForLife (execute earlyReturn w h L calls).1.fileCounter
        ((execute earlyReturn w h L calls).2 ++ tr) := by
  have hconserved := execute_conserves earlyReturn w h L calls
  obtain ⟨tr, ⟨fuel₀, hends⟩, hdeleted, -, -⟩ := destruct_total _ hstop
  have hacts : Registry.empty.acts (((execute earlyReturn w h L calls).2 ++ tr).map Event.act) =
      some ⟨List.range' 1 (execute earlyReturn w h L calls).1.fileCounter, []⟩ := by
    rw [List.map_append, Registry.acts_append, acts_execute, Option.bind_some]
    exact acts_destruct (hends fuel₀ le_rfl)
  have hfollows := Registry.follows_of_acts hacts
  refine ⟨hconserved, tr, ⟨fuel₀, hends⟩, hfollows.guarded, hfollows.created.symm, ?_⟩
  rw [List.filterMap_append, hdeleted]
  exact hconserved

/-- The query for 5 s deletes the first two of three fragments, the destructor the third. -/
theorem evicted_owned :
    (execute false 1280 720 15 [.addFrame 0 (.pixel 1), .addFrame 20 (.pixel 2),
        .addFrame 40 (.pixel 3), .getFrame 5]).2.filterMap Event.deleted? ++
        (execute false 1280 720 15 [.addFrame 0 (.pixel 1), .addFrame 20 (.pixel 2),
          .addFrame 40 (.pixel 3), .getFrame 5]).1.fragments.map (·.id) =
      List.range' 1 (execute false 1280 720 15 [.addFrame 0 (.pixel 1), .addFrame 20 (.pixel 2),
        .addFrame 40 (.pixel 3), .getFrame 5]).1.fileCounter ∧
    ∃ tr, (∃ fuel₀, ∀ fuel ≥ fuel₀,
        (execute false 1280 720 15 [.addFrame 0 (.pixel 1), .addFrame 20 (.pixel 2),
          .addFrame 40 (.pixel 3), .getFrame 5]).1.destruct (fun n _ _ => n < 7) fuel = some tr) ∧
      OwnedForLife (execute false 1280 720 15 [.addFrame 0 (.pixel 1), .addFrame 20 (.pixel 2),
          .addFrame 40 (.pixel 3), .getFrame 5]).1.fileCounter
        ((execute false 1280 720 15 [.addFrame 0 (.pixel 1), .addFrame 20 (.pixel 2),
          .addFrame 40 (.pixel 3), .getFrame 5]).2 ++ tr) :=
  execute_owned false 1280 720 15 [.addFrame 0 (.pixel 1), .addFrame 20 (.pixel 2),
    .addFrame 40 (.pixel 3), .getFrame 5] (fun n _ _ => n < 7)
    (fun _ _ => ⟨7, fun n hn ch => by simpa using hn⟩)

end TimeRoom.Buffer
