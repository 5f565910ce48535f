import TimeRoom.Takes.Lifecycle

/-!
# The tags tell the truth

In every reachable state the tag of a stored fragment says whether its recorder
is running, and the methods that trust the tag without testing it are called
only where the recorder's log agrees.
-/

namespace TimeRoom.Takes
open TimeRoom.Frame Buffer Runs VideoBuffer Recording

/-- Started and not yet closed. -/
def Running (log : List Command) : Prop := .start ∈ log ∧ .close ∉ log

/-- After the events `pre`, the event `e` may happen: a fragment is saved while it is
recording, loaded while it is on disk and its recorder is closed, and deleted when its
recorder is closed. -/
structure Permitted (pre : List Event) (e : Event) : Prop where
  save : ∀ i st, e = .called i .saveOnDisk st → st = .recording
  load : ∀ i st, e = .called i .loadFromDisk st →
    st = .onDisk ∧ .close ∈ recorderLog i .rgb pre
  delete : ∀ i, e = .deleted i → .close ∈ recorderLog i .rgb pre

/-- The tags of `b` agree with the events `tr` that led to it. -/
structure TagsAgree (b : VideoBuffer) (tr : List Event) : Prop where
  tags : b.fragments = [] ∨ ∃ kept last, b.fragments = kept ++ [last] ∧
    last.state = .recording ∧ ∀ f ∈ kept, f.state = .onDisk ∨ f.state = .inMemory
  running : ∀ f ∈ b.fragments, Running (recorderLog f.id .rgb tr) ↔ f.state = .recording
  one : b.fragments ≠ [] → ∃! f, f ∈ b.fragments ∧ Running (recorderLog f.id .rgb tr)
  calls : Guarded Permitted tr

variable {w h : ℤ} {L : ℚ} {R : Recording RgbdFrame} {b : VideoBuffer}
  {kept : List VideoFragment} {last : VideoFragment}

namespace Stores

theorem running_iff (s : Stores w h L R b kept last) {f : VideoFragment}
    (hf : f ∈ b.fragments) : Running (log w h R f.id) ↔ f.state = .recording := by
  rw [s.fragments, List.mem_append, List.mem_singleton] at hf
  rcases hf with hf | rfl
  · constructor
    · intro hrunning
      exact absurd (s.close_mem_log hf) hrunning.2
    · intro hstate
      exact absurd hstate (s.kept_sealed f hf).not_recording
  · rw [s.last_id, s.counter, log_current]
    exact ⟨fun _ => s.running, fun _ => ⟨start_mem_takeLog _ _, close_notMem_takeLog _ _⟩⟩

/-- A query evicts and loads closed fragments only. -/
theorem getFrame_permitted (s : Stores w h L R b kept last) {tr : List Event}
    (htr : ∀ i, recorderLog i .rgb tr = log w h R i) (timestamp : ℚ) :
    Guarded (fun x => Permitted (tr ++ x)) (b.getFrame timestamp).2.2 := by
  have hclosed (f : VideoFragment) (hf : f ∈ b.fragments) (hstate : f.state ≠ .recording)
      (pre : List Event) : .close ∈ recorderLog f.id .rgb (tr ++ pre) := by
    rw [recorderLog_append, htr]
    exact List.mem_append_left _ (s.close_mem_log (s.mem_kept hf hstate))
  apply Guarded.of_forall
  intro e he pre
  rcases s.mem_getFrame he with ⟨f, hf, hstate, rfl | rfl⟩ |
    ⟨f, hf, hdisk, rfl | rfl | rfl⟩ | ⟨i, st, rfl⟩
  · constructor <;> simp
  · constructor
    · simp
    · simp
    · rintro i hi
      cases hi
      exact hclosed f hf hstate pre
  · constructor
    · simp
    · rintro i st hi
      cases hi
      exact ⟨rfl, hclosed f hf (by simp [hdisk]) pre⟩
    · simp
  · constructor <;> simp
  · constructor <;> simp
  · constructor <;> simp

end Stores

theorem Refines.addFrame_permitted {R : Option (Recording RgbdFrame)} (hb : Refines w h L b R)
    (tr : List Event) (t : ℚ) (x : RgbdFrame) :
    Guarded (fun y => Permitted (tr ++ y)) (b.addFrame t x).2 := by
  apply hb.addFrame_guarded
  · intro pre i ch c
    constructor <;> simp
  · intro pre i
    constructor <;> simp +contextual [eq_comm]

/-- The tags of every reachable buffer tell the truth, and so did every step before. -/
theorem execute_tagsAgree (earlyReturn : Bool) (w h : ℤ) (L : ℚ) (calls : List Call) :
    TagsAgree (execute earlyReturn w h L calls).1 (execute earlyReturn w h L calls).2 := by
  have hcalls : Guarded Permitted (execute earlyReturn w h L calls).2 := by
    rw [execute_guarded_iff earlyReturn w h L calls
      (fun pre t x => (execute_refines earlyReturn w h L pre).1.addFrame_permitted _ t x)]
    intro pre timestamp post _
    apply (execute_refines earlyReturn w h L pre).1.query_guarded
    intro R kept last hcut s
    apply s.getFrame_permitted
    intro i
    exact execute_log earlyReturn w h L pre hcut i
  rcases execute_cases earlyReturn w h L calls with ⟨-, hnew⟩ | ⟨R, kept, last, hcut, s⟩
  · have hempty : (execute earlyReturn w h L calls).1.fragments = [] := by
      rw [hnew]
      rfl
    constructor
    · exact Or.inl hempty
    · simp [hempty]
    · simp [hempty]
    · exact hcalls
  · have hlog := execute_log earlyReturn w h L calls hcut
    constructor
    · exact Or.inr ⟨kept, last, s.fragments, s.running, s.kept_sealed⟩
    · intro f hf
      rw [hlog]
      exact s.running_iff hf
    · intro _
      have hlast : last ∈ (execute earlyReturn w h L calls).1.fragments := by simp [s.fragments]
      refine ⟨last, ⟨hlast, ?_⟩, ?_⟩
      · rw [hlog]
        exact (s.running_iff hlast).mpr s.running
      · rintro f ⟨hf, hrunning⟩
        rw [hlog, s.running_iff hf] at hrunning
        rw [s.fragments, List.mem_append, List.mem_singleton] at hf
        rcases hf with hf | hf
        · exact absurd hrunning (s.kept_sealed f hf).not_recording
        · exact hf
    · exact hcalls

end TimeRoom.Takes
