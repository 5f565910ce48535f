import TimeRoom.App.Sessions
import TimeRoom.Buffer.Ownership

/-!
# What the program owns

The program starts the camera's pipeline and creates an aligner if there is a
camera, and stops and deletes them in `exit` under the same condition.  Everything
else it owns are the fragments of its buffer.  An exception ends the bookkeeping,
wherever it comes from.
-/

namespace TimeRoom.App
open TimeRoom.Frame Buffer Runs Takes VideoBuffer

/-- The running pipeline, the aligner, and the fragments. -/
inductive Resource where
  | pipeline
  | aligner
  | fragment (i : ℕ)
deriving DecidableEq, Repr

def AppEvent.act : AppEvent → Act Resource
  | .pipelineStarted => .create .pipeline
  | .waitedForFrames => .touch .pipeline
  | .polledForFrames => .touch .pipeline
  | .alignCreated => .create .aligner
  | .alignProcess => .touch .aligner
  | .pipelineStopped => .delete .pipeline
  | .alignDeleted => .delete .aligner
  | .buffer e => e.act.map .fragment

/-- The fragments of a buffer, next to the camera's resources. -/
def fragmentsWith (camera : Registry Resource) (b : VideoBuffer) : Registry Resource :=
  .within .fragment camera b.registry

def cameraInUse : Registry Resource := ⟨[.pipeline, .aligner], [.pipeline, .aligner]⟩

def cameraClosed : Registry Resource := ⟨[.pipeline, .aligner], []⟩

theorem acts_fragments {camera : Registry Resource}
    (hcreated : ∀ i, Resource.fragment i ∉ camera.created)
    (hlive : ∀ i, Resource.fragment i ∉ camera.live) {b : VideoBuffer} {tr : List Buffer.Event}
    {r : Registry ℕ} (h : b.registry.acts (tr.map Event.act) = some r) :
    (fragmentsWith camera b).acts ((tr.map AppEvent.buffer).map AppEvent.act) =
      some (.within .fragment camera r) := by
  have hacts : (tr.map AppEvent.buffer).map AppEvent.act =
      (tr.map Event.act).map (Act.map Resource.fragment) := by
    rw [List.map_map, List.map_map]
    rfl
  have hinj : Function.Injective Resource.fragment := by
    intro i j hij
    exact Resource.fragment.inj hij
  rw [hacts, fragmentsWith, Registry.acts_within hinj hcreated hlive, h]
  rfl

namespace OfApp
variable {σ : Type} (ed : Edition) (libs : Libraries σ)

def registry (a : OfApp σ) : Registry Resource := fragmentsWith cameraInUse a.buffer

section Update
variable (tick : Tick) (a : OfApp σ)

theorem acts_ofCamera {shot : List AppEvent} (hshot : OfCamera shot) :
    a.registry.acts (shot.map AppEvent.act) = some a.registry := by
  apply Registry.acts_touch
  intro e he
  rcases List.mem_map.mp he with ⟨f, hf, rfl⟩
  rcases hshot f hf with rfl | rfl
  · exact ⟨.pipeline, by simp [registry, fragmentsWith, Registry.within, cameraInUse], rfl⟩
  · exact ⟨.aligner, by simp [registry, fragmentsWith, Registry.within, cameraInUse], rfl⟩

theorem acts_calls (calls : List Call) :
    let r := (Buffer.machine ed.getFrameReturns).run a.buffer calls
    a.registry.acts ((r.2.map AppEvent.buffer).map AppEvent.act) =
      some (fragmentsWith cameraInUse r.1) :=
  acts_fragments (by simp [cameraInUse]) (by simp [cameraInUse])
    (acts_machine ed.getFrameReturns a.buffer calls)

/-- The program has a camera and owns these resources; an exception ends the bookkeeping. -/
def Owns : Option (OfApp σ) → Registry Resource → Prop
  | none, _ => True
  | some a, r => a.cameraFound = true ∧ r = a.registry

variable {a}

theorem acts_updatePictures (hfound : a.cameraFound = true) :
    ∃ r, a.registry.acts ((a.updatePictures ed libs tick).2.map AppEvent.act) = some r ∧
      Owns (a.updatePictures ed libs tick).1 r := by
  cases hrun : (a.updatePictures ed libs tick).1 with
  | none =>
    obtain ⟨js, hjs⟩ := pastPictures_events ed libs tick (List.finRange REPEAT_NUMBER) a
    have hevents : (a.updatePictures ed libs tick).2 = _ := hjs
    rw [hevents]
    exact ⟨_, acts_calls ed a _, trivial⟩
  | some b =>
    obtain ⟨hbuffer, hevents, hsettled⟩ := updatePictures_run ed libs tick hrun
    simp only [settled, Prod.mk.injEq] at hsettled
    rw [hevents]
    refine ⟨_, acts_calls ed a _, hsettled.1.trans hfound, ?_⟩
    rw [registry, hbuffer]

theorem acts_update (hfound : a.cameraFound = true) :
    ∃ r, a.registry.acts ((a.update ed libs tick).2.map AppEvent.act) = some r ∧
      Owns (a.update ed libs tick).1 r := by
  have hcases := update_cases ed libs tick hfound
  rcases hcases with ⟨shot, -, hshot, hstep⟩ | ⟨c, r, shot, -, -, hshot, hrecords, hstep⟩
  · rw [hstep]
    exact ⟨_, a.acts_ofCamera hshot, trivial⟩
  · have hrecorded : a.registry.acts (((recorded ed a.buffer r).2.map AppEvent.buffer).map
        AppEvent.act) = some c.registry := by
      rw [registry, registry, hrecords.buffer]
      exact acts_calls ed a _
    rw [hstep, List.map_append, Registry.acts_append, List.map_append, Registry.acts_append,
      a.acts_ofCamera hshot, Option.bind_some, hrecorded, Option.bind_some]
    exact acts_updatePictures ed libs tick (hrecords.found.trans hfound)

end Update

/-! ### Sessions -/

section Session
variable {camera : Camera} (fresh : Fresh σ) (ticks : List Tick)

theorem session_acts (hcamera : 0 < camera.devices) (hthrows : camera.throws = none) :
    ∃ r, Registry.empty.acts (((setup camera fresh).2 ++
        (session ed libs camera fresh ticks).2).map AppEvent.act) = some r ∧
      Owns (session ed libs camera fresh ticks).1 r := by
  have hsetup := setup_found fresh hcamera hthrows
  have hcreated : Registry.empty.acts ((setup camera fresh).2.map AppEvent.act) =
      some (allocated fresh true camera.depthScale camera.waited).registry := by
    rw [hsetup]
    rfl
  have hstep (s : Option (OfApp σ)) (r : Registry Resource) (tick : Tick) (h : Owns s r) :
      ∃ r', r.acts (((machine ed libs).step s tick).2.map AppEvent.act) = some r' ∧
        Owns ((machine ed libs).step s tick).1 r' := by
    cases s with
    | none => exact ⟨r, rfl, trivial⟩
    | some a =>
      obtain ⟨hfound, rfl⟩ := h
      exact acts_update ed libs tick hfound
  have hrun := Registry.acts_run (machine ed libs) AppEvent.act hstep
    (s := some (allocated fresh true camera.depthScale camera.waited)) ⟨rfl, rfl⟩ ticks
  rw [List.map_append, Registry.acts_append, hcreated, Option.bind_some, session, hsetup]
  exact hrun

theorem acts_close {a : OfApp σ} (hfound : a.cameraFound = true)
    {isRecording : ℕ → ℕ → Channel → Bool} {fuel : ℕ} {tr : List AppEvent}
    (h : a.close isRecording fuel = some tr) :
    ∃ created, a.registry.acts (tr.map AppEvent.act) = some ⟨created, []⟩ := by
  rcases Option.map_eq_some_iff.mp h with ⟨destroyed, hdestroyed, rfl⟩
  have hexit : a.registry.acts (a.exit.map AppEvent.act) =
      some (fragmentsWith cameraClosed a.buffer) := by
    rw [exit, if_pos hfound]
    simp [AppEvent.act, Registry.acts_cons, Registry.act, registry, fragmentsWith,
      Registry.within, cameraInUse, cameraClosed]
  have hnone (i : ℕ) : Resource.fragment i ∉ cameraClosed.created := by simp [cameraClosed]
  have hfragments := acts_fragments hnone (by simp [cameraClosed]) (acts_destruct hdestroyed)
  rw [List.map_append, Registry.acts_append, hexit, Option.bind_some, hfragments]
  exact ⟨_, rfl⟩

/-- A call of `setup` that throws leaves the pipeline running at most. -/
theorem acts_setup_prefix {tr : List AppEvent}
    (htr : tr <+: [.pipelineStarted, .waitedForFrames]) :
    ∃ r, Registry.empty.acts (tr.map AppEvent.act) = some r := by
  have hwhole : Registry.empty.acts ([AppEvent.pipelineStarted, .waitedForFrames].map
      AppEvent.act) = some ⟨[.pipeline], [.pipeline]⟩ := rfl
  obtain ⟨rest, hrest⟩ := htr
  rw [← hrest, List.map_append, Registry.acts_append] at hwhole
  cases hacts : Registry.empty.acts (tr.map AppEvent.act) with
  | none =>
    rw [hacts] at hwhole
    cases hwhole
  | some r => exact ⟨r, rfl⟩

end Session

/-- In every session, with a camera or without, whether or not an exception ends it: no resource
is used before it was created or after it was deleted.  And `exit` with the destructor, if the
recorders let it end, deletes everything that was created, each once. -/
theorem session_owned (ed : Edition) (libs : Libraries σ) (camera : Camera) (fresh : Fresh σ)
    (ticks : List Tick) :
    Guarded Act.Admissible (((setup camera fresh).2 ++
        (session ed libs camera fresh ticks).2).map AppEvent.act) ∧
      ∀ a ∈ (session ed libs camera fresh ticks).1,
        ∀ isRecording : ℕ → ℕ → Channel → Bool,
          (∀ f ∈ a.buffer.fragments, ∃ N, ∀ n ≥ N, ∀ ch, isRecording n f.id ch = false) →
          ∃ tr, (∃ fuel₀, ∀ fuel ≥ fuel₀, a.close isRecording fuel = some tr) ∧
            let acts := ((setup camera fresh).2 ++
              (session ed libs camera fresh ticks).2 ++ tr).map AppEvent.act
            Guarded Act.Admissible acts ∧
              (acts.filterMap Act.deleted?).Perm (acts.filterMap Act.created?) ∧
              (acts.filterMap Act.deleted?).Nodup := by
  rcases setup_cases camera fresh with ⟨-, hnone, hevents⟩ | ⟨-, -, hsetup⟩ |
    ⟨hthrows, hcamera, -⟩
  · have hstopped : session ed libs camera fresh ticks = (none, []) := by
      rw [session, machine, hnone, Machine.halting_stopped]
    obtain ⟨r, hacts⟩ := acts_setup_prefix hevents
    rw [hstopped, List.append_nil]
    refine ⟨(Registry.follows_of_acts hacts).guarded, ?_⟩
    intro a ha
    cases ha
  · have hidle : session ed libs camera fresh ticks =
        (some (allocated fresh false fresh.cameraDepthScale []), []) := by
      rw [session, hsetup, session_idle ed libs rfl]
    rw [hidle, hsetup]
    refine ⟨Guarded.nil _, ?_⟩
    intro a ha isRecording _
    obtain rfl := Option.some_inj.mp ha
    have hclose (fuel : ℕ) (_ : fuel ≥ 0) :
        (allocated fresh false fresh.cameraDepthScale []).close isRecording fuel = some [] := by
      simp [close, exit, allocated, destruct, removeAll, deleteLoop, VideoBuffer.new]
    exact ⟨[], ⟨0, hclose⟩, Guarded.nil _, .nil, List.nodup_nil⟩
  · obtain ⟨r, hacts, hown⟩ := session_acts ed libs fresh ticks hcamera hthrows
    refine ⟨(Registry.follows_of_acts hacts).guarded, ?_⟩
    intro a ha isRecording hstop
    rw [Option.mem_def.mp ha] at hown
    obtain ⟨hfound, rfl⟩ := hown
    obtain ⟨destroyed, ⟨fuel₀, hends⟩, -⟩ := destruct_total a.buffer hstop
    have hclose (fuel : ℕ) (hfuel : fuel ≥ fuel₀) : a.close isRecording fuel =
        some (a.exit ++ destroyed.map AppEvent.buffer) := by
      rw [close, hends fuel hfuel]
      rfl
    obtain ⟨created, hclosed⟩ := acts_close hfound (hclose fuel₀ le_rfl)
    have hall : Registry.empty.acts (((setup camera fresh).2 ++
        (session ed libs camera fresh ticks).2 ++
        (a.exit ++ destroyed.map AppEvent.buffer)).map AppEvent.act) = some ⟨created, []⟩ := by
      rw [List.map_append, Registry.acts_append, hacts, Option.bind_some, hclosed]
    have hfollows := Registry.follows_of_acts hall
    exact ⟨_, ⟨fuel₀, hclose⟩, hfollows.guarded, hfollows.all_deleted rfl⟩

/-- Two fragments, and recorders that need seven polls. -/
theorem twoShots_owned :
    ∃ tr, (∃ fuel₀, ∀ fuel ≥ fuel₀, afterTwoShots.close (fun n _ _ => n < 7) fuel = some tr) ∧
      let acts := ((setup oneCamera freshProgram).2 ++
        (session .complete plainLibraries oneCamera freshProgram twoShots).2 ++ tr).map AppEvent.act
      Guarded Act.Admissible acts ∧
        (acts.filterMap Act.deleted?).Perm (acts.filterMap Act.created?) ∧
        (acts.filterMap Act.deleted?).Nodup :=
  (session_owned .complete plainLibraries oneCamera freshProgram twoShots).2
    afterTwoShots (Option.some_get _).symm (fun n _ _ => n < 7)
    (fun _ _ => ⟨7, fun n hn ch => by simpa using hn⟩)

/-! ### How many fragments -/

/-- With line 208 no fragment is deleted by a query. -/
theorem execute_undeleted (w h : ℤ) (L : ℚ) (calls : List Call) :
    (execute true w h L calls).2.filterMap Event.deleted? = [] := by
  apply (Buffer.machine true).run_invariant
    (I := fun _ tr => tr.filterMap Event.deleted? = []) rfl
  intro b tr c htr
  rw [List.filterMap_append, htr, List.nil_append]
  cases c with
  | addFrame t x => exact deleted_addFrame b t x
  | getFrame ts => rfl

theorem execute_fileCounter (earlyReturn : Bool) (w h : ℤ) (L : ℚ) (calls : List Call) :
    (execute earlyReturn w h L calls).1.fileCounter = (takesOf L calls).length := by
  rcases execute_cases earlyReturn w h L calls with ⟨hnil, hnew⟩ | ⟨R, kept, last, hcut, s⟩
  · rw [takesOf, (Recording.cut_eq_none_iff L _).mpr hnil, hnew]
    rfl
  · rw [takesOf, hcut, s.counter]
    simp [takes]

/-- A session with line 208 keeps the fragments of all takes.  Without it, one of steady rounds
keeps at most five after every update, and at most six at every moment in between. -/
theorem session_stores (ed : Edition) (libs : Libraries σ) (camera : Camera)
    (hcamera : 0 < camera.devices) (fresh : Fresh σ) (ticks : List Tick)
    (a : OfApp σ) (hrun : (session ed libs camera fresh ticks).1 = some a)
    (hpast : ed.getFrameReturns = true ∨
      Steady 15 (roundsOf libs camera.depthScale fresh.filterState ticks)) :
    if ed.getFrameReturns then
      a.buffer.fragments.length =
        (takesOf 15 (callsOf libs camera.depthScale fresh.filterState ticks)).length
    else
      a.buffer.fragments.length ≤ 5 ∧
        ∀ calls, calls <+: callsOf libs camera.depthScale fresh.filterState ticks →
          (execute false 1280 720 15 calls).1.fragments.length ≤ 6 := by
  have hbuffer := (session_running ed libs hcamera fresh ticks hrun).2.1
  rw [hbuffer]
  cases hreturns : ed.getFrameReturns with
  | true =>
    have hconserved := execute_conserves true 1280 720 15
      (callsOf libs camera.depthScale fresh.filterState ticks)
    rw [execute_undeleted, List.nil_append, VideoBuffer.registry] at hconserved
    have hlength := congrArg List.length hconserved
    rw [List.length_map, List.length_range', execute_fileCounter] at hlength
    exact hlength
  | false =>
    rw [hreturns] at hpast
    have hsteady : Steady 15 (roundsOf libs camera.depthScale fresh.filterState ticks) := by
      simpa using hpast
    have hdelay : (60 : ℚ) ∈ delays := by simp [delays]
    constructor
    · have hstored := hsteady.stored 1280 720 delays (by norm_num) hdelay (by norm_num)
      have hsix : ((execute false 1280 720 15 (callsOf libs camera.depthScale fresh.filterState
          ticks)).1.fragments.length : ℚ) < 6 := by
        calc _ < (60 : ℚ) / 15 + 2 := hstored
          _ = 6 := by norm_num
      exact Nat.le_of_lt_succ (by exact_mod_cast hsix)
    · intro calls hcalls
      have hstored := hsteady.stored_within 1280 720 delays (by norm_num) hdelay (by norm_num)
        hcalls
      have hseven : ((execute false 1280 720 15 calls).1.fragments.length : ℚ) < 7 := by
        calc _ < (60 : ℚ) / 15 + 3 := hstored
          _ = 7 := by norm_num
      exact Nat.le_of_lt_succ (by exact_mod_cast hseven)

theorem steadyShots_stored :
    if Edition.complete.getFrameReturns then
      afterLastShot.buffer.fragments.length =
        (takesOf 15 (callsOf plainLibraries (1 / 1000) () (steadyShots ++ [lastShot]))).length
    else
      afterLastShot.buffer.fragments.length ≤ 5 ∧
        ∀ calls, calls <+: callsOf plainLibraries (1 / 1000) () (steadyShots ++ [lastShot]) →
          (execute false 1280 720 15 calls).1.fragments.length ≤ 6 :=
  session_stores .complete plainLibraries oneCamera (by decide) freshProgram
    (steadyShots ++ [lastShot]) afterLastShot (Option.some_get _).symm
    (Or.inr steadyShots_steady)

end OfApp

end TimeRoom.App
