import TimeRoom.App.Rounds
import TimeRoom.Takes.Disk

/-!
# Sessions of the program, and what they leave on disk

A session goes from `setup` over its updates to `exit` and the destructor of the
buffer, or to an exception in between.  An exception comes from a call of `setup`,
from a poll, or from a polled frameset that the filters cannot process or that
lacks a frame; or else a past picture needs a frame that cannot be allocated.  But
for the last kind, what the camera delivers says alone what a session films and how
far it gets.
-/

namespace TimeRoom.App
open TimeRoom.Frame Buffer Runs Takes VideoBuffer

variable {σ : Type}

/-- A polled frameset, with the clock inside `addFrame` and the memory of its new frame; `none`
is a poll that throws. -/
abbrev Delivery := Option (ℚ × Memory × Frameset)

def Tick.delivered (tick : Tick) : Option Delivery :=
  match tick.polled with
  | .throws => some none
  | .nothing => none
  | .frames newFrames => some (some (tick.recordTime, tick.memory, newFrames))

def deliveries (ticks : List Tick) : List Delivery := ticks.filterMap Tick.delivered

/-- The frames made of what is delivered, with their times, up to the first exception. -/
def film (libs : Libraries σ) (cameraDepthScale : ℚ) : σ → List Delivery → List (ℚ × RgbdFrame)
  | _, [] => []
  | _, none :: _ => []
  | filterState, some (recordTime, memory, newFrames) :: delivered =>
    match (OfApp.capture libs cameraDepthScale filterState memory newFrames).1 with
    | none => []
    | some (newFrame, _, filterState) =>
      (recordTime, newFrame) :: film libs cameraDepthScale filterState delivered

/-- The framesets after the processing blocks; `none` if a poll or a block throws. -/
def processed (libs : Libraries σ) : σ → List Delivery → Option (List Frameset)
  | _, [] => some []
  | _, none :: _ => none
  | filterState, some (_, _, newFrames) :: delivered =>
    (libs.filters.temporal filterState newFrames).bind fun (frames, filterState) =>
      (libs.filters.holeFilling filterState frames).bind fun (frames, filterState) =>
        (libs.filters.alignToColor filterState frames).bind fun (frames, filterState) =>
          (processed libs filterState delivered).map (frames :: ·)

/-- What the buffer is called for in a sequence of updates. -/
def callsOf (libs : Libraries σ) (cameraDepthScale : ℚ) (filterState : σ) (ticks : List Tick) :
    List Call :=
  (roundsOf libs cameraDepthScale filterState ticks).flatMap (Round.calls delays)

section Film
variable (libs : Libraries σ) (cameraDepthScale : ℚ) (filterState : σ)

theorem film_length_le (delivered : List Delivery) :
    (film libs cameraDepthScale filterState delivered).length ≤ delivered.length := by
  induction delivered generalizing filterState with
  | nil => exact le_rfl
  | cons delivery delivered ih =>
    rcases delivery with - | ⟨recordTime, memory, newFrames⟩
    · exact Nat.zero_le _
    · rw [film]
      split
      · exact Nat.zero_le _
      · exact Nat.succ_le_succ (ih _)

def blocks (newFrames : Frameset) : Option (Frameset × σ) :=
  (libs.filters.temporal filterState newFrames).bind fun (frames, filterState) =>
    (libs.filters.holeFilling filterState frames).bind fun (frames, filterState) =>
      libs.filters.alignToColor filterState frames

theorem capture_eq_blocks (memory : Memory) (newFrames : Frameset) :
    (OfApp.capture libs cameraDepthScale filterState memory newFrames).1 =
      (blocks libs filterState newFrames).bind fun (frames, filterState) =>
        (frames.rgbdFrame libs.rounding libs.allocates memory
          (MAX_DISTANCE / cameraDepthScale)).map (·, frames, filterState) := by
  rw [OfApp.capture, blocks]
  cases libs.filters.temporal filterState newFrames with
  | none => rfl
  | some result =>
    rcases result with ⟨filtered, filtering⟩
    simp only [Option.bind_some]
    cases libs.filters.holeFilling filtering filtered with
    | none => rfl
    | some result =>
      rcases result with ⟨filled, filling⟩
      simp only [Option.bind_some]
      cases libs.filters.alignToColor filling filled with
      | none => rfl
      | some result =>
        rcases result with ⟨frames, aligning⟩
        simp only [Option.bind_some]
        cases frames.rgbdFrame libs.rounding libs.allocates memory
          (MAX_DISTANCE / cameraDepthScale) <;> rfl

theorem processed_cons (recordTime : ℚ) (memory : Memory) (newFrames : Frameset)
    (delivered : List Delivery) :
    processed libs filterState (some (recordTime, memory, newFrames) :: delivered) =
      (blocks libs filterState newFrames).bind fun (frames, filterState) =>
        (processed libs filterState delivered).map (frames :: ·) := by
  rw [processed, blocks]
  simp only [Option.bind_assoc]

/-- Everything delivered is filmed exactly when no poll and no block throws and all outputs are
usable. -/
theorem film_all_iff (delivered : List Delivery) :
    (film libs cameraDepthScale filterState delivered).length = delivered.length ↔
      ∃ outputs, processed libs filterState delivered = some outputs ∧
        ∀ frames ∈ outputs, frames.Usable libs.allocates := by
  induction delivered generalizing filterState with
  | nil => simp [film, processed]
  | cons delivery delivered ih =>
    rcases delivery with - | ⟨recordTime, memory, newFrames⟩
    · simp [film, processed]
    · rw [film, processed_cons, capture_eq_blocks]
      cases blocks libs filterState newFrames with
      | none => simp
      | some result =>
        rcases result with ⟨frames, aligning⟩
        have husable : frames.Usable libs.allocates ↔
            (frames.rgbdFrame libs.rounding libs.allocates memory
              (MAX_DISTANCE / cameraDepthScale)).isSome = true := Frameset.usable_iff
        simp only [Option.bind_some]
        cases hframe : frames.rgbdFrame libs.rounding libs.allocates memory
            (MAX_DISTANCE / cameraDepthScale) with
        | none =>
          rw [hframe] at husable
          simp [husable]
        | some newFrame =>
          rw [hframe] at husable
          simp only [Option.map_some, List.length_cons, Nat.add_right_cancel_iff, ih,
            Option.map_eq_some_iff]
          constructor
          · rintro ⟨outputs, houtputs, hall⟩
            exact ⟨frames :: outputs, ⟨outputs, houtputs, rfl⟩, by simpa [husable] using hall⟩
          · rintro ⟨-, ⟨outputs, houtputs, rfl⟩, hall⟩
            exact ⟨outputs, houtputs, fun g hg => hall g (List.mem_cons_of_mem _ hg)⟩

/-- Then each frame is made of the output at its place. -/
theorem film_forall₂ {delivered : List Delivery} {outputs : List Frameset}
    (houtputs : processed libs filterState delivered = some outputs)
    (hall : ∀ frames ∈ outputs, frames.Usable libs.allocates) :
    List.Forall₂
      (fun frames p => ∃ memory, frames.rgbdFrame libs.rounding libs.allocates memory
        (MAX_DISTANCE / cameraDepthScale) = some p.2)
      outputs (film libs cameraDepthScale filterState delivered) := by
  induction delivered generalizing filterState outputs with
  | nil =>
    obtain rfl : [] = outputs := Option.some_inj.mp houtputs
    exact .nil
  | cons delivery delivered ih =>
    rcases delivery with - | ⟨recordTime, memory, newFrames⟩
    · cases houtputs
    · rw [processed_cons, Option.bind_eq_some_iff] at houtputs
      obtain ⟨⟨frames, aligning⟩, hblocks, houtputs⟩ := houtputs
      obtain ⟨rest, hrest, rfl⟩ := Option.map_eq_some_iff.mp houtputs
      rw [List.forall_mem_cons] at hall
      have hsome : (frames.rgbdFrame libs.rounding libs.allocates memory
          (MAX_DISTANCE / cameraDepthScale)).isSome = true := Frameset.usable_iff.mp hall.1
      obtain ⟨newFrame, hframe⟩ := Option.isSome_iff_exists.mp hsome
      rw [film, capture_eq_blocks, hblocks, Option.bind_some]
      simp only [hframe, Option.map_some]
      exact .cons ⟨memory, hframe⟩ (ih aligning hrest hall.2)

theorem forall₂_getLast? {α β : Type} {R : α → β → Prop} {xs : List α} {ys : List β}
    (h : List.Forall₂ R xs ys) {a : α} (ha : xs.getLast? = some a) :
    ∃ b, ys.getLast? = some b ∧ R a b := by
  have hreverse := List.rel_reverse h
  rw [← List.head?_reverse] at ha ⊢
  obtain ⟨xs', hxs⟩ := List.head?_eq_some_iff.mp ha
  rw [hxs, List.forall₂_cons_left_iff] at hreverse
  obtain ⟨b, ys', hab, -, hys⟩ := hreverse
  exact ⟨b, by rw [hys, List.head?_cons], hab⟩

/-- Filming needs neither the import of pixels nor the copying of images. -/
theorem film_libraries (pixels : PixelImport) (assign : ImageCopy) (delivered : List Delivery) :
    film { libs with pixels, assign } cameraDepthScale filterState delivered =
      film libs cameraDepthScale filterState delivered := by
  induction delivered generalizing filterState with
  | nil => rfl
  | cons delivery delivered ih =>
    rcases delivery with - | ⟨recordTime, memory, newFrames⟩
    · rfl
    · have hcapture : OfApp.capture { libs with pixels, assign } cameraDepthScale filterState memory
          newFrames = OfApp.capture libs cameraDepthScale filterState memory newFrames := rfl
      rw [film, film, hcapture]
      split
      · rfl
      · rw [ih]

theorem deliveries_idle {tick : Tick} (hpolled : tick.polled = .nothing) (ticks : List Tick) :
    deliveries (tick :: ticks) = deliveries ticks :=
  List.filterMap_cons_none (by rw [Tick.delivered, hpolled])

theorem deliveries_failed {tick : Tick} (hpolled : tick.polled = .throws) (ticks : List Tick) :
    deliveries (tick :: ticks) = none :: deliveries ticks :=
  List.filterMap_cons_some (by rw [Tick.delivered, hpolled])

theorem deliveries_cons {tick : Tick} {newFrames : Frameset}
    (hpolled : tick.polled = .frames newFrames) (ticks : List Tick) :
    deliveries (tick :: ticks) =
      some (tick.recordTime, tick.memory, newFrames) :: deliveries ticks :=
  List.filterMap_cons_some (by rw [Tick.delivered, hpolled])

theorem roundsOf_frames (ticks : List Tick) :
    (roundsOf libs cameraDepthScale filterState ticks).filterMap Round.frame =
      film libs cameraDepthScale filterState (deliveries ticks) := by
  induction ticks generalizing filterState with
  | nil => rfl
  | cons tick ticks ih =>
    rw [roundsOf, director, Machine.halting_cons]
    cases hpolled : tick.polled with
    | throws =>
      rw [direct_failed hpolled, deliveries_failed hpolled, Machine.halting_stopped]
      rfl
    | nothing =>
      rw [direct_idle hpolled, deliveries_idle hpolled]
      exact ih filterState
    | frames newFrames =>
      rw [deliveries_cons hpolled, film]
      cases hcapture : (OfApp.capture libs cameraDepthScale filterState tick.memory
          newFrames).1 with
      | none =>
        rw [direct_throws hpolled hcapture, Machine.halting_stopped]
        rfl
      | some result =>
        rcases result with ⟨newFrame, frames, filterState'⟩
        rw [direct_films hpolled hcapture]
        exact congrArg ((tick.recordTime, newFrame) :: ·) (ih filterState')

theorem director_stops_iff (ticks : List Tick) :
    ((director libs cameraDepthScale).run (some filterState) ticks).1 = none ↔
      (film libs cameraDepthScale filterState (deliveries ticks)).length <
        (deliveries ticks).length := by
  induction ticks generalizing filterState with
  | nil => simp [film, deliveries]
  | cons tick ticks ih =>
    rw [director, Machine.halting_cons]
    cases hpolled : tick.polled with
    | throws =>
      rw [direct_failed hpolled, deliveries_failed hpolled, Machine.halting_stopped]
      simp [film]
    | nothing =>
      rw [direct_idle hpolled, deliveries_idle hpolled]
      exact ih filterState
    | frames newFrames =>
      rw [deliveries_cons hpolled, film]
      cases hcapture : (OfApp.capture libs cameraDepthScale filterState tick.memory
          newFrames).1 with
      | none =>
        rw [direct_throws hpolled hcapture, Machine.halting_stopped]
        simp
      | some result =>
        rcases result with ⟨newFrame, frames, filterState'⟩
        rw [direct_films hpolled hcapture, List.length_cons, List.length_cons,
          Nat.add_lt_add_iff_right]
        exact ih filterState'

theorem recordedFrames_calls (rounds : List (Round RgbdFrame)) :
    recordedFrames (rounds.flatMap (Round.calls delays)) = rounds.filterMap Round.frame := by
  induction rounds with
  | nil => rfl
  | cons r rounds ih =>
    have hqueries : (delays.map (fun d => Call.getFrame (r.time - d))).filterMap
        Call.recorded? = [] := rfl
    rw [List.flatMap_cons, recordedFrames, List.filterMap_append, ← recordedFrames,
      ← recordedFrames, ih, Round.calls, recordedFrames, List.filterMap_append, hqueries]
    cases hframe : r.frame with
    | none => simp [hframe]
    | some p => simp [hframe, Call.recorded?]

theorem recordedFrames_film (ticks : List Tick) :
    recordedFrames (callsOf libs cameraDepthScale filterState ticks) =
      film libs cameraDepthScale filterState (deliveries ticks) := by
  rw [callsOf, recordedFrames_calls, roundsOf_frames]

theorem takesOf_film (ticks : List Tick) :
    (takesOf 15 (callsOf libs cameraDepthScale filterState ticks)).flatMap Take.frames =
      (film libs cameraDepthScale filterState (deliveries ticks)).map Prod.snd := by
  rw [takesOf_frames, recordedFrames_film]

end Film

namespace OfApp

/-- The end of a session: `exit`, and then the destructor of the buffer. -/
def close (a : OfApp σ) (isRecording : ℕ → ℕ → Channel → Bool) (fuel : ℕ) :
    Option (List AppEvent) :=
  (a.buffer.destruct isRecording fuel).map (fun tr => a.exit ++ tr.map .buffer)

def bufferEvents (tr : List AppEvent) : List Buffer.Event := tr.filterMap AppEvent.buffer?

/-- A session from its beginning on, up to some update. -/
def session (ed : Edition) (libs : Libraries σ) (camera : Camera) (fresh : Fresh σ)
    (ticks : List Tick) : Option (OfApp σ) × List AppEvent :=
  (machine ed libs).run (setup camera fresh).1 ticks

/-! ### Setup -/

section Setup
variable (camera : Camera) (fresh : Fresh σ)

/-- Everything `setup` can do: a call throws, there is no camera, or there is one. -/
theorem setup_cases :
    ((camera.throws = some .query ∨ 0 < camera.devices ∧ camera.throws ≠ none) ∧
        (setup camera fresh).1 = none ∧
        (setup camera fresh).2 <+: [.pipelineStarted, .waitedForFrames]) ∨
      (camera.throws ≠ some .query ∧ camera.devices = 0 ∧
        setup camera fresh = (some (allocated fresh false fresh.cameraDepthScale []), [])) ∨
      (camera.throws = none ∧ 0 < camera.devices ∧
        setup camera fresh = (some (allocated fresh true camera.depthScale camera.waited),
          [.pipelineStarted, .waitedForFrames, .alignCreated])) := by
  have hnone : ¬ 0 < camera.devices → camera.devices = 0 := by omega
  rw [setup, initCamera]
  cases hthrows : camera.throws with
  | none =>
    by_cases hdevices : 0 < camera.devices
    · simp [hdevices]
    · simp [hnone hdevices]
  | some call =>
    by_cases hdevices : 0 < camera.devices
    · cases call <;> simp [hdevices, List.prefix_cons_iff]
    · cases call <;> simp [hnone hdevices]

variable {camera}

theorem session_set_up {ed : Edition} {libs : Libraries σ} {ticks : List Tick}
    (hcamera : 0 < camera.devices) (hrun : (session ed libs camera fresh ticks).1 ≠ none) :
    camera.throws = none := by
  rcases setup_cases camera fresh with ⟨-, hnone, -⟩ | ⟨-, hzero, -⟩ | ⟨hthrows, -, -⟩
  · rw [session, machine, hnone, Machine.halting_stopped] at hrun
    exact absurd rfl hrun
  · omega
  · exact hthrows

theorem setup_found (hcamera : 0 < camera.devices) (hthrows : camera.throws = none) :
    setup camera fresh = (some (allocated fresh true camera.depthScale camera.waited),
      [.pipelineStarted, .waitedForFrames, .alignCreated]) := by
  rcases setup_cases camera fresh with ⟨hcalls, -⟩ | ⟨-, hzero, -⟩ | ⟨-, -, hsetup⟩
  · simp [hthrows] at hcalls
  · omega
  · exact hsetup

theorem session_idle (ed : Edition) (libs : Libraries σ) {a : OfApp σ}
    (ha : a.cameraFound = false) (ticks : List Tick) :
    (machine ed libs).run (some a) ticks = (some a, []) := by
  have hidle (tick : Tick) : a.update ed libs tick = (some a, []) := by simp [update, ha]
  rw [machine]
  induction ticks with
  | nil => rfl
  | cons tick ticks ih =>
    rw [Machine.halting_cons, hidle, ih]
    rfl

end Setup

section Session
variable (ed : Edition) (libs : Libraries σ) {camera : Camera} (hcamera : 0 < camera.devices)
  (fresh : Fresh σ) (ticks : List Tick)

/-- The camera's machine and the buffer, over the same updates. -/
def cascadeAfter (camera : Camera) : (Option σ × VideoBuffer) × List Buffer.Event :=
  ((director libs camera.depthScale).cascade (roundMachine ed.getFrameReturns)).run
    (some fresh.filterState, .new 1280 720 15) ticks

theorem cascadeAfter_eq : cascadeAfter ed libs fresh ticks camera =
    let q := execute ed.getFrameReturns 1280 720 15
      (callsOf libs camera.depthScale fresh.filterState ticks)
    ((((director libs camera.depthScale).run (some fresh.filterState) ticks).1, q.1), q.2) := by
  rw [cascadeAfter, Machine.cascade_run, roundMachine_run]
  rfl

include hcamera in
/-- A session with a camera goes through the cascade, unless a past picture throws. -/
theorem session_cascade (hthrows : camera.throws = none)
    (hrunning : (session ed libs camera fresh ticks).1 ≠ none ∨
      ∀ tick ∈ ticks, Allocates ed libs tick) :
    Directs camera.depthScale (session ed libs camera fresh ticks).1
        (cascadeAfter ed libs fresh ticks camera).1 ∧
      bufferEvents (session ed libs camera fresh ticks).2 =
        (cascadeAfter ed libs fresh ticks camera).2 := by
  induction ticks using List.reverseRecOn with
  | nil =>
    rw [session, setup_found fresh hcamera hthrows]
    exact ⟨⟨rfl, rfl, rfl⟩, rfl⟩
  | append_singleton ticks tick ih =>
    have hpast : (∀ t ∈ ticks ++ [tick], Allocates ed libs t) →
        (∀ t ∈ ticks, Allocates ed libs t) ∧ Allocates ed libs tick := by
      intro hall
      exact ⟨fun t ht => hall t (List.mem_append_left _ ht), hall tick (by simp)⟩
    rw [session, machine, Machine.run_concat, ← machine, ← session] at hrunning ⊢
    rw [cascadeAfter, Machine.run_concat, ← cascadeAfter]
    cases hbefore : (session ed libs camera fresh ticks).1 with
    | none =>
      rw [hbefore] at hrunning
      have hall := hrunning.resolve_left (fun hnot => hnot rfl)
      have hrun := ih (Or.inr (hpast hall).1)
      rw [hbefore] at hrun
      -- the camera's machine has stopped too
      generalize cascadeAfter ed libs fresh ticks camera = q at hrun ⊢
      rcases q with ⟨⟨s, b⟩, tr⟩
      obtain rfl : s = none := hrun.1
      refine ⟨rfl, ?_⟩
      rw [bufferEvents, List.filterMap_append, ← bufferEvents, hrun.2]
      rfl
    | some a =>
      have hrun := ih (Or.inl (by simp [hbefore]))
      rw [hbefore] at hrun hrunning
      have hreached : a.Reached ed := by
        have hpair := hrun.1.2.2
        rw [cascadeAfter_eq] at hpair
        exact ⟨_, (Prod.mk.inj hpair).2.symm⟩
      have hstep := update_directs ed libs tick camera.depthScale hrun.1 hreached
        (hrunning.imp id (fun hall => (hpast hall).2))
      rw [bufferEvents, List.filterMap_append, ← bufferEvents, hrun.2]
      exact ⟨hstep.1, congrArg _ hstep.2⟩

include hcamera in
/-- A session with a camera is a run of its buffer, unless a past picture throws. -/
theorem session_directs (hthrows : camera.throws = none)
    (hrunning : (session ed libs camera fresh ticks).1 ≠ none ∨
      ∀ tick ∈ ticks, Allocates ed libs tick) :
    let r := session ed libs camera fresh ticks
    let q := execute ed.getFrameReturns 1280 720 15
      (callsOf libs camera.depthScale fresh.filterState ticks)
    Directs camera.depthScale r.1
        (((director libs camera.depthScale).run (some fresh.filterState) ticks).1, q.1) ∧
      bufferEvents r.2 = q.2 := by
  have hrun := session_cascade ed libs hcamera fresh ticks hthrows hrunning
  rwa [cascadeAfter_eq] at hrun

include hcamera in
theorem session_stops_iff (hthrows : camera.throws = none)
    (hallocates : ∀ tick ∈ ticks, Allocates ed libs tick) :
    (session ed libs camera fresh ticks).1 = none ↔
      (film libs camera.depthScale fresh.filterState (deliveries ticks)).length <
        (deliveries ticks).length := by
  have hdirects := (session_directs ed libs hcamera fresh ticks hthrows (Or.inr hallocates)).1
  rw [← director_stops_iff]
  cases hrun : (session ed libs camera fresh ticks).1 with
  | none =>
    rw [hrun] at hdirects
    exact iff_of_true rfl hdirects
  | some a =>
    rw [hrun] at hdirects
    have hpair := (Prod.mk.inj hdirects.2.2).1
    simp [hpair]

include hcamera in
theorem session_running {a : OfApp σ} (hrun : (session ed libs camera fresh ticks).1 = some a) :
    let q := execute ed.getFrameReturns 1280 720 15
      (callsOf libs camera.depthScale fresh.filterState ticks)
    a.cameraFound = true ∧ a.buffer = q.1 ∧
      bufferEvents (session ed libs camera fresh ticks).2 = q.2 ∧
      (film libs camera.depthScale fresh.filterState (deliveries ticks)).length =
        (deliveries ticks).length := by
  have hrunning : (session ed libs camera fresh ticks).1 ≠ none := by simp [hrun]
  have hthrows := session_set_up fresh hcamera hrunning
  obtain ⟨hdirects, hevents⟩ :=
    session_directs ed libs hcamera fresh ticks hthrows (Or.inl hrunning)
  rw [hrun] at hdirects
  obtain ⟨hfound, -, hpair⟩ := hdirects
  refine ⟨hfound, (Prod.mk.inj hpair).2.symm, hevents, ?_⟩
  apply le_antisymm (film_length_le _ _ _ _)
  rw [← Nat.not_lt, ← director_stops_iff, (Prod.mk.inj hpair).1]
  exact Option.some_ne_none _

end Session

/-! ### What is recorded -/

/-- Blocks that have nothing to filter, and no images of negative size. -/
def plainLibraries : Libraries Unit where
  rounding := ⟨.halfUp, .halfUp⟩
  pixels := ⟨.bytes, .bytes⟩
  assign := .sameSize
  filters := ⟨fun state frames => some (frames, state), fun state frames => some (frames, state),
    fun state frames => some (frames, state)⟩
  allocates w h := 0 ≤ w ∧ 0 ≤ h
  allocates_camera := by decide

def oneCamera : Camera := ⟨1, 1 / 1000, [], none⟩

/-- Memory with the byte 170 everywhere. -/
def usedMemory : Memory := ⟨7, 3, fun _ => 170, fun _ => 170, fun _ => 170, fun _ => 43690⟩

def freshProgram : Fresh Unit :=
  ⟨(), 1, fun _ => 170, fun _ => 170, fun _ _ => 170, fun _ _ => 170, fun _ => ⟨0, 0, 0, 0⟩⟩

/-- A gray picture, everywhere one metre away. -/
def grayFrames (v : UInt8) : Frameset :=
  [⟨.depth, .z16, true, true, 1280, 720, (List.replicate (1280 * 720) [232, 3]).flatten⟩,
    ⟨.color, .rgb8, true, false, 1280, 720, List.replicate (1280 * 720 * 3) v⟩]

def tickAt (time : ℚ) (polled : Poll) : Tick :=
  ⟨time, polled, time, usedMemory, fun _ => usedMemory, fun _ _ => .allocate (fun _ => 0) 3 0 0⟩

theorem tickAt_allocates (ed : Edition) (time : ℚ) (polled : Poll) :
    Allocates ed plainLibraries (tickAt time polled) :=
  Or.inr (fun _ => rfl)

/-- Two frames in different windows, and an update without one. -/
def twoShots : List Tick :=
  [tickAt 1 (.frames (grayFrames 100)), tickAt 2 .nothing, tickAt 20 (.frames (grayFrames 200))]

theorem twoShots_allocates (ed : Edition) :
    ∀ tick ∈ twoShots, Allocates ed plainLibraries tick := by
  intro tick htick
  rcases List.mem_cons.mp htick with rfl | htick
  · exact tickAt_allocates ed _ _
  · rcases List.mem_cons.mp htick with rfl | htick
    · exact tickAt_allocates ed _ _
    · rw [List.mem_singleton.mp htick]
      exact tickAt_allocates ed _ _

/-- A session goes on exactly when `setup` came to its end and, if there is a camera, no poll and
no block throws, and the outputs of the blocks have a color frame and a depth frame that can be
allocated. -/
theorem session_survives (ed : Edition) (libs : Libraries σ) (camera : Camera) (fresh : Fresh σ)
    (ticks : List Tick) (hallocates : ∀ tick ∈ ticks, Allocates ed libs tick) :
    (session ed libs camera fresh ticks).1 ≠ none ↔
      camera.throws ≠ some .query ∧ (camera.devices = 0 ∨ camera.throws = none ∧
        ∃ outputs, processed libs fresh.filterState (deliveries ticks) = some outputs ∧
          ∀ frames ∈ outputs, frames.Usable libs.allocates) := by
  rcases setup_cases camera fresh with ⟨hcalls, hnone, -⟩ | ⟨hquery, hzero, hsetup⟩ |
    ⟨hthrows, hcamera, -⟩
  · have hstopped : (session ed libs camera fresh ticks).1 = none := by
      rw [session, machine, hnone, Machine.halting_stopped]
    have hnot : ¬ (camera.throws ≠ some .query ∧ (camera.devices = 0 ∨ camera.throws = none ∧
        ∃ outputs, processed libs fresh.filterState (deliveries ticks) = some outputs ∧
          ∀ frames ∈ outputs, frames.Usable libs.allocates)) := by
      rintro ⟨hquery, hzero | ⟨hthrows, -⟩⟩
      · rcases hcalls with hcalls | ⟨hcamera, -⟩
        · exact hquery hcalls
        · omega
      · simp [hthrows] at hcalls
    exact iff_of_false (not_not_intro hstopped) hnot
  · have hrun : (session ed libs camera fresh ticks).1 ≠ none := by
      rw [session, hsetup, session_idle ed libs rfl]
      exact Option.some_ne_none _
    exact iff_of_true hrun ⟨hquery, Or.inl hzero⟩
  · have hle := film_length_le libs camera.depthScale fresh.filterState (deliveries ticks)
    have hquery : camera.throws ≠ some .query := by simp [hthrows]
    rw [← film_all_iff libs camera.depthScale, ne_eq,
      session_stops_iff ed libs hcamera fresh ticks hthrows hallocates,
      and_iff_right hquery, or_iff_right hcamera.ne', and_iff_right hthrows]
    omega

theorem twoShots_survives :
    (session .complete plainLibraries oneCamera freshProgram twoShots).1 ≠ none ↔
      oneCamera.throws ≠ some .query ∧ (oneCamera.devices = 0 ∨ oneCamera.throws = none ∧
        ∃ outputs, processed plainLibraries () (deliveries twoShots) = some outputs ∧
          ∀ frames ∈ outputs, frames.Usable plainLibraries.allocates) :=
  session_survives .complete plainLibraries oneCamera freshProgram twoShots
    (twoShots_allocates .complete)

/-- What the recorders are told, and whether the session goes on, depends on what the camera
delivers and when: not on the two returns, the updates without a frame, the clock at the
beginning of an update, the past pictures, the image library that copies them, or the memory of
the program. -/
theorem session_recordsAlike (ed ed' : Edition) (libs : Libraries σ) (pixels : PixelImport)
    (assign : ImageCopy) (camera : Camera) (fresh fresh' : Fresh σ)
    (hstate : fresh.filterState = fresh'.filterState) (ticks ticks' : List Tick)
    (hallocates : ∀ tick ∈ ticks, Allocates ed libs tick)
    (hallocates' : ∀ tick ∈ ticks', Allocates ed' { libs with pixels, assign } tick)
    (hsame : deliveries ticks = deliveries ticks') :
    commands (bufferEvents (session ed libs camera fresh ticks).2) =
        commands (bufferEvents
          (session ed' { libs with pixels, assign } camera fresh' ticks').2) ∧
      ((session ed libs camera fresh ticks).1 = none ↔
        (session ed' { libs with pixels, assign } camera fresh' ticks').1 = none) := by
  have hfilm : film { libs with pixels, assign } camera.depthScale fresh'.filterState
      (deliveries ticks') =
        film libs camera.depthScale fresh.filterState (deliveries ticks) := by
    rw [hsame, hstate, film_libraries]
  rcases setup_cases camera fresh with ⟨hcalls, hnone, -⟩ | ⟨hquery, hzero, hsetup⟩ |
    ⟨hthrows, hcamera, -⟩
  · have hnone' : (setup camera fresh').1 = none := by
      rcases setup_cases camera fresh' with ⟨-, hnone', -⟩ | ⟨hquery, hzero, -⟩ | ⟨hthrows, -⟩
      · exact hnone'
      · rcases hcalls with hcalls | ⟨hcamera, -⟩
        · exact absurd hcalls hquery
        · omega
      · simp [hthrows] at hcalls
    rw [session, session, machine, machine, hnone, hnone', Machine.halting_stopped,
      Machine.halting_stopped]
    exact ⟨rfl, Iff.rfl⟩
  · have hsetup' : setup camera fresh' =
        (some (allocated fresh' false fresh'.cameraDepthScale []), []) := by
      rcases setup_cases camera fresh' with ⟨hcalls, -⟩ | ⟨-, -, hsetup'⟩ | ⟨-, hcamera, -⟩
      · rcases hcalls with hcalls | ⟨hcamera, -⟩
        · exact absurd hcalls hquery
        · omega
      · exact hsetup'
      · omega
    rw [session, session, hsetup, hsetup', session_idle ed libs rfl, session_idle ed' _ rfl]
    exact ⟨rfl, iff_of_false (Option.some_ne_none _) (Option.some_ne_none _)⟩
  · constructor
    · rw [(session_directs ed libs hcamera fresh ticks hthrows (Or.inr hallocates)).2,
        (session_directs ed' { libs with pixels, assign } hcamera fresh' ticks' hthrows
          (Or.inr hallocates')).2,
        (execute_refines _ _ _ _ _).2, (execute_refines _ _ _ _ _).2, recordedFrames_film,
        recordedFrames_film, hfilm]
    · rw [session_stops_iff ed libs hcamera fresh ticks hthrows hallocates,
        session_stops_iff ed' { libs with pixels, assign } hcamera fresh' ticks' hthrows
          hallocates', hfilm, hsame]

/-- The same two frames in a cleared program, without the update in between and with an earlier
clock. -/
theorem twoShots_recordAlike :
    commands (bufferEvents (session .committed plainLibraries oneCamera freshProgram
        twoShots).2) =
      commands (bufferEvents (session .complete { plainLibraries with
        pixels := ⟨.bytes, .bytes⟩
        assign := .sameSize } oneCamera { freshProgram with currentImage := fun _ => 0 }
          [{ tickAt 1 (.frames (grayFrames 100)) with currentTime := 0 },
            tickAt 20 (.frames (grayFrames 200))]).2) ∧
      ((session .committed plainLibraries oneCamera freshProgram twoShots).1 = none ↔
        (session .complete { plainLibraries with
          pixels := ⟨.bytes, .bytes⟩
          assign := .sameSize } oneCamera { freshProgram with currentImage := fun _ => 0 }
            [{ tickAt 1 (.frames (grayFrames 100)) with currentTime := 0 },
              tickAt 20 (.frames (grayFrames 200))]).1 = none) := by
  apply session_recordsAlike .committed .complete plainLibraries ⟨.bytes, .bytes⟩ .sameSize
    oneCamera freshProgram { freshProgram with currentImage := fun _ => 0 } rfl twoShots
    [{ tickAt 1 (.frames (grayFrames 100)) with currentTime := 0 },
      tickAt 20 (.frames (grayFrames 200))] (twoShots_allocates .committed)
  · intro tick htick
    rcases List.mem_cons.mp htick with rfl | htick
    · exact Or.inr (fun _ => rfl)
    · rw [List.mem_singleton.mp htick]
      exact Or.inr (fun _ => rfl)
  · rfl

/-! ### The files -/

section Files
variable {finished : ℕ → Channel → Prop}
  {after : VideoFiles → List (ℕ × Channel × Command) → VideoFiles}
  (hafter : WritesFiles finished after)

include hafter

/-- A session that ends with `exit` and the destructor leaves every polled frameset on disk, as
a frame in the file of its take, whatever was evicted, and nothing else was touched. -/
theorem session_saves (ed : Edition) (libs : Libraries σ) (camera : Camera)
    (hcamera : 0 < camera.devices) (fresh : Fresh σ) (ticks : List Tick) (a : OfApp σ)
    (hrun : (session ed libs camera fresh ticks).1 = some a)
    (isRecording : ℕ → ℕ → Channel → Bool)
    (hrec : RecordersStop (bufferEvents (session ed libs camera fresh ticks).2 ++
      (removeAll a.buffer.fragments).2) isRecording)
    (hcount : (takesOf 15 (callsOf libs camera.depthScale fresh.filterState ticks)).length ≤
      2 ^ 31 - 1) (files : VideoFiles) :
    ∃ tr, (∃ fuel₀, ∀ fuel ≥ fuel₀, a.close isRecording fuel = some tr) ∧
      ∃ ts : List (Take RgbdFrame),
        SavesTakes finished ts files (after files
          (commands (bufferEvents ((session ed libs camera fresh ticks).2 ++ tr)))) ∧
        ts.flatMap Take.frames =
          (film libs camera.depthScale fresh.filterState (deliveries ticks)).map Prod.snd ∧
        (film libs camera.depthScale fresh.filterState (deliveries ticks)).length =
          (deliveries ticks).length := by
  obtain ⟨hfound, hbuffer, hevents, hlength⟩ := session_running ed libs hcamera fresh ticks hrun
  rw [hevents, hbuffer] at hrec
  obtain ⟨tr, ⟨fuel₀, hends⟩, hsaves⟩ :=
    execute_saves hafter _ _ _ _ _ isRecording hrec hcount files
  refine ⟨a.exit ++ tr.map .buffer, ⟨fuel₀, ?_⟩, _, ?_, takesOf_film _ _ _ _, hlength⟩
  · intro fuel hfuel
    rw [close, hbuffer, hends fuel hfuel]
    rfl
  · have hexit : bufferEvents a.exit = [] := by
      rw [exit, if_pos hfound]
      rfl
    have hclose : bufferEvents (a.exit ++ tr.map .buffer) = tr := by
      rw [bufferEvents, List.filterMap_append, ← bufferEvents, hexit, filterMap_buffer]
      rfl
    rw [bufferEvents, List.filterMap_append, ← bufferEvents, ← bufferEvents, hevents, hclose]
    exact hsaves

/-- A session that is ended by an exception did not film all that was delivered.  The takes that
were closed before are on disk once their recorders have finished, and nothing else was
touched. -/
theorem session_exception (ed : Edition) (libs : Libraries σ) (camera : Camera)
    (hcamera : 0 < camera.devices) (hthrows : camera.throws = none) (fresh : Fresh σ)
    (ticks : List Tick) (hallocates : ∀ tick ∈ ticks, Allocates ed libs tick)
    (hrun : (session ed libs camera fresh ticks).1 = none)
    (hcount : (takesOf 15 (callsOf libs camera.depthScale fresh.filterState ticks)).length ≤
      2 ^ 31 - 1) (files : VideoFiles) :
    (film libs camera.depthScale fresh.filterState (deliveries ticks)).length <
        (deliveries ticks).length ∧
      ∃ ts : List (Take RgbdFrame),
        ts.flatMap Take.frames =
          (film libs camera.depthScale fresh.filterState (deliveries ticks)).map Prod.snd ∧
        KeepsClosed finished ts files (after files
          (commands (bufferEvents (session ed libs camera fresh ticks).2))) := by
  have hevents := (session_directs ed libs hcamera fresh ticks hthrows (Or.inr hallocates)).2
  refine ⟨(session_stops_iff ed libs hcamera fresh ticks hthrows hallocates).mp hrun, _,
    takesOf_film _ _ _ _, ?_⟩
  rw [hevents]
  exact execute_keeps _ _ _ _ _ hafter hcount files

end Files

def afterTwoShots : OfApp Unit :=
  (session .complete plainLibraries oneCamera freshProgram twoShots).1.get (by decide +kernel)

theorem twoShots_saved :
    ∃ tr, (∃ fuel₀, ∀ fuel ≥ fuel₀, afterTwoShots.close (fun _ _ _ => false) fuel = some tr) ∧
      ∃ ts : List (Take RgbdFrame),
        SavesTakes (fun _ _ => True) ts oldFiles (writtenFiles oldFiles (commands (bufferEvents
          ((session .complete plainLibraries oneCamera freshProgram twoShots).2 ++ tr)))) ∧
        ts.flatMap Take.frames =
          (film plainLibraries (1 / 1000) () (deliveries twoShots)).map Prod.snd ∧
        (film plainLibraries (1 / 1000) () (deliveries twoShots)).length =
          (deliveries twoShots).length :=
  session_saves (writtenFiles_writes fun _ _ => True) .complete plainLibraries oneCamera
    (by decide) freshProgram twoShots afterTwoShots (Option.some_get _).symm (fun _ _ _ => false)
    ⟨fun _ _ _ => ⟨0, fun _ _ => rfl⟩, fun _ _ _ _ => rfl⟩ (by decide +kernel) oldFiles

/-- The camera fails in the end. -/
def lostCamera : List Tick := twoShots ++ [tickAt 21 .throws]

theorem lostCamera_exception :
    (film plainLibraries (1 / 1000) () (deliveries lostCamera)).length <
        (deliveries lostCamera).length ∧
      ∃ ts : List (Take RgbdFrame),
        ts.flatMap Take.frames =
          (film plainLibraries (1 / 1000) () (deliveries lostCamera)).map Prod.snd ∧
        KeepsClosed (fun _ _ => True) ts oldFiles (writtenFiles oldFiles (commands (bufferEvents
          (session .complete plainLibraries oneCamera freshProgram lostCamera).2))) := by
  apply session_exception (writtenFiles_writes fun _ _ => True) .complete plainLibraries oneCamera
    (by decide) rfl freshProgram lostCamera _ (by decide +kernel) (by decide +kernel) oldFiles
  intro tick htick
  rcases List.mem_append.mp htick with htick | htick
  · exact twoShots_allocates .complete tick htick
  · rw [List.mem_singleton.mp htick]
    exact tickAt_allocates .complete _ _

/-! ### A steady session -/

/-- A picture every ten seconds, for a minute, and once an update without one. -/
def steadyShots : List Tick :=
  [tickAt 1 (.frames (grayFrames 100)), tickAt 5 .nothing, tickAt 11 (.frames (grayFrames 110)),
    tickAt 21 (.frames (grayFrames 120)), tickAt 31 (.frames (grayFrames 130)),
    tickAt 41 (.frames (grayFrames 140)), tickAt 51 (.frames (grayFrames 150))]

/-- The first update that looks back to a moment which was recorded. -/
def lastShot : Tick := tickAt 61 (.frames (grayFrames 200))

def afterLastShot : OfApp Unit :=
  (session .complete plainLibraries oneCamera freshProgram (steadyShots ++ [lastShot])).1.get
    (by decide +kernel)

def grayShot (v : UInt8) : RgbdFrame :=
  .ofCamera ⟨.halfUp, .halfUp⟩ usedMemory ⟨1280, 720, List.replicate (1280 * 720 * 3) v⟩
    ⟨1280, 720, words (List.replicate (1280 * 720) [232, 3]).flatten⟩ (MAX_DISTANCE / (1 / 1000))

theorem steadyShots_rounds :
    roundsOf plainLibraries (1 / 1000) () (steadyShots ++ [lastShot]) =
      [⟨1, some (1, grayShot 100)⟩, ⟨5, none⟩, ⟨11, some (11, grayShot 110)⟩,
        ⟨21, some (21, grayShot 120)⟩, ⟨31, some (31, grayShot 130)⟩,
        ⟨41, some (41, grayShot 140)⟩, ⟨51, some (51, grayShot 150)⟩,
        ⟨61, some (61, grayShot 200)⟩] := rfl

theorem steadyShots_steady :
    Steady 15 (roundsOf plainLibraries (1 / 1000) () (steadyShots ++ [lastShot])) := by
  rw [steadyShots_rounds]
  simp only [Steady, Guarded.cons_iff, Guarded.nil, and_true]
  refine ⟨?_, ?_, ?_, ?_, ?_, ?_, ?_, ?_⟩ <;> constructor <;> decide +kernel

end OfApp

end TimeRoom.App
