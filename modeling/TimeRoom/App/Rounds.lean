import TimeRoom.App.OfApp
import TimeRoom.Takes.Delays

/-!
# The program drives its buffer in rounds

Every update is one round of the buffer: the frame it captured, if any, and then
the past pictures.  Which rounds there are depends on the camera and its filters
alone.  So the program with its buffer behaves as two machines in a cascade: one
that makes rounds out of updates, and the buffer that carries them out.  It stops
with the first of them, or when it cannot allocate the frame for a past picture.
-/

namespace TimeRoom.App
open TimeRoom.Frame Buffer Runs Takes

variable {σ : Type}

def AppEvent.buffer? : AppEvent → Option Buffer.Event
  | .buffer e => some e
  | _ => none

theorem filterMap_buffer (tr : List Buffer.Event) :
    (tr.map AppEvent.buffer).filterMap AppEvent.buffer? = tr := by
  rw [List.filterMap_map]
  exact List.filterMap_some

/-- The round of an update, and the filter state after it. -/
def direct (libs : Libraries σ) (cameraDepthScale : ℚ) (filterState : σ) (tick : Tick) :
    Option σ × List (Round RgbdFrame) :=
  match tick.polled with
  | .throws => (none, [])
  | .nothing => (some filterState, [⟨tick.currentTime, none⟩])
  | .frames newFrames =>
    match (OfApp.capture libs cameraDepthScale filterState tick.memory newFrames).1 with
    | none => (none, [])
    | some (newFrame, _, filterState) =>
      (some filterState, [⟨tick.currentTime, some (tick.recordTime, newFrame)⟩])

section Direct
variable {libs : Libraries σ} {cameraDepthScale : ℚ} {filterState filterState' : σ} {tick : Tick}
  {newFrames frames : Frameset} {newFrame : RgbdFrame}

theorem direct_failed (hpolled : tick.polled = .throws) :
    direct libs cameraDepthScale filterState tick = (none, []) := by
  rw [direct, hpolled]

theorem direct_idle (hpolled : tick.polled = .nothing) :
    direct libs cameraDepthScale filterState tick =
      (some filterState, [⟨tick.currentTime, none⟩]) := by
  rw [direct, hpolled]

theorem direct_throws (hpolled : tick.polled = .frames newFrames)
    (hcapture : (OfApp.capture libs cameraDepthScale filterState tick.memory newFrames).1 = none) :
    direct libs cameraDepthScale filterState tick = (none, []) := by
  rw [direct, hpolled]
  simp only [hcapture]

theorem direct_films (hpolled : tick.polled = .frames newFrames)
    (hcapture : (OfApp.capture libs cameraDepthScale filterState tick.memory newFrames).1 =
      some (newFrame, frames, filterState')) :
    direct libs cameraDepthScale filterState tick =
      (some filterState', [⟨tick.currentTime, some (tick.recordTime, newFrame)⟩]) := by
  rw [direct, hpolled]
  simp only [hcapture]

end Direct

/-- The camera and its filters, as a machine that makes rounds. -/
def director (libs : Libraries σ) (cameraDepthScale : ℚ) :
    Machine (Option σ) Tick (Round RgbdFrame) :=
  .halting (direct libs cameraDepthScale)

def roundsOf (libs : Libraries σ) (cameraDepthScale : ℚ) (filterState : σ) (ticks : List Tick) :
    List (Round RgbdFrame) :=
  ((director libs cameraDepthScale).run (some filterState) ticks).2

/-- The buffer, round by round. -/
def roundMachine (earlyReturn : Bool) : Machine VideoBuffer (Round RgbdFrame) Buffer.Event :=
  (Buffer.machine earlyReturn).batch (Round.calls delays)

theorem roundMachine_run (earlyReturn : Bool) (b : VideoBuffer)
    (rounds : List (Round RgbdFrame)) :
    (roundMachine earlyReturn).run b rounds =
      (Buffer.machine earlyReturn).run b (rounds.flatMap (Round.calls delays)) :=
  (Buffer.machine earlyReturn).batch_run (Round.calls delays) b rounds

/-! ### One update -/

namespace OfApp
variable (ed : Edition) (libs : Libraries σ) (tick : Tick)

/-- The members that the past pictures leave alone. -/
def settled (a : OfApp σ) : Bool × ℚ × σ × Image UInt8 × Image UInt8 :=
  (a.cameraFound, a.cameraDepthScale, a.filterState, a.currentImage, a.currentDepthImage)

def pastCall (i : Fin REPEAT_NUMBER) : Call := .getFrame (tick.currentTime - delays.getD i 0)

theorem past_calls : (List.finRange REPEAT_NUMBER).map (pastCall tick) =
    delays.map (fun d => Call.getFrame (tick.currentTime - d)) := rfl

theorem pastPicture_events (a : OfApp σ) (i : Fin REPEAT_NUMBER) :
    (a.pastPicture ed libs tick i).2 =
      ((Buffer.machine ed.getFrameReturns).step a.buffer (pastCall tick i)).2.map .buffer := by
  rw [pastPicture]
  split <;> rfl

theorem pastPicture_running {a c : OfApp σ} {i : Fin REPEAT_NUMBER}
    (hstep : (a.pastPicture ed libs tick i).1 = some c) :
    let r := a.buffer.query ed.getFrameReturns (tick.currentTime - delays.getD i 0)
    let pastFrame := r.1.frame libs.pixels (tick.pastMemory i) (tick.players i)
    c = { a with
      buffer := r.2.1
      pastImages := Function.update a.pastImages i
        (libs.assign.toFun (a.pastImages i) pastFrame.colorImage)
      pastDepthImages := Function.update a.pastDepthImages i
        (libs.assign.toFun (a.pastDepthImages i) pastFrame.depthImage) } := by
  rw [pastPicture] at hstep
  split at hstep
  · exact (Option.some_inj.mp hstep).symm
  · cases hstep

/-- A loop that has gone through all past pictures made its queries to the buffer, and changed
nothing else but the pictures. -/
theorem pastPictures_run {is : List (Fin REPEAT_NUMBER)} {a b : OfApp σ}
    (hrun : (a.pastPictures ed libs tick is).1 = some b) :
    let r := (Buffer.machine ed.getFrameReturns).run a.buffer (is.map (pastCall tick))
    b.buffer = r.1 ∧ (a.pastPictures ed libs tick is).2 = r.2.map .buffer ∧
      b.settled = a.settled ∧ b.mergedImage = a.mergedImage := by
  induction is generalizing a with
  | nil =>
    obtain rfl : a = b := Option.some_inj.mp hrun
    exact ⟨rfl, rfl, rfl, rfl⟩
  | cons i is ih =>
    rcases Machine.halting_cons_running _ hrun with ⟨c, hstep, hrest, hevents⟩
    obtain ⟨hbuffer, hbefore, hsettled, hmerged⟩ := ih hrest
    obtain rfl := pastPicture_running ed libs tick hstep
    rw [List.map_cons, Machine.run_cons]
    refine ⟨hbuffer, ?_, hsettled, hmerged⟩
    rw [pastPictures, hevents, pastPicture_events, List.map_append]
    exact congrArg _ hbefore

/-- A loop that an exception ended made the first of its queries. -/
theorem pastPictures_events (is : List (Fin REPEAT_NUMBER)) (a : OfApp σ) :
    ∃ js : List (Fin REPEAT_NUMBER), (a.pastPictures ed libs tick is).2 =
      ((Buffer.machine ed.getFrameReturns).run a.buffer (js.map (pastCall tick))).2.map
        .buffer := by
  induction is generalizing a with
  | nil => exact ⟨[], rfl⟩
  | cons i is ih =>
    rw [pastPictures, Machine.halting_cons, pastPicture_events]
    cases hstep : (a.pastPicture ed libs tick i).1 with
    | none =>
      refine ⟨[i], ?_⟩
      rw [Machine.halting_stopped, List.append_nil, List.map_singleton, Machine.run_cons,
        Machine.run_nil, List.append_nil]
    | some c =>
      rcases ih c with ⟨js, hjs⟩
      obtain rfl := pastPicture_running ed libs tick hstep
      refine ⟨i :: js, ?_⟩
      rw [List.map_cons, Machine.run_cons, List.map_append]
      exact congrArg _ hjs

/-- The frames for the past pictures can be allocated, whatever the buffer replies. -/
def Allocates : Prop :=
  ed.getFrameReturns = true ∨
    ∀ i, libs.allocates (tick.pastMemory i).width (tick.pastMemory i).height = true

/-- The buffer is one that its calls lead to. -/
def Reached (a : OfApp σ) : Prop :=
  ∃ calls, a.buffer = (execute ed.getFrameReturns 1280 720 15 calls).1

/-- A reply is blank, of the size of the buffer, or comes from the players. -/
theorem query_allocated (calls : List Call) (timestamp : ℚ) {memory : Memory}
    (hmemory : ed.getFrameReturns = true ∨ libs.allocates memory.width memory.height = true) :
    ((execute ed.getFrameReturns 1280 720 15 calls).1.query ed.getFrameReturns
      timestamp).1.allocated libs.allocates memory = true := by
  obtain ⟨hwidth, hheight⟩ := execute_size ed.getFrameReturns 1280 720 15 calls
  cases hreturns : ed.getFrameReturns with
  | true =>
    rw [hreturns] at hwidth hheight
    simp only [VideoBuffer.query, if_true, Reply.allocated, hwidth, hheight]
    exact libs.allocates_camera
  | false =>
    rw [hreturns] at hwidth hheight hmemory
    simp only [VideoBuffer.query, Bool.false_eq_true, if_false]
    by_cases hreads : (execute false 1280 720 15 calls).1.ReadsFirst timestamp
    · have hfirst := hreads
      rcases hfirst with ⟨f, rest, hb, -⟩
      rw [VideoBuffer.getFrame_first hb hreads]
      simpa [VideoFragment.getFrame, Reply.allocated] using hmemory
    · rw [VideoBuffer.getFrame_blank hreads, hwidth, hheight]
      exact libs.allocates_camera

theorem pastPictures_running (hallocates : Allocates ed libs tick)
    (is : List (Fin REPEAT_NUMBER)) {a : OfApp σ} (ha : a.Reached ed) :
    ∃ b, (a.pastPictures ed libs tick is).1 = some b := by
  induction is generalizing a with
  | nil => exact ⟨a, rfl⟩
  | cons i is ih =>
    obtain ⟨calls, hcalls⟩ := ha
    have hallocated := query_allocated ed libs calls (tick.currentTime - delays.getD i 0)
      (hallocates.imp_right (fun h => h i))
    rw [← hcalls] at hallocated
    rw [pastPictures, Machine.halting_cons, pastPicture, if_pos hallocated]
    apply ih
    refine ⟨calls ++ [pastCall tick i], ?_⟩
    rw [execute, Machine.run_concat, ← execute, ← hcalls]
    rfl

theorem updatePictures_run {a b : OfApp σ} (hrun : (a.updatePictures ed libs tick).1 = some b) :
    let r := (Buffer.machine ed.getFrameReturns).run a.buffer
      (delays.map (fun d => .getFrame (tick.currentTime - d)))
    b.buffer = r.1 ∧ (a.updatePictures ed libs tick).2 = r.2.map .buffer ∧
      b.settled = a.settled := by
  obtain ⟨c, hpast, rfl⟩ := Option.map_eq_some_iff.mp hrun
  have hruns := pastPictures_run ed libs tick hpast
  rw [past_calls] at hruns
  obtain ⟨hbuffer, hevents, hsettled, -⟩ := hruns
  refine ⟨?_, hevents, ?_⟩
  · rw [← hbuffer]
    split <;> rfl
  · rw [← hsettled]
    split <;> rfl

theorem updatePictures_running (hallocates : Allocates ed libs tick) {a : OfApp σ}
    (ha : a.Reached ed) : (a.updatePictures ed libs tick).1 ≠ none := by
  rcases pastPictures_running ed libs tick hallocates (List.finRange REPEAT_NUMBER) ha with
    ⟨b, hb⟩
  simp [updatePictures, hb]

/-- The program as the pair of the filter state and the buffer. -/
def Directs (cameraDepthScale : ℚ) : Option (OfApp σ) → Option σ × VideoBuffer → Prop
  | none, p => p.1 = none
  | some a, p => a.cameraFound = true ∧ a.cameraDepthScale = cameraDepthScale ∧
      p = (some a.filterState, a.buffer)

theorem updatePictures_directs {a b : OfApp σ} {cameraDepthScale : ℚ}
    (hfound : a.cameraFound = true) (hscale : a.cameraDepthScale = cameraDepthScale)
    (hrun : (a.updatePictures ed libs tick).1 = some b) :
    Directs cameraDepthScale (some b)
      (some a.filterState, ((Buffer.machine ed.getFrameReturns).run a.buffer
        (delays.map (fun d => .getFrame (tick.currentTime - d)))).1) := by
  obtain ⟨hbuffer, -, hsettled⟩ := updatePictures_run ed libs tick hrun
  simp only [settled, Prod.mk.injEq] at hsettled
  refine ⟨hsettled.1.trans hfound, hsettled.2.1.trans hscale, ?_⟩
  rw [hsettled.2.2.1, hbuffer]

section Capture
variable (cameraDepthScale : ℚ) (filterState : σ) (memory : Memory) (newFrames : Frameset)

theorem capture_events :
    ∀ e ∈ (capture libs cameraDepthScale filterState memory newFrames).2, e = .alignProcess := by
  rw [capture]
  split
  · simp
  · split
    · simp
    · split
      · simp
      · split <;> simp

end Capture

/-- The camera is polled and the aligner called, and nothing else happens. -/
def OfCamera (events : List AppEvent) : Prop :=
  ∀ e ∈ events, e = .polledForFrames ∨ e = .alignProcess

theorem OfCamera.unbuffered {events : List AppEvent} (h : OfCamera events) :
    events.filterMap AppEvent.buffer? = [] := by
  rw [List.filterMap_eq_nil_iff]
  intro e he
  rcases h e he with rfl | rfl <;> rfl

def recorded (b : VideoBuffer) (r : Round RgbdFrame) : VideoBuffer × List Buffer.Event :=
  (Buffer.machine ed.getFrameReturns).run b (r.frame.map (fun p => .addFrame p.1 p.2)).toList

/-- The part of an update before the past pictures: the frame of the round, if any, goes to the
buffer and becomes the current picture. -/
structure Records (a : OfApp σ) (r : Round RgbdFrame) (c : OfApp σ) : Prop where
  buffer : c.buffer = (recorded ed a.buffer r).1
  found : c.cameraFound = a.cameraFound
  scale : c.cameraDepthScale = a.cameraDepthScale
  current : c.currentImage = r.frame.elim a.currentImage
    (fun p => libs.assign.toFun a.currentImage p.2.colorImage)
  currentDepth : c.currentDepthImage = r.frame.elim a.currentDepthImage
    (fun p => libs.assign.toFun a.currentDepthImage p.2.depthImage)
  past : c.pastImages = a.pastImages
  pastDepth : c.pastDepthImages = a.pastDepthImages
  merged : c.mergedImage = a.mergedImage

/-- Everything an update of a program with a camera can do: the poll or the capture throws, or
the frame of the round is recorded and the past pictures follow. -/
theorem update_cases {a : OfApp σ} (hfound : a.cameraFound = true) :
    (∃ shot, direct libs a.cameraDepthScale a.filterState tick = (none, []) ∧ OfCamera shot ∧
        a.update ed libs tick = (none, shot)) ∨
      ∃ c r shot, direct libs a.cameraDepthScale a.filterState tick =
          (some c.filterState, [r]) ∧ r.time = tick.currentTime ∧ OfCamera shot ∧
        Records ed libs a r c ∧
        a.update ed libs tick = ((c.updatePictures ed libs tick).1,
          shot ++ (recorded ed a.buffer r).2.map .buffer ++ (c.updatePictures ed libs tick).2) := by
  have hpoll : OfCamera [.polledForFrames] := by simp [OfCamera]
  rw [update, if_pos hfound, updateFrames, direct]
  cases tick.polled with
  | throws => exact Or.inl ⟨_, rfl, hpoll, rfl⟩
  | nothing =>
    exact Or.inr ⟨a, _, [.polledForFrames], rfl, rfl, hpoll,
      ⟨rfl, rfl, rfl, rfl, rfl, rfl, rfl, rfl⟩, rfl⟩
  | frames newFrames =>
    have hevents := capture_events libs a.cameraDepthScale a.filterState tick.memory newFrames
    cases hcapture : capture libs a.cameraDepthScale a.filterState tick.memory newFrames with
    | mk result events =>
      rw [hcapture] at hevents
      have hshot : OfCamera (.polledForFrames :: events) := by
        intro e he
        exact (List.mem_cons.mp he).imp_right (hevents e)
      cases result with
      | none =>
        exact Or.inl ⟨_, by simp only [hcapture], hshot, by simp only [hcapture]⟩
      | some result =>
        rcases result with ⟨newFrame, frames, filterState⟩
        refine Or.inr ⟨(a.addNewFrame libs tick newFrame frames filterState).1,
          ⟨tick.currentTime, some (tick.recordTime, newFrame)⟩, _, by simp only [hcapture]; rfl,
          rfl, hshot, ⟨rfl, rfl, rfl, rfl, rfl, rfl, rfl, rfl⟩, ?_⟩
        have hbuffer : (recorded ed a.buffer
            ⟨tick.currentTime, some (tick.recordTime, newFrame)⟩).2 =
              (a.buffer.addFrame tick.recordTime newFrame).2 := List.append_nil _
        simp only [hcapture, hbuffer]
        rfl

/-- One update is one step of the cascade, unless a past picture throws. -/
theorem update_directs (cameraDepthScale : ℚ) {a : OfApp σ} {p : Option σ × VideoBuffer}
    (h : Directs cameraDepthScale (some a) p) (ha : a.Reached ed)
    (hrunning : (a.update ed libs tick).1 ≠ none ∨ Allocates ed libs tick) :
    let r := ((director libs cameraDepthScale).cascade (roundMachine ed.getFrameReturns)).step p
      tick
    Directs cameraDepthScale (a.update ed libs tick).1 r.1 ∧
      (a.update ed libs tick).2.filterMap AppEvent.buffer? = r.2 := by
  obtain ⟨hfound, rfl, rfl⟩ := h
  have hcases := update_cases ed libs tick hfound
  rcases hcases with ⟨shot, hround, hshot, hstep⟩ |
    ⟨c, r, shot, hround, htime, hshot, hrecords, hstep⟩
  · rw [hstep]
    simp only [Machine.cascade, director, Machine.halting, hround, Machine.run_nil]
    exact ⟨rfl, hshot.unbuffered⟩
  · have hc : c.Reached ed := by
      obtain ⟨calls, hcalls⟩ := ha
      refine ⟨calls ++ (r.frame.map (fun p => .addFrame p.1 p.2)).toList, ?_⟩
      rw [hrecords.buffer, hcalls, execute, execute, recorded, Machine.run_append]
    obtain ⟨b, hb⟩ : ∃ b, (c.updatePictures ed libs tick).1 = some b := by
      apply Option.ne_none_iff_exists'.mp
      rcases hrunning with hrunning | hallocates
      · rwa [hstep] at hrunning
      · exact updatePictures_running ed libs tick hallocates hc
    obtain ⟨-, hpast, -⟩ := updatePictures_run ed libs tick hb
    have hdirects := updatePictures_directs ed libs tick (hrecords.found.trans hfound)
      hrecords.scale hb
    rw [hrecords.buffer, recorded] at hpast hdirects
    rw [hstep, hb, List.filterMap_append, List.filterMap_append, hshot.unbuffered, hpast,
      filterMap_buffer, filterMap_buffer]
    simp only [Machine.cascade, director, Machine.halting, hround, roundMachine, Machine.batch,
      Machine.run_cons, Machine.run_nil, List.append_nil, List.nil_append, Round.calls,
      Machine.run_append, htime, recorded, and_true]
    exact hdirects

end OfApp

end TimeRoom.App
