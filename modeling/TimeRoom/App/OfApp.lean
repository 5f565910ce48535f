import Mathlib.Logic.Function.Basic
import TimeRoom.Runs.Machine
import TimeRoom.Buffer.VideoBuffer
import TimeRoom.Frame.Camera

/-!
# `ofApp`: camera, buffer and screen

The program looks for a camera once; each `update` polls it, records what it
delivered, and asks the buffer for the pictures of the past.  What comes from
outside in an update is one input: the clock readings, the poll, and what the
players and the memory hold.  An exception ends the program: the camera library
throws where it meets an error, and the image library where it cannot allocate.
Window and console output are left out, and `keyPressed` is empty.
-/

namespace TimeRoom.App
open TimeRoom.Frame Buffer Runs

abbrev REPEAT_NUMBER : ℕ := 2

/-- `delays`, in seconds; the initializer gives the first one only. -/
def delays : List ℚ := [60, 0]

def cameraWidth : ℤ := 1280

def cameraHeight : ℤ := 720

def MAX_DISTANCE : ℚ := 4

/-- Which of the two early returns are in the code: line 208 of `videoBuffer.cpp`, and the
`return` before the merge in `updateFrames`. -/
structure Edition where
  getFrameReturns : Bool
  updateReturns : Bool
deriving DecidableEq, Repr

/-- The code as it stands. -/
def Edition.committed : Edition := ⟨true, true⟩

/-- Without the two returns. -/
def Edition.complete : Edition := ⟨false, false⟩

/-- Assignment of an image to one of the same type, which keeps its size; images of one size
are copied. -/
structure ImageCopy extends PixelCopy where
  same : ∀ dst src : Image UInt8, dst.HasSize src.width src.height → toFun dst src = src

/-- An image of another size is not copied. -/
def ImageCopy.sameSize : ImageCopy where
  toFun dst src := if dst.HasSize src.width src.height then src else dst
  width dst src := by
    by_cases hsize : dst.HasSize src.width src.height
    · rw [if_pos hsize]
      exact hsize.1.symm
    · rw [if_neg hsize]
  height dst src := by
    by_cases hsize : dst.HasSize src.width src.height
    · rw [if_pos hsize]
      exact hsize.2.symm
    · rw [if_neg hsize]
  same _ _ hsize := if_pos hsize

/-- The processing blocks between the camera and the program, with the state that they keep;
`none` stands for an exception. -/
structure Filters (σ : Type) where
  temporal : σ → Frameset → Option (Frameset × σ)
  holeFilling : σ → Frameset → Option (Frameset × σ)
  alignToColor : σ → Frameset → Option (Frameset × σ)

/-- The libraries the program is linked with.  `allocate` throws for the sizes that it does not
accept; it accepts that of the camera. -/
structure Libraries (σ : Type) where
  rounding : ImageRounding
  pixels : PixelImport
  assign : ImageCopy
  filters : Filters σ
  allocates : ℤ → ℤ → Bool
  allocates_camera : allocates cameraWidth cameraHeight = true

/-- The places in `setup` where the camera library may throw: looking for devices, `pipe.start`,
the sensor and its settings, `wait_for_frames`, and the constructor of `align`. -/
inductive SetupCall where
  | query
  | start
  | configure
  | wait
  | align
deriving DecidableEq, Repr

/-- What `setup` finds: the number of devices, of the first one the depth scale and the frameset
waited for, and which call throws, if it is made. -/
structure Camera where
  devices : ℕ
  depthScale : ℚ
  waited : Frameset
  throws : Option SetupCall

inductive Poll where
  | throws
  | nothing
  | frames (newFrames : Frameset)
deriving DecidableEq, Repr

/-- What an `update` meets: the clock at its beginning and inside `addFrame`, what the camera
has to deliver, the memory of the new frame and of those for the past pictures, and the pixels
that players deliver for these. -/
structure Tick where
  currentTime : ℚ
  polled : Poll
  recordTime : ℚ
  memory : Memory
  pastMemory : Fin REPEAT_NUMBER → Memory
  players : Fin REPEAT_NUMBER → VideoPlayer → Image UInt8

/-- What the program does to the camera and, through its buffer, to the fragments. -/
inductive AppEvent where
  | pipelineStarted
  | waitedForFrames
  | polledForFrames
  | alignCreated
  | alignProcess
  | pipelineStopped
  | alignDeleted
  | buffer (e : Buffer.Event)
deriving DecidableEq, Repr

/-- What a new program finds: the state of the new processing blocks, and the memory of the
members that have no initializer. -/
structure Fresh (σ : Type) where
  filterState : σ
  cameraDepthScale : ℚ
  currentImage : ℕ → UInt8
  currentDepthImage : ℕ → UInt8
  pastImages : Fin REPEAT_NUMBER → ℕ → UInt8
  pastDepthImages : Fin REPEAT_NUMBER → ℕ → UInt8
  mergedImage : Sampler

/-- The members of `ofApp` that its methods read or write. -/
structure OfApp (σ : Type) where
  cameraFound : Bool
  cameraDepthScale : ℚ
  frames : Frameset
  filterState : σ
  buffer : VideoBuffer
  currentImage : Image UInt8
  currentDepthImage : Image UInt8
  pastImages : Fin REPEAT_NUMBER → Image UInt8
  pastDepthImages : Fin REPEAT_NUMBER → Image UInt8
  mergedImage : Sampler

/-- The texture of a color image; black outside. -/
def colorTexture (img : Image UInt8) : Sampler := fun (x, y) =>
  let level (channel : ℕ) : ℚ :=
    if (x : ℤ) < img.width ∧ (y : ℤ) < img.height then
      ((img.data[(y * img.width.toNat + x) * 3 + channel]?).getD 0).toNat / 255
    else 0
  ⟨level 0, level 1, level 2, 1⟩

/-- `initCamera`: whether there is one. -/
def initCamera (camera : Camera) : Option Bool × List AppEvent :=
  if camera.throws = some .query then (none, [])
  else if camera.devices > 0 then
    if camera.throws = some .start then (none, [])
    else if camera.throws = some .configure then (none, [.pipelineStarted])
    else (some true, [.pipelineStarted])
  else (some false, [])

namespace OfApp
variable {σ : Type}

def allocated (fresh : Fresh σ) (cameraFound : Bool) (cameraDepthScale : ℚ) (frames : Frameset) :
    OfApp σ :=
  { cameraFound
    cameraDepthScale
    frames
    filterState := fresh.filterState
    buffer := .new 1280 720 15
    currentImage := .allocate fresh.currentImage 3 cameraWidth cameraHeight
    currentDepthImage := .allocate fresh.currentDepthImage 1 cameraWidth cameraHeight
    pastImages := fun i => .allocate (fresh.pastImages i) 3 cameraWidth cameraHeight
    pastDepthImages := fun i => .allocate (fresh.pastDepthImages i) 1 cameraWidth cameraHeight
    mergedImage := fresh.mergedImage }

/-- The constructor and `setup`. -/
def setup (camera : Camera) (fresh : Fresh σ) : Option (OfApp σ) × List AppEvent :=
  match initCamera camera with
  | (none, events) => (none, events)
  | (some false, events) => (some (allocated fresh false fresh.cameraDepthScale []), events)
  | (some true, events) =>
    if camera.throws = some .wait ∨ camera.throws = some .align then
      (none, events ++ [.waitedForFrames])
    else
      (some (allocated fresh true camera.depthScale camera.waited),
        events ++ [.waitedForFrames, .alignCreated])

/-- The three processing blocks, one after the other, and the frame made of the result. -/
def capture (libs : Libraries σ) (cameraDepthScale : ℚ) (filterState : σ) (memory : Memory)
    (newFrames : Frameset) : Option (RgbdFrame × Frameset × σ) × List AppEvent :=
  match libs.filters.temporal filterState newFrames with
  | none => (none, [])
  | some (frames, filterState) =>
    match libs.filters.holeFilling filterState frames with
    | none => (none, [])
    | some (frames, filterState) =>
      match libs.filters.alignToColor filterState frames with
      | none => (none, [.alignProcess])
      | some (frames, filterState) =>
        match frames.rgbdFrame libs.rounding libs.allocates memory
            (MAX_DISTANCE / cameraDepthScale) with
        | none => (none, [.alignProcess])
        | some newFrame => (some (newFrame, frames, filterState), [.alignProcess])

def pastPicture (ed : Edition) (libs : Libraries σ) (tick : Tick) (a : OfApp σ)
    (i : Fin REPEAT_NUMBER) : Option (OfApp σ) × List AppEvent :=
  let r := a.buffer.query ed.getFrameReturns (tick.currentTime - delays.getD i 0)
  if r.1.allocated libs.allocates (tick.pastMemory i) then
    let pastFrame := r.1.frame libs.pixels (tick.pastMemory i) (tick.players i)
    (some { a with
        buffer := r.2.1
        pastImages := Function.update a.pastImages i
          (libs.assign.toFun (a.pastImages i) pastFrame.colorImage)
        pastDepthImages := Function.update a.pastDepthImages i
          (libs.assign.toFun (a.pastDepthImages i) pastFrame.depthImage) },
      r.2.2.map .buffer)
  else (none, r.2.2.map .buffer)

/-- The loop over the past pictures. -/
def pastPictures (ed : Edition) (libs : Libraries σ) (tick : Tick)
    (is : List (Fin REPEAT_NUMBER)) (a : OfApp σ) : Option (OfApp σ) × List AppEvent :=
  (Machine.halting (pastPicture ed libs tick)).run (some a) is

/-- The merge: the shader draws the current image into the frame buffer. -/
def merge (a : OfApp σ) : OfApp σ :=
  { a with
    mergedImage := fun p =>
      if (p.1 : ℤ) < a.currentImage.width ∧ (p.2 : ℤ) < a.currentImage.height then
        maskShader (colorTexture a.currentImage) a.currentDepthImage.texture
          (colorTexture (a.pastImages 0)) (a.pastDepthImages 0).texture p
      else a.mergedImage p }

/-- `updateFrames` after the camera was polled. -/
def updatePictures (ed : Edition) (libs : Libraries σ) (tick : Tick) (a : OfApp σ) :
    Option (OfApp σ) × List AppEvent :=
  let r := a.pastPictures ed libs tick (List.finRange REPEAT_NUMBER)
  (r.1.map (fun a => if ed.updateReturns then a else a.merge), r.2)

/-- The part of `updateFrames` on a frame that was captured. -/
def addNewFrame (libs : Libraries σ) (tick : Tick) (a : OfApp σ) (newFrame : RgbdFrame)
    (frames : Frameset) (filterState : σ) : OfApp σ × List AppEvent :=
  -- add to the buffer
  let q := a.buffer.addFrame tick.recordTime newFrame
  -- update current view
  ({ a with
      frames
      filterState
      buffer := q.1
      currentImage := libs.assign.toFun a.currentImage newFrame.colorImage
      currentDepthImage := libs.assign.toFun a.currentDepthImage newFrame.depthImage },
    q.2.map .buffer)

def updateFrames (ed : Edition) (libs : Libraries σ) (a : OfApp σ) (tick : Tick) :
    Option (OfApp σ) × List AppEvent :=
  match tick.polled with
  | .throws => (none, [.polledForFrames])
  | .nothing =>
    let r := a.updatePictures ed libs tick
    (r.1, .polledForFrames :: r.2)
  | .frames newFrames =>
    match capture libs a.cameraDepthScale a.filterState tick.memory newFrames with
    | (none, events) => (none, .polledForFrames :: events)
    | (some (newFrame, frames, filterState), events) =>
      let q := a.addNewFrame libs tick newFrame frames filterState
      let r := q.1.updatePictures ed libs tick
      (r.1, .polledForFrames :: events ++ q.2 ++ r.2)

def update (ed : Edition) (libs : Libraries σ) (a : OfApp σ) (tick : Tick) :
    Option (OfApp σ) × List AppEvent :=
  if a.cameraFound then a.updateFrames ed libs tick else (some a, [])

/-- A rectangle of the window with an image scaled to it. -/
structure Tile where
  image : Image UInt8
  x : ℤ
  y : ℤ
  width : ℤ
  height : ℤ
deriving DecidableEq, Repr

def draw (a : OfApp σ) : List Tile :=
  if a.cameraFound then
    -- latest frame, frame from the past
    [⟨a.currentImage, 0, 0, cameraWidth / 2, cameraHeight / 2⟩,
      ⟨a.currentDepthImage, 0, cameraHeight / 2, cameraWidth / 2, cameraHeight / 2⟩,
      ⟨a.pastImages 0, cameraWidth / 2, 0, cameraWidth / 2, cameraHeight / 2⟩,
      ⟨a.pastDepthImages 0, cameraWidth / 2, cameraHeight / 2, cameraWidth / 2,
        cameraHeight / 2⟩]
  else []

def exit (a : OfApp σ) : List AppEvent :=
  if a.cameraFound then [.pipelineStopped, .alignDeleted] else []

/-- The program as a machine over its updates; `none` is a program that an exception ended. -/
def machine (ed : Edition) (libs : Libraries σ) : Machine (Option (OfApp σ)) Tick AppEvent :=
  .halting (fun a tick => a.update ed libs tick)

end OfApp

end TimeRoom.App
