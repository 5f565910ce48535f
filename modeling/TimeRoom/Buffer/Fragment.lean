import TimeRoom.Frame.RgbdFrame

/-!
# `videoFragment`: one file's worth of recording

Times are exact rationals.  Every method returns the fragment it leaves behind
and the events it causes, in order: commands to a recorder, files opened by a
player, calls of the methods whose order matters (with the tag they found on
entry), and deletions.  A recorder is known by the commands it has received,
so it has no state of its own here.  Codec settings and console output are left
out.
-/

namespace TimeRoom.Buffer
open TimeRoom.Frame

inductive FragmentState where
  | preparedForRecording
  | recording
  | onDisk
  | inMemory
  | stopping
deriving DecidableEq, Repr

/-- Every fragment has one recorder and one player for each of these. -/
inductive Channel where
  | rgb
  | depth
deriving DecidableEq, Repr

/-- What an `ofxVideoRecorder` is told. -/
inductive Command where
  | setup (path : String) (width height : ℤ) (fps : ℕ)
  | start
  | addFrame (pixels : Image UInt8)
  | close
deriving DecidableEq, Repr

inductive Method where
  | getFrame
  | loadFromDisk
  | saveOnDisk
  | removeFromDisk
deriving DecidableEq, Repr

/-- `fragment` is the creation number, which stands for the object's address. -/
inductive Event where
  | command (fragment : ℕ) (channel : Channel) (c : Command)
  | load (fragment : ℕ) (channel : Channel) (path : String)
  | called (fragment : ℕ) (method : Method) (state : FragmentState)
  | polled (fragment : ℕ) (stopped : Bool)
  | deleted (fragment : ℕ)
deriving DecidableEq, Repr

/-- `ofVideoPlayer`: the file it has open, if any, and its position in it. -/
structure VideoPlayer where
  file : Option String := none
  position : ℚ := 0
deriving DecidableEq, Repr

def VideoPlayer.load (_ : VideoPlayer) (path : String) : VideoPlayer := ⟨some path, 0⟩

def VideoPlayer.setPosition (p : VideoPlayer) (position : ℚ) : VideoPlayer :=
  { p with position }

structure VideoFragment where
  id : ℕ
  startTimestamp : ℚ
  filename : String
  width : ℤ
  height : ℤ
  state : FragmentState
  rgbPlayer : VideoPlayer
  depthPlayer : VideoPlayer
deriving DecidableEq, Repr

/-- What `videoBuffer::getFrame` answers from: a blank frame of the given size,
or the pixels of the two players of a fragment. -/
inductive Reply where
  | blank (width height : ℤ)
  | played (fragment : ℕ) (rgbPlayer depthPlayer : VideoPlayer)
deriving DecidableEq, Repr

/-- The frame that is returned: `memory` is what the new frame's memory holds, `pixels` what
a player delivers. -/
def Reply.frame (lib : PixelImport) (memory : Memory) (pixels : VideoPlayer → Image UInt8) :
    Reply → RgbdFrame
  | .blank width height => .ofSize memory width height
  | .played _ rgbPlayer depthPlayer => .ofPixels lib memory (pixels rgbPlayer) (pixels depthPlayer)

/-- Whether the constructor of that frame can allocate its images. -/
def Reply.allocated (allocates : ℤ → ℤ → Bool) (memory : Memory) : Reply → Bool
  | .blank width height => allocates width height
  | .played _ _ _ => allocates memory.width memory.height

namespace VideoFragment

/-- `initRecorders`: the depth recorder's lines are commented out. -/
def initRecorders (f : VideoFragment) : List Event :=
  [.command f.id .rgb (.setup (f.filename ++ "_rgb.mov") f.width f.height 15)]

/-- The constructor. -/
def new (id : ℕ) (startTimestamp : ℚ) (filename : String) (width height : ℤ) :
    VideoFragment × List Event :=
  let f : VideoFragment :=
    { id, startTimestamp, filename, width, height, state := .preparedForRecording,
      rgbPlayer := {}, depthPlayer := {} }
  (f, f.initRecorders)

def stopRecording (f : VideoFragment) : List Event :=
  [.command f.id .rgb .close]

/-- The two warnings about failed writes change nothing and are left out. -/
def addFrame (f : VideoFragment) (frame : RgbdFrame) : VideoFragment × List Event :=
  let r : VideoFragment × List Event :=
    if f.state = .preparedForRecording then
      ({ f with state := .recording }, [.command f.id .rgb .start])
    else (f, [])
  (r.1, r.2 ++ [.command f.id .rgb (.addFrame frame.colorImage)])

def getFrame (f : VideoFragment) (position : ℚ) : Reply × VideoFragment × List Event :=
  let f' := { f with
    rgbPlayer := f.rgbPlayer.setPosition position
    depthPlayer := f.depthPlayer.setPosition position }
  (.played f.id f'.rgbPlayer f'.depthPlayer, f', [.called f.id .getFrame f.state])

def loadFromDisk (f : VideoFragment) : VideoFragment × List Event :=
  let rgb := f.filename ++ "_rgb.mov"
  let depth := f.filename ++ "_depth.mov"
  ({ f with
      rgbPlayer := f.rgbPlayer.load rgb
      depthPlayer := f.depthPlayer.load depth
      state := .inMemory },
    [.called f.id .loadFromDisk f.state, .load f.id .rgb rgb, .load f.id .depth depth])

def saveOnDisk (f : VideoFragment) : VideoFragment × List Event :=
  ({ f with state := .onDisk },
    .called f.id .saveOnDisk f.state ::
      if f.state = .recording then f.stopRecording else [])

def removeFromDisk (f : VideoFragment) : VideoFragment × List Event :=
  if f.state = .recording then
    ({ f with state := .stopping }, .called f.id .removeFromDisk f.state :: f.stopRecording)
  else (f, [.called f.id .removeFromDisk f.state])

/-- `isStopped`, given what `isRecording()` reads on each of the fragment's recorders. -/
def isStopped (isRecording : Channel → Bool) : Bool :=
  !isRecording .rgb && !isRecording .depth

end VideoFragment

/-! ### Commands and logs -/

def Event.command? : Event → Option (ℕ × Channel × Command)
  | .command i ch c => some (i, ch, c)
  | _ => none

def Command.frame? : Command → Option (Image UInt8)
  | .addFrame pixels => some pixels
  | _ => none

def Command.path? : Command → Option String
  | .setup path _ _ _ => some path
  | _ => none

/-- All commands to all recorders, in the order they were sent. -/
def commands (tr : List Event) : List (ℕ × Channel × Command) :=
  tr.filterMap Event.command?

/-- The part of a command sequence that one recorder receives. -/
def received (i : ℕ) (ch : Channel) (ms : List (ℕ × Channel × Command)) : List Command :=
  ms.filterMap (fun m => if m.1 = i ∧ m.2.1 = ch then some m.2.2 else none)

def recorderLog (i : ℕ) (ch : Channel) (tr : List Event) : List Command :=
  received i ch (commands tr)

/-- The fragments ever created, in order: the constructor sets up the recorder. -/
def createdFragments (ms : List (ℕ × Channel × Command)) : List ℕ :=
  ms.filterMap (fun | (i, _, .setup _ _ _ _) => some i | _ => none)

/-- For every frame sent to a recorder, the fragment it was sent to. -/
def frameReceivers (ms : List (ℕ × Channel × Command)) : List ℕ :=
  ms.filterMap (fun | (i, _, .addFrame _) => some i | _ => none)

@[simp] theorem commands_nil : commands [] = [] := rfl

@[simp] theorem commands_append (a b : List Event) :
    commands (a ++ b) = commands a ++ commands b := List.filterMap_append

@[simp] theorem commands_command (i : ℕ) (ch : Channel) (c : Command) (tr : List Event) :
    commands (.command i ch c :: tr) = (i, ch, c) :: commands tr := rfl

@[simp] theorem commands_load (i : ℕ) (ch : Channel) (p : String) (tr : List Event) :
    commands (.load i ch p :: tr) = commands tr := rfl

@[simp] theorem commands_called (i : ℕ) (m : Method) (s : FragmentState) (tr : List Event) :
    commands (.called i m s :: tr) = commands tr := rfl

@[simp] theorem commands_polled (i : ℕ) (b : Bool) (tr : List Event) :
    commands (.polled i b :: tr) = commands tr := rfl

@[simp] theorem commands_deleted (i : ℕ) (tr : List Event) :
    commands (.deleted i :: tr) = commands tr := rfl

theorem mem_commands {i : ℕ} {ch : Channel} {c : Command} {tr : List Event} :
    (i, ch, c) ∈ commands tr ↔ Event.command i ch c ∈ tr := by
  simp only [commands, List.mem_filterMap]
  constructor
  · rintro ⟨e, he, hc⟩
    cases e with
    | command j ch' c' =>
      obtain ⟨rfl, rfl, rfl⟩ : j = i ∧ ch' = ch ∧ c' = c := by simpa [Event.command?] using hc
      exact he
    | _ => simp [Event.command?] at hc
  · intro he
    exact ⟨_, he, rfl⟩

@[simp] theorem received_nil (i : ℕ) (ch : Channel) : received i ch [] = [] := rfl

@[simp] theorem received_append (i : ℕ) (ch : Channel) (a b : List (ℕ × Channel × Command)) :
    received i ch (a ++ b) = received i ch a ++ received i ch b := List.filterMap_append

theorem received_cons (i j : ℕ) (ch ch' : Channel) (c : Command)
    (ms : List (ℕ × Channel × Command)) :
    received i ch ((j, ch', c) :: ms) =
      if j = i ∧ ch' = ch then c :: received i ch ms else received i ch ms := by
  by_cases h : j = i ∧ ch' = ch <;> simp [received, h]

theorem mem_of_received {i : ℕ} {ch : Channel} {c : Command} {ms : List (ℕ × Channel × Command)}
    (hc : c ∈ received i ch ms) : (i, ch, c) ∈ ms := by
  obtain ⟨⟨j, ch', c'⟩, hm, heq⟩ := List.mem_filterMap.mp hc
  obtain ⟨⟨rfl, rfl⟩, hsome⟩ := Option.ite_none_right_eq_some.mp heq
  obtain rfl := Option.some_inj.mp hsome
  exact hm

theorem received_map (i j : ℕ) (ch ch' : Channel) (cs : List Command) :
    received i ch (cs.map (fun c => (j, ch', c))) = if j = i ∧ ch' = ch then cs else [] := by
  induction cs with
  | nil => simp
  | cons c cs ih =>
    rw [List.map_cons, received_cons, ih]
    split <;> rfl

@[simp] theorem recorderLog_append (i : ℕ) (ch : Channel) (a b : List Event) :
    recorderLog i ch (a ++ b) = recorderLog i ch a ++ recorderLog i ch b := by
  simp [recorderLog]

end TimeRoom.Buffer
