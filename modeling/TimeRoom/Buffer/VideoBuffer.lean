import TimeRoom.Buffer.Fragment
import TimeRoom.Runs.Machine

/-!
# `videoBuffer`: the sequence of fragments

The vector of pointers is a list of fragments; a call through a pointer to its
last element updates that element in place.  `fileCounter` does not wrap: the
source's `int` overflows only past 2^31 - 1 fragments.
-/

namespace TimeRoom.Buffer
open TimeRoom.Frame Runs

structure VideoBuffer where
  fragmentLength : ℚ
  videoWidth : ℤ
  videoHeight : ℤ
  fileCounter : ℕ
  fragments : List VideoFragment
deriving DecidableEq, Repr

/-- `%0<width>d` of a nonnegative number. -/
def zeroPad (width n : ℕ) : String :=
  let digits := Nat.toDigits 10 n
  String.ofList (List.replicate (width - digits.length) '0' ++ digits)

/-- `snprintf` into a buffer of `size` bytes keeps one of them for the final zero. -/
def snprintf (size : ℕ) (text : String) : String :=
  String.ofList (text.toList.take (size - 1))

def fragmentFileName (fileCounter : ℕ) : String :=
  snprintf 100 ("fragments/" ++ zeroPad 5 fileCounter)

namespace VideoBuffer

/-- The constructor. -/
def new (videoWidth videoHeight : ℤ) (fragmentLength : ℚ) : VideoBuffer :=
  { fragmentLength, videoWidth, videoHeight, fileCounter := 0, fragments := [] }

/-- Call a method through a pointer to the last fragment. -/
def onLast (b : VideoBuffer) (method : VideoFragment → VideoFragment × List Event) :
    VideoBuffer × List Event :=
  match b.fragments.getLast? with
  | none => (b, [])
  | some f => ({ b with fragments := b.fragments.dropLast ++ [(method f).1] }, (method f).2)

/-- The new fragment, which the source returns, is the last one. -/
def addNewFragment (b : VideoBuffer) (startTimestamp : ℚ) : VideoBuffer × List Event :=
  let fileCounter := b.fileCounter + 1
  let r := VideoFragment.new fileCounter startTimestamp (fragmentFileName fileCounter)
    b.videoWidth b.videoHeight
  ({ b with fileCounter, fragments := b.fragments ++ [r.1] }, r.2)

/-- `addFrame`, with the clock reading it starts with as an argument. -/
def addFrame (b : VideoBuffer) (currentTime : ℚ) (frame : RgbdFrame) :
    VideoBuffer × List Event :=
  match b.fragments.getLast? with
  | none =>
    -- no recorded fragments yet
    let r := b.addNewFragment currentTime
    let q := r.1.onLast (·.addFrame frame)
    (q.1, r.2 ++ q.2)
  | some currentFragment =>
    -- check if length is already exceeded
    if currentTime - currentFragment.startTimestamp ≥ b.fragmentLength then
      let r := b.onLast (·.saveOnDisk)
      let q := r.1.addNewFragment (currentFragment.startTimestamp + b.fragmentLength)
      let p := q.1.onLast (·.addFrame frame)
      (p.1, r.2 ++ q.2 ++ p.2)
    else b.onLast (·.addFrame frame)

/-- The loop of lines 216-220, "remove old fragments". -/
def evict (timestamp : ℚ) : List VideoFragment → List VideoFragment × List Event
  | f :: g :: rest =>
    if g.startTimestamp > timestamp then
      let r := evict timestamp (g :: rest)
      (r.1, f.removeFromDisk.2 ++ .deleted f.id :: r.2)
    else (f :: g :: rest, [])
  | fragments => (fragments, [])

/-- `getFrame` with line 208 removed: lines 209-234. -/
def getFrame (b : VideoBuffer) (timestamp : ℚ) : Reply × VideoBuffer × List Event :=
  let blank := Reply.blank b.videoWidth b.videoHeight
  match b.fragments with
  | [] => (blank, b, [])
  | first :: others =>
    if timestamp < first.startTimestamp then
      if others ≠ [] ∧ first.state = .onDisk then
        let r := first.loadFromDisk
        (blank, { b with fragments := r.1 :: others }, r.2)
      else (blank, b, [])
    else
      let r := evict timestamp (first :: others)
      match r.1 with
      | [] => (blank, { b with fragments := [] }, r.2)
      | requested :: others =>
        let q := if requested.state = .onDisk then requested.loadFromDisk else (requested, [])
        -- check if requested frame has not been recorded yet
        if timestamp < q.1.startTimestamp then
          (blank, { b with fragments := q.1 :: others }, r.2 ++ q.2)
        else
          let p := q.1.getFrame ((timestamp - q.1.startTimestamp) / b.fragmentLength)
          (p.1, { b with fragments := p.2.1 :: others }, r.2 ++ q.2 ++ p.2.2)

/-- `getFrame` in the two versions: with the early return of line 208, and without it. -/
def query (earlyReturn : Bool) (b : VideoBuffer) (timestamp : ℚ) :
    Reply × VideoBuffer × List Event :=
  if earlyReturn then (.blank b.videoWidth b.videoHeight, b, []) else b.getFrame timestamp

/-- The first loop of `~videoBuffer`. -/
def removeAll : List VideoFragment → List VideoFragment × List Event
  | [] => ([], [])
  | f :: rest =>
    (f.removeFromDisk.1 :: (removeAll rest).1, f.removeFromDisk.2 ++ (removeAll rest).2)

/-- The second loop of `~videoBuffer`.  `isRecording n i ch` is what the recorder
`ch` of fragment `i` reads at the `n`-th poll; `none` means out of fuel. -/
def deleteLoop (isRecording : ℕ → ℕ → Channel → Bool) :
    ℕ → ℕ → List VideoFragment → Option (List Event)
  | _, _, [] => some []
  | 0, _, _ :: _ => none
  | fuel + 1, n, f :: rest =>
    if VideoFragment.isStopped (isRecording n f.id) then
      (deleteLoop isRecording fuel (n + 1) rest).map
        (fun tr => .polled f.id true :: .deleted f.id :: tr)
    else
      (deleteLoop isRecording fuel (n + 1) (f :: rest)).map (fun tr => .polled f.id false :: tr)

def destruct (isRecording : ℕ → ℕ → Channel → Bool) (fuel : ℕ) (b : VideoBuffer) :
    Option (List Event) :=
  let r := removeAll b.fragments
  (deleteLoop isRecording fuel 0 r.1).map (fun tr => r.2 ++ tr)

end VideoBuffer

/-- A call of a public method; `addFrame` comes with the clock reading it sees. -/
inductive Call where
  | addFrame (currentTime : ℚ) (frame : RgbdFrame)
  | getFrame (timestamp : ℚ)
deriving DecidableEq, Repr

def machine (earlyReturn : Bool) : Machine VideoBuffer Call Event where
  step b
    | .addFrame t x => b.addFrame t x
    | .getFrame ts => (b.query earlyReturn ts).2

/-- A whole life of a buffer up to its destruction. -/
def execute (earlyReturn : Bool) (w h : ℤ) (L : ℚ) (calls : List Call) :
    VideoBuffer × List Event :=
  (machine earlyReturn).run (.new w h L) calls

def Call.recorded? : Call → Option (ℚ × RgbdFrame)
  | .addFrame t x => some (t, x)
  | .getFrame _ => none

def recordedFrames (calls : List Call) : List (ℚ × RgbdFrame) := calls.filterMap Call.recorded?

end TimeRoom.Buffer
