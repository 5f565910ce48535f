import TimeRoom.Frame.DepthMerge

/-!
# Framesets of the camera

What the program uses of the camera library: a frameset is a sequence of frames,
each with its stream and format, and the colour and the depth frame are searched
for in it.  A frame that is not there is an empty reference, and reading the size
of one throws.  A frame made of the two has the colors of the one, and the distances
of the other in bytes.
-/

namespace TimeRoom.Frame

inductive Stream where
  | any
  | depth
  | color
  | infrared
  | fisheye
  | gyro
  | accel
  | gpio
  | pose
  | confidence
deriving DecidableEq, Repr

inductive Format where
  | any
  | z16
  | disparity16
  | xyz32f
  | yuyv
  | rgb8
  | bgr8
  | rgba8
  | bgra8
  | y8
  | y16
  | raw10
  | raw16
  | raw8
  | uyvy
  | motionRaw
  | motionXyz32f
  | gpioRaw
  | sixDof
  | disparity32
deriving DecidableEq, Repr

/-- A frame in a frameset; the two flags are the extensions the library reports for it. -/
structure StreamFrame where
  streamType : Stream
  format : Format
  isVideoFrame : Bool
  isDepthFrame : Bool
  width : ℤ
  height : ℤ
  data : List UInt8
deriving DecidableEq, Repr

/-- `rs2::frameset`: the embedded frames. -/
abbrev Frameset := List StreamFrame

/-- Two bytes, the lower one first. -/
def words : List UInt8 → List UInt16
  | lo :: hi :: rest => (lo.toUInt16 + 256 * hi.toUInt16) :: words rest
  | _ => []

namespace StreamFrame

/-- `as<video_frame>`: an empty reference if the frame is not one. -/
def asVideoFrame (f : StreamFrame) : Option StreamFrame := if f.isVideoFrame then some f else none

/-- `as<depth_frame>`, which is a video frame first. -/
def asDepthFrame (f : StreamFrame) : Option StreamFrame :=
  f.asVideoFrame.bind (fun f => if f.isDepthFrame then some f else none)

def video (f : StreamFrame) : Image UInt8 := ⟨f.width, f.height, f.data⟩

def depth (f : StreamFrame) : Image UInt16 := ⟨f.width, f.height, words f.data⟩

end StreamFrame

namespace Frameset

/-- `first_or_default`: the loop keeps the first frame that matches. -/
def firstOrDefault (frames : Frameset) (s : Stream) (f : Format) : Option StreamFrame :=
  frames.foldl (fun result frm =>
    if result = none ∧ frm.streamType = s ∧ (f = .any ∨ f = frm.format) then some frm
    else result) none

theorem firstOrDefault_eq_find (frames : Frameset) (s : Stream) (f : Format) :
    frames.firstOrDefault s f =
      frames.find? (fun frm => frm.streamType = s ∧ (f = .any ∨ f = frm.format)) := by
  have hkept (g : StreamFrame) (frames : Frameset) :
      frames.foldl (fun result frm =>
        if result = none ∧ frm.streamType = s ∧ (f = .any ∨ f = frm.format) then some frm
        else result) (some g) = some g := by
    induction frames with
    | nil => rfl
    | cons frm frames ih => simpa using ih
  rw [firstOrDefault]
  induction frames with
  | nil => rfl
  | cons frm frames ih =>
    rw [List.foldl_cons, List.find?_cons]
    by_cases hfrm : frm.streamType = s ∧ (f = .any ∨ f = frm.format)
    · simp only [hfrm, and_self, if_true, hkept, decide_true]
    · simp only [hfrm, and_false, if_false, ih, decide_false]

def getDepthFrame (frames : Frameset) : Option StreamFrame :=
  (frames.firstOrDefault .depth .z16).bind (·.asDepthFrame)

/-- `get_color_frame`: a color frame, or the first infrared one if it is in color. -/
def getColorFrame (frames : Frameset) : Option StreamFrame :=
  let f := frames.firstOrDefault .color .any
  let f :=
    if f = none then
      match frames.firstOrDefault .infrared .any with
      | some ir => if ir.format = .rgb8 then some ir else f
      | none => f
    else f
  f.bind (·.asVideoFrame)

/-- The constructor `rgbdFrame(rgbFrame, depthFrame, maxDepthValue)` on the frames found.  It
throws if one of them is missing, or if `allocate` throws for the size of the depth frame. -/
def rgbdFrame (cv : ImageRounding) (allocates : ℤ → ℤ → Bool) (memory : Memory)
    (maxDepthValue : ℚ) (frames : Frameset) : Option RgbdFrame :=
  match frames.getColorFrame, frames.getDepthFrame with
  | some rgbFrame, some depthFrame =>
    if allocates depthFrame.width depthFrame.height then
      some (.ofCamera cv memory rgbFrame.video depthFrame.depth maxDepthValue)
    else none
  | _, _ => none

/-- The frameset has a depth frame of a size that can be allocated, and a color frame or instead
an infrared one in color; of each kind, only the first one counts. -/
structure Usable (allocates : ℤ → ℤ → Bool) (frames : Frameset) : Prop where
  depth : ∃ f, frames.find? (fun f => f.streamType = .depth ∧ f.format = .z16) = some f ∧
    (f.isVideoFrame = true ∧ f.isDepthFrame = true) ∧ allocates f.width f.height = true
  color : ∃ f, (frames.find? (·.streamType = .color)).or
      ((frames.find? (·.streamType = .infrared)).filter (·.format = .rgb8)) = some f ∧
    f.isVideoFrame = true

theorem asVideoFrame_eq_some {f g : StreamFrame} :
    f.asVideoFrame = some g ↔ f = g ∧ f.isVideoFrame = true := by
  rw [StreamFrame.asVideoFrame]
  split <;> simp_all

theorem getDepthFrame_eq_some {frames : Frameset} {f : StreamFrame} :
    frames.getDepthFrame = some f ↔
      frames.find? (fun f => f.streamType = .depth ∧ f.format = .z16) = some f ∧
        f.isVideoFrame = true ∧ f.isDepthFrame = true := by
  have hformat (f : StreamFrame) : (Format.z16 = .any ∨ Format.z16 = f.format) ↔
      f.format = .z16 := by
    simp [eq_comm]
  rw [getDepthFrame, firstOrDefault_eq_find]
  simp only [hformat, Option.bind_eq_some_iff, StreamFrame.asDepthFrame, asVideoFrame_eq_some]
  constructor
  · rintro ⟨g, hg, _, ⟨rfl, hvideo⟩, hdepth⟩
    split at hdepth
    · obtain rfl := Option.some_inj.mp hdepth
      exact ⟨hg, hvideo, by assumption⟩
    · cases hdepth
  · rintro ⟨hf, hvideo, hdepth⟩
    exact ⟨f, hf, f, ⟨rfl, hvideo⟩, if_pos hdepth⟩

theorem getColorFrame_eq_some {frames : Frameset} {f : StreamFrame} :
    frames.getColorFrame = some f ↔
      (frames.find? (·.streamType = .color)).or
          ((frames.find? (·.streamType = .infrared)).filter (·.format = .rgb8)) = some f ∧
        f.isVideoFrame = true := by
  have hany (s : Stream) : frames.firstOrDefault s .any = frames.find? (·.streamType = s) := by
    rw [firstOrDefault_eq_find]
    simp
  have hframe (o : Option StreamFrame) :
      o.bind (·.asVideoFrame) = some f ↔ o = some f ∧ f.isVideoFrame = true := by
    simp only [Option.bind_eq_some_iff, asVideoFrame_eq_some]
    constructor
    · rintro ⟨g, hg, rfl, hvideo⟩
      exact ⟨hg, hvideo⟩
    · rintro ⟨hf, hvideo⟩
      exact ⟨f, hf, rfl, hvideo⟩
  rw [getColorFrame, hany, hany, hframe]
  cases frames.find? (·.streamType = .color) with
  | some f => simp
  | none =>
    cases frames.find? (·.streamType = .infrared) with
    | none => simp
    | some ir =>
      by_cases hrgb : ir.format = .rgb8
      · simp [Option.filter, hrgb]
      · simp [Option.filter, hrgb]

section Constructor
variable {cv : ImageRounding} {allocates : ℤ → ℤ → Bool} {memory : Memory} {maxDepthValue : ℚ}
  {frames : Frameset}

theorem rgbdFrame_eq_some {newFrame : RgbdFrame} :
    frames.rgbdFrame cv allocates memory maxDepthValue = some newFrame ↔
      ∃ rgb depth, frames.getColorFrame = some rgb ∧ frames.getDepthFrame = some depth ∧
        allocates depth.width depth.height = true ∧
        .ofCamera cv memory rgb.video depth.depth maxDepthValue = newFrame := by
  rw [rgbdFrame]
  cases frames.getColorFrame with
  | none => simp
  | some rgb =>
    cases frames.getDepthFrame with
    | none => simp
    | some depth => simp

/-- A frame can be made of exactly the usable framesets. -/
theorem usable_iff : frames.Usable allocates ↔
    (frames.rgbdFrame cv allocates memory maxDepthValue).isSome = true := by
  rw [Option.isSome_iff_exists]
  constructor
  · rintro ⟨⟨depth, hfind, hdepth, hsize⟩, rgb, hrgb⟩
    exact ⟨_, rgbdFrame_eq_some.mpr ⟨rgb, depth, getColorFrame_eq_some.mpr hrgb,
      getDepthFrame_eq_some.mpr ⟨hfind, hdepth⟩, hsize, rfl⟩⟩
  · rintro ⟨newFrame, hframe⟩
    obtain ⟨rgb, depth, hrgb, hdepth, hsize, -⟩ := rgbdFrame_eq_some.mp hframe
    obtain ⟨hfind, hdepth⟩ := getDepthFrame_eq_some.mp hdepth
    exact ⟨⟨depth, hfind, hdepth, hsize⟩, rgb, getColorFrame_eq_some.mp hrgb⟩

end Constructor

end Frameset

/-! ### Colors and distances -/

/-- Two images show the colors of one frame as they are, and the distances that the other one
measured in units of `depthScale`: a byte goes up to `maxDistance`. -/
structure Pictures (maxDistance depthScale : ℚ) (rgb depth : StreamFrame)
    (colorImage depthImage : Image UInt8) : Prop where
  color : ∀ (i : ℕ) (v : UInt8), i < (rgb.width * rgb.height).toNat * 3 →
    rgb.data[i]? = some v → colorImage.data[i]? = some v
  distance : ∀ (x y : ℕ) (v : UInt16), depth.depth.at? x y = some v →
    ∃ b, depthImage.at? x y = some b ∧
      |(b.toNat : ℚ) - min 255 (255 * (v.toNat * depthScale) / maxDistance)| ≤ 1 / 2 + 1 / 514

theorem ofCamera_pictures (cv : ImageRounding) (memory : Memory) {maxDistance depthScale : ℚ}
    (hmax : 0 < maxDistance) (hscale : 0 < depthScale) {rgb depth : StreamFrame}
    (haligned : Aligned rgb.video depth.depth) :
    let newFrame := RgbdFrame.ofCamera cv memory rgb.video depth.depth (maxDistance / depthScale)
    Pictures maxDistance depthScale rgb depth newFrame.colorImage newFrame.depthImage := by
  constructor
  · intro i v hi hv
    exact memcpy_getElem? _ hi hv
  · intro x y v hv
    have herror := depthByte_error cv (div_pos hmax hscale) v
    have hmetres : 255 * (v.toNat : ℚ) / (maxDistance / depthScale) =
        255 * (v.toNat * depthScale) / maxDistance := by
      rw [div_div_eq_mul_div, mul_assoc]
    rw [hmetres] at herror
    exact ⟨_, ofCamera_depthImage_at? cv _ _ haligned hv, herror⟩

end TimeRoom.Frame
