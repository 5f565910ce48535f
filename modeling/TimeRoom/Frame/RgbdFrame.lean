import Mathlib.Data.Rat.Floor
import Mathlib.Data.UInt
import TimeRoom.Numeric.Rounding

/-!
# Camera frames and the `rgbdFrame` built from them

An image is its size and its channel values in row-major order.  The
constructor from a camera frame copies both buffers, stretches the 16-bit
depth to the range of interest and narrows it to one byte per pixel.  The other
two constructors make a blank frame of a given size, and a frame from the pixels
of two players.  The roundings and the copying of pixels belong to the image
library, so they are parameters; so is what new memory holds, since `allocate` does
not clear it and the calls of `clear()` are commented out.
-/

namespace TimeRoom.Frame
open Numeric

/-- Size and row-major channel values; also the view of an `rs2` frame through
`get_width`, `get_height` and `get_data`. -/
structure Image (α : Type) where
  width : ℤ
  height : ℤ
  data : List α
deriving DecidableEq, Repr

namespace Image

/-- `allocate(w, h)`: a buffer with the given number of channels, which holds what the memory
held. -/
def allocate {α : Type} (memory : ℕ → α) (channels : ℕ) (w h : ℤ) : Image α :=
  ⟨w, h, (List.range ((w * h).toNat * channels)).map memory⟩

/-- The value at column `x` of row `y` of a one-channel image. -/
def at? {α : Type} (img : Image α) (x y : ℕ) : Option α :=
  if (x : ℤ) < img.width ∧ (y : ℤ) < img.height then img.data[y * img.width.toNat + x]? else none

theorem at?_eq_some {α : Type} {img : Image α} {x y : ℕ} {v : α} :
    img.at? x y = some v ↔ (x : ℤ) < img.width ∧ (y : ℤ) < img.height ∧
      img.data[y * img.width.toNat + x]? = some v := by
  rw [at?]
  split <;> simp_all

theorem index_lt {w h : ℤ} {x y : ℕ} (hx : (x : ℤ) < w) (hy : (y : ℤ) < h) :
    y * w.toNat + x < (w * h).toNat := by
  lift w to ℕ using by omega
  lift h to ℕ using by omega
  have hy' : y + 1 ≤ h := by omega
  have hrows := Nat.mul_le_mul_right w hy'
  have hprod : ((w : ℤ) * h).toNat = h * w := by
    rw [mul_comm, ← Nat.cast_mul, Int.toNat_natCast]
  rw [hprod, Int.toNat_natCast]
  linarith [Int.ofNat_lt.mp hx]

end Image

/-- `memcpy(dst, src, n)`, counted in elements. -/
def memcpy {α : Type} (dst src : List α) (n : ℕ) : List α := src.take n ++ dst.drop n

theorem memcpy_getElem? {α : Type} (dst : List α) {src : List α} {n i : ℕ} {v : α} (hi : i < n)
    (hv : src[i]? = some v) : (memcpy dst src n)[i]? = some v := by
  have hlen : i < (src.take n).length := by
    obtain ⟨hsrc, -⟩ := List.getElem?_eq_some_iff.mp hv
    rw [List.length_take]
    omega
  rw [memcpy, List.getElem?_append_left hlen, List.getElem?_take_of_lt hi, hv]

/-- The members of the class; the two integers are private and only the camera
constructor writes them. -/
structure RgbdFrame where
  width : ℤ
  height : ℤ
  depthImage : Image UInt8
  colorImage : Image UInt8
  depthImageColored : Image UInt8
deriving DecidableEq, Repr

/-- The roundings of the image library: in `convertToRange`, and in the
assignment of a 16-bit image to a grayscale one. -/
structure ImageRounding where
  range : RoundNearest
  gray : RoundNearest

/-- One pixel of `ofxCvShortImage::convertToRange(lo, hi)`. -/
def convertPixel (cv : ImageRounding) (lo hi : ℚ) (v : UInt16) : UInt16 :=
  UInt16.ofNat (saturate 65535 (cv.range (lo + v.toNat * (hi - lo) / 65535)))

def convertToRange (cv : ImageRounding) (lo hi : ℚ) (img : Image UInt16) : Image UInt16 :=
  { img with data := img.data.map (convertPixel cv lo hi) }

/-- One pixel of the assignment of an `ofxCvShortImage` to an `ofxCvGrayscaleImage`. -/
def grayPixel (cv : ImageRounding) (w : UInt16) : UInt8 :=
  UInt8.ofNat (saturate 255 (cv.gray (w.toNat * 255 / 65535)))

/-- The assignment writes the pixels into the allocated image. -/
def assignShort (cv : ImageRounding) (dst : Image UInt8) (src : Image UInt16) : Image UInt8 :=
  { dst with data := src.data.map (grayPixel cv) }

/-- Assignment of a grayscale image to a color one: the byte on all three channels. -/
def assignGray (dst : Image UInt8) (src : Image UInt8) : Image UInt8 :=
  { dst with data := src.data.flatMap (fun v => [v, v, v]) }

def Image.invert (img : Image UInt8) : Image UInt8 :=
  { img with data := img.data.map (fun v => 255 - v) }

/-- Copying pixels into an allocated image, whose size stays; which bytes arrive there is
left to the image library. -/
structure PixelCopy where
  toFun : Image UInt8 → Image UInt8 → Image UInt8
  width : ∀ dst src, (toFun dst src).width = dst.width
  height : ∀ dst src, (toFun dst src).height = dst.height

instance : CoeFun PixelCopy (fun _ => Image UInt8 → Image UInt8 → Image UInt8) :=
  ⟨PixelCopy.toFun⟩

/-- As many bytes as the image holds. -/
def PixelCopy.bytes : PixelCopy where
  toFun dst src := { dst with data := memcpy dst.data src.data dst.data.length }
  width _ _ := rfl
  height _ _ := rfl

/-- What the image library does with pixels: `setFromPixels` and the assignment of pixels to
a grayscale image. -/
structure PixelImport where
  setFromPixels : PixelCopy
  assign : PixelCopy

/-- What the memory of a new frame holds: its two integers, and the buffers of its images and of
the temporary one. -/
structure Memory where
  width : ℤ
  height : ℤ
  colorImage : ℕ → UInt8
  depthImage : ℕ → UInt8
  depthImageColored : ℕ → UInt8
  depthRawImage : ℕ → UInt16

def Memory.cleared : Memory := ⟨0, 0, fun _ => 0, fun _ => 0, fun _ => 0, fun _ => 0⟩

/-- `rgbdFrame::rgbdFrame(int, int)`.  The parameters hide the members `width` and `height`,
which stay as they are. -/
def RgbdFrame.ofSize (memory : Memory) (width height : ℤ) : RgbdFrame :=
  let depthImage := Image.allocate memory.depthImage 1 width height
  -- to make it "white" - all pixels are far away
  let depthImage := depthImage.invert
  let colorImage := Image.allocate memory.colorImage 3 width height
  let depthImageColored := Image.allocate memory.depthImageColored 3 width height
  let depthImageColored := depthImageColored.invert
  { width := memory.width, height := memory.height, depthImage, colorImage, depthImageColored }

/-- `rgbdFrame::rgbdFrame(ofPixels, ofPixels)`.  The names `width` and `height` are the
members, which nothing has written yet. -/
def RgbdFrame.ofPixels (lib : PixelImport) (memory : Memory)
    (rgbPixels depthColoredPixels : Image UInt8) : RgbdFrame :=
  let width := memory.width
  let height := memory.height
  let depthImage := Image.allocate memory.depthImage 1 width height
  let colorImage := Image.allocate memory.colorImage 3 width height
  let depthImageColored := Image.allocate memory.depthImageColored 3 width height
  -- copy data
  let colorImage := lib.setFromPixels colorImage rgbPixels
  let depthImageColored := lib.setFromPixels depthImageColored depthColoredPixels
  let depthImage := lib.assign depthImage depthColoredPixels
  { width, height, depthImage, colorImage, depthImageColored }

/-- `rgbdFrame::rgbdFrame(rs2::video_frame, rs2::depth_frame, float)`. -/
def RgbdFrame.ofCamera (cv : ImageRounding) (memory : Memory) (videoFrame : Image UInt8)
    (depthFrame : Image UInt16) (maxDepthValue : ℚ) : RgbdFrame :=
  let width := videoFrame.width
  let height := videoFrame.height
  let colorImage := Image.allocate memory.colorImage 3 depthFrame.width depthFrame.height
  let depthImage := Image.allocate memory.depthImage 1 depthFrame.width depthFrame.height
  let depthImageColored :=
    Image.allocate memory.depthImageColored 3 depthFrame.width depthFrame.height
  let depthRawImage := Image.allocate memory.depthRawImage 1 depthFrame.width depthFrame.height
  -- copy data
  let colorImage := { colorImage with
    data := memcpy colorImage.data videoFrame.data ((width * height).toNat * 3) }
  let depthRawImage := { depthRawImage with
    data := memcpy depthRawImage.data depthFrame.data (width * height).toNat }
  -- rescale image
  let depthRawImage := convertToRange cv 0 (65535 * (65535 / maxDepthValue)) depthRawImage
  let depthImage := assignShort cv depthImage depthRawImage
  { width, height, depthImage, colorImage,
    depthImageColored := assignGray depthImageColored depthImage }

/-! ### Sizes -/

def Image.HasSize {α : Type} (img : Image α) (w h : ℤ) : Prop := img.width = w ∧ img.height = h

instance {α : Type} (img : Image α) (w h : ℤ) : Decidable (img.HasSize w h) :=
  inferInstanceAs (Decidable (_ ∧ _))

namespace RgbdFrame

def HasSize (frame : RgbdFrame) (w h : ℤ) : Prop :=
  frame.depthImage.HasSize w h ∧ frame.colorImage.HasSize w h ∧ frame.depthImageColored.HasSize w h

instance (frame : RgbdFrame) (w h : ℤ) : Decidable (frame.HasSize w h) :=
  inferInstanceAs (Decidable (_ ∧ _))

theorem ofSize_hasSize (memory : Memory) (w h : ℤ) : (ofSize memory w h).HasSize w h :=
  ⟨⟨rfl, rfl⟩, ⟨rfl, rfl⟩, ⟨rfl, rfl⟩⟩

theorem ofPixels_hasSize_iff (lib : PixelImport) (memory : Memory)
    (rgbPixels depthColoredPixels : Image UInt8) (w h : ℤ) :
    (ofPixels lib memory rgbPixels depthColoredPixels).HasSize w h ↔
      memory.width = w ∧ memory.height = h := by
  rw [HasSize, Image.HasSize, Image.HasSize, Image.HasSize]
  simp only [ofPixels, PixelCopy.width, PixelCopy.height, Image.allocate]
  rw [and_self, and_self]

end RgbdFrame

def RgbdFrame.pixel (v : UInt8) : RgbdFrame :=
  { width := 1, height := 1, depthImage := ⟨1, 1, [v]⟩, colorImage := ⟨1, 1, [v, v, v]⟩
    depthImageColored := ⟨1, 1, [v, v, v]⟩ }

end TimeRoom.Frame
