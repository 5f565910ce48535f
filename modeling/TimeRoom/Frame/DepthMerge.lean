import TimeRoom.Frame.RgbdFrame

/-!
# Depth bytes, and the merge of two layers by depth

The camera constructor quantises depth twice: to 16 bits over the range of
interest, then to a byte.  The fragment shader `mask.frag` compares the bytes of two
layers, as textures, and shows the nearer layer.  The composed error of the two
roundings bounds how far apart two depths must be for the shader to see which layer
is nearer.
-/

namespace TimeRoom.Frame
open Numeric

/-! ### The shader -/

/-- `vec4`, as a colour. -/
structure Vec4 where
  r : ℚ
  g : ℚ
  b : ℚ
  a : ℚ
deriving DecidableEq, Repr

/-- `sampler2DRect`, read at pixels: column and row. -/
def Sampler : Type := ℕ × ℕ → Vec4

/-- The texture of a grayscale image; black outside. -/
def Image.texture (img : Image UInt8) : Sampler := fun (x, y) =>
  let level : ℚ := ((img.at? x y).getD 0).toNat / 255
  ⟨level, level, level, 1⟩

/-- `main`; the outputs are the colour and the depth of the layer chosen so far. -/
def maskShader (tex0 tex0Depth background0 background0Depth : Sampler) (texCoordVarying : ℕ × ℕ) :
    Vec4 :=
  let tex0Color := tex0 texCoordVarying
  let tex0DepthValue := tex0Depth texCoordVarying
  let background0Color := background0 texCoordVarying
  let background0DepthValue := background0Depth texCoordVarying
  let output := (tex0Color, tex0DepthValue.r)
  let output :=
    if background0DepthValue.r < output.2 then (background0Color, background0DepthValue.r)
    else output
  output.1

theorem maskShader_bytes (tex0 background0 : Sampler) (current past : Image UInt8) (x y : ℕ) :
    maskShader tex0 current.texture background0 past.texture (x, y) =
      if (past.at? x y).getD 0 < (current.at? x y).getD 0 then background0 (x, y)
      else tex0 (x, y) := by
  have hlt (c p : UInt8) : (p.toNat : ℚ) / 255 < c.toNat / 255 ↔ p < c := by
    rw [div_lt_div_iff_of_pos_right (by norm_num), UInt8.lt_iff_toNat_lt, Nat.cast_lt]
  simp only [maskShader, Image.texture, hlt]
  split <;> rfl

/-- The background shows exactly where its byte is smaller. -/
theorem maskShader_eq (tex0 background0 : Sampler) (current past : Image UInt8) {x y : ℕ}
    {c p : UInt8} (hc : current.at? x y = some c) (hp : past.at? x y = some p) :
    maskShader tex0 current.texture background0 past.texture (x, y) =
      if p < c then background0 (x, y) else tex0 (x, y) := by
  rw [maskShader_bytes, hc, hp, Option.getD_some, Option.getD_some]

/-! ### Depth bytes -/

/-- The byte of a raw depth: lines 69 and 70 of `rgbdFrame.cpp`, pixel by pixel. -/
def depthByte (cv : ImageRounding) (maxDepthValue : ℚ) (v : UInt16) : UInt8 :=
  grayPixel cv (convertPixel cv 0 (65535 * (65535 / maxDepthValue)) v)

variable (cv : ImageRounding) {M : ℚ}

theorem convertPixel_toNat (lo hi : ℚ) (v : UInt16) :
    (convertPixel cv lo hi v).toNat =
      saturate 65535 (cv.range (lo + v.toNat * (hi - lo) / 65535)) := by
  have hle := saturate_le 65535 (cv.range (lo + v.toNat * (hi - lo) / 65535))
  rw [convertPixel, UInt16.toNat_ofNat', Nat.mod_eq_of_lt (by omega)]

/-- The range of interest is stretched by `65535 / M`. -/
theorem convertPixel_stretch_toNat (M : ℚ) (v : UInt16) :
    (convertPixel cv 0 (65535 * (65535 / M)) v).toNat =
      saturate 65535 (cv.range (65535 * v.toNat / M)) := by
  have hscale : (0 : ℚ) + v.toNat * (65535 * (65535 / M) - 0) / 65535 = 65535 * v.toNat / M := by
    ring
  rw [convertPixel_toNat, hscale]

theorem grayPixel_toNat (v : UInt16) :
    (grayPixel cv v).toNat = saturate 255 (cv.gray (v.toNat * 255 / 65535)) := by
  have hle := saturate_le 255 (cv.gray (v.toNat * 255 / 65535))
  rw [grayPixel, UInt8.toNat_ofNat', Nat.mod_eq_of_lt (by omega)]

theorem convertPixel_mono {lo hi : ℚ} (hlohi : lo ≤ hi) {a b : UInt16} (hab : a ≤ b) :
    convertPixel cv lo hi a ≤ convertPixel cv lo hi b := by
  rw [UInt16.le_iff_toNat_le] at hab
  have hab' : (a.toNat : ℚ) ≤ b.toNat := by exact_mod_cast hab
  rw [UInt16.le_iff_toNat_le, convertPixel_toNat, convertPixel_toNat]
  apply saturate_mono
  apply cv.range.mono
  have hmul := mul_le_mul_of_nonneg_right hab' (sub_nonneg.mpr hlohi)
  linarith

theorem grayPixel_mono {a b : UInt16} (hab : a ≤ b) : grayPixel cv a ≤ grayPixel cv b := by
  rw [UInt16.le_iff_toNat_le] at hab
  have hab' : (a.toNat : ℚ) ≤ b.toNat := by exact_mod_cast hab
  rw [UInt8.le_iff_toNat_le, grayPixel_toNat, grayPixel_toNat]
  apply saturate_mono
  apply cv.gray.mono
  linarith

theorem depthByte_mono (hM : 0 < M) {a b : UInt16} (hab : a ≤ b) :
    depthByte cv M a ≤ depthByte cv M b :=
  grayPixel_mono cv (convertPixel_mono cv (by positivity) hab)

theorem depthByte_error (hM : 0 < M) (a : UInt16) :
    |((depthByte cv M a).toNat : ℚ) - min 255 (255 * a.toNat / M)| ≤ 1 / 2 + 1 / 514 := by
  have hbyte : (depthByte cv M a).toNat =
      saturate 255 (cv.gray (saturate 65535 (cv.range (65535 * a.toNat / M)) * (255 : ℕ) /
        (65535 : ℕ))) := by
    rw [depthByte, grayPixel_toNat, convertPixel_stretch_toNat]
    norm_num
  have hexact : min 255 (255 * a.toNat / M) =
      clip 65535 (65535 * a.toNat / M) * (255 : ℕ) / (65535 : ℕ) := by
    have hexactScale : (65535 : ℚ) * a.toNat / M * (255 : ℕ) / (65535 : ℕ) =
        255 * a.toNat / M := by
      push_cast
      ring
    rw [clip_of_nonneg _ (by positivity), min_mul_of_nonneg _ _ (Nat.cast_nonneg 255),
      ← min_div_div_right (Nat.cast_nonneg 65535), hexactScale, min_comm]
    norm_num
  have herror := requantize_error cv.range cv.gray 65535 255 (by norm_num) (65535 * a.toNat / M)
  rw [hbyte, hexact]
  norm_num at herror ⊢
  exact herror

/-! ### Pixels of the built images -/

/-- The two frames of a set have one size, as after `align_to_color`. -/
def Aligned (videoFrame : Image UInt8) (depthFrame : Image UInt16) : Prop :=
  videoFrame.width = depthFrame.width ∧ videoFrame.height = depthFrame.height

theorem ofCamera_depthImage_at? (memory : Memory) (maxDepthValue : ℚ) {videoFrame : Image UInt8}
    {depthFrame : Image UInt16} (haligned : Aligned videoFrame depthFrame) {x y : ℕ} {v : UInt16}
    (hv : depthFrame.at? x y = some v) :
    (RgbdFrame.ofCamera cv memory videoFrame depthFrame maxDepthValue).depthImage.at? x y =
      some (depthByte cv maxDepthValue v) := by
  rcases haligned with ⟨hwidth, hheight⟩
  rw [Image.at?_eq_some] at hv ⊢
  rcases hv with ⟨hx, hy, hdata⟩
  refine ⟨hx, hy, ?_⟩
  have hindex : y * depthFrame.width.toNat + x < (videoFrame.width * videoFrame.height).toNat := by
    rw [hwidth, hheight]
    exact Image.index_lt hx hy
  simp only [RgbdFrame.ofCamera, assignShort, convertToRange, Image.allocate, List.getElem?_map,
    memcpy_getElem? _ hindex hdata, Option.map_some]
  rfl

/-- Depths on the scale `M` and the bytes the shader compares.  The background's own colour
shows only where it is nearer, and wherever it is nearer by more than the resolution. -/
structure DepthAgrees (cv : ImageRounding) (M : ℚ) : Prop where
  mono : ∀ a b : UInt16, a ≤ b → depthByte cv M a ≤ depthByte cv M b
  error : ∀ a : UInt16,
    |((depthByte cv M a).toNat : ℚ) - min 255 (255 * a.toNat / M)| ≤ 1 / 2 + 1 / 514
  onlyIf : ∀ (memory memory' : Memory) (tex0 background0 : Sampler) (video video' : Image UInt8)
    (depth depth' : Image UInt16), Aligned video depth → Aligned video' depth' →
    ∀ (x y : ℕ) (a b : UInt16), depth.at? x y = some a → depth'.at? x y = some b →
      tex0 (x, y) ≠ background0 (x, y) →
      maskShader tex0 (RgbdFrame.ofCamera cv memory video depth M).depthImage.texture background0
        (RgbdFrame.ofCamera cv memory' video' depth' M).depthImage.texture (x, y) =
          background0 (x, y) →
      b < a
  always : ∀ (memory memory' : Memory) (tex0 background0 : Sampler) (video video' : Image UInt8)
    (depth depth' : Image UInt16), Aligned video depth → Aligned video' depth' →
    ∀ (x y : ℕ) (a b : UInt16), depth.at? x y = some a → depth'.at? x y = some b →
      (a.toNat : ℚ) ≤ M → (b.toNat : ℚ) ≤ M →
      258 * M / (257 * 255) < (a.toNat : ℚ) - b.toNat →
      maskShader tex0 (RgbdFrame.ofCamera cv memory video depth M).depthImage.texture background0
        (RgbdFrame.ofCamera cv memory' video' depth' M).depthImage.texture (x, y) =
          background0 (x, y)

/-- Depths within range that are further apart than the resolution have different bytes. -/
theorem depthByte_lt (hM : 0 < M) {a b : UInt16} (ha : (a.toNat : ℚ) ≤ M)
    (hb : (b.toNat : ℚ) ≤ M) (hab : 258 * M / (257 * 255) < (a.toNat : ℚ) - b.toNat) :
    depthByte cv M b < depthByte cv M a := by
  have hin (v : UInt16) (hv : (v.toNat : ℚ) ≤ M) :
      min 255 (255 * v.toNat / M) = 255 * v.toNat / M := by
    apply min_eq_right
    rw [div_le_iff₀ hM]
    linarith
  have herra := depthByte_error cv hM a
  have herrb := depthByte_error cv hM b
  rw [hin a ha, abs_le] at herra
  rw [hin b hb, abs_le] at herrb
  have hgap : (258 : ℚ) / 257 < 255 * a.toNat / M - 255 * b.toNat / M := by
    rw [← sub_div, lt_div_iff₀ hM]
    rw [div_lt_iff₀ (by norm_num)] at hab
    linarith
  have hlt : ((depthByte cv M b).toNat : ℚ) < (depthByte cv M a).toNat := by linarith
  rw [UInt8.lt_iff_toNat_lt]
  exact_mod_cast hlt

/-- The merge by depth bytes agrees with real depth, for every range and any rounding. -/
theorem depth_agrees (cv : ImageRounding) (M : ℚ) (hM : 0 < M) : DepthAgrees cv M := by
  constructor
  · intro a b hab
    exact depthByte_mono cv hM hab
  · exact depthByte_error cv hM
  · intro memory memory' tex0 background0 video video' depth depth' hvideo hvideo' x y a b
      ha hb hne hshown
    rw [maskShader_eq tex0 background0 _ _ (ofCamera_depthImage_at? cv memory M hvideo ha)
      (ofCamera_depthImage_at? cv memory' M hvideo' hb)] at hshown
    by_contra hba
    have hle : depthByte cv M a ≤ depthByte cv M b := depthByte_mono cv hM (UInt16.not_lt.mp hba)
    rw [if_neg (UInt8.not_lt.mpr hle)] at hshown
    exact hne hshown
  · intro memory memory' tex0 background0 video video' depth depth' hvideo hvideo' x y a b
      ha hb haM hbM hab
    rw [maskShader_eq tex0 background0 _ _ (ofCamera_depthImage_at? cv memory M hvideo ha)
      (ofCamera_depthImage_at? cv memory' M hvideo' hb), if_pos (depthByte_lt cv hM haM hbM hab)]

/-- Four metres at a millimetre per unit. -/
theorem four_metres_agree : DepthAgrees ⟨.halfUp, .halfUp⟩ 4000 :=
  depth_agrees ⟨.halfUp, .halfUp⟩ 4000 (by norm_num)

end TimeRoom.Frame
