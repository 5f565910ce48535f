import TimeRoom.Frame.DepthMerge

/-!
# Pixels without a depth reading

The camera's raw depth 0 means "no reading".  The camera constructor gives it the
byte 0, the nearest of all, while the blank frame is meant to say the same by the byte
255, the farthest.  So in the merge a current pixel without a reading hides all
readings of the background, and a background pixel without one hides all current
readings that are not rounded to the byte 0 themselves.
-/

namespace TimeRoom.Frame
open Numeric

variable (cv : ImageRounding) {M : ℚ}

/-- Sixteen-bit depths up to 128 become the byte 0; there is no tie, since 257 is odd. -/
theorem grayPixel_eq_zero_iff (v : UInt16) : grayPixel cv v = 0 ↔ v.toNat ≤ 128 := by
  have hzero : grayPixel cv v = 0 ↔ (grayPixel cv v).toNat ≤ 0 := by
    rw [← UInt8.toNat_inj]
    exact Nat.le_zero.symm
  have hbelow : (v.toNat : ℚ) * 255 / 65535 < ((0 : ℕ) : ℤ) + 1 / 2 ↔ v.toNat ≤ 128 := by
    have hscale : (v.toNat : ℚ) * 255 / 65535 < ((0 : ℕ) : ℤ) + 1 / 2 ↔
        2 * (v.toNat : ℚ) < 257 := by
      constructor <;> intro hlt <;> norm_num at hlt ⊢ <;> linarith
    rw [hscale]
    norm_cast
    omega
  have htie : (v.toNat : ℚ) * 255 / 65535 ≠ ((0 : ℕ) : ℤ) + 1 / 2 := by
    intro heq
    have hodd : 2 * (v.toNat : ℚ) = 257 := by
      norm_num at heq
      linarith
    norm_cast at hodd
    omega
  rw [hzero, grayPixel_toNat, saturate_le_iff 255 (by norm_num), RoundNearest.le_iff, hbelow]
  simp only [htie, false_and, or_false]

/-- The depths that the camera constructor cannot tell from a missing one. -/
def Vanishes (maxDepthValue : ℚ) (v : UInt16) : Prop :=
  510 * v.toNat < maxDepthValue ∨ 510 * v.toNat = maxDepthValue ∧ cv.range (257 / 2) = 128

theorem depthByte_eq_zero_iff (hM : 0 < M) (v : UInt16) :
    depthByte cv M v = 0 ↔ Vanishes cv M v := by
  have hmid : (((128 : ℕ) : ℤ) : ℚ) + 1 / 2 = 257 / 2 := by norm_num
  have hbelow : 65535 * (v.toNat : ℚ) / M < 257 / 2 ↔ 510 * (v.toNat : ℚ) < M := by
    rw [div_lt_iff₀ hM]
    constructor <;> intro hlt <;> linarith
  have htie : 65535 * (v.toNat : ℚ) / M = 257 / 2 ↔ 510 * (v.toNat : ℚ) = M := by
    rw [div_eq_iff hM.ne']
    constructor <;> intro heq <;> linarith
  rw [depthByte, grayPixel_eq_zero_iff, convertPixel_stretch_toNat,
    saturate_le_iff 65535 (by norm_num), RoundNearest.le_iff, hmid, hbelow, Vanishes, ← htie]
  apply or_congr_right
  apply and_congr_right
  intro heq
  rw [heq]
  rfl

theorem depthByte_zero (hM : 0 < M) : depthByte cv M 0 = 0 := by
  rw [depthByte_eq_zero_iff cv hM]
  left
  simpa using hM

theorem ofSize_depthImage_at? (memory : Memory) {width height : ℤ} {x y : ℕ}
    (hx : (x : ℤ) < width) (hy : (y : ℤ) < height) :
    (RgbdFrame.ofSize memory width height).depthImage.at? x y =
      some (255 - memory.depthImage (y * width.toNat + x)) := by
  rw [Image.at?_eq_some]
  refine ⟨hx, hy, ?_⟩
  have hindex := Image.index_lt hx hy
  simp [RgbdFrame.ofSize, Image.allocate, Image.invert, hindex]

/-! ### One reading of two -/

/-- The merge shows the layer that has a reading, where `a` and `b` are the raw depths of the
current frame and of the background at the pixel. -/
def ShowsReading (memory memory' : Memory) (maxDepthValue : ℚ) (tex0 background0 : Sampler)
    (video video' : Image UInt8) (depth depth' : Image UInt16) (x y : ℕ) (a : UInt16) : Prop :=
  maskShader tex0
      (RgbdFrame.ofCamera cv memory video depth maxDepthValue).depthImage.texture background0
      (RgbdFrame.ofCamera cv memory' video' depth' maxDepthValue).depthImage.texture (x, y) =
    if a = 0 then background0 (x, y) else tex0 (x, y)

instance (memory memory' : Memory) (maxDepthValue : ℚ) (tex0 background0 : Sampler)
    (video video' : Image UInt8) (depth depth' : Image UInt16) (x y : ℕ) (a : UInt16) :
    Decidable (ShowsReading cv memory memory' maxDepthValue tex0 background0 video video' depth
      depth' x y a) :=
  inferInstanceAs (Decidable (_ = _))

/-- With one reading of two, the merge shows it exactly when the colours agree anyway, or when
the background is the one without a reading and the byte of the reading is 0 too. -/
theorem showsReading_iff (memory memory' : Memory) (hM : 0 < M) (tex0 background0 : Sampler)
    (video video' : Image UInt8) (depth depth' : Image UInt16) (hvideo : Aligned video depth)
    (hvideo' : Aligned video' depth') (x y : ℕ) (a b : UInt16) (ha : depth.at? x y = some a)
    (hb : depth'.at? x y = some b) (hone : a = 0 ∧ b ≠ 0 ∨ a ≠ 0 ∧ b = 0) :
    ShowsReading cv memory memory' M tex0 background0 video video' depth depth' x y a ↔
      tex0 (x, y) = background0 (x, y) ∨ b = 0 ∧ Vanishes cv M a := by
  rw [ShowsReading,
    maskShader_eq tex0 background0 _ _ (ofCamera_depthImage_at? cv memory M hvideo ha)
      (ofCamera_depthImage_at? cv memory' M hvideo' hb)]
  rcases hone with ⟨rfl, hb0⟩ | ⟨ha0, rfl⟩
  · rw [depthByte_zero cv hM, if_neg UInt8.not_lt_zero, if_pos rfl]
    simp [hb0]
  · have hshown : 0 < depthByte cv M a ↔ ¬ Vanishes cv M a := by
      rw [← depthByte_eq_zero_iff cv hM]
      exact UInt8.pos_iff_ne_zero
    rw [depthByte_zero cv hM, if_neg ha0]
    by_cases hv : Vanishes cv M a
    · rw [if_neg (fun hlt => hshown.mp hlt hv)]
      simp [hv]
    · rw [if_pos (hshown.mpr hv)]
      simp [hv, eq_comm]

def Sampler.uniform (color : Vec4) : Sampler := fun _ => color

def rowOf (v : UInt8) : Image UInt8 := ⟨4, 1, List.replicate 12 v⟩

def rowAt (v : UInt16) : Image UInt16 := ⟨4, 1, List.replicate 4 v⟩

/-- A reading of one metre, in millimetres, over a background without one. -/
theorem reading_hidden_iff :
    ShowsReading ⟨.halfUp, .halfUp⟩ .cleared .cleared 4000 (.uniform ⟨1, 0, 0, 1⟩)
        (.uniform ⟨0, 0, 1, 1⟩) (rowOf 9) (rowOf 5) (rowAt 1000) (rowAt 0) 2 0 1000 ↔
      (⟨1, 0, 0, 1⟩ : Vec4) = ⟨0, 0, 1, 1⟩ ∨
        (0 : UInt16) = 0 ∧ Vanishes ⟨.halfUp, .halfUp⟩ 4000 1000 :=
  showsReading_iff ⟨.halfUp, .halfUp⟩ .cleared .cleared (by norm_num) (.uniform ⟨1, 0, 0, 1⟩)
    (.uniform ⟨0, 0, 1, 1⟩) (rowOf 9) (rowOf 5) (rowAt 1000) (rowAt 0) ⟨rfl, rfl⟩ ⟨rfl, rfl⟩ 2 0
    1000 0 (by decide) (by decide) (by decide)

/-- The background without a reading hides the reading of one metre, which is within range. -/
theorem missing_depth_hides :
    ¬ ∀ (cv : ImageRounding) (memory memory' : Memory) (M : ℚ), 0 < M →
      ∀ (tex0 background0 : Sampler) (video video' : Image UInt8) (depth depth' : Image UInt16),
      Aligned video depth → Aligned video' depth' → ∀ (x y : ℕ) (a b : UInt16),
      depth.at? x y = some a → depth'.at? x y = some b →
      a = 0 ∧ b ≠ 0 ∧ (b.toNat : ℚ) < M - M / 255 ∨ a ≠ 0 ∧ b = 0 ∧ (a.toNat : ℚ) < M - M / 255 →
      ShowsReading cv memory memory' M tex0 background0 video video' depth depth' x y a := by
  intro hall
  have hshows := hall ⟨.halfUp, .halfUp⟩ .cleared .cleared 4000 (by norm_num)
    (.uniform ⟨1, 0, 0, 1⟩) (.uniform ⟨0, 0, 1, 1⟩) (rowOf 9) (rowOf 5) (rowAt 1000) (rowAt 0)
    ⟨rfl, rfl⟩ ⟨rfl, rfl⟩ 2 0 1000 0 (by decide) (by decide)
    (Or.inr ⟨by decide, rfl, by decide +kernel⟩)
  revert hshows
  decide +kernel

end TimeRoom.Frame
