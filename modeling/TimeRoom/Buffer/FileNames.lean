import TimeRoom.Buffer.VideoBuffer

/-!
# File names

A number can be read back from its digits, padded or not, so that different
fragments have different names.  The 100 bytes of `addNewFragment` hold the
directory and 89 digits.
-/

namespace TimeRoom.Buffer

/-- Zeros in front of the digits do not change the number that is read back. -/
theorem ofDigitChars_zeroPad (width n : ℕ) :
    Nat.ofDigitChars 10 (zeroPad width n).toList 0 = n := by
  rw [zeroPad, String.toList_ofList, Nat.ofDigitChars_append, Nat.ofDigitChars_replicate_zero,
    Nat.mul_zero, Nat.ofDigitChars_ten_toDigits]

theorem zeroPad_injective (width : ℕ) : Function.Injective (zeroPad width) := by
  intro m n hmn
  have hread := congrArg (fun text => Nat.ofDigitChars 10 text.toList 0) hmn
  simpa only [ofDigitChars_zeroPad] using hread

theorem length_zeroPad_le {width n k : ℕ} (hwidth : width ≤ k) (hk : 0 < k) (hn : n < 10 ^ k) :
    (zeroPad width n).toList.length ≤ k := by
  have hdigits := (Nat.length_toDigits_le_iff (n := n) (b := 10) (by decide) hk).mpr hn
  rw [zeroPad, String.toList_ofList, List.length_append, List.length_replicate]
  omega

theorem snprintf_eq {size : ℕ} {text : String} (hfits : text.toList.length < size) :
    snprintf size text = text := by
  rw [snprintf, List.take_of_length_le (by omega), String.ofList_toList]

def formattedName (fileCounter : ℕ) : String := "fragments/" ++ zeroPad 5 fileCounter

theorem formattedName_injective : Function.Injective formattedName := by
  intro m n hmn
  rw [formattedName, formattedName, String.append_right_inj] at hmn
  exact zeroPad_injective 5 hmn

/-- The buffer holds the names of all numbers of up to 89 digits. -/
theorem fragmentFileName_eq {n : ℕ} (hn : n < 10 ^ 89) : fragmentFileName n = formattedName n := by
  have hdigits : (zeroPad 5 n).toList.length ≤ 89 :=
    length_zeroPad_le (by decide) (by decide) hn
  have hdirectory : "fragments/".toList.length = 10 := by decide
  rw [fragmentFileName, ← formattedName]
  apply snprintf_eq
  rw [formattedName, String.toList_append, List.length_append, hdirectory]
  omega

/-- No `int` is too large for its name. -/
theorem fragmentFileName_eq_of_int {n : ℕ} (hn : n ≤ 2 ^ 31 - 1) :
    fragmentFileName n = formattedName n := by
  apply fragmentFileName_eq
  calc n ≤ 2 ^ 31 - 1 := hn
    _ < 10 ^ 89 := by norm_num

/-- What `initRecorders` and `loadFromDisk` append to the name. -/
def Channel.suffix : Channel → String
  | .rgb => "_rgb.mov"
  | .depth => "_depth.mov"

/-- No name makes the two suffixes agree: they differ in the fifth letter from the end. -/
theorem Channel.append_suffix_inj {s t : String} {ch ch' : Channel}
    (h : s ++ ch.suffix = t ++ ch'.suffix) : s = t ∧ ch = ch' := by
  have hletter := congrArg (fun text : String => text.toList.reverse[4]?) h
  cases ch with
  | rgb =>
    cases ch' with
    | rgb => exact ⟨String.append_left_inj _ |>.mp h, rfl⟩
    | depth => simp [suffix] at hletter
  | depth =>
    cases ch' with
    | rgb => simp [suffix] at hletter
    | depth => exact ⟨String.append_left_inj _ |>.mp h, rfl⟩

end TimeRoom.Buffer
