/-
# ASCII characters in UTF-8

In UTF-8 an ASCII character is written as the byte of its number, and no byte of any other
character is that small. So an ASCII character can be looked for in the bytes of a text as
well as in the text: it is there in both or in neither, and it ends both or neither.
-/

import Mathlib.Data.List.Basic
import Offside.Text.Utf8

namespace Offside.Text

@[simp]
theorem toUtf8_append (first second : List Char) :
    toUtf8 (first ++ second) = toUtf8 first ++ toUtf8 second := List.flatMap_append

theorem toUtf8_eq_nil_iff {text : List Char} : toUtf8 text = [] ↔ text = [] := by
  cases text <;> simp [toUtf8, String.utf8EncodeChar_ne_nil]

/-- An ASCII character is the byte of its number. -/
theorem utf8EncodeChar_of_lt {c : Char} (hc : c.toNat < 128) :
    String.utf8EncodeChar c = [UInt8.ofNat c.toNat] := by
  have hle : c.val ≤ 127 := UInt32.le_iff_toNat_le.mpr (Nat.le_of_lt_succ hc)
  exact String.utf8EncodeChar_eq_singleton (Char.utf8Size_eq_one_iff.mpr hle)

/-- Any other character takes larger bytes only. -/
theorem toNat_ge_of_mem_utf8EncodeChar {c : Char} (hc : 128 ≤ c.toNat) :
    ∀ byte ∈ String.utf8EncodeChar c, 128 ≤ byte.toNat := by
  have hascii : ¬ c.val.toNat ≤ 127 := Nat.not_le.mpr hc
  unfold String.utf8EncodeChar
  rw [if_neg hascii]
  split
  · simp
    omega
  · split <;> simp <;> omega

section Ascii

variable {d : Char}

theorem mem_utf8EncodeChar_iff (hd : d.toNat < 128) {c : Char} :
    UInt8.ofNat d.toNat ∈ String.utf8EncodeChar c ↔ c = d := by
  have hbyte : ∀ e : Char, e.toNat < 128 → (UInt8.ofNat e.toNat).toNat = e.toNat := fun e he =>
    UInt8.toNat_ofNat_of_lt (Nat.lt_of_lt_of_le he (by decide))
  constructor
  · intro hmem
    by_cases hc : c.toNat < 128
    · rw [utf8EncodeChar_of_lt hc, List.mem_singleton] at hmem
      have hnumber := congrArg UInt8.toNat hmem
      rw [hbyte d hd, hbyte c hc] at hnumber
      exact Char.toNat_inj.mp hnumber.symm
    · have hlarge := toNat_ge_of_mem_utf8EncodeChar (Nat.not_lt.mp hc) _ hmem
      rw [hbyte d hd] at hlarge
      omega
  · rintro rfl
    rw [utf8EncodeChar_of_lt hd]
    exact List.mem_singleton_self _

theorem mem_toUtf8_iff (hd : d.toNat < 128) {text : List Char} :
    UInt8.ofNat d.toNat ∈ toUtf8 text ↔ d ∈ text := by
  simp [toUtf8, List.mem_flatMap, mem_utf8EncodeChar_iff hd]

theorem getLast?_toUtf8_iff (hd : d.toNat < 128) {text : List Char} :
    (toUtf8 text).getLast? = some (UInt8.ofNat d.toNat) ↔ text.getLast? = some d := by
  rcases List.eq_nil_or_concat text with rfl | ⟨front, c, rfl⟩
  · simp [toUtf8]
  · have hlast : toUtf8 [c] = String.utf8EncodeChar c := by simp [toUtf8]
    rw [List.concat_eq_append, toUtf8_append, hlast,
      List.getLast?_append_of_ne_nil _ String.utf8EncodeChar_ne_nil, List.getLast?_concat,
      Option.some_inj]
    constructor
    · intro hbyte
      exact (mem_utf8EncodeChar_iff hd).mp (List.mem_of_getLast? hbyte)
    · rintro rfl
      rw [utf8EncodeChar_of_lt hd]
      rfl

end Ascii

end Offside.Text
