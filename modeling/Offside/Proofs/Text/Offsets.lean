/-
# Characters at byte offsets

A character begins at the byte behind all the bytes in front of it. The offsets of a text's
characters therefore increase strictly, and that of a character has nothing to do with what
follows.
-/

import Mathlib.Data.List.Basic
import Offside.Text.Lines

namespace Offside.Text

/-- The characters of a text, each with the offset at which it begins, the first one
beginning at `start`. -/
def charIndicesFrom (start : Nat) : List Char → List (Nat × Char)
  | [] => []
  | c :: text => (start, c) :: charIndicesFrom (start + c.utf8Size) text

/-- The characters of a text, each with the offset at which it begins. -/
def charIndices (text : List Char) : List (Nat × Char) := charIndicesFrom 0 text

theorem map_snd_charIndicesFrom (start : Nat) (text : List Char) :
    (charIndicesFrom start text).map Prod.snd = text := by
  induction text generalizing start with
  | nil => rfl
  | cons c text ih => rw [charIndicesFrom, List.map_cons, ih]

theorem length_charIndicesFrom (start : Nat) (text : List Char) :
    (charIndicesFrom start text).length = text.length := by
  rw [← List.length_map, map_snd_charIndicesFrom]

theorem getElem?_charIndicesFrom (start i : Nat) (text : List Char) :
    (charIndicesFrom start text)[i]? =
      text[i]?.map fun c => (start + byteLength (text.take i), c) := by
  induction text generalizing start i with
  | nil => rfl
  | cons c text ih =>
      cases i with
      | zero => rfl
      | succ i =>
          rw [charIndicesFrom, List.getElem?_cons_succ, ih, List.getElem?_cons_succ,
            List.take_succ_cons, byteLength_cons, Nat.add_assoc]

/-- The character with the number `column` begins behind the ones before it. Behind the
last one stands the end of the text. -/
theorem getD_charIndicesFrom (start column : Nat) (text : List Char) :
    ((charIndicesFrom start text)[column]?.map Prod.fst).getD (start + byteLength text) =
      start + byteLength (text.take column) := by
  rw [getElem?_charIndicesFrom, Option.map_map]
  cases hchar : text[column]? with
  | none =>
      rw [List.take_of_length_le (List.getElem?_eq_none_iff.mp hchar)]
      rfl
  | some c => rfl

theorem take_charIndicesFrom (start n : Nat) (text : List Char) :
    (charIndicesFrom start text).take n = charIndicesFrom start (text.take n) := by
  induction text generalizing start n with
  | nil => rw [charIndicesFrom, List.take_nil, List.take_nil, charIndicesFrom]
  | cons c text ih =>
      cases n with
      | zero => rfl
      | succ n =>
          rw [charIndicesFrom, List.take_succ_cons, ih, List.take_succ_cons, charIndicesFrom]

/-- No character begins in front of the first one. -/
theorem le_of_mem_charIndicesFrom {start : Nat} {text : List Char} :
    ∀ place ∈ charIndicesFrom start text, start ≤ place.1 := by
  induction text generalizing start with
  | nil => simp [charIndicesFrom]
  | cons c text ih =>
      intro place hplace
      rcases List.mem_cons.mp hplace with rfl | hlater
      · exact Nat.le_refl start
      · exact Nat.le_trans (Nat.le_add_right start c.utf8Size) (ih place hlater)

theorem pairwise_charIndicesFrom (start : Nat) (text : List Char) :
    (charIndicesFrom start text).Pairwise fun first second => first.1 < second.1 := by
  induction text generalizing start with
  | nil => exact List.Pairwise.nil
  | cons c text ih =>
      refine List.Pairwise.cons (fun place hplace => ?_) (ih _)
      have hle := le_of_mem_charIndicesFrom place hplace
      have hpos := c.utf8Size_pos
      change start < place.1
      omega

end Offside.Text
