/-
# Blank characters and the edges of a text

A character is blank exactly when it has the Unicode property `White_Space`:
twenty-five code points, among them the line breaks, the no-break space and the
ideographic space, but neither the zero-width space nor the byte order mark.
Everything that measures indentation, trims a name or separates a keyword from
its arguments uses this one class.

Texts are lists of characters. `trimStart`, `trimEnd` and `trim` drop the blank
characters at one edge or at both, and never touch a character in the middle.
-/

namespace Offside.Text

/-- The Unicode property `White_Space`, as ranges of code points. -/
def isBlank (c : Char) : Bool :=
  let n := c.toNat
  (9 ≤ n && n ≤ 13) || n == 0x20 || n == 0x85 || n == 0xA0 || n == 0x1680 ||
    (0x2000 ≤ n && n ≤ 0x200A) || n == 0x2028 || n == 0x2029 || n == 0x202F ||
    n == 0x205F || n == 0x3000

/-- The text without its leading blanks. -/
def trimStart (text : List Char) : List Char := text.dropWhile isBlank

/-- The text without its trailing blanks. -/
def trimEnd (text : List Char) : List Char := (text.reverse.dropWhile isBlank).reverse

/-- The text without the blanks at either edge. -/
def trim (text : List Char) : List Char := trimEnd (trimStart text)

/-- What `trimStart` drops are blanks. -/
theorem takeWhile_append_trimStart (text : List Char) :
    text.takeWhile isBlank ++ trimStart text = text := List.takeWhile_append_dropWhile

/-- What `trimEnd` drops are blanks. -/
theorem trimEnd_append (text : List Char) :
    trimEnd text ++ (text.reverse.takeWhile isBlank).reverse = text := by
  rw [trimEnd, ← List.reverse_append, List.takeWhile_append_dropWhile, List.reverse_reverse]

theorem mem_of_mem_trim {text : List Char} {c : Char} (hc : c ∈ trim text) : c ∈ text := by
  rw [← takeWhile_append_trimStart text, ← trimEnd_append (trimStart text)]
  exact List.mem_append_right _ (List.mem_append_left _ hc)

theorem trimStart_suffix (text : List Char) : trimStart text <:+ text := List.dropWhile_suffix _

/-- A text that holds blanks only, the empty text included. -/
def allBlank (text : List Char) : Bool := text.all isBlank

/-- The text after one leading `expected`, if it starts with that. -/
def dropLead? : (expected text : List Char) → Option (List Char)
  | [], text => some text
  | _ :: _, [] => none
  | e :: expected, c :: text => if e = c then dropLead? expected text else none

/-- `dropLead?` answers exactly when the text is the expected lead and a rest. -/
theorem dropLead?_eq_some_iff {expected text rest : List Char} :
    dropLead? expected text = some rest ↔ text = expected ++ rest := by
  fun_induction dropLead? expected text with
  | case1 text => simp [eq_comm]
  | case2 e expected => simp
  | case3 expected c text ih => simp [ih]
  | case4 e expected c text hne =>
    simp only [reduceCtorEq, List.cons_append, List.cons.injEq, false_iff, not_and]
    intro heq
    exact absurd heq.symm hne

/-- The text without one final `last`, if it ends in that character. -/
def dropFinal (last : Char) (text : List Char) : List Char :=
  if text.getLast? = some last then text.dropLast else text

/-- What `dropFinal` drops is nothing but the character it names. -/
theorem dropFinal_append (last : Char) (text : List Char) :
    ∃ final, (∀ c ∈ final, c = last) ∧ dropFinal last text ++ final = text := by
  unfold dropFinal
  split
  · rename_i hlast
    obtain ⟨front, rfl⟩ := List.getLast?_eq_some_iff.mp hlast
    exact ⟨[last], by simp, by rw [List.dropLast_concat]⟩
  · exact ⟨[], by simp, List.append_nil text⟩

end Offside.Text
