/-
# Lines of a text

Two ways to cut a text into lines live side by side, because they answer
different questions.

Splitting at every line feed, `List.splitOn '\n'`, keeps everything: a text with
`n` line feeds has `n + 1` pieces and joining them gives the text back. The
passes over source and generated code use it.

`lines` is the reader's view of a finished text: a line ends at its line feed, a
carriage return right before that belongs to the ending, and a text that ends in
a line feed has no empty line after it. Logs and printed output use it.
-/

import Offside.Text.Blank

namespace Offside

/-- Pieces in front of others, each with a separator behind it. -/
theorem intercalate_append_of_ne_nil {separator : List Char} (front : List (List Char))
    {back : List (List Char)} (hback : back ≠ []) :
    separator.intercalate (front ++ back) =
      front.flatMap (· ++ separator) ++ separator.intercalate back := by
  induction front with
  | nil => rfl
  | cons piece front ih =>
      have hrest : front ++ back ≠ [] := List.append_ne_nil_of_right_ne_nil front hback
      rw [List.cons_append, List.intercalate_cons_of_ne_nil hrest, ih, List.flatMap_cons,
        List.append_assoc _ (front.flatMap _)]

/-- The end of a separator can as well stand in front of the pieces behind the first one. -/
theorem intercalate_append_separator (separator lead first : List Char)
    (rest : List (List Char)) :
    (separator ++ lead).intercalate (first :: rest) =
      separator.intercalate (first :: rest.map (lead ++ ·)) := by
  induction rest generalizing first with
  | nil => rw [List.map_nil, List.intercalate_singleton, List.intercalate_singleton]
  | cons next rest ih =>
      have hnext : separator.intercalate ((lead ++ next) :: rest.map (lead ++ ·)) =
          lead ++ separator.intercalate (next :: rest.map (lead ++ ·)) := by
        cases rest <;> simp [List.intercalate_cons_cons]
      rw [List.map_cons, List.intercalate_cons_cons, List.intercalate_cons_cons, ih next, hnext]
      simp only [List.append_assoc]

namespace Text

/-- The pieces between the line feeds, one more than there are line feeds. -/
def splitLines (text : List Char) : List (List Char) := text.splitOn '\n'

/-- The pieces joined again, with a line feed between neighbours. -/
def joinLines (pieces : List (List Char)) : List Char := List.intercalate ['\n'] pieces

/-- What stands in a joined text stands in one of its pieces, or separates them. -/
theorem mem_or_mem_of_mem_intercalate {c : Char} {separator : List Char}
    {pieces : List (List Char)} (hc : c ∈ separator.intercalate pieces) :
    c ∈ separator ∨ ∃ piece ∈ pieces, c ∈ piece := by
  induction pieces with
  | nil => simp at hc
  | cons piece pieces ih =>
    cases pieces with
    | nil => exact Or.inr ⟨piece, List.mem_cons_self, by simpa using hc⟩
    | cons next pieces =>
      rw [List.intercalate_cons_cons, List.mem_append, List.mem_append] at hc
      rcases hc with (hc | hc) | hc
      · exact Or.inr ⟨piece, List.mem_cons_self, hc⟩
      · exact Or.inl hc
      · refine (ih hc).imp_right ?_
        rintro ⟨other, hother, hc⟩
        exact ⟨other, List.mem_cons_of_mem _ hother, hc⟩

theorem mem_intercalate_of_mem {c : Char} {separator piece : List Char}
    {pieces : List (List Char)} (hpiece : piece ∈ pieces) (hc : c ∈ piece) :
    c ∈ separator.intercalate pieces := by
  induction pieces with
  | nil => cases hpiece
  | cons first pieces ih =>
    cases pieces with
    | nil => simpa [← List.mem_singleton.mp hpiece] using hc
    | cons next pieces =>
      rw [List.intercalate_cons_cons, List.mem_append, List.mem_append]
      rcases List.mem_cons.mp hpiece with rfl | hpiece
      · exact Or.inl (Or.inl hc)
      · exact Or.inr (ih hpiece)

/-- The pieces of a text hold nothing that is not in it. -/
theorem mem_of_mem_splitOn {c separator : Char} {text piece : List Char}
    (hpiece : piece ∈ text.splitOn separator) (hc : c ∈ piece) : c ∈ text := by
  have hjoin : List.intercalate [separator] (text.splitOn separator) = text :=
    List.intercalate_splitOn separator
  rw [← hjoin]
  exact mem_intercalate_of_mem hpiece hc

/-- The separator stands between the pieces, never in one. -/
theorem separator_notMem_of_mem_splitOn {separator : Char} {text piece : List Char}
    (hpiece : piece ∈ text.splitOn separator) : separator ∉ piece := by
  induction text generalizing piece with
  | nil =>
    rw [List.splitOn_nil, List.mem_singleton] at hpiece
    simp [hpiece]
  | cons c text ih =>
    rw [List.splitOn_cons_eq_if_modifyHead] at hpiece
    split at hpiece
    · rcases List.mem_cons.mp hpiece with rfl | hpiece
      · simp
      · exact ih hpiece
    · rename_i hc
      obtain ⟨first, rest, hsplit⟩ := List.exists_cons_of_ne_nil (List.splitOn_ne_nil separator text)
      rw [hsplit, List.modifyHead_cons] at hpiece
      rcases List.mem_cons.mp hpiece with rfl | hpiece
      · have hne : separator ≠ c := fun heq => hc (beq_iff_eq.mpr heq.symm)
        rw [List.mem_cons, not_or]
        exact ⟨hne, ih (by rw [hsplit]; exact List.mem_cons_self)⟩
      · exact ih (by rw [hsplit]; exact List.mem_cons_of_mem _ hpiece)

/-- The lines of a finished text, without their endings. -/
def lines (text : List Char) : List (List Char) :=
  match (splitLines text).reverse with
  | [] => []
  | last :: ended =>
    let complete := ended.reverse.map (dropFinal '\r')
    if last.isEmpty then complete else complete ++ [last]

/-- The number of UTF-8 bytes that the text takes. -/
def byteLength (text : List Char) : Nat := text.foldr (fun c n => c.utf8Size + n) 0

@[simp]
theorem byteLength_nil : byteLength [] = 0 := rfl

@[simp]
theorem byteLength_cons (c : Char) (text : List Char) :
    byteLength (c :: text) = c.utf8Size + byteLength text := rfl

@[simp]
theorem byteLength_append (first second : List Char) :
    byteLength (first ++ second) = byteLength first + byteLength second := by
  induction first with
  | nil => simp
  | cons c first ih => simp [ih, Nat.add_assoc]

theorem byteLength_pos {text : List Char} (hne : text ≠ []) : 0 < byteLength text := by
  cases text with
  | nil => exact absurd rfl hne
  | cons c text =>
      have hpos := c.utf8Size_pos
      rw [byteLength_cons]
      omega

end Text

end Offside
