/-
# Texts written line by line

What was written as lines, each with a line feed behind it, is cut into these lines again,
as long as none of them has a line feed of its own. `HasLines` says what the lines of a
finished text are without cutting anything: each is ended by a line feed or by a carriage
return and a line feed, except a last one, which may have no ending. `Text.lines` is the one
list that it admits.
-/

import Offside.Text.Lines

namespace Offside

/-- Pieces with a separator behind each are cut apart again. -/
theorem splitOn_flatMap_append {α : Type} [BEq α] [LawfulBEq α] {separator : α}
    {pieces : List (List α)} (hpieces : ∀ piece ∈ pieces, separator ∉ piece) (rest : List α) :
    (pieces.flatMap (· ++ [separator]) ++ rest).splitOn separator =
      pieces ++ rest.splitOn separator := by
  induction pieces with
  | nil => rfl
  | cons piece pieces ih =>
      rw [List.forall_mem_cons] at hpieces
      rw [List.flatMap_cons, List.append_assoc, List.append_assoc, List.singleton_append,
        List.splitOn_append_cons_self_of_not_mem hpieces.1, ih hpieces.2, List.cons_append]

/-- There is always a piece behind the last separator. -/
theorem exists_splitOn_eq {α : Type} [BEq α] (separator : α) (list : List α) :
    ∃ ended last, list.splitOn separator = ended ++ [last] :=
  ⟨_, _, (List.dropLast_concat_getLast (List.splitOn_ne_nil separator list)).symm⟩

namespace Text

theorem splitLines_flatMap {pieces : List (List Char)} (hpieces : ∀ piece ∈ pieces, '\n' ∉ piece) :
    splitLines (pieces.flatMap (· ++ ['\n'])) = pieces ++ [[]] := by
  have hsplit := splitOn_flatMap_append hpieces []
  rwa [List.append_nil, List.splitOn_nil] at hsplit

/-- The lines of a finished text, without their endings. -/
inductive HasLines : List Char → List (List Char) → Prop
  /-- The empty text has no line. -/
  | nil : HasLines [] []
  /-- The last line may have no ending. -/
  | unended {line : List Char} (hne : line ≠ []) (hfeed : '\n' ∉ line) : HasLines line [line]
  /-- A line can end in a line feed. -/
  | lineFeed {line text : List Char} {lines : List (List Char)} (hfeed : '\n' ∉ line)
      (hreturn : line.getLast? ≠ some '\r') (hrest : HasLines text lines) :
      HasLines (line ++ '\n' :: text) (line :: lines)
  /-- A line can end in a carriage return and a line feed. -/
  | returnFeed {line text : List Char} {lines : List (List Char)} (hfeed : '\n' ∉ line)
      (hrest : HasLines text lines) : HasLines (line ++ '\r' :: '\n' :: text) (line :: lines)

theorem lines_of_notMem {line : List Char} (hfeed : '\n' ∉ line) :
    lines line = if line.isEmpty then [] else [line] := by
  rw [lines, splitLines, List.splitOn_eq_singleton hfeed]
  rfl

theorem lines_append_lineFeed {line : List Char} (hfeed : '\n' ∉ line) (text : List Char) :
    lines (line ++ '\n' :: text) = dropFinal '\r' line :: lines text := by
  obtain ⟨ended, last, hsplit⟩ := exists_splitOn_eq '\n' text
  rw [lines, lines, splitLines, splitLines, List.splitOn_append_cons_self_of_not_mem hfeed, hsplit]
  simp only [List.reverse_append, List.reverse_cons, List.reverse_nil, List.nil_append,
    List.cons_append, List.reverse_reverse, List.map_cons]
  split <;> rfl

theorem HasLines.lines_eq {text : List Char} {found : List (List Char)}
    (hlines : HasLines text found) : lines text = found := by
  induction hlines with
  | nil => rfl
  | unended hne hfeed => rw [lines_of_notMem hfeed, if_neg (by simpa using hne)]
  | lineFeed hfeed hreturn _ ih => rw [lines_append_lineFeed hfeed, ih, dropFinal, if_neg hreturn]
  | @returnFeed line text found hfeed _ ih =>
      have hfeed : '\n' ∉ line ++ ['\r'] := by simpa using hfeed
      have htext : line ++ '\r' :: '\n' :: text = line ++ ['\r'] ++ '\n' :: text := by simp
      rw [htext, lines_append_lineFeed hfeed, ih]
      simp [dropFinal]

/-- A line and its line feed in front of a text are one line more. -/
theorem HasLines.cons_dropFinal {line text : List Char} {found : List (List Char)}
    (hfeed : '\n' ∉ line) (hrest : HasLines text found) :
    HasLines (line ++ '\n' :: text) (dropFinal '\r' line :: found) := by
  unfold dropFinal
  split
  · rename_i hreturn
    obtain ⟨front, rfl⟩ := List.getLast?_eq_some_iff.mp hreturn
    rw [List.dropLast_concat, List.append_assoc]
    exact .returnFeed (fun hmem => hfeed (List.mem_append_left _ hmem)) hrest
  · rename_i hreturn
    exact .lineFeed hfeed hreturn hrest

theorem hasLines_lines (text : List Char) : HasLines text (lines text) := by
  by_cases hfeed : '\n' ∈ text
  · obtain ⟨line, rest, htext, hline⟩ := List.eq_append_cons_of_mem hfeed
    have hshorter : rest.length < text.length := by
      rw [htext, List.length_append, List.length_cons]
      omega
    rw [htext, lines_append_lineFeed hline]
    exact .cons_dropFinal hline (hasLines_lines rest)
  · rw [lines_of_notMem hfeed]
    split
    · rename_i hempty
      rw [List.isEmpty_iff.mp hempty]
      exact .nil
    · rename_i hempty
      exact .unended (by simpa using hempty) hfeed
termination_by text.length

/-- `lines` finds the lines of a text, and no other list is that. -/
theorem hasLines_iff {text : List Char} {found : List (List Char)} :
    HasLines text found ↔ lines text = found := by
  constructor
  · exact HasLines.lines_eq
  · rintro rfl
    exact hasLines_lines text

end Text

end Offside
