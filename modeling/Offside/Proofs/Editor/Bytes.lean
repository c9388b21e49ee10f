/-
# Editing lines at byte offsets

Lines are kept in UTF-8 and edited at byte offsets, while the cursor counts characters.
An offset that is too large or lies inside a character stops the program, and so does a
row without a line. This module writes the editor's operations down at that level, each
one failing exactly where the program would stop, and proves that none of them ever
does: the editing of bytes is the editing of characters.

What makes it so is that the offset of a cursor that stands in the document is the
length, in bytes, of what is in front of the cursor in its line. That is a boundary
between two characters, and the cut that it makes is the cut at the cursor.
-/

import Offside.Proofs.Editor.Cut
import Offside.Proofs.Text.Offsets

namespace Offside

namespace Text

/-- The offset lies between two characters of the text, or at one of its ends. -/
def IsBoundary (text : List Char) (offset : Nat) : Prop :=
  ∃ before after, text = before ++ after ∧ byteLength before = offset

/-- Cut a text at an offset, if that is a boundary. -/
def cutAtByte? : List Char → Nat → Option (List Char × List Char)
  | text, 0 => some ([], text)
  | [], _ + 1 => none
  | c :: text, offset + 1 =>
    if c.utf8Size ≤ offset + 1 then
      (cutAtByte? text (offset + 1 - c.utf8Size)).map fun (before, after) => (c :: before, after)
    else none

/-- The text up to an offset. -/
def upToByte? (text : List Char) (offset : Nat) : Option (List Char) :=
  (cutAtByte? text offset).map Prod.fst

/-- The text from an offset on. -/
def fromByte? (text : List Char) (offset : Nat) : Option (List Char) :=
  (cutAtByte? text offset).map Prod.snd

/-- Insert a text at an offset. -/
def insertAtByte? (text : List Char) (offset : Nat) (inserted : List Char) : Option (List Char) :=
  (cutAtByte? text offset).map fun (before, after) => before ++ inserted ++ after

/-- Drop everything from an offset on. Beyond the end there is nothing to drop. -/
def truncateAtByte? (text : List Char) (offset : Nat) : Option (List Char) :=
  if byteLength text < offset then some text else upToByte? text offset

/-- Remove the character that begins at an offset. -/
def removeAtByte? (text : List Char) (offset : Nat) : Option (List Char) :=
  match cutAtByte? text offset with
  | some (before, _ :: after) => some (before ++ after)
  | some (_, []) | none => none

/-- A cut at an offset has that many bytes in front of it. -/
theorem cutAtByte?_eq_some_iff {text before after : List Char} {offset : Nat} :
    cutAtByte? text offset = some (before, after) ↔
      text = before ++ after ∧ byteLength before = offset := by
  induction text generalizing offset before with
  | nil =>
      cases offset with
      | zero => simp +contextual [cutAtByte?, eq_comm]
      | succ offset =>
          simp only [cutAtByte?, reduceCtorEq, false_iff, not_and]
          intro hnil
          rw [(List.append_eq_nil_iff.mp hnil.symm).1]
          nofun
  | cons c text ih =>
      have hpos := c.utf8Size_pos
      cases offset with
      | zero =>
          simp only [cutAtByte?, Option.some.injEq, Prod.mk.injEq]
          constructor
          · rintro ⟨rfl, rfl⟩
            exact ⟨rfl, rfl⟩
          · rintro ⟨htext, hlength⟩
            cases before with
            | nil => exact ⟨rfl, htext⟩
            | cons b before =>
                have hb := b.utf8Size_pos
                rw [byteLength_cons] at hlength
                omega
      | succ offset =>
          rw [cutAtByte?]
          split
          · rename_i hle
            rw [Option.map_eq_some_iff]
            constructor
            · rintro ⟨⟨inner, rest⟩, hinner, heq⟩
              obtain ⟨rfl, rfl⟩ := Prod.mk.inj heq
              obtain ⟨rfl, hlength⟩ := ih.mp hinner
              exact ⟨rfl, by rw [byteLength_cons, hlength]; omega⟩
            · rintro ⟨htext, hlength⟩
              cases before with
              | nil => cases hlength
              | cons b before =>
                  injection htext with hc htext
                  subst hc
                  rw [byteLength_cons] at hlength
                  exact ⟨(before, after), ih.mpr ⟨htext, by omega⟩, rfl⟩
          · rename_i hlarge
            simp only [reduceCtorEq, false_iff, not_and]
            intro htext
            cases before with
            | nil => nofun
            | cons b before =>
                injection htext with hc _
                subst hc
                rw [byteLength_cons]
                omega

/-- A text can be cut exactly at its boundaries. -/
theorem isSome_cutAtByte?_iff {text : List Char} {offset : Nat} :
    (cutAtByte? text offset).isSome ↔ IsBoundary text offset := by
  constructor
  · intro hcut
    obtain ⟨⟨before, after⟩, hcut⟩ := Option.isSome_iff_exists.mp hcut
    exact ⟨before, after, cutAtByte?_eq_some_iff.mp hcut⟩
  · rintro ⟨before, after, hboundary⟩
    rw [cutAtByte?_eq_some_iff.mpr hboundary]
    rfl

example : cutAtByte? ['é', 'x'] 1 = none ∧ cutAtByte? ['é', 'x'] 2 = some (['é'], ['x']) := by
  decide

theorem cutAtByte?_append (before after : List Char) :
    cutAtByte? (before ++ after) (byteLength before) = some (before, after) :=
  cutAtByte?_eq_some_iff.mpr ⟨rfl, rfl⟩

theorem upToByte?_append (before after : List Char) :
    upToByte? (before ++ after) (byteLength before) = some before := by
  rw [upToByte?, cutAtByte?_append, Option.map_some]

theorem fromByte?_append (before after : List Char) :
    fromByte? (before ++ after) (byteLength before) = some after := by
  rw [fromByte?, cutAtByte?_append, Option.map_some]

theorem insertAtByte?_append (before after inserted : List Char) :
    insertAtByte? (before ++ after) (byteLength before) inserted =
      some (before ++ inserted ++ after) := by
  rw [insertAtByte?, cutAtByte?_append, Option.map_some]

theorem truncateAtByte?_append (before after : List Char) :
    truncateAtByte? (before ++ after) (byteLength before) = some before := by
  have hinside : ¬ byteLength (before ++ after) < byteLength before := by
    rw [byteLength_append]
    omega
  rw [truncateAtByte?, if_neg hinside, upToByte?_append]

theorem removeAtByte?_append (before after : List Char) (c : Char) :
    removeAtByte? (before ++ c :: after) (byteLength before) = some (before ++ after) := by
  rw [removeAtByte?, cutAtByte?_append]

/-- The leading blanks of a text are what it has more than without them. -/
theorem upToByte?_blanks (text : List Char) :
    upToByte? text (byteLength text - byteLength (trimStart text)) =
      some (text.takeWhile isBlank) := by
  have hparts := takeWhile_append_trimStart text
  have hlength : byteLength (text.takeWhile isBlank) + byteLength (trimStart text) =
      byteLength text := by
    rw [← byteLength_append, hparts]
  have hcut := upToByte?_append (text.takeWhile isBlank) (trimStart text)
  rwa [hparts, Nat.eq_sub_of_add_eq hlength] at hcut

end Text

namespace Editor

/-! ## The operations on bytes -/

/-- The byte offset of the cursor in its line. -/
def cursorByte? (editor : Editor) : Option Nat := do
  let line ← editor.lines[editor.row]?
  some (((Text.charIndices line)[editor.column]?.map Prod.fst).getD (Text.byteLength line))

/-- The number of characters of a row's line. -/
def lineLength? (editor : Editor) (row : Nat) : Option Nat := editor.lines[row]?.map List.length

/-- Put a line in front of the one with an index, or behind the last one. -/
def insertLine? (lines : List (List Char)) (index : Nat) (line : List Char) :
    Option (List (List Char)) :=
  if index ≤ lines.length then some (lines.take index ++ line :: lines.drop index) else none

/-- Insert a text at the offset of the cursor. -/
def insertInBytes? (editor : Editor) (text : List Char) : Option Editor := do
  let offset ← editor.cursorByte?
  let line ← editor.lines[editor.row]?
  let line ← Text.insertAtByte? line offset text
  some { editor with
    lines := editor.lines.set editor.row line
    column := editor.column + text.length }

/-- The indentation of the line that a line break behind `head` begins. -/
def nextIndentationInBytes? (head : List Char) : Option (List Char) := do
  let blanks ← Text.upToByte? head (Text.byteLength head - Text.byteLength (Text.trimStart head))
  match (Line.ofChars head).kind with
  | .opener _ => some (blanks ++ indentUnit)
  | .blank | .statement => some blanks

/-- Break the line at the offset of the cursor. -/
def breakLineInBytes? (editor : Editor) : Option Editor := do
  let offset ← editor.cursorByte?
  let line ← editor.lines[editor.row]?
  let head ← Text.upToByte? line offset
  let indentation ← nextIndentationInBytes? head
  let tail ← Text.fromByte? line offset
  let line ← Text.truncateAtByte? line offset
  let lines ← insertLine? (editor.lines.set editor.row line) (editor.row + 1) (indentation ++ tail)
  some { editor with lines, row := editor.row + 1, column := indentation.length }

/-- Delete the character in front of the cursor, or join the line to the one above:
whether there was something to delete, and the state after it. -/
def deleteBackInBytes? (editor : Editor) : Option (Bool × Editor) :=
  if 0 < editor.column then do
    let editor := { editor with column := editor.column - 1 }
    let offset ← editor.cursorByte?
    let line ← editor.lines[editor.row]?
    let line ← Text.removeAtByte? line offset
    some (true, { editor with lines := editor.lines.set editor.row line })
  else if 0 < editor.row then do
    let line ← editor.lines[editor.row]?
    let lines := editor.lines.eraseIdx editor.row
    let above ← lines[editor.row - 1]?
    some (true, { editor with
      lines := lines.set (editor.row - 1) (above ++ line)
      row := editor.row - 1
      column := above.length })
  else some (false, editor)

/-- Move the cursor one character back. -/
def moveLeftInBytes? (editor : Editor) : Option Editor :=
  if 0 < editor.column then some { editor with column := editor.column - 1 }
  else if 0 < editor.row then do
    let length ← editor.lineLength? (editor.row - 1)
    some { editor with row := editor.row - 1, column := length }
  else some editor

/-- Move the cursor one character on. -/
def moveRightInBytes? (editor : Editor) : Option Editor := do
  let length ← editor.lineLength? editor.row
  if editor.column < length then some { editor with column := editor.column + 1 }
  else if editor.row + 1 < editor.lines.length then
    some { editor with row := editor.row + 1, column := 0 }
  else some editor

/-- Move the cursor to another row, if there is one. -/
def moveToRowInBytes? (editor : Editor) (row : Option Nat) : Option Editor :=
  match row with
  | none => some editor
  | some row =>
    if row < editor.lines.length then do
      let length ← editor.lineLength? row
      some { editor with row, column := min editor.column length }
    else some editor

/-- Take in a key press. There is no answer where an index is out of range or an offset
is not a boundary. -/
def pressInBytes? (editor : Editor) (key : Key) (control : Bool) : Option (Action × Editor) :=
  match key with
  | .escape => some (.quit, editor)
  | .char c =>
    if control ∧ c = 'c' then some (.quit, editor)
    else if control ∧ c = 's' then some (.save, editor)
    else if control then some (.none, editor)
    else (editor.insertInBytes? [c]).map (.edited, ·)
  | .tab => (editor.insertInBytes? indentUnit).map (.edited, ·)
  | .enter => editor.breakLineInBytes?.map (.edited, ·)
  | .backspace =>
    editor.deleteBackInBytes?.map fun (deleted, after) =>
      (if deleted then .edited else .none, after)
  | .left => editor.moveLeftInBytes?.map (.none, ·)
  | .right => editor.moveRightInBytes?.map (.none, ·)
  | .up =>
    (editor.moveToRowInBytes? (if 0 < editor.row then some (editor.row - 1) else none)).map
      (.none, ·)
  | .down => (editor.moveToRowInBytes? (some (editor.row + 1))).map (.none, ·)
  | .home => some (.none, { editor with column := 0 })
  | .end => do
    let length ← editor.lineLength? editor.row
    some (.none, { editor with column := length })
  | .other => some (.none, editor)

variable {editor : Editor} {cut : Cut} {above below : List (List Char)} {before after : List Char}

/-! ## What they come to at a cut -/

theorem Shows.set_row (hshows : editor.Shows cut) (line : List Char) :
    editor.lines.set editor.row line = cut.above ++ line :: cut.below := by
  rw [hshows.lines, hshows.row, Cut.lines, List.set_append_right _ _ (Nat.le_refl _), Nat.sub_self,
    List.set_cons_zero]

/-- The offset of the cursor is the length of what is in front of it in its line. -/
theorem Shows.cursorByte? (hshows : editor.Shows cut) :
    editor.cursorByte? = some (Text.byteLength cut.before) := by
  have hoffset := Text.getD_charIndicesFrom 0 cut.before.length (cut.before ++ cut.after)
  rw [Nat.zero_add, Nat.zero_add, List.take_left] at hoffset
  rw [Editor.cursorByte?, hshows.getElem?_row, hshows.column]
  exact congrArg some hoffset

theorem lineLength?_of_lt {row : Nat} (hrow : row < editor.lines.length) :
    editor.lineLength? row = some (editor.lineAt row).length := by
  have hline := List.getElem?_eq_getElem hrow
  rw [lineLength?, lineAt_of_getElem? hline, hline, Option.map_some]

theorem Shows.insertLine? (hshows : editor.Shows cut) (line inserted : List Char) :
    Editor.insertLine? (cut.above ++ line :: cut.below) (editor.row + 1) inserted =
      some (cut.above ++ line :: inserted :: cut.below) := by
  have hfront : (cut.above ++ [line]).length = editor.row + 1 := by
    rw [List.length_append, List.length_singleton, hshows.row]
  have hindex : editor.row + 1 ≤ (cut.above ++ [line] ++ cut.below).length := by
    rw [List.length_append, hfront]
    exact Nat.le_add_right _ _
  rw [List.append_cons, Editor.insertLine?, if_pos hindex, List.take_left' hfront,
    List.drop_left' hfront, List.append_assoc, List.singleton_append]

theorem Shows.insertInBytes? (hshows : editor.Shows cut) (text : List Char) :
    editor.insertInBytes? text = some (editor.insert text) := by
  simp only [Editor.insertInBytes?, hshows.cursorByte?, hshows.getElem?_row,
    Text.insertAtByte?_append, Option.bind_eq_bind, Option.bind_some, hshows.set_row]
  rw [Editor.insert, hshows.replaceLines, hshows.head, hshows.tail, List.append_assoc cut.above,
    List.singleton_append]

theorem nextIndentationInBytes?_eq (head : List Char) :
    nextIndentationInBytes? head = some (nextIndentation head) := by
  simp only [nextIndentationInBytes?, Text.upToByte?_blanks, nextIndentation, Option.bind_eq_bind,
    Option.bind_some]
  cases (Line.ofChars head).kind <;> rfl

theorem Shows.breakLineInBytes? (hshows : editor.Shows cut) :
    editor.breakLineInBytes? = some editor.breakLine := by
  simp only [Editor.breakLineInBytes?, hshows.cursorByte?, hshows.getElem?_row,
    Text.upToByte?_append, nextIndentationInBytes?_eq, Text.fromByte?_append,
    Text.truncateAtByte?_append, Option.bind_eq_bind, Option.bind_some, hshows.set_row,
    hshows.insertLine?]
  rw [Editor.breakLine, hshows.replaceLines, hshows.head, hshows.tail, List.append_assoc cut.above]
  rfl

/-- In a line, the cursor goes back before its offset is asked for. -/
theorem Shows.deleteBackInBytes?_concat {c : Char}
    (hshows : editor.Shows ⟨above, before ++ [c], after, below⟩) :
    editor.deleteBackInBytes? = some (true, { editor with
      lines := above ++ (before ++ after) :: below
      column := before.length }) := by
  have hcolumn := hshows.column_concat
  have hmoved := hshows.moveLeft_concat
  simp only [moveLeft, hcolumn] at hmoved
  simp only [Editor.deleteBackInBytes?, hcolumn, Nat.zero_lt_succ, if_true, Nat.add_sub_cancel,
    hmoved.cursorByte?, hmoved.getElem?_row, Option.bind_eq_bind, Option.bind_some,
    Text.removeAtByte?_append, hmoved.set_row]

theorem Shows.deleteBackInBytes?_line {line : List Char}
    (hshows : editor.Shows ⟨above ++ [line], [], after, below⟩) :
    editor.deleteBackInBytes? = some (true, { editor with
      lines := above ++ (line ++ after) :: below
      row := above.length
      column := line.length }) := by
  have hcolumn : editor.column = 0 := hshows.column
  have hrow := hshows.row_concat
  have hline : editor.lines[editor.row]? = some after := hshows.getElem?_row
  have herased : editor.lines.eraseIdx editor.row = above ++ line :: below := by
    rw [hshows.lines, hshows.row, Cut.lines, List.eraseIdx_append_of_length_le (Nat.le_refl _),
      Nat.sub_self, List.eraseIdx_cons_zero, List.append_assoc, List.singleton_append]
  have habove : (above ++ line :: below)[above.length]? = some line := by simp
  have hjoined : (above ++ line :: below).set above.length (line ++ after) =
      above ++ (line ++ after) :: below := by simp
  rw [hrow] at hline herased
  simp only [Editor.deleteBackInBytes?, hcolumn, hrow, Nat.lt_irrefl, Nat.zero_lt_succ, if_true,
    if_false, hline, herased, habove, hjoined, Nat.add_sub_cancel, Option.bind_eq_bind,
    Option.bind_some]

theorem Shows.deleteBackInBytes?_eq_none (hshows : editor.Shows ⟨[], [], after, below⟩) :
    editor.deleteBackInBytes? = some (false, editor) := by
  have hcolumn : editor.column = 0 := hshows.column
  have hrow : editor.row = 0 := hshows.row
  simp only [Editor.deleteBackInBytes?, hcolumn, hrow, Nat.lt_irrefl, if_false]

/-! ## No key goes out of range -/

theorem InBounds.deleteBackInBytes? (hbounds : editor.InBounds) :
    editor.deleteBackInBytes? =
      some ((editor.deleteBack?.map (true, ·)).getD (false, editor)) := by
  obtain ⟨cut, hshows⟩ := exists_shows_iff.mpr hbounds
  rcases cut.front_cases with ⟨after, below, rfl⟩ | ⟨above, line, after, below, rfl⟩ |
    ⟨above, before, c, after, below, rfl⟩
  · rw [hshows.deleteBackInBytes?_eq_none, hshows.deleteBack?_eq_none]
    rfl
  · rw [hshows.deleteBackInBytes?_line, hshows.deleteBack?_eq_of_line]
    rfl
  · rw [hshows.deleteBackInBytes?_concat, hshows.deleteBack?_eq_of_concat]
    rfl

theorem InBounds.moveLeftInBytes? (hbounds : editor.InBounds) :
    editor.moveLeftInBytes? = some editor.moveLeft := by
  cases hcolumn : editor.column with
  | succ column =>
      simp only [Editor.moveLeftInBytes?, Editor.moveLeft, hcolumn, Nat.zero_lt_succ, if_true,
        Nat.add_sub_cancel]
  | zero =>
      cases hrow : editor.row with
      | zero =>
          simp only [Editor.moveLeftInBytes?, Editor.moveLeft, hcolumn, hrow, Nat.lt_irrefl,
            if_false]
      | succ row =>
          have hlt : row + 1 < editor.lines.length := hrow ▸ hbounds.row_lt
          have hlength := lineLength?_of_lt (Nat.lt_of_succ_lt hlt)
          simp only [Editor.moveLeftInBytes?, Editor.moveLeft, hcolumn, hrow, Nat.lt_irrefl,
            Nat.zero_lt_succ, if_true, if_false, Nat.add_sub_cancel, hlength, Option.bind_eq_bind,
            Option.bind_some]

theorem InBounds.moveRightInBytes? (hbounds : editor.InBounds) :
    editor.moveRightInBytes? = some editor.moveRight := by
  rw [Editor.moveRightInBytes?, lineLength?_of_lt hbounds.row_lt, Editor.moveRight, ← current,
    apply_ite some, apply_ite some]
  rfl

theorem moveToRowInBytes?_some (editor : Editor) (row : Nat) :
    editor.moveToRowInBytes? (some row) = some (editor.moveToRow row) := by
  unfold moveToRowInBytes? moveToRow
  by_cases hrow : row < editor.lines.length
  · simp only [if_pos hrow, lineLength?_of_lt hrow, Option.bind_eq_bind, Option.bind_some]
  · simp only [if_neg hrow]

theorem moveToRowInBytes?_up (editor : Editor) :
    editor.moveToRowInBytes? (if 0 < editor.row then some (editor.row - 1) else none) =
      some editor.moveUp := by
  cases hrow : editor.row with
  | zero => simp only [Nat.lt_irrefl, if_false, moveToRowInBytes?, moveUp, hrow]
  | succ row =>
      simp only [Nat.zero_lt_succ, if_true, Nat.add_sub_cancel, moveToRowInBytes?_some, moveUp,
        hrow]

/-- As long as the cursor stands in the document, every key does on bytes what it does on
characters, and nothing that it does is out of range. -/
theorem InBounds.pressInBytes? (hbounds : editor.InBounds) (key : Key) (control : Bool) :
    editor.pressInBytes? key control = some (editor.press key control) := by
  have hshows := hbounds.shows
  cases key with
  | char c =>
      cases control with
      | false =>
          simp only [Editor.pressInBytes?, hshows.insertInBytes?, Option.map_some, Editor.press,
            Bool.false_eq_true, false_and, if_false, Bool.not_false, if_true]
      | true =>
          simp only [Editor.pressInBytes?, Editor.press, true_and, if_true, Bool.not_true,
            Bool.false_eq_true, if_false, apply_ite some]
  | tab => simp only [Editor.pressInBytes?, hshows.insertInBytes?, Option.map_some, Editor.press]
  | enter =>
      simp only [Editor.pressInBytes?, hshows.breakLineInBytes?, Option.map_some, Editor.press]
  | backspace =>
      simp only [Editor.pressInBytes?, hbounds.deleteBackInBytes?, Option.map_some, Editor.press]
      cases editor.deleteBack? <;> rfl
  | left =>
      simp only [Editor.pressInBytes?, hbounds.moveLeftInBytes?, Option.map_some, Editor.press]
  | right =>
      simp only [Editor.pressInBytes?, hbounds.moveRightInBytes?, Option.map_some, Editor.press]
  | up => simp only [Editor.pressInBytes?, moveToRowInBytes?_up, Option.map_some, Editor.press]
  | down =>
      simp only [Editor.pressInBytes?, moveToRowInBytes?_some, Option.map_some, Editor.press,
        moveDown]
  | «end» =>
      simp only [Editor.pressInBytes?, lineLength?_of_lt hbounds.row_lt, Option.bind_eq_bind,
        Option.bind_some, Editor.press, current]
  | home | escape | other => rfl

-- A cursor below the document would stop the program.
example : ({ lines := [['é']], row := 1 } : Editor).pressInBytes? .enter false = none := rfl

end Editor

end Offside
