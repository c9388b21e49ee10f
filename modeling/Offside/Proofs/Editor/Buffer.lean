/-
# The editor is a flat text with an offset

Lines, a row and a column are how the editor holds a document. To its user it is one
text with a place in it, and this module proves that it behaves like one. The offset of
a state counts the characters in front of the cursor, line breaks included. Whatever has
happened before, a character key inserts its character at the offset, a line break is
inserted together with the indentation that the new line begins with, backspace deletes
the character in front of the offset, and the arrows go back and forth by one.

That the lines join to the text and the offset counts what is in front of the cut is
shown once, for the document cut at the cursor; each key is then read off its cut. A line
feed that was entered as a character, and not by a line break, stays inside a line. The
flat view does not tell the two apart, so nothing is assumed about the characters.
-/

import Offside.Proofs.Block.Layout
import Offside.Proofs.Editor.Cut

namespace Offside

/-- A text and a place in it. -/
structure Buffer where
  /-- The text. -/
  text : List Char
  /-- The number of characters in front of the place. -/
  offset : Nat
  deriving DecidableEq, Repr

namespace Buffer

/-- Insert a text and go on behind it. -/
def insert (buffer : Buffer) (inserted : List Char) : Buffer :=
  ⟨buffer.text.take buffer.offset ++ inserted ++ buffer.text.drop buffer.offset,
    buffer.offset + inserted.length⟩

/-- Delete the character in front of the place, if there is one. -/
def deleteBack (buffer : Buffer) : Buffer :=
  match buffer.offset with
  | 0 => buffer
  | offset + 1 => ⟨buffer.text.eraseIdx offset, offset⟩

/-- Go back by one character, if there is one. -/
def back (buffer : Buffer) : Buffer := { buffer with offset := buffer.offset - 1 }

/-- Go forth by one character, if there is one. -/
def forth (buffer : Buffer) : Buffer :=
  { buffer with offset := min (buffer.offset + 1) buffer.text.length }

/-! ## A buffer in two parts -/

theorem insert_append (front back inserted : List Char) :
    (⟨front ++ back, front.length⟩ : Buffer).insert inserted =
      ⟨front ++ inserted ++ back, (front ++ inserted).length⟩ := by
  simp [insert]

theorem deleteBack_append (front back : List Char) (c : Char) :
    (⟨front ++ [c] ++ back, (front ++ [c]).length⟩ : Buffer).deleteBack =
      ⟨front ++ back, front.length⟩ := by
  have herase : (front ++ c :: back).eraseIdx front.length = front ++ back := by
    rw [List.eraseIdx_append_of_length_le (Nat.le_refl _), Nat.sub_self, List.eraseIdx_cons_zero]
  simp [deleteBack, herase]

theorem back_append (front back : List Char) (c : Char) :
    (⟨front ++ [c] ++ back, (front ++ [c]).length⟩ : Buffer).back =
      ⟨front ++ c :: back, front.length⟩ := by
  simp [Buffer.back]

theorem forth_append (front back : List Char) (c : Char) :
    (⟨front ++ c :: back, front.length⟩ : Buffer).forth =
      ⟨front ++ [c] ++ back, (front ++ [c]).length⟩ := by
  have hinside : min (front.length + 1) (front ++ c :: back).length = front.length + 1 := by
    apply Nat.min_eq_left
    rw [List.length_append, List.length_cons]
    omega
  rw [forth, hinside, List.append_assoc, List.singleton_append, List.length_append,
    List.length_singleton]

/-! ## How much text there is -/

theorem length_insert (buffer : Buffer) (inserted : List Char) :
    (buffer.insert inserted).text.length = buffer.text.length + inserted.length := by
  have hparts := congrArg List.length (List.take_append_drop buffer.offset buffer.text)
  simp only [List.length_append] at hparts
  simp only [insert, List.length_append]
  omega

theorem length_deleteBack (buffer : Buffer) (hpos : 0 < buffer.offset)
    (hle : buffer.offset ≤ buffer.text.length) :
    buffer.deleteBack.text.length + 1 = buffer.text.length := by
  obtain ⟨text, offset⟩ := buffer
  obtain ⟨offset, rfl⟩ := Nat.exists_eq_add_of_lt hpos
  rw [Nat.zero_add] at hle ⊢
  simp only [deleteBack, List.length_eraseIdx_of_lt hle]
  exact Nat.sub_add_cancel (Nat.zero_lt_of_lt hle)

end Buffer

namespace Editor

/-- The number of characters in front of the cursor, each line above counting one more. -/
def offset (editor : Editor) : Nat :=
  (editor.lines.take editor.row).foldr (fun line count => line.length + 1 + count) 0 +
    editor.column

/-- The document as one text, and the place of the cursor in it. -/
def buffer (editor : Editor) : Buffer := ⟨editor.text, editor.offset⟩

/-- What a line break inserts behind this part of a line: the break, the leading blanks
of the part, and four more behind a block header. -/
def lineBreak (head : List Char) : List Char :=
  '\n' :: head.takeWhile Text.isBlank ++
    if (Line.ofChars head).isOpener then [' ', ' ', ' ', ' '] else []

/-- How a state behaves as a flat text with an offset. -/
structure ActsFlat (editor : Editor) : Prop where
  offset_le : editor.offset ≤ editor.text.length
  /-- In front of the offset stand the lines above and the cursor's line up to the cursor. -/
  front : editor.text.take editor.offset =
    (editor.lines.take editor.row).flatMap (· ++ ['\n']) ++ editor.head
  char : ∀ c, (editor.press (.char c) false).2.buffer = editor.buffer.insert [c]
  tab : ∀ control,
    (editor.press .tab control).2.buffer = editor.buffer.insert [' ', ' ', ' ', ' ']
  enter : ∀ control,
    (editor.press .enter control).2.buffer = editor.buffer.insert (lineBreak editor.head)
  backspace : ∀ control, (editor.press .backspace control).2.buffer = editor.buffer.deleteBack
  backspace_eq_iff : ∀ control, (editor.press .backspace control).2 = editor ↔ editor.offset = 0
  left : ∀ control, (editor.press .left control).2.buffer = editor.buffer.back
  right : ∀ control, (editor.press .right control).2.buffer = editor.buffer.forth
  /-- No other key changes the text. -/
  other : ∀ key control, (∀ c, key = .char c → control = true) → key ≠ .tab → key ≠ .enter →
    key ≠ .backspace → (editor.press key control).2.text = editor.text
  /-- The answer to a key says that the document was edited exactly if the text changed. -/
  edited_iff : ∀ key control,
    (editor.press key control).1 = .edited ↔ (editor.press key control).2.text ≠ editor.text

variable {editor next : Editor} {cut : Cut}

/-! ## The flat view of a cut -/

theorem length_flatMap_concat (lines : List (List Char)) :
    (lines.flatMap (· ++ ['\n'])).length =
      lines.foldr (fun line count => line.length + 1 + count) 0 := by
  induction lines with
  | nil => rfl
  | cons line lines ih =>
      rw [List.flatMap_cons, List.length_append, List.length_append, List.length_singleton, ih,
        List.foldr_cons]

theorem Shows.offset (hshows : editor.Shows cut) : editor.offset = cut.front.length := by
  rw [Editor.offset, hshows.lines, hshows.row, hshows.column, Cut.lines, List.take_left, Cut.front,
    List.length_append, length_flatMap_concat]

theorem Shows.buffer (hshows : editor.Shows cut) :
    editor.buffer = ⟨cut.front ++ cut.back, cut.front.length⟩ := by
  rw [Editor.buffer, hshows.text, hshows.offset]

theorem nextIndentation_eq (head : List Char) :
    nextIndentation head = head.takeWhile Text.isBlank ++
      if (Line.ofChars head).isOpener then [' ', ' ', ' ', ' '] else [] := by
  cases hkind : (Line.ofChars head).kind with
  | opener =>
      simp only [nextIndentation, Line.isOpener, hkind]
      rfl
  | blank | statement =>
      simp only [nextIndentation, Line.isOpener, hkind]
      exact (List.append_nil _).symm

theorem InBounds.buffer_insert (hbounds : editor.InBounds) (text : List Char) :
    (editor.insert text).buffer = editor.buffer.insert text := by
  have hshows := hbounds.shows
  rw [(hshows.insert text).buffer, hshows.buffer, Buffer.insert_append]
  simp [Cut.front, Cut.back]

theorem InBounds.buffer_breakLine (hbounds : editor.InBounds) :
    editor.breakLine.buffer = editor.buffer.insert (lineBreak editor.head) := by
  have hshows := hbounds.shows
  rw [hshows.breakLine.buffer, hshows.buffer, Buffer.insert_append, hshows.head, lineBreak,
    List.cons_append, ← nextIndentation_eq]
  simp [Cut.front, Cut.back]

/-- Backspace deletes the character in front of the offset, which at the front of a line
is the line break, and has nothing to delete only at offset zero. -/
theorem InBounds.deleteBack?_cases (hbounds : editor.InBounds) :
    (editor.offset = 0 ∧ editor.deleteBack? = none) ∨
      ∃ next, editor.deleteBack? = some next ∧ 0 < editor.offset ∧
        next.buffer = editor.buffer.deleteBack := by
  obtain ⟨cut, hshows⟩ := exists_shows_iff.mpr hbounds
  rcases cut.front_cases with ⟨after, below, rfl⟩ | ⟨above, line, after, below, rfl⟩ |
    ⟨above, before, c, after, below, rfl⟩
  · exact .inl ⟨hshows.offset, hshows.deleteBack?_eq_none⟩
  · obtain ⟨next, hnext, hshows'⟩ := hshows.deleteBack?_line
    refine .inr ⟨next, hnext, ?_, ?_⟩
    · simp [hshows.offset, Cut.front_line]
    · rw [hshows.buffer, hshows'.buffer, Cut.front_line, Buffer.deleteBack_append]
      rfl
  · obtain ⟨next, hnext, hshows'⟩ := hshows.deleteBack?_concat
    refine .inr ⟨next, hnext, ?_, ?_⟩
    · simp [hshows.offset, Cut.front_concat]
    · rw [hshows.buffer, hshows'.buffer, Cut.front_concat, Buffer.deleteBack_append]
      rfl

theorem InBounds.buffer_moveLeft (hbounds : editor.InBounds) :
    editor.moveLeft.buffer = editor.buffer.back := by
  obtain ⟨cut, hshows⟩ := exists_shows_iff.mpr hbounds
  rcases cut.front_cases with ⟨after, below, rfl⟩ | ⟨above, line, after, below, rfl⟩ |
    ⟨above, before, c, after, below, rfl⟩
  · rw [hshows.moveLeft_eq, hshows.buffer]
    rfl
  · rw [hshows.buffer, hshows.moveLeft_line.buffer, Cut.front_line, Buffer.back_append]
    rfl
  · rw [hshows.buffer, hshows.moveLeft_concat.buffer, Cut.front_concat, Buffer.back_append]
    rfl

theorem InBounds.buffer_moveRight (hbounds : editor.InBounds) :
    editor.moveRight.buffer = editor.buffer.forth := by
  obtain ⟨⟨above, before, after, below⟩, hshows⟩ := exists_shows_iff.mpr hbounds
  cases after with
  | cons c after =>
      rw [hshows.moveRight_cons.buffer, Cut.front_concat, hshows.buffer]
      exact (Buffer.forth_append _ _ c).symm
  | nil =>
      cases below with
      | cons line below =>
          rw [hshows.moveRight_line.buffer, Cut.front_line, hshows.buffer]
          exact (Buffer.forth_append _ _ '\n').symm
      | nil =>
          rw [hshows.moveRight_eq, hshows.buffer]
          simp [Buffer.forth, Cut.back]

/-! ## Which keys change the text -/

theorem press_backspace_of_none (hnone : editor.deleteBack? = none) (control : Bool) :
    editor.press .backspace control = (.none, editor) := by
  simp only [press, hnone]

theorem press_backspace_of_some (hnext : editor.deleteBack? = some next) (control : Bool) :
    editor.press .backspace control = (.edited, next) := by
  simp only [press, hnext]

theorem text_ne_of_buffer_insert {inserted : List Char}
    (hbuffer : next.buffer = editor.buffer.insert inserted) (hne : inserted ≠ []) :
    next.text ≠ editor.text := by
  intro htext
  have hlength : next.text.length = editor.text.length + inserted.length := by
    have hinserted := Buffer.length_insert editor.buffer inserted
    rwa [← hbuffer] at hinserted
  have hpos := List.length_pos_iff.mpr hne
  rw [htext] at hlength
  omega

theorem InBounds.offset_le (hbounds : editor.InBounds) : editor.offset ≤ editor.text.length := by
  have hshows := hbounds.shows
  rw [hshows.offset, hshows.text, List.length_append]
  exact Nat.le_add_right _ _

/-- Backspace answers that the document was edited exactly if it deleted something. -/
theorem InBounds.backspace_edited_iff (hbounds : editor.InBounds) (control : Bool) :
    (editor.press .backspace control).1 = .edited ↔
      (editor.press .backspace control).2.text ≠ editor.text := by
  rcases hbounds.deleteBack?_cases with ⟨-, hnone⟩ | ⟨next, hnext, hpos, hbuffer⟩
  · rw [press_backspace_of_none hnone]
    exact iff_of_false nofun (not_not.mpr rfl)
  · have hlength : next.text.length + 1 = editor.text.length := by
      have hdeleted := editor.buffer.length_deleteBack hpos hbounds.offset_le
      rwa [← hbuffer] at hdeleted
    rw [press_backspace_of_some hnext]
    refine iff_of_true rfl fun htext => ?_
    rw [htext] at hlength
    omega

theorem InBounds.edited_iff (hbounds : editor.InBounds) (key : Key) (control : Bool) :
    (editor.press key control).1 = .edited ↔ (editor.press key control).2.text ≠ editor.text := by
  by_cases hbackspace : key = .backspace
  · subst hbackspace
    exact hbounds.backspace_edited_iff control
  by_cases htab : key = .tab
  · subst htab
    have hinserted := hbounds.buffer_insert indentUnit
    exact iff_of_true rfl (text_ne_of_buffer_insert hinserted (List.cons_ne_nil _ _))
  by_cases henter : key = .enter
  · subst henter
    exact iff_of_true rfl (text_ne_of_buffer_insert hbounds.buffer_breakLine (List.cons_ne_nil _ _))
  by_cases hchar : ∀ c, key = .char c → control = true
  · obtain ⟨hlines, hanswer⟩ := editor.press_of_not_edit hchar htab henter hbackspace
    refine iff_of_false hanswer (not_not.mpr ?_)
    rw [text, hlines, ← text]
  · simp only [not_forall, Bool.not_eq_true] at hchar
    obtain ⟨c, rfl, rfl⟩ := hchar
    have hinserted := hbounds.buffer_insert [c]
    exact iff_of_true rfl (text_ne_of_buffer_insert hinserted (List.cons_ne_nil _ _))

/-- A state whose cursor stands in the document acts as a flat text with an offset. -/
theorem InBounds.actsFlat (hbounds : editor.InBounds) : editor.ActsFlat where
  offset_le := hbounds.offset_le
  front := by
    have hshows := hbounds.shows
    rw [hshows.text, hshows.offset, List.take_left]
    rfl
  char c := hbounds.buffer_insert [c]
  tab _ := hbounds.buffer_insert indentUnit
  enter _ := hbounds.buffer_breakLine
  backspace control := by
    rcases hbounds.deleteBack?_cases with ⟨hzero, hnone⟩ | ⟨next, hnext, -, hbuffer⟩
    · rw [press_backspace_of_none hnone]
      simp [Buffer.deleteBack, buffer, hzero]
    · rw [press_backspace_of_some hnext]
      exact hbuffer
  backspace_eq_iff control := by
    have hedited := hbounds.backspace_edited_iff control
    rcases hbounds.deleteBack?_cases with ⟨hzero, hnone⟩ | ⟨next, hnext, hpos, -⟩
    · rw [press_backspace_of_none hnone]
      exact iff_of_true rfl hzero
    · rw [press_backspace_of_some hnext] at hedited ⊢
      refine iff_of_false (fun heq => hedited.mp rfl ?_) (Nat.ne_of_gt hpos)
      rw [heq]
  left _ := hbounds.buffer_moveLeft
  right _ := hbounds.buffer_moveRight
  other key control hchar htab henter hbackspace := by
    rw [text, (editor.press_of_not_edit hchar htab henter hbackspace).1, ← text]
  edited_iff := hbounds.edited_iff

theorem text_ofDocument (document : List Char) (path : Option (List Char)) :
    (ofDocument document path).text = document := List.intercalate_splitOn '\n'

/-- An editor opened on a document shows that document, and whatever happens to it, it
acts as a flat text with an offset. -/
theorem handleAll_actsFlat (document : List Char) (path : Option (List Char))
    (inputs : List Input) :
    (ofDocument document path).text = document ∧
      ((ofDocument document path).handleAll inputs).ActsFlat :=
  ⟨text_ofDocument document path, (inBounds_handleAll document path inputs).actsFlat⟩

end Editor

end Offside
