/-
# The document cut at the cursor

A row and a column are good to move by, and poor to say what an edit does to a
document. This module sees the state of the editor as a document that is cut in two at
the cursor: the lines above, the two parts of the cursor's line, and the lines below.
What a key does is then one small change at the cut. Insertions lengthen what is in
front of it, deletions and moves take one character from one side or carry it over to
the other, and a line break is a character like any other.

The cut exists exactly as long as the cursor stands in the document, and every key
leaves it there. That is the invariant on which all else about the editor rests, and it
holds after any keys, reports and attempts to save.
-/

import Mathlib.Data.List.Basic
import Offside.Editor

namespace Offside

/-- A document cut in two at a place in one of its lines. -/
structure Cut where
  /-- The lines above the one that is cut. -/
  above : List (List Char)
  /-- The part of the line in front of the cut. -/
  before : List Char
  /-- The part of the line behind the cut. -/
  after : List Char
  /-- The lines below the one that is cut. -/
  below : List (List Char)

namespace Cut

variable (cut : Cut)

/-- The lines of the document. -/
def lines : List (List Char) := cut.above ++ (cut.before ++ cut.after) :: cut.below

/-- The text in front of the cut. -/
def front : List Char := cut.above.flatMap (· ++ ['\n']) ++ cut.before

/-- The text behind the cut. -/
def back : List Char := cut.after ++ cut.below.flatMap ('\n' :: ·)

/-- In front of a cut stands nothing, or the end of a line, or a character of its line. -/
theorem front_cases : (∃ after below, cut = ⟨[], [], after, below⟩) ∨
    (∃ above line after below, cut = ⟨above ++ [line], [], after, below⟩) ∨
      ∃ above before c after below, cut = ⟨above, before ++ [c], after, below⟩ := by
  obtain ⟨above, before, after, below⟩ := cut
  rcases List.eq_nil_or_concat' before with rfl | ⟨before, c, rfl⟩
  · rcases List.eq_nil_or_concat' above with rfl | ⟨above, line, rfl⟩
    · exact .inl ⟨after, below, rfl⟩
    · exact .inr (.inl ⟨above, line, after, below, rfl⟩)
  · exact .inr (.inr ⟨above, before, c, after, below, rfl⟩)

/-- The last character in front of a cut inside a line. -/
theorem front_concat (above below : List (List Char)) (before after : List Char) (c : Char) :
    (⟨above, before ++ [c], after, below⟩ : Cut).front =
      (⟨above, before, after, below⟩ : Cut).front ++ [c] := by
  simp [front]

/-- The last character in front of a cut at the front of a line. -/
theorem front_line (above below : List (List Char)) (line after : List Char) :
    (⟨above ++ [line], [], after, below⟩ : Cut).front =
      (⟨above, line, after, below⟩ : Cut).front ++ ['\n'] := by
  simp [front]

theorem joinLines_cons (line : List Char) (lines : List (List Char)) :
    Text.joinLines (line :: lines) = line ++ lines.flatMap ('\n' :: ·) := by
  unfold Text.joinLines
  induction lines generalizing line with
  | nil => simp
  | cons next lines ih => simp [List.intercalate_cons_cons, ih]

theorem joinLines_lines : Text.joinLines cut.lines = cut.front ++ cut.back := by
  have hjoin : Text.joinLines cut.lines =
      cut.above.flatMap (· ++ ['\n']) ++
        Text.joinLines ((cut.before ++ cut.after) :: cut.below) :=
    intercalate_append_of_ne_nil cut.above (List.cons_ne_nil _ _)
  rw [hjoin, joinLines_cons, front, back]
  simp only [List.append_assoc]

end Cut

namespace Editor

/-- The cursor stands at the cut. -/
structure Shows (editor : Editor) (cut : Cut) : Prop where
  lines : editor.lines = cut.lines
  row : editor.row = cut.above.length
  column : editor.column = cut.before.length

/-- The cursor stands in a line of the document, at most behind its last character. -/
structure InBounds (editor : Editor) : Prop where
  row_lt : editor.row < editor.lines.length
  column_le : editor.column ≤ editor.current.length

/-- The document, cut at the cursor. -/
def cutAtCursor (editor : Editor) : Cut :=
  ⟨editor.lines.take editor.row, editor.head, editor.tail, editor.lines.drop (editor.row + 1)⟩

/-! ## What a cut shows -/

variable {editor : Editor} {cut : Cut} {above below : List (List Char)} {before after : List Char}

theorem lineAt_of_getElem? {row : Nat} {line : List Char} (hline : editor.lines[row]? = some line) :
    editor.lineAt row = line := by
  rw [lineAt, hline, Option.getD_some]

theorem InBounds.shows (hbounds : editor.InBounds) : editor.Shows editor.cutAtCursor where
  lines := by
    have hrow := hbounds.row_lt
    have hline : editor.current = editor.lines[editor.row] :=
      lineAt_of_getElem? (List.getElem?_eq_getElem hrow)
    simp only [Cut.lines, cutAtCursor, head, tail, List.take_append_drop, hline,
      List.getElem_cons_drop]
  row := (List.length_take_of_le (Nat.le_of_lt hbounds.row_lt)).symm
  column := (List.length_take_of_le hbounds.column_le).symm

theorem Shows.getElem?_row (hshows : editor.Shows cut) :
    editor.lines[editor.row]? = some (cut.before ++ cut.after) := by
  rw [hshows.lines, hshows.row, Cut.lines, List.getElem?_append_right (Nat.le_refl _),
    Nat.sub_self, List.getElem?_cons_zero]

theorem Shows.current (hshows : editor.Shows cut) : editor.current = cut.before ++ cut.after :=
  lineAt_of_getElem? hshows.getElem?_row

theorem Shows.head (hshows : editor.Shows cut) : editor.head = cut.before := by
  rw [Editor.head, hshows.current, hshows.column, List.take_left]

theorem Shows.tail (hshows : editor.Shows cut) : editor.tail = cut.after := by
  rw [Editor.tail, hshows.current, hshows.column, List.drop_left]

theorem Shows.inBounds (hshows : editor.Shows cut) : editor.InBounds where
  row_lt := by
    rw [hshows.lines, hshows.row, Cut.lines]
    simp
  column_le := by
    rw [hshows.current, hshows.column]
    simp

/-- The cursor stands at a cut exactly if it stands in the document. -/
theorem exists_shows_iff : (∃ cut, editor.Shows cut) ↔ editor.InBounds :=
  ⟨fun ⟨_, hshows⟩ => hshows.inBounds, fun hbounds => ⟨_, hbounds.shows⟩⟩

theorem Shows.text (hshows : editor.Shows cut) : editor.text = cut.front ++ cut.back := by
  rw [Editor.text, hshows.lines, cut.joinLines_lines]

theorem Shows.column_concat {c : Char}
    (hshows : editor.Shows ⟨above, before ++ [c], after, below⟩) :
    editor.column = before.length + 1 := by
  rw [hshows.column, List.length_append, List.length_singleton]

theorem Shows.row_concat {line : List Char}
    (hshows : editor.Shows ⟨above ++ [line], before, after, below⟩) :
    editor.row = above.length + 1 := by
  rw [hshows.row, List.length_append, List.length_singleton]

/-- The line right above the cut. -/
theorem Shows.lineAt_above {line : List Char} (hshows : editor.Shows ⟨above ++ [line], before,
    after, below⟩) : editor.lineAt above.length = line := by
  apply lineAt_of_getElem?
  rw [hshows.lines, Cut.lines]
  simp

theorem Shows.replaceLines (hshows : editor.Shows cut) (lines : List (List Char)) :
    editor.replaceLines editor.row 1 lines = cut.above ++ lines ++ cut.below := by
  rw [Editor.replaceLines, hshows.lines, hshows.row, Cut.lines, List.take_left]
  simp

/-! ## Edits -/

theorem Shows.insert (hshows : editor.Shows cut) (text : List Char) :
    (editor.insert text).Shows { cut with before := cut.before ++ text } where
  lines := by
    simp only [Editor.insert, hshows.replaceLines, hshows.head, hshows.tail, Cut.lines,
      List.append_assoc, List.singleton_append]
  row := hshows.row
  column := by
    simp only [Editor.insert, hshows.column, List.length_append]

theorem Shows.breakLine (hshows : editor.Shows cut) :
    editor.breakLine.Shows
      ⟨cut.above ++ [cut.before], nextIndentation cut.before, cut.after, cut.below⟩ where
  lines := by
    simp only [Editor.breakLine, hshows.replaceLines, hshows.head, hshows.tail, Cut.lines,
      List.append_assoc, List.cons_append, List.nil_append]
  row := by
    simp only [Editor.breakLine, hshows.row, List.length_append, List.length_singleton]
  column := by
    simp only [Editor.breakLine, hshows.head]

/-- Deleting a character of the line. -/
theorem Shows.deleteBack?_eq_of_concat {c : Char}
    (hshows : editor.Shows ⟨above, before ++ [c], after, below⟩) :
    editor.deleteBack? = some { editor with
      lines := above ++ (before ++ after) :: below
      column := before.length } := by
  have hcolumn := hshows.column_concat
  have hkept : editor.current.take before.length = before := by
    rw [hshows.current, List.append_assoc, List.take_left]
  simp only [deleteBack?, hcolumn, hkept, hshows.tail, hshows.replaceLines, List.append_assoc,
    List.singleton_append]

theorem Shows.deleteBack?_concat {c : Char}
    (hshows : editor.Shows ⟨above, before ++ [c], after, below⟩) :
    ∃ next, editor.deleteBack? = some next ∧ next.Shows ⟨above, before, after, below⟩ :=
  ⟨_, hshows.deleteBack?_eq_of_concat, rfl, hshows.row, rfl⟩

/-- Deleting the line break in front of the line. -/
theorem Shows.deleteBack?_eq_of_line {line : List Char}
    (hshows : editor.Shows ⟨above ++ [line], [], after, below⟩) :
    editor.deleteBack? = some { editor with
      lines := above ++ (line ++ after) :: below
      row := above.length
      column := line.length } := by
  have hcolumn : editor.column = 0 := hshows.column
  have hrow := hshows.row_concat
  have hlines : editor.replaceLines above.length 2 [line ++ after] =
      above ++ (line ++ after) :: below := by
    simp [Editor.replaceLines, hshows.lines, Cut.lines]
  have hcurrent : editor.current = after := by
    rw [hshows.current, List.nil_append]
  simp only [deleteBack?, hcolumn, hrow, hshows.lineAt_above, hcurrent, hlines]

theorem Shows.deleteBack?_line {line : List Char}
    (hshows : editor.Shows ⟨above ++ [line], [], after, below⟩) :
    ∃ next, editor.deleteBack? = some next ∧ next.Shows ⟨above, line, after, below⟩ :=
  ⟨_, hshows.deleteBack?_eq_of_line, rfl, rfl, rfl⟩

theorem Shows.deleteBack?_eq_none (hshows : editor.Shows ⟨[], [], after, below⟩) :
    editor.deleteBack? = none := by
  have hcolumn : editor.column = 0 := hshows.column
  have hrow : editor.row = 0 := hshows.row
  simp only [deleteBack?, hcolumn, hrow]

/-! ## Moves -/

theorem Shows.moveLeft_concat {c : Char}
    (hshows : editor.Shows ⟨above, before ++ [c], after, below⟩) :
    editor.moveLeft.Shows ⟨above, before, c :: after, below⟩ := by
  have hcolumn := hshows.column_concat
  simp only [moveLeft, hcolumn]
  refine ⟨?_, hshows.row, rfl⟩
  simp [hshows.lines, Cut.lines]

theorem Shows.moveLeft_line {line : List Char}
    (hshows : editor.Shows ⟨above ++ [line], [], after, below⟩) :
    editor.moveLeft.Shows ⟨above, line, [], after :: below⟩ := by
  have hcolumn : editor.column = 0 := hshows.column
  have hrow := hshows.row_concat
  simp only [moveLeft, hcolumn, hrow, hshows.lineAt_above]
  refine ⟨?_, rfl, rfl⟩
  simp [hshows.lines, Cut.lines]

theorem Shows.moveLeft_eq (hshows : editor.Shows ⟨[], [], after, below⟩) :
    editor.moveLeft = editor := by
  have hcolumn : editor.column = 0 := hshows.column
  have hrow : editor.row = 0 := hshows.row
  simp only [moveLeft, hcolumn, hrow]

theorem Shows.moveRight_cons {c : Char}
    (hshows : editor.Shows ⟨above, before, c :: after, below⟩) :
    editor.moveRight.Shows ⟨above, before ++ [c], after, below⟩ := by
  have hinside : editor.column < editor.current.length := by
    simp [hshows.column, hshows.current]
  rw [moveRight, if_pos hinside]
  refine ⟨?_, hshows.row, ?_⟩
  · simp [hshows.lines, Cut.lines]
  · simp [hshows.column]

theorem Shows.moveRight_line {line : List Char}
    (hshows : editor.Shows ⟨above, before, [], line :: below⟩) :
    editor.moveRight.Shows ⟨above ++ [before], [], line, below⟩ := by
  have hend : ¬ editor.column < editor.current.length := by
    simp [hshows.column, hshows.current]
  have hrow : editor.row + 1 < editor.lines.length := by
    simp [hshows.row, hshows.lines, Cut.lines]
  rw [moveRight, if_neg hend, if_pos hrow]
  refine ⟨?_, ?_, rfl⟩
  · simp [hshows.lines, Cut.lines]
  · simp [hshows.row]

theorem Shows.moveRight_eq (hshows : editor.Shows ⟨above, before, [], []⟩) :
    editor.moveRight = editor := by
  have hend : ¬ editor.column < editor.current.length := by
    simp [hshows.column, hshows.current]
  have hrow : ¬ editor.row + 1 < editor.lines.length := by
    simp [hshows.row, hshows.lines, Cut.lines]
  rw [moveRight, if_neg hend, if_neg hrow]

/-! ## Keys that leave the document alone -/

theorem lines_moveLeft (editor : Editor) : editor.moveLeft.lines = editor.lines := by
  unfold moveLeft
  split <;> rfl

theorem lines_moveRight (editor : Editor) : editor.moveRight.lines = editor.lines := by
  unfold moveRight
  split
  · rfl
  · split <;> rfl

theorem lines_moveToRow (editor : Editor) (row : Nat) :
    (editor.moveToRow row).lines = editor.lines := by
  unfold moveToRow
  split <;> rfl

theorem lines_moveUp (editor : Editor) : editor.moveUp.lines = editor.lines := by
  unfold moveUp
  split
  · rfl
  · exact lines_moveToRow _ _

/-- Keys other than those that insert or delete leave the lines as they are, and answer
with something else than that the document was edited. -/
theorem press_of_not_edit (editor : Editor) {key : Key} {control : Bool}
    (hchar : ∀ c, key = .char c → control = true) (htab : key ≠ .tab) (henter : key ≠ .enter)
    (hbackspace : key ≠ .backspace) :
    (editor.press key control).2.lines = editor.lines ∧
      (editor.press key control).1 ≠ .edited := by
  cases key with
  | char c =>
      obtain rfl := hchar c rfl
      simp only [press, Bool.not_true, Bool.false_eq_true, if_false]
      split
      · exact ⟨rfl, nofun⟩
      · split <;> exact ⟨rfl, nofun⟩
  | tab => exact absurd rfl htab
  | enter => exact absurd rfl henter
  | backspace => exact absurd rfl hbackspace
  | left => exact ⟨editor.lines_moveLeft, nofun⟩
  | right => exact ⟨editor.lines_moveRight, nofun⟩
  | up => exact ⟨editor.lines_moveUp, nofun⟩
  | down => exact ⟨editor.lines_moveToRow _, nofun⟩
  | home | «end» | escape | other => exact ⟨rfl, nofun⟩

/-! ## The cursor stays in the document -/

theorem InBounds.deleteBack? (hbounds : editor.InBounds) {next : Editor}
    (hnext : editor.deleteBack? = some next) : next.InBounds := by
  obtain ⟨cut, hshows⟩ := exists_shows_iff.mpr hbounds
  rcases cut.front_cases with ⟨after, below, rfl⟩ | ⟨above, line, after, below, rfl⟩ |
    ⟨above, before, c, after, below, rfl⟩
  · rw [hshows.deleteBack?_eq_none] at hnext
    cases hnext
  · obtain ⟨other, hother, hshows'⟩ := hshows.deleteBack?_line
    obtain rfl := Option.some_inj.mp (hother.symm.trans hnext)
    exact hshows'.inBounds
  · obtain ⟨other, hother, hshows'⟩ := hshows.deleteBack?_concat
    obtain rfl := Option.some_inj.mp (hother.symm.trans hnext)
    exact hshows'.inBounds

theorem InBounds.moveLeft (hbounds : editor.InBounds) : editor.moveLeft.InBounds := by
  obtain ⟨cut, hshows⟩ := exists_shows_iff.mpr hbounds
  rcases cut.front_cases with ⟨after, below, rfl⟩ | ⟨above, line, after, below, rfl⟩ |
    ⟨above, before, c, after, below, rfl⟩
  · rwa [hshows.moveLeft_eq]
  · exact hshows.moveLeft_line.inBounds
  · exact hshows.moveLeft_concat.inBounds

theorem InBounds.moveRight (hbounds : editor.InBounds) : editor.moveRight.InBounds := by
  obtain ⟨⟨above, before, after, below⟩, hshows⟩ := exists_shows_iff.mpr hbounds
  cases after with
  | cons c after => exact hshows.moveRight_cons.inBounds
  | nil =>
      cases below with
      | cons line below => exact hshows.moveRight_line.inBounds
      | nil => rwa [hshows.moveRight_eq]

theorem InBounds.moveToRow (hbounds : editor.InBounds) (row : Nat) :
    (editor.moveToRow row).InBounds := by
  unfold Editor.moveToRow
  split
  · rename_i hrow
    exact ⟨hrow, Nat.min_le_right _ _⟩
  · exact hbounds

/-- No key takes the cursor out of the document. -/
theorem InBounds.press (hbounds : editor.InBounds) (key : Key) (control : Bool) :
    (editor.press key control).2.InBounds := by
  cases key with
  | char c =>
      simp only [Editor.press]
      split
      · exact (hbounds.shows.insert [c]).inBounds
      split
      · exact hbounds
      split <;> exact hbounds
  | tab => exact (hbounds.shows.insert indentUnit).inBounds
  | enter => exact hbounds.shows.breakLine.inBounds
  | backspace =>
      simp only [Editor.press]
      cases hnext : editor.deleteBack? with
      | none => exact hbounds
      | some next => exact hbounds.deleteBack? hnext
  | left => exact hbounds.moveLeft
  | right => exact hbounds.moveRight
  | up =>
      simp only [Editor.press, moveUp]
      split
      · exact hbounds
      · exact hbounds.moveToRow _
  | down => exact hbounds.moveToRow _
  | home => exact ⟨hbounds.row_lt, Nat.zero_le _⟩
  | «end» => exact ⟨hbounds.row_lt, Nat.le_refl _⟩
  | escape | other => exact hbounds

/-! ## Everything that happens to an editor -/

/-- What an editor is told. -/
inductive Input
  /-- A key was pressed, with or without the control key. -/
  | press (key : Key) (control : Bool)
  /-- There is a new report to show. -/
  | display (report : Report)
  /-- The document is to be saved, while the files are these. -/
  | save (files : Files)

/-- The state after an input. -/
def handle (editor : Editor) : Input → Editor
  | .press key control => (editor.press key control).2
  | .display report => editor.display report
  | .save files => (editor.save files).1

/-- The state after several inputs. -/
def handleAll (editor : Editor) (inputs : List Input) : Editor := inputs.foldl handle editor

/-- Reports and attempts to save leave the document and the cursor alone. -/
theorem handle_of_not_press (editor : Editor) {input : Input}
    (hinput : ∀ key control, input ≠ .press key control) :
    ∃ report status, editor.handle input = { editor with report, status } := by
  cases input with
  | press key control => exact absurd rfl (hinput key control)
  | display report => exact ⟨some report, editor.status, rfl⟩
  | save files =>
      simp only [handle, save]
      split
      · exact ⟨_, _, rfl⟩
      · split <;> exact ⟨_, _, rfl⟩

theorem InBounds.handle (hbounds : editor.InBounds) (input : Input) :
    (editor.handle input).InBounds := by
  by_cases hpress : ∃ key control, input = .press key control
  · obtain ⟨key, control, rfl⟩ := hpress
    exact hbounds.press key control
  · obtain ⟨report, status, heq⟩ := editor.handle_of_not_press (by simpa using hpress)
    rw [heq]
    exact ⟨hbounds.row_lt, hbounds.column_le⟩

theorem inBounds_ofDocument (document : List Char) (path : Option (List Char)) :
    (ofDocument document path).InBounds where
  row_lt := List.length_pos_iff.mpr (List.splitOn_ne_nil '\n' document)
  column_le := Nat.zero_le _

theorem inBounds_handleAll (document : List Char) (path : Option (List Char))
    (inputs : List Input) : ((ofDocument document path).handleAll inputs).InBounds := by
  suffices h : ∀ editor : Editor, editor.InBounds → (editor.handleAll inputs).InBounds from
    h _ (inBounds_ofDocument document path)
  induction inputs with
  | nil => exact fun _ hbounds => hbounds
  | cons input inputs ih => exact fun editor hbounds => ih _ (hbounds.handle input)

end Editor

end Offside
