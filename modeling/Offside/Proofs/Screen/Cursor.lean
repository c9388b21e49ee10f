/-
# Where the cursor stands on the screen

The pane of the editor draws a line behind its number, on a row that depends on how far the
pane has scrolled. The cursor is placed apart from that, from its row and column and from
the number of cells that a line number is meant to take. This module says when the two
agree: the cursor is drawn on its character in the first 999 lines and in no line behind
them, where the number takes more cells and moves the text to the right.

In which cell a character is drawn is not read off the definitions that draw it. The
character is exchanged: the cell that shows whatever character stands there, while all
other cells of the pane stay as they are, is the one that the character is drawn in. Where
the line ends, it is the cell of the character that would come next.
-/

import Offside.Proofs.Editor.Cut
import Offside.Proofs.Screen.Cell
import Offside.Screen

namespace Offside

/-- Put a character in the place of the one in the given row and column. At the end of the
line it comes behind the others. -/
def Editor.overwrite (editor : Editor) (row column : Nat) (c : Char) : Editor :=
  { editor with
    lines := editor.lines.modify row fun line =>
      line.take column ++ c :: line.drop (column + 1) }

namespace Screen

/-- The character is drawn in one cell. Pictures have no characters that take two, so this
leaves out the line feed only, which takes none. -/
def SingleCell (c : Char) : Prop := (textCells [c] Theme.sourceText).length = 1

/-- The cell in the given row and column of the screen, where the pane of the editor draws
one. -/
def paneCell (editor : Editor) (area : Area) (y x : Nat) : Option Cell :=
  if area.y ≤ y ∧ area.x ≤ x then cellAt (editorPane editor area) (y - area.y) (x - area.x)
  else none

/-- The pane draws the character in the given row and column of the document in this cell
of the screen: the cell shows whatever character stands there, and no other cell changes
with it. -/
def DrawsIn (editor : Editor) (area : Area) (row column : Nat) (cell : Nat × Nat) : Prop :=
  ∀ c, SingleCell c → Paints (fun y x => (x, y) = cell) ⟨c, Theme.sourceText⟩
    (paneCell editor area) (paneCell (editor.overwrite row column c) area)

variable {editor : Editor} {area : Area} {row column : Nat} {c : Char}

/-! ## One line -/

theorem singleCell_iff : SingleCell c ↔ c ≠ '\n' := by
  by_cases hc : c = '\n'
  · simp [SingleCell, textCells, cells, hc]
  · simp [SingleCell, textCells, cells, hc]

theorem textCells_of_singleCell {text : List Char} (htext : ∀ c ∈ text, SingleCell c)
    (style : Style) : textCells text style = cells text style := by
  have hall : text.filter (· ≠ '\n') = text :=
    List.filter_eq_self.mpr fun c hc => by simpa using singleCell_iff.mp (htext c hc)
  rw [textCells, hall]

theorem getElem?_take_append_cons_drop {text : List Char} (hcolumn : column ≤ text.length)
    (c : Char) (i : Nat) :
    (text.take column ++ c :: text.drop (column + 1))[i]? =
      if i = column then some c else text[i]? := by
  rw [List.getElem?_append, List.length_take, Nat.min_eq_left hcolumn, List.getElem?_take]
  rcases Nat.lt_trichotomy i column with hlt | rfl | hgt
  · rw [if_pos hlt, if_pos hlt, if_neg (by omega)]
  · rw [if_neg (by omega), if_pos rfl, Nat.sub_self, List.getElem?_cons_zero]
  · obtain ⟨later, rfl⟩ := Nat.exists_eq_add_of_lt hgt
    rw [if_neg (by omega), if_neg (by omega),
      show column + later + 1 - column = later + 1 by omega, List.getElem?_cons_succ,
      List.getElem?_drop, show column + 1 + later = column + later + 1 by omega]

/-- The digits of a number that the cells meant for it do not hold. -/
def extraDigits (number : Nat) : Nat := (numberText number).length - 3

/-- The number of a line and the blank behind it take as many cells as they are meant to,
unless the number has more digits than that. -/
theorem length_gutter (number : Nat) :
    (gutter number).length = gutterWidth + extraDigits number := by
  simp only [gutter, gutterWidth, extraDigits, List.length_append, List.length_replicate,
    List.length_singleton]
  omega

theorem extraDigits_eq_zero_iff {number : Nat} : extraDigits number = 0 ↔ number < 1000 := by
  rw [extraDigits, Nat.sub_eq_zero_iff_le, numberText]
  exact Nat.length_toDigits_le_iff (by decide) (by decide)

/-- In a row of the pane a character comes behind the number and the characters in front
of it. -/
theorem getElem?_editorRow_overwrite (index : Nat) {line : List Char}
    (hline : ∀ d ∈ line, SingleCell d) (hc : SingleCell c) (hcolumn : column ≤ line.length)
    (x : Nat) :
    (editorRow index (line.take column ++ c :: line.drop (column + 1)))[x]? =
      if x = (gutter (index + 1)).length + column then some ⟨c, Theme.sourceText⟩
      else (editorRow index line)[x]? := by
  have hline' : ∀ d ∈ line.take column ++ c :: line.drop (column + 1), SingleCell d := by
    intro d hd
    rcases List.mem_append.mp hd with hd | hd
    · exact hline d (List.mem_of_mem_take hd)
    · rcases List.mem_cons.mp hd with rfl | hd
      · exact hc
      · exact hline d (List.mem_of_mem_drop hd)
  rw [editorRow, editorRow, textCells_of_singleCell hline, textCells_of_singleCell hline',
    List.getElem?_append, List.getElem?_append, cells, cells, cells, List.length_map]
  rcases Nat.lt_or_ge x (gutter (index + 1)).length with hlt | hge
  · rw [if_pos hlt, if_pos hlt, if_neg (by omega)]
  · -- behind the number, the place in the row is the place in the line
    have hbehind := Nat.not_lt.mpr hge
    rw [if_neg hbehind, if_neg hbehind, List.getElem?_map, List.getElem?_map,
      getElem?_take_append_cons_drop hcolumn]
    by_cases hx : x = (gutter (index + 1)).length + column
    · rw [if_pos hx, if_pos (by omega), Option.map_some]
    · rw [if_neg hx, if_neg (by omega)]

/-! ## The pane -/

/-- The place of a character on the screen, by the scroll position of the pane and the cells
that come in front of the character. -/
def CharPlace (editor : Editor) (area : Area) (row column y x : Nat) : Prop :=
  let scroll := scrollPosition (editorScroll editor area)
  let front := (gutter (row + 1)).length + column
  scroll ≤ row ∧ row - scroll < area.inner.height ∧ front < area.inner.width ∧
    y = area.inner.y + (row - scroll) ∧ x = area.inner.x + front

theorem getElem?_lines_overwrite (editor : Editor) (row column : Nat) (c : Char) (y : Nat) :
    (editor.overwrite row column c).lines[y]? =
      if y = row then
        editor.lines[y]?.map fun line => line.take column ++ c :: line.drop (column + 1)
      else editor.lines[y]? := by
  rw [Editor.overwrite, List.getElem?_modify]
  by_cases hy : row = y
  · simp [hy]
  · simp [hy, Ne.symm hy]

/-- Another character in the document is another cell in the rows of the pane. -/
theorem paints_rows (hrow : row < editor.lines.length)
    (hcolumn : column ≤ (editor.lineAt row).length)
    (hsingle : ∀ line ∈ editor.lines, ∀ d ∈ line, SingleCell d) (hc : SingleCell c) :
    Paints (fun y x => y = row ∧ x = (gutter (row + 1)).length + column) ⟨c, Theme.sourceText⟩
      (cellAt (editor.lines.mapIdx editorRow))
      (cellAt ((editor.overwrite row column c).lines.mapIdx editorRow)) := by
  intro y x
  rw [cellAt, cellAt, List.getElem?_mapIdx, List.getElem?_mapIdx, getElem?_lines_overwrite]
  by_cases hy : y = row
  · subst hy
    have hline : editor.lines[y]? = some editor.lines[y] := List.getElem?_eq_getElem hrow
    rw [Editor.lineAt, hline, Option.getD_some] at hcolumn
    rw [if_pos rfl, hline, Option.map_some, Option.map_some, Option.map_some, Option.bind_some,
      Option.bind_some,
      getElem?_editorRow_overwrite y (hsingle _ (List.getElem_mem hrow)) hc hcolumn]
    exact ⟨fun hx => if_pos hx.2, fun hx => if_neg fun heq => hx ⟨rfl, heq⟩⟩
  · rw [if_neg hy]
    exact ⟨fun hplace => absurd hplace.1 hy, fun _ => rfl⟩

/-- And it is another cell of the screen, unless the character is out of view. -/
theorem paints_paneCell (hrow : row < editor.lines.length)
    (hcolumn : column ≤ (editor.lineAt row).length)
    (hsingle : ∀ line ∈ editor.lines, ∀ d ∈ line, SingleCell d) (hc : SingleCell c) :
    Paints (CharPlace editor area row column) ⟨c, Theme.sourceText⟩ (paneCell editor area)
      (paneCell (editor.overwrite row column c) area) := by
  have hrows := paints_rows hrow hcolumn hsingle hc
  have hpane := (hrows.drop (scrollPosition (editorScroll editor area))).framed area.width
    area.height " unv ".toList Theme.editorBorder
  intro y x
  obtain ⟨hinside, houtside⟩ := hpane (y - area.y) (x - area.x)
  unfold paneCell
  -- in front of the pane and above it there are no cells of it
  by_cases hvisible : area.y ≤ y ∧ area.x ≤ x
  · rw [if_pos hvisible, if_pos hvisible]
    constructor
    · rintro ⟨hscroll, hheight, hwidth, hy, hx⟩
      refine hinside ⟨_, _, ?_, ?_, hheight, hwidth, Nat.sub_add_cancel hscroll, rfl⟩
      · simp only [Area.inner] at hy
        omega
      · simp only [Area.inner] at hx
        omega
    · intro hnot
      apply houtside
      rintro ⟨y', x', hy, hx, hheight, hwidth, hline, rfl⟩
      refine hnot ⟨by omega, ?_, hwidth, ?_, ?_⟩ <;> simp only [Area.inner] <;> omega
  · rw [if_neg hvisible, if_neg hvisible]
    refine ⟨?_, fun _ => rfl⟩
    rintro ⟨-, -, -, hy, hx⟩
    simp only [Area.inner] at hy hx
    omega

/-- The place of a character is where it is drawn, and it is drawn nowhere else. -/
theorem drawsIn_iff (hrow : row < editor.lines.length)
    (hcolumn : column ≤ (editor.lineAt row).length)
    (hsingle : ∀ line ∈ editor.lines, ∀ d ∈ line, SingleCell d) {cell : Nat × Nat} :
    DrawsIn editor area row column cell ↔ CharPlace editor area row column cell.2 cell.1 := by
  have hpaints : ∀ c, SingleCell c → Paints (CharPlace editor area row column)
      ⟨c, Theme.sourceText⟩ (paneCell editor area)
      (paneCell (editor.overwrite row column c) area) :=
    fun c hc => paints_paneCell hrow hcolumn hsingle hc
  constructor
  · intro hdraws
    have ha : SingleCell 'a' := singleCell_iff.mpr (by decide)
    have hb : SingleCell 'b' := singleCell_iff.mpr (by decide)
    exact (hdraws 'a' ha).place_of_place (by simp) (hdraws 'b' hb) (hpaints 'a' ha)
      (hpaints 'b' hb) rfl
  · intro hplace c hc
    refine (hpaints c hc).congr fun y x => ⟨fun hplace' => ?_, ?_⟩
    · obtain ⟨-, -, -, hy, hx⟩ := hplace
      obtain ⟨-, -, -, hy', hx'⟩ := hplace'
      exact Prod.ext (hx'.trans hx.symm) (hy'.trans hy.symm)
    · rintro rfl
      exact hplace

/-! ## The cursor -/

theorem cursorPosition_eq_some_iff {cell : Nat × Nat} : cursorPosition editor area = some cell ↔
    cell.1 = area.inner.x + gutterWidth + editor.column ∧
      cell.2 = area.inner.y + editor.row - editorScroll editor area ∧
        cell.1 < area.inner.x + area.inner.width := by
  simp only [cursorPosition]
  split
  · rename_i hfits
    rw [Option.some_inj]
    constructor
    · rintro rfl
      exact ⟨rfl, rfl, hfits⟩
    · rintro ⟨hx, hy, -⟩
      exact Prod.ext hx.symm hy.symm
  · rename_i hfits
    refine ⟨fun h => (Option.some_ne_none _ h.symm).elim, ?_⟩
    rintro ⟨hx, -, hwidth⟩
    exact absurd (hx ▸ hwidth) hfits

/-- The pane shows the row of the cursor on the row of the cursor, as long as the scroll
position is not cut off, and does not show it otherwise. -/
theorem row_sub_scrollPosition_lt_iff (editor : Editor) (hheight : 0 < area.inner.height) :
    scrollPosition (editorScroll editor area) ≤ editor.row ∧
        editor.row - scrollPosition (editorScroll editor area) < area.inner.height ↔
      editorScroll editor area < 65536 := by
  simp only [scrollPosition, editorScroll]
  omega

/-- The place of the character at the cursor, seen from the cursor. -/
theorem charPlace_iff_of_cursorPosition (hheight : 0 < area.inner.height) {cell : Nat × Nat}
    (hcursor : cursorPosition editor area = some cell) {y x : Nat} :
    CharPlace editor area editor.row editor.column y x ↔
      editorScroll editor area < 65536 ∧ x = cell.1 + extraDigits (editor.row + 1) ∧
        y = cell.2 ∧ x < area.inner.x + area.inner.width := by
  have hshown := row_sub_scrollPosition_lt_iff editor hheight
  have hscroll : editorScroll editor area ≤ editor.row := Nat.sub_le _ _
  obtain ⟨hx, hy, -⟩ := cursorPosition_eq_some_iff.mp hcursor
  rw [hx, hy]
  simp only [CharPlace, length_gutter]
  -- a scroll position that is not cut off is the one that the cursor is placed by
  constructor
  · rintro ⟨hle, hlt, hwidth, rfl, rfl⟩
    have hwhole := hshown.mp ⟨hle, hlt⟩
    rw [scrollPosition, Nat.mod_eq_of_lt hwhole]
    omega
  · rintro ⟨hwhole, rfl, rfl, hwidth⟩
    obtain ⟨hle, hlt⟩ := hshown.mpr hwhole
    rw [scrollPosition, Nat.mod_eq_of_lt hwhole] at hle hlt ⊢
    omega

/-- The pane draws the character at the cursor in the row of the cursor, as many cells to the
right of it as the number of the line has digits that were not meant. -/
theorem drawsIn_iff_of_cursorPosition (hbounds : editor.InBounds)
    (hsingle : ∀ line ∈ editor.lines, ∀ c ∈ line, SingleCell c)
    (hheight : 0 < area.inner.height) {cell : Nat × Nat}
    (hcursor : cursorPosition editor area = some cell) (x y : Nat) :
    DrawsIn editor area editor.row editor.column (x, y) ↔
      editorScroll editor area < 65536 ∧ x = cell.1 + extraDigits (editor.row + 1) ∧
        y = cell.2 ∧ x < area.inner.x + area.inner.width := by
  rw [drawsIn_iff hbounds.row_lt hbounds.column_le hsingle,
    charPlace_iff_of_cursorPosition hheight hcursor]

/-- Where the cursor is shown, it is on the cell in which the pane draws the character in
its row and column, or would draw the next character of its line, exactly in the first 999
lines. In every line that character is drawn in the row of the cursor, as many cells to the
right as the number of the line has digits beyond three, if that is still in the pane. It is
drawn nowhere if the scroll position does not fit 16 bits. -/
theorem drawsIn_cursorPosition_iff {cell : Nat × Nat} (hbounds : editor.InBounds)
    (hsingle : ∀ line ∈ editor.lines, ∀ c ∈ line, SingleCell c)
    (hheight : 0 < area.inner.height) (hcursor : cursorPosition editor area = some cell) :
    (DrawsIn editor area editor.row editor.column cell ↔ editor.row < 999) ∧
      ∀ x y, DrawsIn editor area editor.row editor.column (x, y) ↔
        editorScroll editor area < 65536 ∧ x = cell.1 + extraDigits (editor.row + 1) ∧
          y = cell.2 ∧ x < area.inner.x + area.inner.width := by
  have hdraws := drawsIn_iff_of_cursorPosition hbounds hsingle hheight hcursor
  obtain ⟨-, -, hfits⟩ := cursorPosition_eq_some_iff.mp hcursor
  have hdigits : extraDigits (editor.row + 1) = 0 ↔ editor.row + 1 < 1000 :=
    extraDigits_eq_zero_iff
  refine ⟨(hdraws cell.1 cell.2).trans ⟨?_, fun hrow => ?_⟩, hdraws⟩
  · rintro ⟨-, hx, -, -⟩
    have hzero := hdigits.mp (by omega)
    omega
  · have hscroll : editorScroll editor area ≤ editor.row := Nat.sub_le _ _
    exact ⟨by omega, by rw [hdigits.mpr (by omega), Nat.add_zero], rfl, hfits⟩

/-- In a pane that has scrolled by one row, the cursor is on the last character of the last
line. -/
theorem drawsIn_cursorPosition_scrolled :
    let editor : Editor := { lines := [['a'], [], ['b', 'c']], row := 2, column := 1 }
    let area : Area := ⟨0, 1, 30, 4⟩
    editor.InBounds ∧ (∀ line ∈ editor.lines, ∀ c ∈ line, SingleCell c) ∧
      0 < area.inner.height ∧ cursorPosition editor area = some (6, 3) ∧
        DrawsIn editor area editor.row editor.column (6, 3) := by
  intro editor area
  have hbounds : editor.InBounds := ⟨by decide, by decide⟩
  have hsingle : ∀ line ∈ editor.lines, ∀ c ∈ line, SingleCell c := by
    simp [editor, singleCell_iff]
  have hcursor : cursorPosition editor area = some (6, 3) := by decide
  exact ⟨hbounds, hsingle, by decide, hcursor,
    (drawsIn_cursorPosition_iff hbounds hsingle (by decide) hcursor).1.mpr (by decide)⟩

/-- The cursor of a document may stand on its last line, whatever empty lines are in front. -/
theorem inBounds_replicate_append (empties : Nat) (line : List Char) {column : Nat}
    (hcolumn : column ≤ line.length) : Editor.InBounds
      { lines := List.replicate empties [] ++ [line], row := empties, column := column } := by
  refine ⟨?_, ?_⟩
  · rw [List.length_append, List.length_replicate, List.length_singleton]
    exact Nat.lt_succ_self empties
  · have hline : (List.replicate empties [] ++ [line])[empties]? = some line := by
      rw [List.getElem?_append_right (Nat.le_of_eq List.length_replicate),
        List.length_replicate, Nat.sub_self, List.getElem?_cons_zero]
    rw [Editor.current, Editor.lineAt, hline, Option.getD_some]
    exact hcolumn

/-- In line 1000 the number takes a cell more, and the cursor is on the character in front
of the one that it edits. -/
theorem drawsIn_cursorPosition_ne :
    let editor : Editor :=
      { lines := List.replicate 999 [] ++ [['a', 'b']], row := 999, column := 1 }
    let area : Area := ⟨0, 1, 30, 6⟩
    editor.InBounds ∧ (∀ line ∈ editor.lines, ∀ c ∈ line, SingleCell c) ∧
      0 < area.inner.height ∧ cursorPosition editor area = some (6, 5) ∧
        DrawsIn editor area editor.row editor.column (7, 5) ∧
          ¬ DrawsIn editor area editor.row editor.column (6, 5) := by
  intro editor area
  have hbounds : editor.InBounds := inBounds_replicate_append 999 ['a', 'b'] (by decide)
  have hsingle : ∀ line ∈ editor.lines, ∀ c ∈ line, SingleCell c := by
    intro line hline c hc
    rcases List.mem_append.mp hline with hline | hline
    · rw [List.eq_of_mem_replicate hline] at hc
      cases hc
    · obtain rfl := List.mem_singleton.mp hline
      exact singleCell_iff.mpr (by rintro rfl; simp at hc)
  have hcursor : cursorPosition editor area = some (6, 5) := by decide
  have hdraws : ∀ x y, DrawsIn editor area editor.row editor.column (x, y) ↔ x = 7 ∧ y = 5 := by
    intro x y
    have hdigits : extraDigits (editor.row + 1) = 1 := by decide
    rw [drawsIn_iff_of_cursorPosition hbounds hsingle (by decide) hcursor, hdigits]
    simp only [editorScroll, editor, area, Area.inner]
    omega
  exact ⟨hbounds, hsingle, by decide, hcursor, (hdraws 7 5).mpr ⟨rfl, rfl⟩,
    fun hdraw => absurd ((hdraws 6 5).mp hdraw).1 (by decide)⟩

end Screen

end Offside
