/-
# Every state of the editor is well formed

An index that is out of range shows long after the step that left it there, and on a
line of one-byte characters it may never show. So this module says what a state has to
satisfy and proves it for every state that can be reached: the lines are those of the
text, the cursor stands in one of them, its offset is a boundary, and no key that comes
next goes out of range.

The one thing that has to be asked for is that no line feed is entered as a character.
It would stay inside its line, and the text would have more lines than the document.
-/

import Offside.Proofs.Editor.Bytes

namespace Offside

namespace Editor

/-- How the lines, the text, the cursor and its offset fit together. -/
structure WellFormed (editor : Editor) : Prop where
  lines_ne_nil : editor.lines ≠ []
  lines_eq : editor.lines = Text.splitLines editor.text
  row_lt : editor.row < editor.lines.length
  column_le : editor.column ≤ editor.current.length
  /-- The offset of the cursor lies between two characters of its line, or at an end. -/
  cursorByte : ∃ offset, editor.cursorByte? = some offset ∧
    Text.IsBoundary editor.current offset ∧ offset ≤ Text.byteLength editor.current
  /-- Whatever key comes next, nothing that it does on bytes is out of range. -/
  pressInBytes : ∀ key control,
    editor.pressInBytes? key control = some (editor.press key control)
  up : ∀ control, let next := (editor.press .up control).2
    ((editor.row = 0 ∧ next = editor) ∨ next.row + 1 = editor.row) ∧
      next.column ≤ next.current.length
  down : ∀ control, let next := (editor.press .down control).2
    ((editor.row + 1 = editor.lines.length ∧ next = editor) ∨ next.row = editor.row + 1) ∧
      next.column ≤ next.current.length

variable {editor next : Editor} {cut : Cut}

/-! ## Vertical moves -/

theorem moveToRow_cases (editor : Editor) (row : Nat) :
    (editor.lines.length ≤ row ∧ editor.moveToRow row = editor) ∨
      (editor.moveToRow row).row = row := by
  unfold moveToRow
  by_cases hrow : row < editor.lines.length
  · rw [if_pos hrow]
    exact .inr rfl
  · rw [if_neg hrow]
    exact .inl ⟨Nat.le_of_not_lt hrow, rfl⟩

theorem InBounds.moveUp_cases (hbounds : editor.InBounds) :
    (editor.row = 0 ∧ editor.moveUp = editor) ∨ editor.moveUp.row + 1 = editor.row := by
  have hlt := hbounds.row_lt
  unfold moveUp
  cases hrow : editor.row with
  | zero => exact .inl ⟨rfl, rfl⟩
  | succ row =>
      rcases editor.moveToRow_cases row with ⟨hle, -⟩ | hmoved
      · omega
      · exact .inr (congrArg (· + 1) hmoved)

theorem InBounds.moveDown_cases (hbounds : editor.InBounds) :
    (editor.row + 1 = editor.lines.length ∧ editor.moveDown = editor) ∨
      editor.moveDown.row = editor.row + 1 :=
  (editor.moveToRow_cases (editor.row + 1)).imp_left fun ⟨hle, heq⟩ =>
    ⟨Nat.le_antisymm hbounds.row_lt hle, heq⟩

/-! ## The lines are those of the text -/

/-- No line of the document has a line feed in it. -/
def FeedFree (editor : Editor) : Prop := '\n' ∉ editor.lines.flatten

theorem FeedFree.of_lines_eq (hfree : editor.FeedFree) (hlines : next.lines = editor.lines) :
    next.FeedFree := by
  rwa [FeedFree, hlines]

theorem InBounds.lines_ne_nil (hbounds : editor.InBounds) : editor.lines ≠ [] :=
  List.length_pos_iff.mp (Nat.zero_lt_of_lt hbounds.row_lt)

theorem FeedFree.lines_eq (hfree : editor.FeedFree) (hne : editor.lines ≠ []) :
    editor.lines = Text.splitLines editor.text := by
  have hpieces : ∀ line ∈ editor.lines, '\n' ∉ line := fun line hline hmem =>
    hfree (List.mem_flatten_of_mem hline hmem)
  exact (List.splitOn_intercalate '\n' hpieces hne).symm

theorem Shows.feedFree_iff (hshows : editor.Shows cut) : editor.FeedFree ↔
    '\n' ∉ cut.above.flatten ∧ '\n' ∉ cut.before ∧ '\n' ∉ cut.after ∧ '\n' ∉ cut.below.flatten := by
  rw [FeedFree, hshows.lines, Cut.lines, List.flatten_append, List.flatten_cons]
  simp only [List.mem_append, not_or, and_assoc]

theorem FeedFree.insert (hfree : editor.FeedFree) (hbounds : editor.InBounds) {text : List Char}
    (htext : '\n' ∉ text) : (editor.insert text).FeedFree := by
  have hshows := hbounds.shows
  obtain ⟨habove, hbefore, hafter, hbelow⟩ := hshows.feedFree_iff.mp hfree
  rw [(hshows.insert text).feedFree_iff, List.mem_append, not_or]
  exact ⟨habove, ⟨hbefore, htext⟩, hafter, hbelow⟩

theorem notMem_nextIndentation {head : List Char} (hhead : '\n' ∉ head) :
    '\n' ∉ nextIndentation head := by
  have hblanks : '\n' ∉ (Line.ofChars head).indentation := fun hmem =>
    hhead ((List.takeWhile_sublist Text.isBlank).mem hmem)
  simp only [nextIndentation]
  cases (Line.ofChars head).kind with
  | opener => simp [hblanks, indentUnit]
  | blank | statement => exact hblanks

theorem FeedFree.breakLine (hfree : editor.FeedFree) (hbounds : editor.InBounds) :
    editor.breakLine.FeedFree := by
  have hshows := hbounds.shows
  obtain ⟨habove, hbefore, hafter, hbelow⟩ := hshows.feedFree_iff.mp hfree
  rw [hshows.breakLine.feedFree_iff, List.flatten_append, List.mem_append, not_or,
    List.flatten_singleton]
  exact ⟨⟨habove, hbefore⟩, notMem_nextIndentation hbefore, hafter, hbelow⟩

theorem FeedFree.deleteBack? (hfree : editor.FeedFree) (hbounds : editor.InBounds)
    (hnext : editor.deleteBack? = some next) : next.FeedFree := by
  obtain ⟨cut, hshows⟩ := exists_shows_iff.mpr hbounds
  rw [hshows.feedFree_iff] at hfree
  rcases cut.front_cases with ⟨after, below, rfl⟩ | ⟨above, line, after, below, rfl⟩ |
    ⟨above, before, c, after, below, rfl⟩
  · rw [hshows.deleteBack?_eq_none] at hnext
    cases hnext
  · obtain ⟨other, hother, hshows'⟩ := hshows.deleteBack?_line
    obtain rfl := Option.some_inj.mp (hother.symm.trans hnext)
    simp only [List.flatten_append, List.mem_append, not_or, List.flatten_singleton] at hfree
    exact hshows'.feedFree_iff.mpr ⟨hfree.1.1, hfree.1.2, hfree.2.2⟩
  · obtain ⟨other, hother, hshows'⟩ := hshows.deleteBack?_concat
    obtain rfl := Option.some_inj.mp (hother.symm.trans hnext)
    simp only [List.mem_append, not_or] at hfree
    exact hshows'.feedFree_iff.mpr ⟨hfree.1, hfree.2.1.1, hfree.2.2⟩

/-- A line feed comes into a line only as a character that is entered. -/
theorem FeedFree.press (hfree : editor.FeedFree) (hbounds : editor.InBounds) {key : Key}
    {control : Bool} (hkey : key = .char '\n' → control = true) :
    (editor.press key control).2.FeedFree := by
  by_cases hbackspace : key = .backspace
  · subst hbackspace
    simp only [Editor.press]
    cases hnext : editor.deleteBack? with
    | none => exact hfree
    | some next => exact hfree.deleteBack? hbounds hnext
  by_cases htab : key = .tab
  · subst htab
    exact hfree.insert hbounds (by decide)
  by_cases henter : key = .enter
  · subst henter
    exact hfree.breakLine hbounds
  by_cases hchar : ∀ c, key = .char c → control = true
  · exact hfree.of_lines_eq (editor.press_of_not_edit hchar htab henter hbackspace).1
  · simp only [not_forall, Bool.not_eq_true] at hchar
    obtain ⟨c, rfl, rfl⟩ := hchar
    have hne : '\n' ≠ c := fun heq => Bool.false_ne_true (hkey (congrArg Key.char heq.symm))
    exact hfree.insert hbounds (by rwa [List.mem_singleton])

theorem FeedFree.handle (hfree : editor.FeedFree) (hbounds : editor.InBounds) {input : Input}
    (hinput : input ≠ .press (.char '\n') false) : (editor.handle input).FeedFree := by
  by_cases hpress : ∃ key control, input = .press key control
  · obtain ⟨key, control, rfl⟩ := hpress
    apply hfree.press hbounds
    rintro rfl
    cases control with
    | false => exact absurd rfl hinput
    | true => rfl
  · obtain ⟨report, status, heq⟩ := editor.handle_of_not_press (by simpa using hpress)
    rw [heq]
    exact hfree

theorem feedFree_ofDocument (document : List Char) (path : Option (List Char)) :
    (ofDocument document path).FeedFree := by
  intro hmem
  obtain ⟨line, hline, hmem⟩ := List.mem_flatten.mp hmem
  exact Text.separator_notMem_of_mem_splitOn hline hmem

theorem FeedFree.handleAll (hfree : editor.FeedFree) (hbounds : editor.InBounds)
    {inputs : List Input} (hinputs : .press (.char '\n') false ∉ inputs) :
    (editor.handleAll inputs).FeedFree := by
  induction inputs generalizing editor with
  | nil => exact hfree
  | cons input inputs ih =>
      rw [List.mem_cons, not_or] at hinputs
      exact ih (hfree.handle hbounds (Ne.symm hinputs.1)) (hbounds.handle input) hinputs.2

/-! ## Every state -/

/-- A state whose cursor stands in the document and whose lines hold no line feed is well
formed. -/
theorem InBounds.wellFormed (hbounds : editor.InBounds) (hfree : editor.FeedFree) :
    editor.WellFormed where
  lines_ne_nil := hbounds.lines_ne_nil
  lines_eq := hfree.lines_eq hbounds.lines_ne_nil
  row_lt := hbounds.row_lt
  column_le := hbounds.column_le
  cursorByte := by
    have hshows := hbounds.shows
    refine ⟨_, hshows.cursorByte?, ⟨_, _, hshows.current, rfl⟩, ?_⟩
    rw [hshows.current, Text.byteLength_append]
    exact Nat.le_add_right _ _
  pressInBytes := hbounds.pressInBytes?
  up control := ⟨hbounds.moveUp_cases, (hbounds.press .up control).column_le⟩
  down control := ⟨hbounds.moveDown_cases, (hbounds.press .down control).column_le⟩

/-- Every state that is reached without entering a line feed as a character is well
formed. -/
theorem handleAll_wellFormed (document : List Char) (path : Option (List Char))
    {inputs : List Input} (hinputs : .press (.char '\n') false ∉ inputs) :
    ((ofDocument document path).handleAll inputs).WellFormed :=
  (inBounds_handleAll document path inputs).wellFormed
    ((feedFree_ofDocument document path).handleAll (inBounds_ofDocument document path) hinputs)

/-- Behind the two bytes of an `é`, a line break and the way back over it. -/
theorem handleAll_wellFormed_multibyte :
    let inputs : List Input := [.press .end false, .press .enter false, .press .backspace true,
      .press (.char 'ü') false, .press .left false, .press .backspace false, .press .down false]
    .press (.char '\n') false ∉ inputs ∧
      ((ofDocument ['é', '\n', 'b'] none).handleAll inputs).WellFormed :=
  ⟨by simp, handleAll_wellFormed ['é', '\n', 'b'] none (by simp)⟩

end Editor

end Offside
