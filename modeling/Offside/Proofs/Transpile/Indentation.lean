/-
# Only relative indentation matters

When all lines of a scrubbed source move to the right by the same blanks, so do all lines of
the generated code, closing lines included, and nothing else changes.

The two runs of the transformer are compared line by line. Their stacks hold the same blocks,
each behind the new blanks in one of them, `Block.indented`. A line closes the same blocks in
both, because its depth and theirs have grown by the same number; what a line is to the blocks
depends on its content alone; and every line that is written begins with the indentation of a
line that was read.
-/

import Offside.Proofs.Compile.Lines
import Offside.Proofs.Scrub.Indentation
import Offside.Proofs.Statement.LineEnding
import Offside.Proofs.Text.Lines
import Offside.Proofs.Transpile.Origin

namespace Offside

open Text (indentLine indentLines)

variable {indentation : List Char}

/-! ## Lines and blocks -/

/-- The line behind more blanks. -/
def Line.indented (indentation : List Char) (line : Line) : Line :=
  ⟨indentation ++ line.indentation, line.content⟩

/-- The block behind more blanks. -/
def Block.indented (indentation : List Char) (block : Block) : Block :=
  ⟨indentation ++ block.indentation⟩

namespace Line

theorem ofChars_append (hblank : ∀ c ∈ indentation, Text.isBlank c = true) (raw : List Char) :
    ofChars (indentation ++ raw) = (ofChars raw).indented indentation := by
  rw [ofChars, List.takeWhile_append_of_pos hblank, List.dropWhile_append_of_pos hblank]
  rfl

theorem isBlank_eq_allBlank (raw : List Char) : (ofChars raw).isBlank = Text.allBlank raw := by
  have hsplit : Text.allBlank raw =
      (Text.allBlank (raw.takeWhile Text.isBlank) && Text.allBlank (ofChars raw).content) := by
    rw [Text.allBlank, Text.allBlank, Text.allBlank, ← List.all_append]
    exact congrArg (List.all · Text.isBlank) List.takeWhile_append_dropWhile.symm
  have hfront : Text.allBlank (raw.takeWhile Text.isBlank) = true :=
    List.all_eq_true.mpr fun _ hc => List.mem_takeWhile_imp hc
  rw [hsplit, hfront, Bool.true_and, Bool.eq_iff_iff, isBlank, Text.trimEnd, List.isEmpty_iff,
    List.reverse_eq_nil_iff, List.dropWhile_eq_nil_iff, Text.allBlank, List.all_eq_true]
  simp

/-- A line that is not blank is indented. -/
theorem ofChars_indentLine (hblank : ∀ c ∈ indentation, Text.isBlank c = true) {raw : List Char}
    (hraw : (ofChars raw).isBlank = false) :
    ofChars (indentLine indentation raw) = (ofChars raw).indented indentation := by
  rw [isBlank_eq_allBlank] at hraw
  rw [indentLine, hraw, if_neg Bool.false_ne_true, ofChars_append hblank]

theorem inTarget_indented (line : Line) (helper : List Char) :
    (line.indented indentation).inTarget helper = indentation ++ line.inTarget helper := by
  have himport : (line.indented indentation).namedImport? = line.namedImport? := rfl
  simp only [inTarget, withNamedImport?_eq, withDeclaration?, himport]
  cases line.namedImport? with
  | some cut => simp [indented]
  | none =>
      cases hparse : Assignment.parse? line.content with
      | some assignment => simp [indented, hparse, Assignment.render]
      | none => simp [indented, hparse, raw]

end Line

/-! ## Written lines are not blank -/

theorem closingLine_indented (block : Block) :
    indentLine indentation (closingLine block) = closingLine (block.indented indentation) := by
  have hmem : '\x7d' ∈ closingLine block := by simp [closingLine]
  rw [Text.indentLine_of_mem hmem rfl]
  simp [closingLine, Block.indented]

theorem openingLine_indented (front : List Char) (header : Header) :
    indentLine indentation (openingLine front header) =
      openingLine (indentation ++ front) header := by
  have hmem : '\x7b' ∈ openingLine front header := by simp [openingLine]
  rw [Text.indentLine_of_mem hmem rfl]
  simp [openingLine]

theorem Line.exists_mem_inTarget {raw : List Char} (hraw : (Line.ofChars raw).isBlank = false)
    (helper : List Char) :
    ∃ c ∈ (Line.ofChars raw).inTarget helper, Text.isBlank c = false := by
  simp only [inTarget, withNamedImport?_eq, withDeclaration?]
  cases (ofChars raw).namedImport? with
  | some cut => exact ⟨'i', by simp, rfl⟩
  | none =>
      cases Assignment.parse? (ofChars raw).content with
      | some assignment => exact ⟨'=', by simp [Assignment.render], rfl⟩
      | none =>
          rw [isBlank_eq_allBlank] at hraw
          simp only [Option.map_none, Option.getD_none, raw_ofChars]
          simpa [Text.allBlank] using hraw

theorem inTarget_indentLine {raw : List Char} (hraw : (Line.ofChars raw).isBlank = false)
    (helper : List Char) :
    indentLine indentation ((Line.ofChars raw).inTarget helper) =
      ((Line.ofChars raw).indented indentation).inTarget helper := by
  obtain ⟨c, hmem, hc⟩ := Line.exists_mem_inTarget hraw helper
  rw [Text.indentLine_of_mem hmem hc, Line.inTarget_indented]

/-! ## The two stacks -/

namespace BlockStack

variable (indentation) in
/-- A line and a block that move together stay as deep to each other as they were. -/
theorem level_test_comp_indented (level : Nat) :
    (fun block : Block => decide (indentation.length + level ≤ block.level)) ∘
        Block.indented indentation = fun block => decide (level ≤ block.level) := by
  funext block
  exact decide_eq_decide.mpr (by simp [Block.level, Block.indented])

theorem closedBy_indented (stack : BlockStack) (level : Nat) :
    closedBy (stack.map (Block.indented indentation)) (indentation.length + level) =
      (stack.closedBy level).map (Block.indented indentation) := by
  rw [closedBy, List.takeWhile_map, level_test_comp_indented, closedBy]

theorem leftBy_indented (stack : BlockStack) (level : Nat) :
    leftBy (stack.map (Block.indented indentation)) (indentation.length + level) =
      (stack.leftBy level).map (Block.indented indentation) := by
  rw [leftBy, List.dropWhile_map, level_test_comp_indented, leftBy]

end BlockStack

theorem map_closingLine_indented (blocks : List Block) :
    (blocks.map (Block.indented indentation)).map closingLine =
      (blocks.map closingLine).map (indentLine indentation) := by
  rw [List.map_map, List.map_map]
  exact List.map_congr_left fun block _ => (closingLine_indented block).symm

/-- From stacks that differ by the blanks, the two runs write lines that differ by them. -/
theorem emitLines_indented (options : TranspileOptions)
    (hblank : ∀ c ∈ indentation, Text.isBlank c = true) (lines : List (List Char))
    (stack : BlockStack) :
    emitLines options (stack.map (Block.indented indentation))
        (lines.map (indentLine indentation)) =
      (emitLines options stack lines).map (indentLine indentation) := by
  induction lines generalizing stack with
  | nil =>
      rw [List.map_nil, emitLines, emitLines]
      split
      · exact map_closingLine_indented stack
      · rfl
  | cons raw lines ih =>
      rw [List.map_cons]
      cases hraw : (Line.ofChars raw).isBlank with
      | true =>
          have hkind : (Line.ofChars raw).kind = .blank := if_pos hraw
          rw [Line.isBlank_eq_allBlank] at hraw
          have hsame : indentLine indentation raw = raw := if_pos hraw
          simp only [emitLines, hsame, hkind, List.map_cons, ih]
      | false =>
          have hline := Line.ofChars_indentLine hblank hraw
          have hkind : (Line.ofChars (indentLine indentation raw)).kind =
              (Line.ofChars raw).kind := by
            rw [hline]
            rfl
          have hindent : (Line.ofChars (indentLine indentation raw)).indent =
              indentation.length + (Line.ofChars raw).indent := by
            rw [hline, Line.indent, Line.indented, List.length_append, Line.indent]
          simp only [emitLines, hkind, hindent, BlockStack.closedBy_indented,
            BlockStack.leftBy_indented, map_closingLine_indented]
          cases hkind : (Line.ofChars raw).kind with
          | blank =>
              rw [Line.isBlank_of_kind_blank hkind] at hraw
              cases hraw
          | opener header =>
              have hpush := ih ((stack.leftBy (Line.ofChars raw).indent).push
                (Line.ofChars raw).indentation)
              simp only [List.map_append, List.map_cons, openingLine_indented, ← hpush, hline]
              rfl
          | statement =>
              simp only [List.map_append, List.map_cons, inTarget_indentLine hraw, ih, hline]

/-! ## Written lines are single lines -/

theorem Header.lineFeed_notMem_render {content : List Char} (hcontent : '\n' ∉ content)
    {header : Header} (hheader : ofContent? content = some header) : '\n' ∉ header.render := by
  obtain ⟨-, gap, back, -, -, hpieces⟩ := exists_pieces hheader
  obtain ⟨hopening, hclosing⟩ := header.enclosed_mem
  have hadded : ∀ text ∈ [[], [' ', 'i', 'f', ' ', '('], [' '], [' ', '(']], '\n' ∉ text := by
    decide
  have hadded' : ∀ text ∈ [[], [')']], '\n' ∉ text := by decide
  rw [hpieces] at hcontent
  simp only [List.mem_append, not_or] at hcontent
  rw [header.render_eq]
  simp only [List.mem_append, not_or]
  exact ⟨⟨⟨hcontent.1, hadded _ hopening⟩, hcontent.2.2.1⟩, hadded' _ hclosing⟩

theorem Assignment.lineFeed_notMem_render {content : List Char} (hcontent : '\n' ∉ content)
    {assignment : Assignment} (hparse : parse? content = some assignment)
    {front helper : List Char} (hfront : '\n' ∉ front) (hhelper : '\n' ∉ helper) :
    '\n' ∉ assignment.render front helper := by
  have htargets := notMem_of_parse? hcontent hparse
  obtain ⟨-, before, blanks, back, -, -, -, hpieces⟩ := exists_pieces hparse
  have hexpression : '\n' ∉ assignment.expression := fun hmem => hcontent (by simp [hpieces, hmem])
  have hdeclaration : '\n' ∉ assignment.scope.declaration := by
    cases assignment.scope <;> decide
  have hchain : '\n' ∉ List.intercalate [' ', '=', ' '] (assignment.targets.map targetText) :=
    notMem_intercalate (by decide) (List.forall_mem_map.mpr fun target htarget =>
      notMem_targetText (by decide) (htargets target htarget))
  simp [render, hfront, hdeclaration, hchain, hhelper, hexpression]

/-- What becomes of a line is one line. -/
theorem Layout.lineFeed_notMem_lineText {raw helper : List Char} (hraw : '\n' ∉ raw)
    (hhelper : '\n' ∉ helper) : '\n' ∉ lineText helper raw := by
  have hfront : '\n' ∉ (Line.ofChars raw).indentation :=
    fun hmem => hraw (List.takeWhile_subset _ hmem)
  have hcontent : '\n' ∉ (Line.ofChars raw).content :=
    fun hmem => hraw (List.dropWhile_subset _ hmem)
  unfold lineText
  cases hkind : (Line.ofChars raw).kind with
  | blank => exact hraw
  | opener header =>
      have hheader := Header.lineFeed_notMem_render hcontent (ofContent?_of_kind_opener hkind)
      simp [hfront, hheader]
  | statement =>
      unfold Line.inTarget Line.withDeclaration?
      cases himport : (Line.ofChars raw).withNamedImport? with
      | some text =>
          intro hmem
          rcases mem_of_withNamedImport? himport hmem with hmem | hmem | hmem
          · rw [Line.raw_ofChars] at hmem
            exact hraw hmem
          · exact absurd hmem (by decide)
          · exact absurd hmem (by decide)
      | none =>
          cases hparse : Assignment.parse? (Line.ofChars raw).content with
          | some assignment => exact Assignment.lineFeed_notMem_render hcontent hparse hfront hhelper
          | none =>
              simp only [Option.map_none, Option.getD_none, Line.raw_ofChars]
              exact hraw

theorem lineFeed_notMem_emitLines {options : TranspileOptions}
    (hhelper : '\n' ∉ options.assignHelper) {lines : List (List Char)}
    (hlines : ∀ raw ∈ lines, '\n' ∉ raw) : ∀ line ∈ emitLines options [] lines, '\n' ∉ line := by
  have hline : ∀ index, '\n' ∉ lines.getD index [] := by
    intro index
    rw [List.getD_eq_getElem?_getD]
    cases hraw : lines[index]? with
    | none => simp
    | some raw => exact hlines raw (List.mem_of_getElem? hraw)
  rw [Layout.emitLines_eq_marks, List.forall_mem_map]
  intro mark _
  cases mark with
  | close header =>
      have hfront : '\n' ∉ (Layout.lineAt lines header).indentation :=
        fun hmem => hline header (List.takeWhile_subset _ hmem)
      simp [Layout.markText, hfront]
  | line index => exact Layout.lineFeed_notMem_lineText (hline index) hhelper

/-- The lines of a finished text are the lines that were written. -/
theorem indentLines_finishLines {lines : List (List Char)} (hlines : ∀ line ∈ lines, '\n' ∉ line) :
    indentLines indentation (finishLines lines) =
      finishLines (lines.map (indentLine indentation)) := by
  have hsplit : Text.splitLines (finishLines lines) = lines ++ [[]] :=
    Text.splitLines_flatMap hlines
  have hlast : indentLine indentation [] = [] := rfl
  rw [indentLines, perLine, hsplit, List.map_append, List.map_singleton, hlast, Text.joinLines,
    intercalate_append_of_ne_nil _ (List.cons_ne_nil _ _), List.intercalate_singleton,
    List.append_nil, finishLines]

/-- Only relative indentation matters. For every scrubbed source, all options whose helper is on
one line, and all blanks without a line feed: with the blanks in front of each line of the source
that is not blank, the generated code is what it was, with the blanks in front of each of its
lines that is not blank. -/
theorem transpile_indentLines (options : TranspileOptions)
    (hhelper : '\n' ∉ options.assignHelper) {source : List Char} (hscrub : scrub source = source)
    (hblank : ∀ c ∈ indentation, Text.isBlank c = true) (hfeed : '\n' ∉ indentation) :
    transpile options (indentLines indentation source) =
      indentLines indentation (transpile options source) := by
  have hlines : ∀ raw ∈ Text.splitLines source, '\n' ∉ raw :=
    fun _ => Text.separator_notMem_of_mem_splitOn
  have hindented : ∀ raw, '\n' ∉ raw → '\n' ∉ indentLine indentation raw := by
    intro raw hraw
    unfold indentLine
    split
    · exact hraw
    · simp [hfeed, hraw]
  calc
    transpile options (indentLines indentation source) =
        finishLines (emitLines options []
          ((Text.splitLines source).map (indentLine indentation))) := by
      rw [transpile, scrub_indentLines hblank hscrub, indentLines, splitLines_perLine hindented]
    _ = finishLines ((emitLines options [] (Text.splitLines source)).map
          (indentLine indentation)) := by
      exact congrArg finishLines (emitLines_indented options hblank _ [])
    _ = indentLines indentation (transpile options source) := by
      rw [transpile, hscrub, indentLines_finishLines (lineFeed_notMem_emitLines hhelper hlines)]

/-- A tab and an ideographic space in front of a block that a blank line interrupts, with a quote
that nothing closes and a backslash at the end of its line. -/
theorem transpile_indentLines_sample :
    let source := "if a:\n  b, c = it's \\\n \n  import d from e\nelse".toList
    let indentation := ['\t', '\u3000']
    '\n' ∉ ({} : TranspileOptions).assignHelper ∧ scrub source = source ∧
      (∀ c ∈ indentation, Text.isBlank c = true) ∧ '\n' ∉ indentation ∧
      transpile {} (indentLines indentation source) =
        indentLines indentation (transpile {} source) ∧
      transpile {} (indentLines indentation source) =
        ("\t\u3000if (a) \x7b\n\t\u3000  var [b, c] = $assign(it's \\)\n \n" ++
          "\t\u3000  import \x7bd\x7d from e\n\t\u3000\x7d\n\t\u3000else \x7b\n\t\u3000\x7d\n").toList := by
  intro source indentation
  have hhelper : '\n' ∉ ({} : TranspileOptions).assignHelper := by decide
  have hscrub : scrub source = source := by decide +kernel
  have hblank : ∀ c ∈ indentation, Text.isBlank c = true := List.all_eq_true.mp rfl
  have hfeed : '\n' ∉ indentation := by decide
  exact ⟨hhelper, hscrub, hblank, hfeed, transpile_indentLines {} hhelper hscrub hblank hfeed,
    by decide +kernel⟩

end Offside
