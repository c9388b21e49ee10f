/-
# Where blocks begin and end

The transformer meets the lines one at a time and only ever looks at the top of
its stack of open blocks. This module describes the same output from the lines as
a whole: the block of a header ends at the first later line that is not blank and
sits no deeper than the header, or at the end of the input.

The description is a list of marks, one for every line and one for every closing
brace. The main result says three things of it: the output is exactly the text of
the marks, the marks of lines count every line once and in order, and the marks
nest, so that a closing brace always belongs to the innermost open header.

What carries the proof is the list of headers that are open in front of a line.
It needs no invariant of its own: a header stays open only while later lines sit
deeper, so the open headers, innermost first, sit at strictly decreasing depths,
and closing from the top of a stack is the same as closing by depth.
-/

import Mathlib.Data.List.Basic
import Mathlib.Data.Nat.Init
import Offside.Transpile

namespace Offside

namespace Line

/-- The line opens a block. -/
def isOpener (line : Line) : Bool :=
  match line.kind with
  | .opener _ => true
  | .blank | .statement => false

/-- The line ends a block whose header sits at `depth`: it is not blank and sits
no deeper. -/
def endsBlock (line : Line) (depth : Nat) : Bool := !line.isBlank && decide (line.indent ≤ depth)

theorem isBlank_of_kind_blank {line : Line} (hkind : line.kind = .blank) : line.isBlank = true := by
  by_cases hblank : line.isBlank
  · exact hblank
  · rw [kind, if_neg hblank] at hkind
    split at hkind <;> cases hkind

theorem isBlank_of_kind_ne_blank {line : Line} (hkind : line.kind ≠ .blank) :
    line.isBlank = false := by
  rw [← Bool.not_eq_true]
  intro hblank
  exact hkind (if_pos hblank)

theorem isBlank_of_isOpener {line : Line} (hopener : line.isOpener) : line.isBlank = false := by
  apply isBlank_of_kind_ne_blank
  intro hkind
  simp [isOpener, hkind] at hopener

/-- A line that is not blank ends every block at its depth or deeper. -/
theorem endsBlock_eq_of_not_blank {line : Line} (hblank : line.isBlank = false) (depth : Nat) :
    line.endsBlock depth = decide (line.indent ≤ depth) := by
  simp [endsBlock, hblank]

theorem endsBlock_of_blank {line : Line} (hblank : line.isBlank = true) (depth : Nat) :
    line.endsBlock depth = false := by
  simp [endsBlock, hblank]

end Line

/-- One line of output: the closing brace of the block of line `header`, or what
becomes of line `index`. -/
inductive Mark
  | close (header : Nat)
  | line (index : Nat)
  deriving DecidableEq, Repr

namespace Layout

variable (lines : List (List Char))

/-- The line at an index, cut at its indentation. -/
def lineAt (index : Nat) : Line := Line.ofChars (lines.getD index [])

/-- Line `index` ends the block of line `header`, if that one still has a block. -/
def ends (header index : Nat) : Bool := (lineAt lines index).endsBlock (lineAt lines header).indent

/-- The index at which the block of line `header` ends: the first later line that
is not blank and sits no deeper. Without one the block runs to the end of input. -/
def blockEnd? (header : Nat) : Option Nat :=
  ((lines.drop (header + 1)).findIdx? fun raw =>
    (Line.ofChars raw).endsBlock (lineAt lines header).indent).map (header + 1 + ·)

/-- The headers whose blocks end at a line, or at the end of input, innermost first. -/
def endingAt (stop : Option Nat) : List Nat :=
  (List.range lines.length).reverse.filter fun header =>
    (lineAt lines header).isOpener && blockEnd? lines header == stop

/-- The marks at one line: the blocks that it ends, then the line itself. -/
def marksAt (index : Nat) : List Mark := (endingAt lines (some index)).map .close ++ [.line index]

/-- The marks behind the last line. -/
def finalMarks (flush : Bool) : List Mark :=
  if flush then (endingAt lines none).map .close else []

/-- The marks of all lines in order, then those behind the last line. -/
def marks (flush : Bool) : List Mark :=
  (List.range lines.length).flatMap (marksAt lines) ++ finalMarks lines flush

/-- What becomes of a line: a blank line is copied, a header gets its brace, and a
statement takes its target form. -/
def lineText (helper raw : List Char) : List Char :=
  match (Line.ofChars raw).kind with
  | .blank => raw
  | .opener header => (Line.ofChars raw).indentation ++ header.render ++ [' ', '\x7b']
  | .statement => (Line.ofChars raw).inTarget helper

/-- The text of a mark. A closing brace stands behind its header's indentation. -/
def markText (helper : List Char) : Mark → List Char
  | .close header => (lineAt lines header).indentation ++ ['\x7d']
  | .line index => lineText helper (lines.getD index [])

/-- The line that a mark stands for, if it stands for one. -/
def Mark.index? : Mark → Option Nat
  | .close _ => none
  | .line index => some index

/-- The open headers behind a mark, innermost first. A header opens its block, and
a closing brace has to belong to the innermost open header. -/
def nest (opened : List Nat) : Mark → Option (List Nat)
  | .line index => some (if (lineAt lines index).isOpener then index :: opened else opened)
  | .close header =>
    match opened with
    | [] => none
    | inner :: outer => if inner = header then some outer else none

/-- The headers in front of line `index` whose blocks do not end before it,
innermost first. -/
def openBefore (index : Nat) : List Nat :=
  (List.range index).reverse.filter fun header =>
    (lineAt lines header).isOpener && (blockEnd? lines header).all (index ≤ ·)

/-! ## Where a block ends -/

variable {lines}

/-- The lines that the search for an end looks at, under their indices. -/
theorem endsBlock_getElem_drop {header offset : Nat}
    (hoffset : offset < (lines.drop (header + 1)).length) :
    (Line.ofChars (lines.drop (header + 1))[offset]).endsBlock (lineAt lines header).indent =
      ends lines header (header + 1 + offset) := by
  have hindex : header + 1 + offset < lines.length := by
    rw [List.length_drop] at hoffset
    omega
  simp [ends, lineAt, List.getElem_drop, hindex]

theorem blockEnd?_eq_some_iff {header stop : Nat} :
    blockEnd? lines header = some stop ↔
      header < stop ∧ stop < lines.length ∧ ends lines header stop = true ∧
        ∀ index, header < index → index < stop → ends lines header index = false := by
  rw [blockEnd?, Option.map_eq_some_iff]
  simp only [List.findIdx?_eq_some_iff_getElem]
  constructor
  · rintro ⟨offset, ⟨hoffset, hstop, hbefore⟩, rfl⟩
    rw [endsBlock_getElem_drop] at hstop
    rw [List.length_drop] at hoffset
    refine ⟨by omega, by omega, hstop, fun index hlow hhigh => ?_⟩
    have hindex := hbefore (index - (header + 1)) (by omega)
    rw [endsBlock_getElem_drop, Nat.add_sub_cancel' (by omega)] at hindex
    simpa using hindex
  · rintro ⟨hlow, hhigh, hstop, hbefore⟩
    have hoffset : stop - (header + 1) < (lines.drop (header + 1)).length := by
      rw [List.length_drop]
      omega
    refine ⟨stop - (header + 1), ⟨hoffset, ?_, fun offset hless => ?_⟩, by omega⟩
    · rw [endsBlock_getElem_drop, Nat.add_sub_cancel' (by omega)]
      exact hstop
    · rw [endsBlock_getElem_drop, hbefore _ (by omega) (by omega)]
      simp

theorem blockEnd?_eq_none_iff {header : Nat} :
    blockEnd? lines header = none ↔
      ∀ index, header < index → index < lines.length → ends lines header index = false := by
  rw [blockEnd?, Option.map_eq_none_iff, List.findIdx?_eq_none_iff]
  constructor
  · intro hnone index hlow hhigh
    have hoffset : index - (header + 1) < (lines.drop (header + 1)).length := by
      rw [List.length_drop]
      omega
    have hindex := hnone _ (List.getElem_mem hoffset)
    rwa [endsBlock_getElem_drop, Nat.add_sub_cancel' (by omega)] at hindex
  · intro hnone raw hraw
    obtain ⟨offset, hoffset, rfl⟩ := List.getElem_of_mem hraw
    rw [endsBlock_getElem_drop]
    rw [List.length_drop] at hoffset
    exact hnone _ (by omega) (by omega)

/-- A block does not end before a line exactly when no line in between ends it. -/
theorem all_le_blockEnd?_iff {header index : Nat} (hindex : index ≤ lines.length) :
    (blockEnd? lines header).all (index ≤ ·) = true ↔
      ∀ between, header < between → between < index → ends lines header between = false := by
  cases hend : blockEnd? lines header with
  | none =>
      have hnone := blockEnd?_eq_none_iff.mp hend
      simpa using fun between hlow hhigh => hnone between hlow (by omega)
  | some stop =>
      obtain ⟨hlow, hhigh, hstop, hbefore⟩ := blockEnd?_eq_some_iff.mp hend
      simp only [Option.all_some, decide_eq_true_eq]
      constructor
      · intro hle between hfirst hsecond
        exact hbefore between hfirst (by omega)
      · intro hopen
        by_contra hlt
        have hfalse := hopen stop hlow (by omega)
        simp [hstop] at hfalse

/-! ## The headers that are open in front of a line -/

theorem mem_openBefore_iff {index header : Nat} (hindex : index ≤ lines.length) :
    header ∈ openBefore lines index ↔
      header < index ∧ (lineAt lines header).isOpener = true ∧
        ∀ between, header < between → between < index → ends lines header between = false := by
  simp [openBefore, all_le_blockEnd?_iff hindex]

/-- An open header sits deeper than every open header outside it: had it not, it
would have ended the outer block itself. -/
theorem pairwise_indent_openBefore {index : Nat} (hindex : index ≤ lines.length) :
    (openBefore lines index).Pairwise fun inner outer =>
      (lineAt lines outer).indent < (lineAt lines inner).indent := by
  have hsorted : (openBefore lines index).Pairwise (· > ·) := by
    apply List.Pairwise.filter
    rw [List.pairwise_reverse]
    exact List.pairwise_lt_range
  refine hsorted.imp_of_mem fun {inner outer} hinner houter hless => ?_
  obtain ⟨hbound, hopener, -⟩ := (mem_openBefore_iff hindex).mp hinner
  obtain ⟨-, -, hkept⟩ := (mem_openBefore_iff hindex).mp houter
  have hend := hkept inner hless hbound
  rw [ends, Line.endsBlock_eq_of_not_blank (Line.isBlank_of_isOpener hopener)] at hend
  simpa using hend

/-- The blocks that a line ends are those open headers that sit as deep as the
line or deeper. -/
theorem endingAt_some (index : Nat) (hindex : index < lines.length) :
    endingAt lines (some index) = (openBefore lines index).filter (ends lines · index) := by
  obtain ⟨later, hlength⟩ := Nat.exists_eq_add_of_le (Nat.le_of_lt hindex)
  have hlater : ((List.range later).map (index + ·)).reverse.filter (fun header =>
      (lineAt lines header).isOpener && blockEnd? lines header == some index) = [] := by
    rw [List.filter_eq_nil_iff]
    intro header hheader
    simp only [List.mem_reverse, List.mem_map] at hheader
    obtain ⟨offset, -, rfl⟩ := hheader
    simp only [Bool.and_eq_true, beq_iff_eq, not_and]
    intro _ hend
    exact absurd (blockEnd?_eq_some_iff.mp hend).1 (by omega)
  rw [endingAt, hlength, List.range_add, List.reverse_append, List.filter_append, hlater,
    List.nil_append, openBefore, List.filter_filter]
  apply List.filter_congr
  intro header hheader
  rw [List.mem_reverse, List.mem_range] at hheader
  rw [Bool.eq_iff_iff]
  simp only [Bool.and_eq_true, beq_iff_eq, all_le_blockEnd?_iff (Nat.le_of_lt hindex),
    blockEnd?_eq_some_iff]
  constructor
  · rintro ⟨hopener, -, -, hend, hbefore⟩
    exact ⟨hend, hopener, hbefore⟩
  · rintro ⟨hend, hopener, hbefore⟩
    exact ⟨hopener, hheader, hindex, hend, hbefore⟩

theorem endingAt_none :
    endingAt lines none = openBefore lines lines.length := by
  rw [endingAt, openBefore]
  apply List.filter_congr
  intro header _
  rw [Bool.eq_iff_iff]
  simp only [Bool.and_eq_true, beq_iff_eq, all_le_blockEnd?_iff (Nat.le_refl _),
    blockEnd?_eq_none_iff]

/-- What one line does to the open headers: those that it ends go, and a header
comes on top. -/
theorem openBefore_succ (index : Nat) (hindex : index < lines.length) :
    openBefore lines (index + 1) =
      (if (lineAt lines index).isOpener then [index] else []) ++
        (openBefore lines index).filter (!ends lines · index) := by
  have hself : (blockEnd? lines index).all (index + 1 ≤ ·) = true := by
    rw [all_le_blockEnd?_iff hindex]
    intro between hlow hhigh
    omega
  rw [openBefore, List.range_succ, List.reverse_append, List.reverse_singleton,
    List.singleton_append, List.filter_cons, hself, Bool.and_true, openBefore, List.filter_filter]
  have hkept : (List.range index).reverse.filter (fun header =>
      (lineAt lines header).isOpener && (blockEnd? lines header).all (index + 1 ≤ ·)) =
      (List.range index).reverse.filter (fun header => !ends lines header index &&
        ((lineAt lines header).isOpener && (blockEnd? lines header).all (index ≤ ·))) := by
    apply List.filter_congr
    intro header hheader
    rw [List.mem_reverse, List.mem_range] at hheader
    rw [Bool.eq_iff_iff]
    simp only [Bool.and_eq_true, Bool.not_eq_true', all_le_blockEnd?_iff hindex,
      all_le_blockEnd?_iff (Nat.le_of_lt hindex)]
    constructor
    · rintro ⟨hopener, hopen⟩
      exact ⟨hopen index hheader (by omega), hopener,
        fun between hlow hhigh => hopen between hlow (by omega)⟩
    · rintro ⟨hend, hopener, hopen⟩
      refine ⟨hopener, fun between hlow hhigh => ?_⟩
      by_cases hlast : between = index
      · rw [hlast]
        exact hend
      · exact hopen between hlow (by omega)
  rw [hkept]
  split <;> rfl

/-! ## The stack is the list of open headers -/

/-- Where the elements that satisfy `p` come first, the leading ones are all of them. -/
theorem takeWhile_eq_filter_of_pairwise {α : Type _} {p : α → Bool} {l : List α}
    (hfirst : l.Pairwise fun a b => p b = true → p a = true) : l.takeWhile p = l.filter p := by
  induction l with
  | nil => rfl
  | cons a l ih =>
      obtain ⟨hhead, htail⟩ := List.pairwise_cons.mp hfirst
      by_cases ha : p a
      · rw [List.takeWhile_cons_of_pos ha, List.filter_cons_of_pos ha, ih htail]
      · have hnone : l.filter p = [] :=
          List.filter_eq_nil_iff.mpr fun b hb hpb => ha (hhead b hb hpb)
        rw [List.takeWhile_cons_of_neg ha, List.filter_cons_of_neg ha, hnone]

theorem dropWhile_eq_filter_of_pairwise {α : Type _} {p : α → Bool} {l : List α}
    (hfirst : l.Pairwise fun a b => p b = true → p a = true) :
    l.dropWhile p = l.filter (!p ·) := by
  induction l with
  | nil => rfl
  | cons a l ih =>
      obtain ⟨hhead, htail⟩ := List.pairwise_cons.mp hfirst
      by_cases ha : p a
      · rw [List.dropWhile_cons_of_pos ha, List.filter_cons_of_neg (by simp [ha]), ih htail]
      · have hall : l.filter (!p ·) = l :=
          List.filter_eq_self.mpr fun b hb => by
            simpa using fun hpb => ha (hhead b hb hpb)
        rw [List.dropWhile_cons_of_neg ha, List.filter_cons_of_pos (by simp [ha]), hall]

/-- A line that ends an open block also ends the blocks inside it. -/
theorem pairwise_ends_openBefore {index : Nat} (hindex : index ≤ lines.length) :
    (openBefore lines index).Pairwise fun inner outer =>
      ends lines outer index = true → ends lines inner index = true := by
  refine (pairwise_indent_openBefore hindex).imp fun {inner outer} hless hend => ?_
  simp only [ends, Line.endsBlock, Bool.and_eq_true, decide_eq_true_eq] at hend ⊢
  exact ⟨hend.1, by omega⟩

/-- The blocks that a line ends are on top of those that it leaves open. -/
theorem endingAt_append_kept (index : Nat) (hindex : index < lines.length) :
    endingAt lines (some index) ++ (openBefore lines index).filter (!ends lines · index) =
      openBefore lines index := by
  have hfirst := pairwise_ends_openBefore (Nat.le_of_lt hindex)
  rw [endingAt_some index hindex, ← takeWhile_eq_filter_of_pairwise hfirst,
    ← dropWhile_eq_filter_of_pairwise hfirst, List.takeWhile_append_dropWhile]

variable (lines) in
/-- The block that a header opens. -/
def blockOf (header : Nat) : Block := ⟨(lineAt lines header).indentation⟩

variable (lines) in
/-- The stack of the transformer in front of a line. -/
def stackBefore (index : Nat) : BlockStack := (openBefore lines index).map (blockOf lines)

/-- A block is deep enough for a line to close it exactly when the line ends it. -/
theorem level_test_comp_blockOf {index : Nat} (hblank : (lineAt lines index).isBlank = false) :
    (fun block : Block => decide ((lineAt lines index).indent ≤ block.level)) ∘ blockOf lines =
      (ends lines · index) := by
  funext header
  exact (Line.endsBlock_eq_of_not_blank hblank _).symm

theorem closedBy_stackBefore (index : Nat) (hindex : index < lines.length)
    (hblank : (lineAt lines index).isBlank = false) :
    (stackBefore lines index).closedBy (lineAt lines index).indent =
      (endingAt lines (some index)).map (blockOf lines) := by
  rw [stackBefore, BlockStack.closedBy, List.takeWhile_map,
    level_test_comp_blockOf hblank,
    takeWhile_eq_filter_of_pairwise (pairwise_ends_openBefore (Nat.le_of_lt hindex)),
    endingAt_some index hindex]

theorem leftBy_stackBefore (index : Nat) (hindex : index < lines.length)
    (hblank : (lineAt lines index).isBlank = false) :
    (stackBefore lines index).leftBy (lineAt lines index).indent =
      ((openBefore lines index).filter (!ends lines · index)).map (blockOf lines) := by
  rw [stackBefore, BlockStack.leftBy, List.dropWhile_map,
    level_test_comp_blockOf hblank,
    dropWhile_eq_filter_of_pairwise (pairwise_ends_openBefore (Nat.le_of_lt hindex))]

/-! ## One line, then all of them -/

theorem map_closingLine_blockOf (helper : List Char) (headers : List Nat) :
    (headers.map (blockOf lines)).map closingLine =
      (headers.map Mark.close).map (markText lines helper) := by
  rw [List.map_map, List.map_map]
  rfl

theorem stackBefore_succ (index : Nat) (hindex : index < lines.length) :
    stackBefore lines (index + 1) =
      (if (lineAt lines index).isOpener then [blockOf lines index] else []) ++
        ((openBefore lines index).filter (!ends lines · index)).map (blockOf lines) := by
  rw [stackBefore, openBefore_succ index hindex, List.map_append]
  split <;> rfl

/-- One line of the transformer: it writes the marks at the line and goes on with
the stack in front of the next one. -/
theorem emitLines_stackBefore_cons (options : TranspileOptions) (index : Nat)
    (hindex : index < lines.length) (rest : List (List Char)) :
    emitLines options (stackBefore lines index) (lines.getD index [] :: rest) =
      (marksAt lines index).map (markText lines options.assignHelper) ++
        emitLines options (stackBefore lines (index + 1)) rest := by
  have hkept := stackBefore_succ index hindex
  simp only [marksAt, List.map_append, List.map_singleton, markText, lineText]
  rw [emitLines, ← lineAt]
  cases hkind : (lineAt lines index).kind with
  | blank =>
      have hblank := Line.isBlank_of_kind_blank hkind
      have hnone : ∀ header, ends lines header index = false :=
        fun header => Line.endsBlock_of_blank hblank _
      have hsame : stackBefore lines (index + 1) = stackBefore lines index := by
        rw [hkept]
        simp [Line.isOpener, hkind, hnone, stackBefore]
      simp [endingAt_some index hindex, hnone, hsame]
  | opener header =>
      have hblank : (lineAt lines index).isBlank = false :=
        Line.isBlank_of_kind_ne_blank (by simp [hkind])
      rw [closedBy_stackBefore index hindex hblank, leftBy_stackBefore index hindex hblank,
        map_closingLine_blockOf options.assignHelper, hkept]
      simp [Line.isOpener, hkind, openingLine, BlockStack.push, blockOf]
  | statement =>
      have hblank : (lineAt lines index).isBlank = false :=
        Line.isBlank_of_kind_ne_blank (by simp [hkind])
      rw [closedBy_stackBefore index hindex hblank, leftBy_stackBefore index hindex hblank,
        map_closingLine_blockOf options.assignHelper, hkept]
      simp [Line.isOpener, hkind]

variable (lines) in
/-- The marks from one line on. -/
def marksFrom (flush : Bool) (index : Nat) : List Mark :=
  (List.range' index (lines.length - index)).flatMap (marksAt lines) ++ finalMarks lines flush

theorem marksFrom_eq_append (flush : Bool) (index : Nat) (hindex : index < lines.length) :
    marksFrom lines flush index = marksAt lines index ++ marksFrom lines flush (index + 1) := by
  obtain ⟨later, hlater⟩ := Nat.exists_eq_add_of_lt hindex
  rw [marksFrom, marksFrom, show lines.length - index = later + 1 by omega,
    show lines.length - (index + 1) = later by omega, List.range'_succ, List.flatMap_cons,
    List.append_assoc]

theorem marksFrom_zero (flush : Bool) : marksFrom lines flush 0 = marks lines flush := by
  rw [marksFrom, marks, List.range_eq_range', Nat.sub_zero]

variable (lines) in
/-- From any line on, the transformer writes the marks from that line on. -/
theorem emitLines_stackBefore (options : TranspileOptions) (index : Nat)
    (hindex : index ≤ lines.length) :
    emitLines options (stackBefore lines index) (lines.drop index) =
      (marksFrom lines options.flushOpenBlocks index).map
        (markText lines options.assignHelper) := by
  induction hindex using Nat.decreasingInduction with
  | self =>
      rw [List.drop_length, emitLines, marksFrom, Nat.sub_self, finalMarks, endingAt_none,
        stackBefore, map_closingLine_blockOf options.assignHelper]
      split <;> rfl
  | of_succ index hindex ih =>
      have hline : lines[index] = lines.getD index [] := by simp [hindex]
      rw [List.drop_eq_getElem_cons hindex, hline, emitLines_stackBefore_cons options index hindex,
        ih, ← List.map_append, ← marksFrom_eq_append _ index hindex]

/-! ## The marks nest -/

variable (lines) in
/-- Closing the innermost headers one by one leaves those around them. -/
theorem foldlM_nest_close (closed kept : List Nat) :
    (closed.map Mark.close).foldlM (nest lines) (closed ++ kept) = some kept := by
  induction closed with
  | nil => rfl
  | cons header closed ih =>
      rw [List.map_cons, List.foldlM_cons, List.cons_append]
      simpa [nest] using ih

/-- The marks at a line take the open headers in front of it to those in front of
the next line. -/
theorem foldlM_nest_marksAt (index : Nat) (hindex : index < lines.length) :
    (marksAt lines index).foldlM (nest lines) (openBefore lines index) =
      some (openBefore lines (index + 1)) := by
  have hclose := foldlM_nest_close lines (endingAt lines (some index))
    ((openBefore lines index).filter (!ends lines · index))
  rw [endingAt_append_kept index hindex] at hclose
  rw [marksAt, List.foldlM_append, hclose, openBefore_succ index hindex]
  simp only [List.foldlM_cons, List.foldlM_nil, nest, Option.bind_eq_bind, Option.bind_some]
  split <;> rfl

variable (lines) in
theorem foldlM_nest_marksFrom (flush : Bool) (index : Nat) (hindex : index ≤ lines.length) :
    (marksFrom lines flush index).foldlM (nest lines) (openBefore lines index) =
      some (if flush then [] else endingAt lines none) := by
  induction hindex using Nat.decreasingInduction with
  | self =>
      rw [marksFrom, Nat.sub_self, ← endingAt_none, finalMarks]
      cases flush with
      | false => rfl
      | true =>
          have hclose := foldlM_nest_close lines (endingAt lines none) []
          rw [List.append_nil] at hclose
          simpa using hclose
  | of_succ index hindex ih =>
      rw [marksFrom_eq_append flush index hindex, List.foldlM_append,
        foldlM_nest_marksAt index hindex]
      exact ih

theorem filterMap_index?_marksAt (index : Nat) :
    (marksAt lines index).filterMap Mark.index? = [index] := by
  rw [marksAt, List.filterMap_append, List.filterMap_map]
  simp [Function.comp_def, Mark.index?]

theorem filterMap_index?_finalMarks (flush : Bool) :
    (finalMarks lines flush).filterMap Mark.index? = [] := by
  rw [finalMarks]
  split
  · rw [List.filterMap_map]
    simp [Function.comp_def, Mark.index?]
  · rfl

/-- The marks of lines name every line once and in order. -/
theorem filterMap_index?_marks (flush : Bool) :
    (marks lines flush).filterMap Mark.index? = List.range lines.length := by
  rw [marks, List.filterMap_append, filterMap_index?_finalMarks, List.append_nil,
    List.filterMap_flatMap]
  simp [filterMap_index?_marksAt]

variable (lines) in
/-- From an empty stack the transformer writes the marks of all lines. -/
theorem emitLines_eq_marks (options : TranspileOptions) :
    emitLines options [] lines =
      (marks lines options.flushOpenBlocks).map (markText lines options.assignHelper) := by
  have hemit := emitLines_stackBefore lines options 0 (Nat.zero_le _)
  rwa [marksFrom_zero] at hemit

variable (lines) in
/-- The marks nest, and leave open the endless blocks if the options do not close them. -/
theorem foldlM_nest_marks (flush : Bool) :
    (marks lines flush).foldlM (nest lines) [] =
      some (if flush then [] else endingAt lines none) := by
  have hnest := foldlM_nest_marksFrom lines flush 0 (Nat.zero_le _)
  rwa [marksFrom_zero] at hnest

/-- The generated text, read off the lines as a whole. For every source and all
options it is the text of the marks; the marks name each line of the scrubbed source
once and in order; and they nest, with every block closed at the end if the options
ask for it and exactly the endless blocks left open otherwise. -/
theorem transpile_eq_marks (options : TranspileOptions) (source : List Char) :
    let lines := Text.splitLines (scrub source)
    transpile options source =
        finishLines ((marks lines options.flushOpenBlocks).map
          (markText lines options.assignHelper)) ∧
      (marks lines options.flushOpenBlocks).filterMap Mark.index? = List.range lines.length ∧
      (marks lines options.flushOpenBlocks).foldlM (nest lines) [] =
        some (if options.flushOpenBlocks then [] else endingAt lines none) := by
  intro lines
  refine ⟨?_, filterMap_index?_marks _, foldlM_nest_marks lines _⟩
  exact congrArg finishLines (emitLines_eq_marks lines options)

end Layout

end Offside
