/-
# Line endings do not matter

A source whose lines end in a carriage return and a line feed becomes the same code as one
whose lines end in a line feed alone, but for carriage returns. They are still there in the
generated code: at the ends of lines that are copied, and in string literals that ran over a
line end. Without them the two are equal, character by character. The line endings of a source
may even differ from line to line.

The sources are compared pass by pass. Scrubbed, they have the same lines up to carriage
returns; a line is blank, a header or a statement with them as without; and whatever is
written for it is the same but for them. Blocks are closed and opened alike, because the
indentation of a line that is not blank has no carriage return in it.
-/

import Offside.Proofs.Header.LineEnding
import Offside.Proofs.Scrub.LineEnding
import Offside.Proofs.Statement.LineEnding
import Offside.Transpile

namespace Offside

variable {raw raw' : List Char}

/-! ## Lines -/

namespace Line

theorem isBlank_ofChars (htexts : WithReturns true false raw raw') :
    (ofChars raw').isBlank = (ofChars raw).isBlank := htexts.trimStart.trimEnd.isEmpty_eq

/-- Lines that are not blank begin with the same blanks. -/
theorem alike_ofChars (htexts : WithReturns true false raw raw')
    (hblank : (ofChars raw).isBlank = false) : (ofChars raw).Alike (ofChars raw') where
  indentation := by
    refine htexts.takeWhile_isBlank rfl fun hnil => ?_
    have hcontent : (ofChars raw).content = [] := hnil
    rw [isBlank, hcontent] at hblank
    cases hblank
  returnFree hreturn := htexts.notMem.1 (List.takeWhile_subset _ hreturn)
  content := htexts.trimStart

theorem Alike.indent {line line' : Line} (halike : line.Alike line') :
    line'.indent = line.indent := congrArg List.length halike.indentation

/-- What a line is to the blocks does not depend on carriage returns. -/
theorem kind_alike (htexts : WithReturns true false raw raw') :
    ((ofChars raw).kind = .blank ∧ (ofChars raw').kind = .blank) ∨
      (ofChars raw).Alike (ofChars raw') ∧
        ((∃ header header', (ofChars raw).kind = .opener header ∧
            (ofChars raw').kind = .opener header' ∧ header.Alike header') ∨
          (ofChars raw).kind = .statement ∧ (ofChars raw').kind = .statement) := by
  unfold kind
  rw [isBlank_ofChars htexts]
  cases hblank : (ofChars raw).isBlank with
  | true => exact .inl ⟨rfl, rfl⟩
  | false =>
      have halike := alike_ofChars htexts hblank
      have hheaders := Header.ofContent?_alike halike.content
      refine .inr ⟨halike, ?_⟩
      simp only [Bool.false_eq_true, if_false]
      generalize Header.ofContent? (ofChars raw).content = found at hheaders ⊢
      generalize Header.ofContent? (ofChars raw').content = found' at hheaders ⊢
      cases hheaders with
      | some hheader => exact .inl ⟨_, _, rfl, rfl, hheader⟩
      | none => exact .inr ⟨rfl, rfl⟩

end Line

/-! ## Emission -/

theorem dropReturns_closingLine {block : Block} (hblock : '\r' ∉ block.indentation) :
    Text.dropReturns (closingLine block) = closingLine block := by
  have hbrace : '\r' ≠ '\x7d' := by decide
  exact Text.dropReturns_of_notMem (by simp [closingLine, hblock, hbrace])

theorem dropReturns_openingLine {indentation : List Char} {header header' : Header}
    (hindentation : '\r' ∉ indentation) (halike : header.Alike header') :
    Text.dropReturns (openingLine indentation header') = openingLine indentation header := by
  rw [openingLine, Text.dropReturns_append, Text.dropReturns_append, halike.dropReturns_render,
    Text.dropReturns_of_notMem hindentation,
    Text.dropReturns_of_notMem (show '\r' ∉ [' ', '\x7b'] by decide), openingLine]

theorem map_dropReturns_closingLine {blocks : List Block}
    (hblocks : ∀ block ∈ blocks, '\r' ∉ block.indentation) :
    (blocks.map closingLine).map Text.dropReturns = blocks.map closingLine := by
  rw [List.map_map]
  exact List.map_congr_left fun block hblock => dropReturns_closingLine (hblocks block hblock)

theorem dropReturns_finishLines (lines : List (List Char)) :
    Text.dropReturns (finishLines lines) = finishLines (lines.map Text.dropReturns) := by
  have hfeed : '\r' ∉ ['\n'] := by decide
  induction lines with
  | nil => rfl
  | cons line lines ih =>
      calc
        Text.dropReturns (finishLines (line :: lines)) =
            Text.dropReturns (line ++ ['\n'] ++ finishLines lines) := by
          rw [finishLines, List.flatMap_cons, finishLines]
        _ = Text.dropReturns line ++ ['\n'] ++ finishLines (lines.map Text.dropReturns) := by
          rw [Text.dropReturns_append, Text.dropReturns_append, Text.dropReturns_of_notMem hfeed,
            ih]
        _ = finishLines ((line :: lines).map Text.dropReturns) := by
          rw [List.map_cons, finishLines, finishLines, List.flatMap_cons]

/-- The lines of the two outputs are the same but for carriage returns. -/
theorem map_dropReturns_emitLines (options : TranspileOptions)
    (hhelper : '\r' ∉ options.assignHelper) {lines lines' : List (List Char)}
    (hlines : List.Forall₂ (WithReturns true false) lines lines') {stack : BlockStack}
    (hstack : ∀ block ∈ stack, '\r' ∉ block.indentation) :
    (emitLines options stack lines').map Text.dropReturns = emitLines options stack lines := by
  induction hlines generalizing stack with
  | nil =>
      unfold emitLines
      split
      · exact map_dropReturns_closingLine hstack
      · rfl
  | @cons raw raw' _ _ hraw _ ih =>
      have hclosed : ∀ level, ∀ block ∈ stack.closedBy level, '\r' ∉ block.indentation :=
        fun level block hblock => hstack block (List.takeWhile_subset _ hblock)
      have hleft : ∀ level, ∀ block ∈ stack.leftBy level, '\r' ∉ block.indentation :=
        fun level block hblock => hstack block (List.dropWhile_subset _ hblock)
      rcases Line.kind_alike hraw with ⟨hkind, hkind'⟩ |
        ⟨halike, ⟨header, header', hkind, hkind', hheader⟩ | ⟨hkind, hkind'⟩⟩
      · simp only [emitLines, hkind, hkind', List.map_cons, hraw.dropReturns_eq, ih hstack]
      · have hpushed : ∀ block ∈ (stack.leftBy (Line.ofChars raw).indent).push
            (Line.ofChars raw).indentation, '\r' ∉ block.indentation :=
          List.forall_mem_cons.mpr ⟨halike.returnFree, hleft _⟩
        simp only [emitLines, hkind, hkind', halike.indent, halike.indentation, List.map_append,
          List.map_cons, map_dropReturns_closingLine (hclosed _),
          dropReturns_openingLine halike.returnFree hheader, ih hpushed]
      · simp only [emitLines, hkind, hkind', halike.indent, List.map_append, List.map_cons,
          map_dropReturns_closingLine (hclosed _), halike.dropReturns_inTarget hhelper,
          ih (hleft _)]

/-- Line endings do not matter, whichever of the lines end in a carriage return. -/
theorem dropReturns_transpile (options : TranspileOptions) (hhelper : '\r' ∉ options.assignHelper)
    {source source' : List Char} (hadds : Text.AddsReturns source source') :
    Text.dropReturns (transpile options source') = transpile options source := by
  have hlines := (linesWithReturns_scrub hadds).forall₂_splitLines
  rw [transpile, dropReturns_finishLines,
    map_dropReturns_emitLines options hhelper hlines (by simp), transpile]

/-- Line endings do not matter. For every source without a carriage return and all options
whose helper has none, the source with a carriage return in front of every line feed becomes
the same code, but for carriage returns. -/
theorem transpile_addReturns (options : TranspileOptions) {source : List Char}
    (hsource : '\r' ∉ source) (hhelper : '\r' ∉ options.assignHelper) :
    Text.dropReturns (transpile options (Text.addReturns source)) = transpile options source :=
  dropReturns_transpile options hhelper (Text.addsReturns_addReturns hsource)

/-- Carriage returns behind an import, in a blank line, in a comment, behind an assignment, and
in two literals, one of which has a backslash in front of the line end. -/
theorem transpile_addReturns_sample :
    let source := "import a from 'b'\n\nif a: # c\n\tlocal d = '\\\n' + \"\n\";\n e".toList
    '\r' ∉ source ∧ '\r' ∉ ({} : TranspileOptions).assignHelper ∧
      transpile {} (Text.addReturns source) ≠ transpile {} source ∧
      Text.dropReturns (transpile {} (Text.addReturns source)) = transpile {} source := by
  intro source
  have hsource : '\r' ∉ source := by decide +kernel
  have hhelper : '\r' ∉ ({} : TranspileOptions).assignHelper := by decide
  exact ⟨hsource, hhelper, by decide +kernel, transpile_addReturns {} hsource hhelper⟩

end Offside
