/-
# Generated code is balanced

When every line of the scrubbed source passes the check of delimiters by itself, the
generated code passes it as a whole. Each output line nests: a copied line and a
statement leave the open brackets as they are, a header leaves its brace open, and a
closing line takes one brace away. The braces follow the open headers of the layout
one for one, so at the end as many are open as there are blocks without an end.

The source has no `/`, since what a `/` means on a line could depend on the line
before it.
-/

import Mathlib.Data.List.GetD
import Offside.Proofs.Block.Layout
import Offside.Proofs.Header.Nesting
import Offside.Proofs.Statement.Nesting

namespace Offside

/-! ## Characters of the source and of its lines -/

/-- Scrubbing adds no character but those of an escaped line feed. -/
theorem mem_or_of_mem_scrub {source : List Char} {c : Char} (hc : c ∈ scrub source) :
    c ∈ source ∨ c = '\\' ∨ c = 'n' := by
  obtain ⟨token, htoken, hc⟩ := List.mem_flatMap.mp hc
  have hsource : ∀ d ∈ token.text, d ∈ source := by
    intro d hd
    rw [← flatMap_text_tokenize source]
    exact List.mem_flatMap.mpr ⟨token, htoken, hd⟩
  have hescaped : c ∈ token.text.flatMap escapeLineFeed → c ∈ source ∨ c = '\\' ∨ c = 'n' := by
    intro hc
    obtain ⟨d, hd, hc⟩ := List.mem_flatMap.mp hc
    unfold escapeLineFeed at hc
    split at hc
    · exact Or.inr (by simpa using hc)
    · rw [List.mem_singleton.mp hc]
      exact Or.inl (hsource d hd)
  unfold Token.scrubbed at hc
  split at hc
  · cases hc
  · exact Or.inl (hsource c hc)
  · exact hescaped hc
  · exact hescaped hc

theorem slash_notMem_line {source : List Char} (hslash : '/' ∉ source) {raw : List Char}
    (hraw : raw ∈ Text.splitLines (scrub source)) : '/' ∉ raw := by
  intro hmem
  rcases mem_or_of_mem_scrub (Text.mem_of_mem_splitOn hraw hmem) with hc | hc | hc
  · exact hslash hc
  · exact absurd hc (by decide)
  · exact absurd hc (by decide)

theorem slash_notMem_withNamedImport? {line : Line} {text : List Char}
    (himport : line.withNamedImport? = some text) (hslash : '/' ∉ line.raw) : '/' ∉ text := by
  intro hmem
  rcases mem_of_withNamedImport? himport hmem with hc | hc | hc
  · exact hslash hc
  · exact absurd hc (by decide)
  · exact absurd hc (by decide)

/-! ## What becomes of a line -/

theorem isInert_indentation (raw : List Char) :
    ∀ c ∈ (Line.ofChars raw).indentation, isInert c = true :=
  fun _ hc => isInert_of_isBlank (List.mem_takeWhile_imp hc)

theorem nests_content {raw : List Char} (hraw : Nests raw [] []) :
    Nests (Line.ofChars raw).content [] [] := by
  rw [← Line.raw_ofChars raw] at hraw
  exact hraw.of_append (nests_of_isInert (isInert_indentation raw) [])

/-- A line passes by itself, or is blank. -/
theorem nests_raw {raw : List Char} (hslash : '/' ∉ raw)
    (hvalid : (Line.ofChars raw).isBlank = false → validateDelimiters raw = .ok ()) :
    Nests raw [] [] := by
  cases hblank : (Line.ofChars raw).isBlank with
  | false => exact (validateDelimiters_eq_ok_iff_nests hslash).mp (hvalid hblank)
  | true =>
      have hempty : Text.trim raw = [] := List.isEmpty_iff.mp hblank
      refine nests_of_isInert (isInert_of_trim fun c hc => ?_) []
      rw [hempty] at hc
      cases hc

theorem ofContent?_of_kind_opener {line : Line} {header : Header}
    (hkind : line.kind = .opener header) : Header.ofContent? line.content = some header := by
  unfold Line.kind at hkind
  split at hkind
  · cases hkind
  · split at hkind
    · rename_i found hfound
      cases hkind
      exact hfound
    · cases hkind

theorem nests_inTarget {raw helper : List Char} (hraw : Nests raw [] [])
    (hhelper : ∀ c ∈ helper, isInert c = true)
    (himport : ∀ text ∈ (Line.ofChars raw).withNamedImport?, Nests text [] []) :
    Nests ((Line.ofChars raw).inTarget helper) [] [] := by
  unfold Line.inTarget
  cases hnames : (Line.ofChars raw).withNamedImport? with
  | some text => exact himport text hnames
  | none =>
      simp only [Line.withDeclaration?]
      cases hparse : Assignment.parse? (Line.ofChars raw).content with
      | some assignment =>
          have hnested := Assignment.nested_of_parse? hparse (nests_content hraw)
          exact hnested.render (isInert_indentation raw) hhelper
      | none =>
          rw [Option.map_none, Option.getD_none, Line.raw_ofChars]
          exact hraw

/-- A header leaves its brace open; any other line leaves the brackets as they are. -/
theorem nests_lineText {raw helper : List Char} (hraw : Nests raw [] [])
    (hhelper : ∀ c ∈ helper, isInert c = true)
    (himport : ∀ text ∈ (Line.ofChars raw).withNamedImport?, Nests text [] []) :
    Nests (Layout.lineText helper raw) []
      (if (Line.ofChars raw).isOpener then ['\x7b'] else []) := by
  unfold Layout.lineText Line.isOpener
  cases hkind : (Line.ofChars raw).kind with
  | blank => exact hraw
  | opener header =>
      have hheader := ofContent?_of_kind_opener hkind
      exact (Header.nested_of_ofContent? hheader (nests_content hraw)).openingLine
        (isInert_indentation raw)
  | statement => exact nests_inTarget hraw hhelper himport

/-! ## The marks of a layout -/

namespace Layout

variable {lines : List (List Char)} {helper : List Char}

/-- A mark with its line feed takes one open brace for every open header to one for
every header that is open behind it. -/
theorem nests_markText
    (hlines : ∀ index, Nests (lineText helper (lines.getD index [])) []
      (if (lineAt lines index).isOpener then ['\x7b'] else []))
    {mark : Mark} {opened opened' : List Nat} (hnest : nest lines opened mark = some opened') :
    Nests (markText lines helper mark ++ ['\n']) (List.replicate opened.length '\x7b')
      (List.replicate opened'.length '\x7b') := by
  have hlineFeed : ∀ brackets, Nests ['\n'] brackets brackets :=
    nests_of_isInert (isInert_of_all rfl)
  cases mark with
  | line index =>
      obtain rfl := Option.some_inj.mp hnest
      have hline := (hlines index).around (List.replicate opened.length '\x7b')
      refine hline.append ?_
      split
      · exact hlineFeed _
      · exact hlineFeed _
  | close header =>
      cases opened with
      | nil => cases hnest
      | cons inner outer =>
          obtain ⟨-, hnest⟩ := Option.ite_none_right_eq_some.mp hnest
          obtain rfl := Option.some_inj.mp hnest
          have hpair : closerOf? '\x7b' = some '\x7d' := rfl
          have hbrace := (nests_closer hpair).around (List.replicate outer.length '\x7b')
          have hindentation := nests_of_isInert (isInert_indentation (lines.getD header []))
            (List.replicate (outer.length + 1) '\x7b')
          exact (hindentation.append hbrace).append (hlineFeed _)

theorem nests_finishLines_marks
    (hlines : ∀ index, Nests (lineText helper (lines.getD index [])) []
      (if (lineAt lines index).isOpener then ['\x7b'] else []))
    {marks : List Mark} {opened opened' : List Nat}
    (hnest : marks.foldlM (nest lines) opened = some opened') :
    Nests (finishLines (marks.map (markText lines helper)))
      (List.replicate opened.length '\x7b') (List.replicate opened'.length '\x7b') := by
  induction marks generalizing opened with
  | nil =>
      obtain rfl : opened = opened' := by simpa using hnest
      exact nests_nil _
  | cons mark marks ih =>
      rw [List.foldlM_cons, Option.bind_eq_bind, Option.bind_eq_some_iff] at hnest
      obtain ⟨middle, hmark, hmarks⟩ := hnest
      exact (nests_markText hlines hmark).append (ih hmarks)

end Layout

/-! ## The whole output -/

/-- The brackets that the generated code leaves open: a brace for every block that is
still open, innermost first. -/
theorem nests_transpile (options : TranspileOptions) {source : List Char}
    (hslash : '/' ∉ source)
    (hhelper : ∀ c ∈ options.assignHelper, Assignment.isNamePart c = true)
    (hlines : ∀ raw ∈ Text.splitLines (scrub source),
      (Line.ofChars raw).isBlank = false → validateDelimiters raw = .ok ())
    (himports : ∀ raw ∈ Text.splitLines (scrub source),
      ∀ text ∈ (Line.ofChars raw).withNamedImport?, validateDelimiters text = .ok ()) :
    Nests (transpile options source) []
      (List.replicate (if options.flushOpenBlocks then []
        else Layout.endingAt (Text.splitLines (scrub source)) none).length '\x7b') := by
  have hinert : ∀ c ∈ options.assignHelper, isInert c = true :=
    fun c hc => Assignment.isInert_of_isNamePart (hhelper c hc)
  have hline : ∀ raw ∈ Text.splitLines (scrub source),
      Nests (Layout.lineText options.assignHelper raw) []
        (if (Line.ofChars raw).isOpener then ['\x7b'] else []) := by
    intro raw hraw
    have hline := slash_notMem_line hslash hraw
    refine nests_lineText (nests_raw hline (hlines raw hraw)) hinert fun text htext => ?_
    have hslash' := slash_notMem_withNamedImport? htext (by rwa [Line.raw_ofChars])
    exact (validateDelimiters_eq_ok_iff_nests hslash').mp (himports raw hraw text htext)
  rw [transpile, Layout.emitLines_eq_marks]
  refine Layout.nests_finishLines_marks (fun index => ?_) (Layout.foldlM_nest_marks _ _)
  by_cases hindex : index < (Text.splitLines (scrub source)).length
  · rw [Layout.lineAt, List.getD_eq_getElem _ _ hindex]
    exact hline _ (List.getElem_mem hindex)
  · rw [Layout.lineAt, List.getD_eq_default _ _ (by omega)]
    exact nests_nil []

/-- Generated code is balanced. For every source without a `/` and every assign helper
made of identifier characters, if each line of the scrubbed source that is not blank
passes the check of delimiters by itself, and each import line still does once its names
are in braces, then the generated code passes as a whole and has no brace open, where the
options close all blocks; where they do not, as many braces are open as there are blocks
without an end. -/
theorem transpile_balanced (options : TranspileOptions) (source : List Char)
    (hslash : '/' ∉ source)
    (hhelper : ∀ c ∈ options.assignHelper, Assignment.isNamePart c = true)
    (hlines : ∀ raw ∈ Text.splitLines (scrub source),
      (Line.ofChars raw).isBlank = false → validateDelimiters raw = .ok ())
    (himports : ∀ raw ∈ Text.splitLines (scrub source),
      ∀ text ∈ (Line.ofChars raw).withNamedImport?, validateDelimiters text = .ok ()) :
    (options.flushOpenBlocks = true →
      validateDelimiters (transpile options source) = .ok () ∧
        braceDepth (transpile options source) = some 0) ∧
    (options.flushOpenBlocks = false →
      braceDepth (transpile options source) =
        some (Layout.endingAt (Text.splitLines (scrub source)) none).length) := by
  have hnests := nests_transpile options hslash hhelper hlines himports
  constructor
  · intro hflush
    rw [if_pos hflush] at hnests
    exact ⟨(validateDelimiters_eq_ok_iff_nests hnests.slash).mpr hnests, hnests.braceDepth_eq⟩
  · intro hflush
    rw [if_neg (by simp [hflush])] at hnests
    rw [hnests.braceDepth_eq, List.count_replicate_self]

/-- An import, a header with a bracket in a literal, a list of targets and a line beside
the header. -/
theorem transpile_balanced_sample :
    let source := "import a, b from 'm'\nif f('\x7b')\n  local p, q = (a)\nb".toList
    (∀ raw ∈ Text.splitLines (scrub source),
      (Line.ofChars raw).isBlank = false → validateDelimiters raw = .ok ()) ∧
    (∀ raw ∈ Text.splitLines (scrub source),
      ∀ text ∈ (Line.ofChars raw).withNamedImport?, validateDelimiters text = .ok ()) ∧
    validateDelimiters (transpile {} source) = .ok () ∧
    braceDepth (transpile {} source) = some 0 := by
  intro source
  have hlines : ∀ raw ∈ Text.splitLines (scrub source),
      (Line.ofChars raw).isBlank = false → validateDelimiters raw = .ok () := by
    decide +kernel
  have himports : ∀ raw ∈ Text.splitLines (scrub source),
      ∀ text ∈ (Line.ofChars raw).withNamedImport?, validateDelimiters text = .ok () := by
    decide +kernel
  have hhelper : ∀ c ∈ assignHelper, Assignment.isNamePart c = true := List.all_eq_true.mp rfl
  have hbalanced := transpile_balanced {} source (by decide +kernel) hhelper hlines himports
  exact ⟨hlines, himports, hbalanced.1 rfl⟩

end Offside
