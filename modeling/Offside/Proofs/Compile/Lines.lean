/-
# Compiling keeps the lines

No extension introduces a line feed, so a compiled text has the lines of its source, each
changed for itself: the line with an index becomes what the enabled extensions make of that
line, whatever stands in the others. An error of the check speaks of the lowered text, and
therefore of the line of the source with the same number.
-/

import Offside.Compile
import Offside.Proofs.Compile.Require
import Offside.Proofs.Delimiter.Grammar

namespace Offside

/-! ## Lines of a text -/

namespace Text

/-- A text has one line more than it has line feeds. -/
theorem length_splitLines (text : List Char) :
    (splitLines text).length = text.count '\n' + 1 := by
  unfold splitLines
  induction text with
  | nil => rfl
  | cons c text ih =>
      rw [List.splitOn_cons_eq_if_modifyHead]
      split
      · rename_i hfeed
        rw [List.length_cons, ih, eq_of_beq hfeed, List.count_cons_self]
      · rename_i hfeed
        rw [List.length_modifyHead, ih, List.count_cons_of_ne (by simpa using hfeed)]

end Text

theorem splitLines_perLine {f : List Char → List Char}
    (hf : ∀ line, '\n' ∉ line → '\n' ∉ f line) (code : List Char) :
    Text.splitLines (perLine f code) = (Text.splitLines code).map f := by
  apply List.splitOn_intercalate
  · intro line hline
    obtain ⟨source, hsource, rfl⟩ := List.mem_map.mp hline
    exact hf source (Text.separator_notMem_of_mem_splitOn hsource)
  · rw [Ne, List.map_eq_nil_iff]
    exact List.splitOn_ne_nil _ _

/-! ## One line -/

namespace CompileOptions

/-- What the enabled extensions make of one line: annotations go first, and imports are
turned into calls then. -/
def lowerLine (options : CompileOptions) (line : List Char) : List Char :=
  let plain := if options.enabled .typescript then Annotation.strip line else line
  if options.enabled .imports then Require.lower plain else plain

variable (options : CompileOptions)

theorem splitLines_lower (code : List Char) :
    Text.splitLines (options.lower code) = (Text.splitLines code).map options.lowerLine := by
  have hstrip : ∀ code, Text.splitLines (perLine Annotation.strip code) =
      (Text.splitLines code).map Annotation.strip :=
    splitLines_perLine fun _ => Annotation.lineFeed_notMem_strip
  have hlower : ∀ code, Text.splitLines (perLine Require.lower code) =
      (Text.splitLines code).map Require.lower :=
    splitLines_perLine fun _ => Require.lineFeed_notMem_lower
  change _ = (Text.splitLines code).map fun line => options.lowerLine line
  cases htypes : options.enabled .typescript <;> cases himports : options.enabled .imports <;>
    simp [lower, lowerLine, htypes, himports, hstrip, hlower, Function.comp_def]

/-- A line that ends with its line feed is lowered as that line. -/
theorem lower_append_lineFeed {line : List Char} (hline : '\n' ∉ line) :
    options.lower (line ++ ['\n']) = options.lowerLine line ++ ['\n'] := by
  have hfeed : ∀ other ∈ [line, []], '\n' ∉ other := by simpa using hline
  have hsplit : Text.splitLines (['\n'].intercalate [line, []]) = [line, []] :=
    List.splitOn_intercalate '\n' hfeed (List.cons_ne_nil _ _)
  have hjoin : ∀ last : List Char, ['\n'].intercalate [last, []] = last ++ ['\n'] := by
    simp [List.intercalate_cons_cons]
  have hempty : options.lowerLine [] = [] := by
    unfold lowerLine
    split_ifs <;> rfl
  have hlines := options.splitLines_lower (line ++ ['\n'])
  rw [← hjoin line, hsplit, hjoin line, List.map_cons, List.map_singleton, hempty] at hlines
  calc
    options.lower (line ++ ['\n']) =
        ['\n'].intercalate (Text.splitLines (options.lower (line ++ ['\n']))) :=
      (List.intercalate_splitOn '\n').symm
    _ = ['\n'].intercalate [options.lowerLine line, []] := by rw [hlines]
    _ = options.lowerLine line ++ ['\n'] := hjoin _

end CompileOptions

/-! ## The line of an error -/

variable {code : List Char} {error : DelimiterError}

/-- The line of an error is the line behind some part of the walk. -/
theorem Blames.exists_lineBehind (hblames : Blames code error) :
    ∃ before after, walk code = before ++ after ∧ error.line = lineBehind before := by
  cases hblames with
  | unexpected hwalk | mismatched hwalk | unclosed hwalk => exact ⟨_, _, hwalk, rfl⟩
  | brokenLiteral hwalk _ _ hopened =>
      obtain ⟨before, opening, inner, rfl, -, -, hline⟩ := hopened
      exact ⟨before, _, hwalk.trans (List.append_assoc _ _ _), hline⟩
  | endlessLiteral _ _ hopened =>
      obtain ⟨before, opening, inner, hwalk, -, -, hline⟩ := hopened
      exact ⟨before, _, hwalk, hline⟩

/-- An error names one of the lines of its text. -/
theorem Blames.line_bounds (hblames : Blames code error) :
    1 ≤ error.line ∧ error.line ≤ (Text.splitLines code).length := by
  obtain ⟨before, after, hwalk, hline⟩ := hblames.exists_lineBehind
  have hcount : (walk code).countP (·.char == '\n') = code.count '\n' := by
    conv_rhs => rw [← map_char_walkFrom {} code]
    rw [List.count, List.countP_map]
    rfl
  rw [hwalk, List.countP_append] at hcount
  rw [hline, Text.length_splitLines, lineBehind]
  omega

/-- Compiling works line by line. Neither extension introduces a line feed. A unit has as many
lines as the code it was compiled from, and each is what the enabled extensions make of the
line in its place, alone. An error is the one that the check of the text lowered like this
reports, the first violation in it, and it names a line that both texts have: the line of the
lowered text that was blamed is what became of the line of the code with the same number. -/
theorem compile_lineByLine (options : CompileOptions) (code : List Char) :
    (∀ line, '\n' ∉ line → '\n' ∉ Annotation.strip line ∧ '\n' ∉ Require.lower line) ∧
    match compile options code with
    | .ok unit =>
        (Text.splitLines unit.code).length = (Text.splitLines code).length ∧
          Text.splitLines unit.code = (Text.splitLines code).map options.lowerLine
    | .error error =>
        Text.splitLines (options.lower code) = (Text.splitLines code).map options.lowerLine ∧
          validateDelimiters (options.lower code) = .error error ∧
          Blames (options.lower code) error ∧
          1 ≤ error.line ∧ error.line ≤ (Text.splitLines code).length ∧
          (Text.splitLines (options.lower code))[error.line - 1]? =
            (Text.splitLines code)[error.line - 1]?.map options.lowerLine := by
  have hlines := options.splitLines_lower code
  have hfeed : ∀ line, '\n' ∉ line → '\n' ∉ Annotation.strip line ∧ '\n' ∉ Require.lower line := by
    intro line hline
    have hstrip := Annotation.lineFeed_notMem_strip hline
    exact ⟨hstrip, Require.lineFeed_notMem_lower hline⟩
  refine ⟨hfeed, ?_⟩
  cases hcheck : validateDelimiters (options.lower code) with
  | ok =>
      simp only [compile, hcheck]
      exact ⟨by rw [hlines, List.length_map], hlines⟩
  | error error =>
      have hblames := blames_of_eq_error hcheck
      have hbounds := hblames.line_bounds
      rw [hlines, List.length_map] at hbounds
      simp only [compile, hcheck]
      exact ⟨hlines, trivial, hblames, hbounds.1, hbounds.2, by rw [hlines, List.getElem?_map]⟩

end Offside
