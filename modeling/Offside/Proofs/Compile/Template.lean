/-
# Lines inside a template

A template may span lines, but the extensions see one line at a time: whether a line is
edited depends on the line alone, not on what is open in front of it. So a line that lies
inside a template is edited whenever the same text would be edited in code, and only then it
is not the line of the compiled unit.

The two extensions cannot undo each other. Stripping takes colons away and keeps the first
letter of a line; lowering changes that letter. So a line comes through both unchanged only
if neither finds anything in it.
-/

import Offside.Proofs.Compile.Lines

namespace Offside

/-! ## Lines that are edited -/

namespace CompileOptions

variable (options : CompileOptions)

/-- An enabled extension finds something in the line: an annotation in its function head, an
annotation of the declaration that it begins with, or an import that fills it. -/
inductive Rewrites (line : List Char) : Prop
  /-- A function head with an annotation. -/
  | head (henabled : options.enabled .typescript = true) (htyped : Annotation.HasTypedHead line)
  /-- A declaration with an annotation. -/
  | declaration (henabled : options.enabled .typescript = true)
      (htyped : Annotation.cutTypedDeclaration? line ≠ none)
  /-- An import. -/
  | whole (henabled : options.enabled .imports = true) (himport : Require.import? line ≠ none)

variable {options} {line : List Char}

theorem lowerLine_of_not_rewrites (hnone : ¬ options.Rewrites line) :
    options.lowerLine line = line := by
  have hplain : (if options.enabled .typescript then Annotation.strip line else line) = line := by
    split
    · rename_i henabled
      refine Annotation.strip_eq_iff.mpr ⟨fun htyped => hnone (.head henabled htyped), ?_⟩
      by_contra htyped
      exact hnone (.declaration henabled htyped)
    · rfl
  simp only [lowerLine, hplain]
  split
  · rename_i henabled
    apply Require.lower_of_none
    by_contra himport
    exact hnone (.whole henabled himport)
  · rfl

/-- Where both extensions together give the line back, neither changed it. -/
theorem each_eq_of_lowerLine_eq (heq : options.lowerLine line = line) :
    (options.enabled .typescript = true → Annotation.strip line = line) ∧
      (options.enabled .imports = true → Require.import? line = none) := by
  by_cases htypes : options.enabled .typescript = true
  · by_cases himports : options.enabled .imports = true
    · -- Counting colons is no help here, since lowering adds some; the first letter decides.
      have hhead := Annotation.head?_trimStart_strip line
      simp only [lowerLine, htypes, himports, if_true] at heq
      obtain ⟨hstrip, himport⟩ := (Require.lower_eq_iff_of_head? hhead).mp heq
      exact ⟨fun _ => hstrip, fun _ => himport⟩
    · simp only [lowerLine, htypes, if_true, himports] at heq
      exact ⟨fun _ => heq, fun henabled => absurd henabled himports⟩
  · refine ⟨fun henabled => absurd henabled htypes, fun himports => ?_⟩
    simp only [lowerLine, htypes, himports, if_true] at heq
    exact Require.lower_eq_iff.mp heq

/-- A line stays as it is exactly if no enabled extension finds anything in it. -/
theorem lowerLine_eq_iff : options.lowerLine line = line ↔ ¬ options.Rewrites line := by
  refine ⟨fun heq hrewrites => ?_, lowerLine_of_not_rewrites⟩
  obtain ⟨hstrip, himport⟩ := each_eq_of_lowerLine_eq heq
  have huntyped := fun henabled => Annotation.strip_eq_iff.mp (hstrip henabled)
  cases hrewrites with
  | head henabled htyped => exact (huntyped henabled).1 htyped
  | declaration henabled htyped => exact htyped (huntyped henabled).2
  | whole henabled hsome => exact hsome (himport henabled)

end CompileOptions

/-! ## Lines inside a template -/

/-- Where the line with this index begins in a text: behind the lines in front of it, each
with its line feed. -/
def lineStart (code : List Char) (i : Nat) : Nat :=
  (((Text.splitLines code).take i).flatMap (· ++ ['\n'])).length

/-- The line with this index lies inside a template: the walk through the whole text has one
open behind the line feed in front of the line, and behind each character of the line. -/
def InTemplate (code : List Char) (i : Nat) (line : List Char) : Prop :=
  (Text.splitLines code)[i]? = some line ∧ 0 < i ∧
    ∀ s ∈ ((walk code).drop (lineStart code i - 1)).take (line.length + 1),
      s.after.openQuote = some '\x60'

instance (code : List Char) (i : Nat) (line : List Char) : Decidable (InTemplate code i line) :=
  inferInstanceAs (Decidable (_ ∧ _ ∧ _))

/-- A line that is not the first one stands behind a line feed, at its place in the text. -/
theorem exists_of_line {code line : List Char} {i : Nat}
    (hline : (Text.splitLines code)[i]? = some line) (hpos : 0 < i) :
    ∃ front back, code = front ++ '\n' :: (line ++ back) ∧ front.length + 1 = lineStart code i := by
  obtain ⟨hlt, hget⟩ := List.getElem?_eq_some_iff.mp hline
  have hne : (Text.splitLines code).take i ≠ [] := by
    intro hnil
    have hlength := congrArg List.length hnil
    rw [List.length_take, List.length_nil] at hlength
    omega
  -- The last of the lines in front ends in the line feed of the statement.
  obtain ⟨lines, last, hlines⟩ := (List.eq_nil_or_concat' _).resolve_left hne
  have hsplit : lines ++ [last] ++ line :: (Text.splitLines code).drop (i + 1) =
      Text.splitLines code := by
    rw [← hlines, ← hget, List.getElem_cons_drop, List.take_append_drop]
  obtain ⟨back, hback⟩ : ∃ back,
      ['\n'].intercalate (line :: (Text.splitLines code).drop (i + 1)) = line ++ back := by
    cases (Text.splitLines code).drop (i + 1) with
    | nil => exact ⟨[], by simp⟩
    | cons next later => exact ⟨_, by rw [List.intercalate_cons_cons, List.append_assoc]⟩
  refine ⟨lines.flatMap (· ++ ['\n']) ++ last, back, ?_, ?_⟩
  · have hcode : ['\n'].intercalate (Text.splitLines code) = code := List.intercalate_splitOn '\n'
    rw [← hsplit, intercalate_append_of_ne_nil _ (List.cons_ne_nil _ _), hback] at hcode
    rw [← hcode]
    simp
  · simp [lineStart, hlines]
    omega

/-- The steps of the walk that `InTemplate` speaks of are those over the line, and over the
line feed in front of it. -/
theorem map_char_of_line {code line : List Char} {i : Nat}
    (hline : (Text.splitLines code)[i]? = some line) (hpos : 0 < i) :
    (((walk code).drop (lineStart code i - 1)).take (line.length + 1)).map WalkStep.char =
      '\n' :: line := by
  obtain ⟨front, back, hcode, hstart⟩ := exists_of_line hline hpos
  rw [List.map_take, List.map_drop, walk, map_char_walkFrom, ← hstart, Nat.add_sub_cancel]
  conv_lhs => rw [hcode]
  rw [List.drop_left, List.take_succ_cons, List.take_left]

/-- Every line of a unit is what the enabled extensions make of the line in its place, and is
that line itself exactly if they find nothing in it. -/
theorem getElem?_of_compile {options : CompileOptions} {code : List Char} {unit : CodeUnit}
    (hcompile : compile options code = .ok unit) {i : Nat} {line : List Char}
    (hline : (Text.splitLines code)[i]? = some line) :
    (Text.splitLines unit.code)[i]? = some (options.lowerLine line) ∧
      ((Text.splitLines unit.code)[i]? = some line ↔ ¬ options.Rewrites line) := by
  have hunit : unit.code = options.lower code := by
    simp only [compile] at hcompile
    split at hcompile
    · rw [← Except.ok.inj hcompile]
    · cases hcompile
  have hget : (Text.splitLines unit.code)[i]? = some (options.lowerLine line) := by
    rw [hunit, options.splitLines_lower, List.getElem?_map, hline, Option.map_some]
  exact ⟨hget, by rw [hget, Option.some_inj, CompileOptions.lowerLine_eq_iff]⟩

/-- A line inside a template is edited as it would be in code. In a unit it is what the
enabled extensions make of the line alone; so it comes through unchanged exactly if it has,
for them, neither a function head nor a declaration with an annotation and is no import. -/
theorem compile_templateLine {options : CompileOptions} {code : List Char} {unit : CodeUnit}
    (hcompile : compile options code = .ok unit) {i : Nat} {line : List Char}
    (htemplate : InTemplate code i line) :
    (Text.splitLines unit.code)[i]? = some (options.lowerLine line) ∧
      ((Text.splitLines unit.code)[i]? = some line ↔ ¬ options.Rewrites line) :=
  getElem?_of_compile hcompile htemplate.1

/-- Of two lines inside a template, the one that reads as a declaration loses its
annotation. -/
theorem compile_templateLine_sample :
    let code := "x = \x60\nconst a: number = 0\nb: text\n\x60".toList
    let unit : CodeUnit :=
      ⟨"x = \x60\nconst a = 0\nb: text\n\x60".toList, [.typescript, .imports]⟩
    let typed := "const a: number = 0".toList
    let plain := "b: text".toList
    compile {} code = .ok unit ∧ InTemplate code 1 typed ∧ InTemplate code 2 plain ∧
      (Text.splitLines unit.code)[1]? = some (CompileOptions.lowerLine {} typed) ∧
      CompileOptions.Rewrites {} typed ∧ ¬ CompileOptions.Rewrites {} plain := by
  intro code unit typed plain
  have hcompile : compile {} code = .ok unit := by decide +kernel
  have htyped : InTemplate code 1 typed := by decide +kernel
  have hplain : InTemplate code 2 plain := by decide +kernel
  have hchanged : (Text.splitLines unit.code)[1]? ≠ some typed := by decide +kernel
  have hkept : (Text.splitLines unit.code)[2]? = some plain := by decide +kernel
  obtain ⟨hget, hiff⟩ := compile_templateLine hcompile htyped
  refine ⟨hcompile, htyped, hplain, hget, ?_, (compile_templateLine hcompile hplain).2.mp hkept⟩
  by_contra hnot
  exact hchanged (hiff.mpr hnot)

/-- An import inside a template becomes a call, although the code is accepted and stays
so. -/
theorem compile_templateLine_ne :
    ¬ ∀ (options : CompileOptions) (code line : List Char) (unit : CodeUnit) (i : Nat),
      validateDelimiters code = .ok () → compile options code = .ok unit →
        InTemplate code i line → (Text.splitLines unit.code)[i]? = some line := by
  intro hkeeps
  have hline := hkeeps {} "x = \x60\nimport 'm'\n\x60".toList "import 'm'".toList
    ⟨"x = \x60\nrequire('m');\n\x60".toList, [.typescript, .imports]⟩ 1
    (by decide +kernel) (by decide +kernel) (by decide +kernel)
  revert hline
  decide +kernel

end Offside
