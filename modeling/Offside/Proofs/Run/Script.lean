/-
# Nothing gets out of its string

A script is put together from texts that nobody has checked: the code, the name of the
multi-value helper, and the names of modules and of their exports. Each is written as a
string literal on one line of the script, and this module shows what that is good for: all
other text of a script is fixed, every module opens one line of the table and every export
takes one, the code takes the one line behind the prelude, and on each of these lines the
literal denotes its text and ends where it should, whatever the text holds.

`Text.HoldsLiteral` is about one such line and `ScriptLines` about all of them.
-/

import Mathlib.Data.List.Forall2
import Offside.Proofs.Text.Lines
import Offside.Proofs.Text.Quoted
import Offside.Run.Executor

namespace Offside

/-- The line holds a text as a literal, between two fixed parts. -/
def Text.HoldsLiteral (front text back line : List Char) : Prop :=
  ∃ literal, IsLiteralOf text literal ∧ line = front ++ literal ++ back

theorem Text.holdsLiteral_quote (front text back : List Char) :
    HoldsLiteral front text back (front ++ quote text ++ back) :=
  ⟨quote text, isLiteralOf_quote text, rfl⟩

/-- A line that holds a literal is one line, whatever the text. -/
theorem Text.HoldsLiteral.lineFeed_notMem {front text back line : List Char}
    (hholds : HoldsLiteral front text back line) (hfront : '\n' ∉ front) (hback : '\n' ∉ back) :
    '\n' ∉ line := by
  obtain ⟨literal, hliteral, rfl⟩ := hholds
  simp only [List.mem_append, not_or]
  exact ⟨⟨hfront, hliteral.lineFeed_notMem⟩, hback⟩

namespace Prelude

/-- The line holds the name of an export in front of its function. -/
def ShowsExport (e : List Char × Builtin) (line : List Char) : Prop :=
  Text.HoldsLiteral "    ".toList e.1 (": ".toList ++ e.2.source ++ ",".toList) line

/-- The table lines of a module: one line opens it with its name, one line follows for each
export, in order, and one closes it. -/
def ShowsModule (module : Module) (block : List (List Char)) : Prop :=
  ∃ opening exports, Text.HoldsLiteral "  ".toList module.name ": \x7b".toList opening ∧
    List.Forall₂ ShowsExport module.exports exports ∧
    block = opening :: exports ++ ["  \x7d,".toList]

/-- The line holds the name of the helper among the parameters of the evaluated code. -/
def ShowsParameter (helper line : List Char) : Prop :=
  Text.HoldsLiteral "    new Function(\"require\", ".toList helper
    ", code)(__unv_require, __unv_assign);".toList line

theorem showsExport_exportLine (e : List Char × Builtin) : ShowsExport e (exportLine e.1 e.2) := by
  have hline : exportLine e.1 e.2 =
      "    ".toList ++ Text.quote e.1 ++ (": ".toList ++ e.2.source ++ ",".toList) := by
    simp [exportLine]
  rw [hline]
  exact Text.holdsLiteral_quote _ _ _

theorem showsModule_moduleLines (module : Module) : ShowsModule module (moduleLines module) := by
  refine ⟨_, _, Text.holdsLiteral_quote _ _ _, ?_, rfl⟩
  rw [List.forall₂_map_right_iff, List.forall₂_same]
  exact fun e _ => showsExport_exportLine e

theorem showsParameter_parameterLine (helper : List Char) :
    ShowsParameter helper (parameterLine helper) := by
  unfold ShowsParameter parameterLine
  exact Text.holdsLiteral_quote _ _ _

/-! ## The lines of the prelude -/

/-- The line behind which the module table stands. -/
def tableOpening : List Char := "const __unv_modules = \x7b".toList

/-- Every line of the prelude is one line, since names are written as literals. -/
theorem lineFeed_notMem_lines (registry : Registry) (helper : List Char) :
    ∀ line ∈ lines registry helper, '\n' ∉ line := by
  have hhead : ∀ line ∈ headLines.map String.toList, '\n' ∉ line := by decide +kernel
  have hmodule : ∀ module : Module, ∀ line ∈ moduleLines module, '\n' ∉ line := by
    intro module
    rw [moduleLines, List.cons_append, List.forall_mem_cons, List.forall_mem_append]
    refine ⟨by simp [moduleLine, Text.lineFeed_notMem_quote], ?_, by decide⟩
    intro line hline
    obtain ⟨⟨name, builtin⟩, -, rfl⟩ := List.mem_map.mp hline
    have hsource : '\n' ∉ builtin.source := by cases builtin <;> decide
    simp [exportLine, Text.lineFeed_notMem_quote, hsource]
  have hparameter : '\n' ∉ parameterLine helper := by
    have hfront : '\n' ∉ "    new Function(\"require\", ".toList := by decide +kernel
    have hback : '\n' ∉ ", code)(__unv_require, __unv_assign);".toList := by decide +kernel
    unfold parameterLine
    simp only [List.mem_append, not_or]
    exact ⟨⟨hfront, Text.lineFeed_notMem_quote helper⟩, hback⟩
  rw [lines, tableLines, runLines]
  simp only [List.forall_mem_append, List.forall_mem_cons, List.forall_mem_flatMap]
  refine ⟨⟨hhead, ⟨by decide, fun module _ => hmodule module⟩, by decide⟩,
    by decide, by decide, by decide, hparameter, ?_⟩
  decide

theorem splitLines_render (registry : Registry) (helper : List Char) :
    Text.splitLines (render registry helper) = lines registry helper ++ [[]] :=
  Text.splitLines_flatMap (lineFeed_notMem_lines registry helper)

/-- The helper shows on one of the lines behind the table only. -/
theorem runLines_eq_set (helper : List Char) :
    runLines helper = (runLines []).set 3 (parameterLine helper) := rfl

end Prelude

/-! ## The lines of a script -/

/-- The lines of a script: the table lines of each module, the line that names the helper and
the line of the call hold their literals, and all others are fixed. -/
structure ScriptLines (context : RunContext) (code : List Char) (blocks : List (List (List Char)))
    (parameter call : List Char) : Prop where
  /-- Each module has its table lines, in order. -/
  blocks_show : List.Forall₂ Prelude.ShowsModule context.registry.modules blocks
  /-- The helper is named as a parameter. -/
  parameter_shows : Prelude.ShowsParameter context.helper parameter
  /-- The code is evaluated by the call. -/
  call_holds : Text.HoldsLiteral "__unv_run(".toList code ");".toList call
  /-- The prelude has these lines, each with a line feed behind it. -/
  prelude_eq : Text.splitLines (Prelude.render context.registry context.helper) =
    Prelude.headLines.map String.toList ++
      (Prelude.tableOpening :: blocks.flatten ++ ["\x7d;".toList]) ++
        (Prelude.runLines []).set 3 parameter ++ [[]]
  /-- The script is the prelude and the call, with a line feed behind it. -/
  script_eq : context.script code =
    Prelude.render context.registry context.helper ++ call ++ ['\n']
  /-- The call is one line. -/
  call_oneLine : '\n' ∉ call

/-- No name and no code breaks out of its string in a script. For every registry, helper and
code, the script is the prelude and one more line, the call with the code; and in the prelude
each module opens its table lines with its name, each of its exports takes one line behind
that, and the helper is named on the line that evaluates the code. On each of these lines the
text stands as a literal: one that denotes it, without a control character, and with no quote
between its first and its last character that is not escaped. -/
theorem RunContext.script_lines (context : RunContext) (code : List Char) :
    ∃ blocks parameter call, ScriptLines context code blocks parameter call := by
  have hcall : Text.HoldsLiteral "__unv_run(".toList code ");".toList
      ("__unv_run(".toList ++ Text.quote code ++ ");".toList) :=
    Text.holdsLiteral_quote _ _ _
  refine ⟨context.registry.modules.map Prelude.moduleLines, Prelude.parameterLine context.helper,
    _, ?_, Prelude.showsParameter_parameterLine context.helper, hcall, ?_, ?_,
    hcall.lineFeed_notMem (by decide) (by decide)⟩
  · rw [List.forall₂_map_right_iff, List.forall₂_same]
    exact fun module _ => Prelude.showsModule_moduleLines module
  · have hopening : "const __unv_modules = \x7b".toList = Prelude.tableOpening := rfl
    rw [Prelude.splitLines_render, Prelude.lines, Prelude.tableLines, hopening, List.flatMap_def,
      ← Prelude.runLines_eq_set]
  · have hclosing : [')', ';', '\n'] = ");".toList ++ ['\n'] := by decide
    unfold script callLine
    simp only [hclosing, List.append_assoc]

end Offside
