/-
# The prelude of a run

Running code stands on a few helpers of its own, written in the target syntax in
front of it:

* the formatter and `print`, which writes one line with a JSON string literal;
* the multi-value helper: one argument is returned as it is, several as an array;
* the table of modules behind `require`, one entry for each registered module and
  in it one for each export, every name written as a JSON string literal;
* `__unv_run`, which evaluates a code text with `require` and the multi-value
  helper as its parameters, the latter under the name that the options give it.
-/

import Offside.Run.Module
import Offside.Text.Quoted

namespace Offside.Prelude

/-- The lines in front of the module table. -/
def headLines : List String :=
  ["const __unv_format = (value) => \x7b",
    "  if (typeof value === \"string\") return JSON.stringify(value);",
    "  if (typeof value === \"function\") return \"[Function \" + " ++
      "(value.name || \"anonymous\") + \"]\";",
    "  if (value === undefined) return \"undefined\";",
    "  if (value === null || typeof value !== \"object\") return String(value);",
    "  if (value instanceof Error) return \"[\" + String(value) + \"]\";",
    "  try \x7b",
    "    return JSON.stringify(value, null, 2);",
    "  \x7d catch (error) \x7b",
    "    return String(value);",
    "  \x7d",
    "\x7d;",
    "const __unv_print = (...args) => \x7b",
    "  process.stdout.write(JSON.stringify(args.map(__unv_format).join(\" \")) + \"\\n\");",
    "\x7d;",
    "const __unv_assign = (...args) => (args.length == 1 ? args[0] : args);",
    "globalThis.print = __unv_print;"]

/-- The table line that opens a module. -/
def moduleLine (name : List Char) : List Char :=
  [' ', ' '] ++ Text.quote name ++ [':', ' ', '\x7b']

/-- The table line of an export. -/
def exportLine (name : List Char) (builtin : Builtin) : List Char :=
  [' ', ' ', ' ', ' '] ++ Text.quote name ++ [':', ' '] ++ builtin.source ++ [',']

/-- The table lines of a module. -/
def moduleLines (module : Module) : List (List Char) :=
  moduleLine module.name :: module.exports.map (fun e => exportLine e.1 e.2) ++
    ["  \x7d,".toList]

/-- The module table. -/
def tableLines (registry : Registry) : List (List Char) :=
  "const __unv_modules = \x7b".toList :: registry.modules.flatMap moduleLines ++ ["\x7d;".toList]

/-- The line that names the parameters of the evaluated code. -/
def parameterLine (helper : List Char) : List Char :=
  "    new Function(\"require\", ".toList ++ Text.quote helper ++
    ", code)(__unv_require, __unv_assign);".toList

/-- The lines of the function that runs a code text. -/
def runLines (helper : List Char) : List (List Char) :=
  ["const __unv_require = (path) => __unv_modules[path];".toList,
    "const __unv_run = (code) => \x7b".toList,
    "  try \x7b".toList,
    parameterLine helper,
    "  \x7d catch (error) \x7b".toList,
    "    process.stderr.write(String((error && error.stack) || error) + \"\\n\");".toList,
    "    process.exitCode = 1;".toList,
    "  \x7d".toList,
    "\x7d;".toList]

/-- The lines of the prelude. -/
def lines (registry : Registry) (helper : List Char) : List (List Char) :=
  headLines.map String.toList ++ tableLines registry ++ runLines helper

/-- The prelude as a text, every line with a line feed behind it. -/
def render (registry : Registry) (helper : List Char) : List Char :=
  (lines registry helper).flatMap (· ++ ['\n'])

end Offside.Prelude
