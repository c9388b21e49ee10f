/-
# Running a unit

An executor runs a compiled unit in a context and answers with what the run
printed and the error that ended it, if one did. The context holds all that the
running code can see besides itself: the registered modules and the name of the
multi-value helper.
-/

import Offside.Compile
import Offside.Run.Log
import Offside.Run.Prelude

namespace Offside

/-- Why a run ended early. -/
inductive RunError
  /-- The code failed; the message is the program's own. -/
  | thrown (message : List Char)
  /-- The run was stopped at its limit, in milliseconds. -/
  | timedOut (limit : Nat)
  /-- There is no program of this name to run the code with. -/
  | notFound (program : List Char)
  /-- The system failed to start the program or to follow it, for this reason. -/
  | io (reason : List Char)
  deriving DecidableEq, Repr

/-- The error as it is shown. -/
def RunError.message : RunError → List Char
  | thrown message => message
  | timedOut limit => s!"run timed out after {limit}ms".toList
  | notFound program => "could not find `".toList ++ program ++ ['\x60']
  | io reason => "io error: ".toList ++ reason

/-- What running code can see besides itself. -/
structure RunContext where
  /-- The modules that it can load. -/
  registry : Registry := {}
  /-- The name of the multi-value helper. -/
  helper : List Char
  deriving DecidableEq, Repr

/-- What a run came to. -/
structure RunResult where
  /-- The entries that the run printed, in order. -/
  printed : Log
  /-- The error that ended the run. -/
  error : Option RunError
  deriving DecidableEq, Repr

/-- Something that runs compiled units. -/
structure Executor where
  /-- Run a unit in a context. -/
  run : CodeUnit → RunContext → RunResult

namespace RunContext

/-- The line that evaluates a code text. The code is one JSON string literal, so
whatever it holds the line stays a single line. -/
def callLine (code : List Char) : List Char :=
  "__unv_run(".toList ++ Text.quote code ++ [')', ';', '\n']

/-- The whole script of a run: the prelude, then the call that evaluates the code. -/
def script (context : RunContext) (code : List Char) : List Char :=
  Prelude.render context.registry context.helper ++ callLine code

end RunContext

end Offside
