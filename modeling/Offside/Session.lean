/-
# Sessions

A session takes documents through every stage. A run never fails: whatever goes
wrong ends up in its report, behind what the program printed, and the outcome says
which stage stopped it. Runs are numbered from one; nothing else is carried from
one run to the next.
-/

import Offside.Run.Executor
import Offside.Transpile

namespace Offside

/-- Which stage ended a run. -/
inductive Outcome
  /-- None did. -/
  | completed
  /-- The generated code was rejected. -/
  | compileFailed
  /-- The unit failed while it ran. -/
  | runtimeFailed
  deriving DecidableEq, Repr

/-- The outcome's name in reports. -/
def Outcome.name : Outcome → String
  | completed => "completed"
  | compileFailed => "compile_failed"
  | runtimeFailed => "runtime_failed"

/-- What there is to say about a run. -/
structure Report where
  /-- The number of the run in its session. -/
  revision : Nat
  /-- Which stage ended it. -/
  outcome : Outcome
  /-- The generated code of the document. -/
  generated : List Char
  /-- What was printed, and behind it the error that ended the run. -/
  log : Log
  deriving DecidableEq, Repr

/-- No stage failed. -/
def Report.succeeded (report : Report) : Bool := report.outcome == .completed

/-- Something that compiles generated code. -/
structure Compiler where
  /-- Compile code under the given options. -/
  compile : CompileOptions → List Char → Except DelimiterError CodeUnit

/-- The compiler of this library. -/
def Compiler.standard : Compiler := ⟨Offside.compile⟩

/-- The stages that documents go through, and the number of runs so far. -/
structure Session where
  /-- The compile stage. -/
  compiler : Compiler := .standard
  /-- The run stage. -/
  executor : Executor
  /-- The modules that running code can load. -/
  registry : Registry := {}
  /-- What is set about the transformer. -/
  transpileOptions : TranspileOptions := {}
  /-- What is set about compiling. -/
  compileOptions : CompileOptions := {}
  /-- The number of the last run. -/
  revision : Nat := 0

namespace Session

/-- The generated code of a document. -/
def generate (session : Session) (source : List Char) : List Char :=
  transpile session.transpileOptions source

/-- Transform and compile a document without running it. -/
def compile (session : Session) (source : List Char) : Except DelimiterError CodeUnit :=
  session.compiler.compile session.compileOptions (session.generate source)

/-- The context in which the session's units run. -/
def context (session : Session) : RunContext :=
  ⟨session.registry, session.transpileOptions.assignHelper⟩

/-- The report of a run under a given number. -/
def report (session : Session) (revision : Nat) (source : List Char) : Report :=
  let generated := session.generate source
  match session.compile source with
  | .error error => ⟨revision, .compileFailed, generated, [error.message.toList]⟩
  | .ok unit =>
    let result := session.executor.run unit session.context
    match result.error with
    | none => ⟨revision, .completed, generated, result.printed⟩
    | some error => ⟨revision, .runtimeFailed, generated, result.printed.push error.message⟩

/-- Run a document: its report, and the session with one more run behind it. -/
def run (session : Session) (source : List Char) : Report × Session :=
  let next := { session with revision := session.revision + 1 }
  (next.report next.revision source, next)

end Session

end Offside
