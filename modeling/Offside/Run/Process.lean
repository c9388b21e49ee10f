/-
# What a process leaves behind

A script is run by a process, which leaves two byte streams and a way of ending.
The log is read off its standard output, line by line up to the first line that
is not UTF-8: a line that is a JSON string literal as a whole stands for the text
it denotes, any other line for itself. So whatever a program prints as literals
comes back exactly, line breaks included.

A failed process is explained by the first line of its standard error that is not
blank. A process that was stopped at its limit keeps what it printed before, and so
does one of which the system could not tell how it ended.
-/

import Offside.Run.Executor
import Offside.Text.Lines
import Offside.Text.Utf8

namespace Offside

/-- How a process ended. -/
inductive Ending
  /-- By itself, with status zero. -/
  | succeeded
  /-- By itself with another status, or by a signal. -/
  | failed
  /-- It was stopped at its limit. -/
  | stopped
  /-- The system failed to tell, for this reason. -/
  | unknown (reason : List Char)
  deriving DecidableEq, Repr

/-- What a process leaves behind. -/
structure ProcessRun where
  /-- The bytes on standard output. -/
  stdout : List UInt8 := []
  /-- The bytes on standard error. -/
  stderr : List UInt8 := []
  /-- How it ended. -/
  ending : Ending
  deriving DecidableEq, Repr

namespace ProcessRun

/-- Cut bytes into lines behind their line feeds; the last piece has none, and is
left out if it is empty. -/
def byteLines (bytes : List UInt8) : List (List UInt8) :=
  match (bytes.splitOn 10).reverse with
  | [] => []
  | last :: ended => if last.isEmpty then ended.reverse.map dropReturn
      else ended.reverse.map dropReturn ++ [last]
where
  /-- A carriage return in front of the line feed belongs to the ending. -/
  dropReturn (line : List UInt8) : List UInt8 :=
    if line.getLast? = some 13 then line.dropLast else line

/-- The texts at the front of a list of lines, up to the first that is not UTF-8. -/
def readable : List (List UInt8) → List (List Char)
  | [] => []
  | line :: rest =>
    match Text.ofUtf8? line with
    | some text => text :: readable rest
    | none => []

/-- The log entry of a line of output. -/
def entry (line : List Char) : List Char := (Text.unquote? line).getD line

/-- The log entries on standard output. -/
def printed (run : ProcessRun) : Log := (readable (byteLines run.stdout)).map entry

/-- The explanation when standard error has none. -/
def silentFailure : List Char := "node exited with an error".toList

/-- The explanation of a failure: the first line of standard error with something
other than blanks, trimmed. Bytes that are not UTF-8 explain nothing. -/
def complaint (run : ProcessRun) : List Char :=
  let text := (Text.ofUtf8? run.stderr).getD []
  (((Text.lines text).map Text.trim).find? (!·.isEmpty)).getD silentFailure

/-- The error that ended the process, which had `limit` milliseconds. -/
def error? (run : ProcessRun) (limit : Nat) : Option RunError :=
  match run.ending with
  | .succeeded => none
  | .failed => some (.thrown run.complaint)
  | .stopped => some (.timedOut limit)
  | .unknown reason => some (.io reason)

/-- The process as the run of a unit. -/
def result (run : ProcessRun) (limit : Nat) : RunResult := ⟨run.printed, run.error? limit⟩

end ProcessRun

end Offside
