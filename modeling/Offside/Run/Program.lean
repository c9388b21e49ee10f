/-
# Programs that run scripts

A unit can be run by any program that takes the path of a script as its only argument.
The program finds the script of the run at that path, has nothing to read on standard
input, and must end within a limit. Whether it has ended is looked at every ten
milliseconds, so a limit takes effect at the next multiple of ten, and a program that
has ended by then was in time.

Which programs there are, and what their processes do, is not known here. A host stands
for both, and whatever is said about runs is said about every host.
-/

import Offside.Run.Process

namespace Offside

/-- A process that was started. Looks at it are numbered from zero. -/
structure Child where
  /-- What a look finds out: nothing as long as the process is running, and then whether
  it succeeded. The look may fail for a reason. -/
  status : (look : Nat) → Except (List Char) (Option Bool)
  /-- Stop the process at a look, which may fail for a reason. -/
  stop : (look : Nat) → Except (List Char) Unit := fun _ => .ok ()
  /-- The bytes on standard output, if the process has ended or was stopped at a look. -/
  stdout : (look : Nat) → List UInt8
  /-- The bytes on standard error, likewise. -/
  stderr : (look : Nat) → List UInt8

namespace Child

/-- Look at a process until it has ended, and stop it if it is still running when no
looks are left: the ending, and the last look. -/
def wait (child : Child) (left look : Nat) : Ending × Nat :=
  match child.status look with
  | .error reason => (.unknown reason, look)
  | .ok (some success) => (if success then .succeeded else .failed, look)
  | .ok none =>
    match left with
    | 0 =>
      match child.stop look with
      | .error reason => (.unknown reason, look)
      | .ok () => (.stopped, look)
    | left + 1 => child.wait left (look + 1)

/-- The time between two looks, in milliseconds. -/
def pollInterval : Nat := 10

/-- The number of looks that come before the limit. -/
def looksBefore (limit : Nat) : Nat := (limit + pollInterval - 1) / pollInterval

/-- What a process leaves behind that has so many milliseconds. -/
def finish (child : Child) (limit : Nat) : ProcessRun :=
  let (ending, look) := child.wait (looksBefore limit) 0
  { stdout := child.stdout look, stderr := child.stderr look, ending }

end Child

/-- The surroundings that programs are found and started in. -/
structure Host where
  /-- The path of the program with a name or path, if there is one. -/
  locate? : (program : List Char) → Option (List Char) := fun _ => none
  /-- Start the program at a path with a script. This fails for a reason if the script
  cannot be written or the program not be started. -/
  start : (path script : List Char) → Except (List Char) Child := fun _ _ => .error []

/-- A program that scripts are run with. -/
structure Program where
  /-- Its path. -/
  path : List Char
  /-- The limit of a run, in milliseconds. -/
  limit : Nat := 5000
  deriving DecidableEq, Repr

namespace Program

/-- The program with a name or path, if the host has one. -/
def locate (host : Host) (program : List Char) : Except RunError Program :=
  match host.locate? program with
  | some path => .ok { path }
  | none => .error (.notFound program)

/-- The executor that runs units with a program. Nothing is printed by a program that
does not start. -/
def executor (host : Host) (program : Program) : Executor where
  run unit context :=
    match host.start program.path (context.script unit.code) with
    | .ok child => (child.finish program.limit).result program.limit
    | .error reason => ⟨[], some (.io reason)⟩

end Program

end Offside
