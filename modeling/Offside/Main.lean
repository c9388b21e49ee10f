/-
# The program

The outer layer of the command line: it reads the files that the arguments name, has
the arguments answered, and prints the answer. It starts no processes, so there is no
program to run a document with.
-/

import Offside.Cli

namespace Offside.Main

/-- Add the file of a path to the files that commands can see, if there is one. -/
def addFile (files : Files) (path : List Char) : IO Files := do
  try
    let bytes ← IO.FS.readBinFile (String.ofList path)
    return files.put (Location.ofPath path) bytes.toList
  catch
    | .inappropriateType _ _ _ =>
      return { files with directories := Location.ofPath path :: files.directories }
    | _ => return files

/-- Answer the arguments of the program. -/
def answer (arguments : List (List Char)) : IO UInt32 := do
  let files ← (Cli.pathsOf arguments).foldlM addFile {}
  let result := Cli.run {} files arguments
  IO.print (String.ofList result.output)
  match result.complaintLine? with
  | some line => IO.eprintln (String.ofList line)
  | none => pure ()
  return result.status.toUInt32

end Offside.Main

def main (arguments : List String) : IO UInt32 :=
  Offside.Main.answer (arguments.map String.toList)
