/-
# Files

The files that a command can see: those below its working directory, the programs
that are installed, and the directories on the way to both. A path is followed name by
name from the root or from the working directory, so it fails where the first of its
names cannot be followed, even if later ones lead back.

Contents are bytes, because a document need not be well-formed text.
-/

import Offside.Text.Lines
import Offside.Text.Utf8

namespace Offside

/-- Why a file cannot be read or written. -/
inductive FileError
  /-- There is no such file, or no such directory on the way to it. -/
  | missing
  /-- A name on the way is that of a file. -/
  | notDirectory
  /-- The path leads to a directory. -/
  | isDirectory
  /-- A name or the whole path is too long. -/
  | nameTooLong
  /-- The path holds a null character. -/
  | nullCharacter
  /-- The file's bytes are not UTF-8. -/
  | notUtf8
  deriving DecidableEq, Repr

/-- The error as it is shown. -/
def FileError.message : FileError → String
  | missing => "No such file or directory (os error 2)"
  | notDirectory => "Not a directory (os error 20)"
  | isDirectory => "Is a directory (os error 21)"
  | nameTooLong => "File name too long (os error 36)"
  | nullCharacter => "file name contained an unexpected NUL byte"
  | notUtf8 => "stream did not contain valid UTF-8"

/-- The names that lead from the root to a file or directory. -/
abbrev Location := List (List Char)

namespace Location

/-- A location, spelled with slashes. -/
def ofString (path : String) : Location :=
  (path.toList.splitOn '/').filter fun name => !name.isEmpty

/-- The directory that relative paths start from. -/
def working : Location := ofString "/tmp/work"

/-- Where a path starts: at the root if it begins with a slash. -/
def start (path : List Char) : Location := if path.head? = some '/' then [] else working

/-- The location that a path spells, if all of its names can be followed. -/
def ofPath (path : List Char) : Location :=
  (path.splitOn '/').foldl (fun location name =>
    if name = [] || name = ['.'] then location
    else if name = ['.', '.'] then location.dropLast
    else location ++ [name]) (start path)

end Location

/-- What a location holds. -/
inductive Entry
  /-- A directory. -/
  | directory (location : Location)
  /-- An ordinary file. -/
  | file (location : Location) (content : List UInt8)
  /-- An installed program. -/
  | program
  /-- A device without content. -/
  | device
  /-- Nothing, in a directory that exists; `slash` if a slash follows the name. -/
  | absent (location : Location) (slash : Bool)
  deriving DecidableEq, Repr

/-- The files that a command can see. -/
structure Files where
  /-- The contents of ordinary files. -/
  contents : List (Location × List UInt8) := []
  /-- Directories that need not lead to anything. -/
  directories : List Location := []
  /-- The installed programs. -/
  programs : List Location := []
  /-- The devices without content. -/
  devices : List Location := []
  deriving DecidableEq, Repr

namespace Files

/-- The location is that of a directory: the working directory, one on the way to it, or
one that leads to something else. -/
def isDirectory (files : Files) (location : Location) : Bool :=
  (Location.working :: files.directories).any (location.isPrefixOf ·) ||
    (files.contents.map Prod.fst ++ files.programs ++ files.devices).any fun inside =>
      location.isPrefixOf inside && location ≠ inside

/-- What a location holds. -/
def entryAt (files : Files) (location : Location) : Entry :=
  match files.contents.find? (·.1 = location) with
  | some (_, content) => .file location content
  | none =>
    if files.isDirectory location then .directory location
    else if files.devices.contains location then .device
    else if files.programs.contains location then .program
    else .absent location false

/-- Follow one more name of a path. An empty name stands behind a slash. -/
def follow (files : Files) (entry : Entry) (name : List Char) : Except FileError Entry :=
  match entry with
  | .directory location =>
    if name = [] || name = ['.'] then .ok entry
    else if name = ['.', '.'] then .ok (.directory location.dropLast)
    else if 255 < Text.byteLength name then .error .nameTooLong
    else .ok (files.entryAt (location ++ [name]))
  | .absent location _ => if name = [] then .ok (.absent location true) else .error .missing
  | .file _ _ | .program | .device => .error .notDirectory

/-- What a path leads to. The empty path leads nowhere. -/
def find (files : Files) (path : List Char) : Except FileError Entry :=
  if path.contains '\x00' then .error .nullCharacter
  else if path.isEmpty then .error .missing
  else if 4095 < Text.byteLength path then .error .nameTooLong
  else (path.splitOn '/').foldlM files.follow (.directory (Location.start path))

/-- There is something at the end of a path. -/
def contains (files : Files) (path : List Char) : Bool :=
  match files.find path with
  | .ok (.absent _ _) | .error _ => false
  | .ok _ => true

/-- The content of the ordinary file at the end of a path. -/
def content? (files : Files) (path : List Char) : Option (List UInt8) :=
  match files.find path with
  | .ok (.file _ content) => some content
  | _ => none

/-- The text of the file at the end of a path. Programs are not text. -/
def read (files : Files) (path : List Char) : Except FileError (List Char) := do
  match ← files.find path with
  | .directory _ => .error .isDirectory
  | .absent _ _ => .error .missing
  | .program => .error .notUtf8
  | .device => .ok []
  | .file _ content =>
    match Text.ofUtf8? content with
    | some text => .ok text
    | none => .error .notUtf8

/-- Put a file at a location, in the place of what is there. -/
def put (files : Files) (location : Location) (content : List UInt8) : Files :=
  { files with contents := (location, content) :: files.contents.filter (·.1 ≠ location) }

/-- Write a text to the file at the end of a path, which need not exist if its
directory does. -/
def write (files : Files) (path text : List Char) : Except FileError Files := do
  match ← files.find path with
  | .directory _ | .absent _ true => .error .isDirectory
  | .absent location false | .file location _ => .ok (files.put location (Text.toUtf8 text))
  | .program | .device => .ok files

end Files

end Offside
