/-
# Settings

What can be set about the transformer, about compiling and about running. Three
layers make up the settings in force: the built-in defaults, then settings files in
order, then single overrides in order. Files may leave out whatever they do not
change; keys that nothing reads are ignored.

A section may be written as a table or, with its fields in their usual order, as an
array. The fields of the first two sections have defaults of their own, so they may
be missing even from a section that was replaced; those of the third may not.
-/

import Offside.Compile
import Offside.Settings.Toml
import Offside.Transpile

namespace Offside

/-- Why settings cannot be put together. -/
inductive SettingsError
  /-- A settings file that has to be there is not. -/
  | missingFile
  /-- A settings file is not a TOML document. -/
  | malformedFile
  /-- The path of an override cannot be read. -/
  | malformedPath
  /-- A value cannot be converted to what its field holds. -/
  | unsuitableValue
  /-- A section, a list or a name is not of the form that its field asks for, or a
  field is missing. -/
  | unsuitableForm
  deriving DecidableEq, Repr

/-- What can be set about running. -/
structure RuntimeOptions where
  /-- The name or path of the program that runs the scripts. -/
  node : List Char := "node".toList
  /-- The time that a run may take, in milliseconds. -/
  timeoutMs : Nat := 5000
  deriving DecidableEq, Repr

/-- The settings in force. -/
structure Settings where
  /-- About the transformer. -/
  transpile : TranspileOptions := {}
  /-- About compiling. -/
  compile : CompileOptions := {}
  /-- About running. -/
  runtime : RuntimeOptions := {}
  deriving DecidableEq, Repr

namespace Settings

/-- A settings file: its text, if there is such a file, and whether it may be
missing. -/
structure File where
  /-- The text, if the file exists. -/
  text : Option (List Char)
  /-- The file may be missing. -/
  optional : Bool
  deriving DecidableEq, Repr

/-- The built-in defaults. -/
def defaults : Value :=
  .table [
    ("transpile".toList, .table [("flush_open_blocks".toList, .bool true),
      ("assign_helper".toList, .string assignHelper)]),
    ("compile".toList, .table [("extensions".toList,
      .list [.string "typescript".toList, .string "imports".toList])]),
    ("runtime".toList, .table [("node".toList, .string "node".toList),
      ("timeout_ms".toList, .int 5000)])]

/-- Layer a document over a root: its top-level keys are paths where they can be
read as such. -/
def layer (root document : Value) : Value :=
  document.entries.foldl (fun root (key, value) =>
    Path.set ((Path.parse? key).getD [.key key]) value (some root)) root

/-- The root after a settings file. -/
def layerFile (root : Value) (file : File) : Except SettingsError Value :=
  match file.text with
  | none => if file.optional then .ok root else .error .missingFile
  | some text =>
    match Toml.parse? text with
    | some document => .ok (layer root document)
    | none => .error .malformedFile

/-! ## Reading sections -/

/-- A field of a section, by name in a table and by position in an array. -/
def fieldOf? (part : Value) (name : String) (position : Nat) : Option Value :=
  match part with
  | .list items => items[position]?
  | other => other.get? name.toList

/-- A section by its name; it must be a table or an array. -/
def sectionOf (root : Value) (name : String) : Except SettingsError Value :=
  match root.get? name.toList with
  | some (.table entries) => .ok (.table entries)
  | some (.list items) => .ok (.list items)
  | _ => .error .unsuitableForm

/-- A converted field, or its default where it is missing. -/
def read {α : Type} (field : Option Value) (convert : Value → Except SettingsError α)
    (default : Option α) : Except SettingsError α :=
  match field, default with
  | some value, _ => convert value
  | none, some value => .ok value
  | none, none => .error .unsuitableForm

/-- A conversion that fails on unsuitable values. -/
def converting {α : Type} (convert : Value → Option α) (value : Value) : Except SettingsError α :=
  match convert value with
  | some a => .ok a
  | none => .error .unsuitableValue

/-- The extension that an item of the list names, in either case: by a text, or by
the key of a table with one entry. -/
def extensionOf (item : Value) : Except SettingsError Extension :=
  let named (name : List Char) : Except SettingsError Extension :=
    match Extension.ofName? (String.ofList (lowerKey name)) with
    | some extension => .ok extension
    | none => .error .unsuitableForm
  match item with
  | .string name => named name
  | .table [(name, _)] => named name
  | _ => .error .unsuitableForm

/-- The list of extensions. -/
def extensionsOf : Value → Except SettingsError (List Extension)
  | .list items => items.mapM extensionOf
  | _ => .error .unsuitableForm

/-- The section about the transformer. -/
def transpileOf (part : Value) : Except SettingsError TranspileOptions := do
  let defaults : TranspileOptions := {}
  let flush ← read (fieldOf? part "flush_open_blocks" 0) (converting Value.toBool?)
    (some defaults.flushOpenBlocks)
  let helper ← read (fieldOf? part "assign_helper" 1) (converting Value.toText?)
    (some defaults.assignHelper)
  return ⟨flush, helper⟩

/-- The section about compiling. -/
def compileOf (part : Value) : Except SettingsError CompileOptions := do
  let defaults : CompileOptions := {}
  return ⟨← read (fieldOf? part "extensions" 0) extensionsOf (some defaults.extensions)⟩

/-- The section about running. -/
def runtimeOf (part : Value) : Except SettingsError RuntimeOptions := do
  let node ← read (fieldOf? part "node" 0) (converting Value.toText?) none
  let timeoutMs ← read (fieldOf? part "timeout_ms" 1) (converting Value.toNat?) none
  return ⟨node, timeoutMs⟩

/-- The settings that a root value holds. -/
def ofValue (root : Value) : Except SettingsError Settings := do
  let transpile ← transpileOf (← sectionOf root "transpile")
  let compile ← compileOf (← sectionOf root "compile")
  let runtime ← runtimeOf (← sectionOf root "runtime")
  return ⟨transpile, compile, runtime⟩

/-- Put the settings together. The paths of all overrides are read first; then the
files are layered over the defaults, then the overrides over the files. -/
def load (files : List File) (overrides : List (List Char × Value)) :
    Except SettingsError Settings := do
  let places ← overrides.mapM fun (key, value) =>
    match Path.parse? key with
    | some path => .ok (path, value)
    | none => .error .malformedPath
  let layered ← files.foldlM layerFile defaults
  ofValue (places.foldl (fun root (path, value) => path.set value (some root)) layered)

end Settings

end Offside
