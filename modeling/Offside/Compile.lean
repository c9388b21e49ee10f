/-
# Compiled units

Compiling turns generated code into a unit that can be run. Two extensions may be
enabled; each works on one line at a time, annotations first and imports second,
whatever order the options name them in. Then the delimiters of the whole text must
balance.

No step adds, removes or moves a line, so an error names the line of the generated
code on which it was found.
-/

import Offside.Compile.Require
import Offside.Delimiter
import Offside.Text.Lines

namespace Offside

/-- A part of the source language that compiling can take out of the code. -/
inductive Extension
  /-- Type annotations. -/
  | typescript
  /-- Import statements. -/
  | imports
  deriving DecidableEq, Repr

/-- The name of an extension in options and settings. -/
def Extension.name : Extension → String
  | typescript => "typescript"
  | imports => "imports"

/-- The extension with this name. -/
def Extension.ofName? (name : String) : Option Extension :=
  [typescript, imports].find? (·.name = name)

/-- What can be set about compiling. -/
structure CompileOptions where
  /-- The enabled extensions, as listed; repetitions are kept. -/
  extensions : List Extension := [.typescript, .imports]
  deriving DecidableEq, Repr

/-- The extension is enabled. -/
def CompileOptions.enabled (options : CompileOptions) (extension : Extension) : Bool :=
  options.extensions.contains extension

/-- Code that can be run, with the extensions that were applied to it. -/
structure CodeUnit where
  /-- The code. -/
  code : List Char
  /-- The extensions of the options it was compiled with. -/
  extensions : List Extension
  deriving DecidableEq, Repr

/-- Apply a transformation to each line of a text. -/
def perLine (transform : List Char → List Char) (code : List Char) : List Char :=
  Text.joinLines ((Text.splitLines code).map transform)

/-- The code with the enabled extensions taken out. -/
def CompileOptions.lower (options : CompileOptions) (code : List Char) : List Char :=
  let plain := if options.enabled .typescript then perLine Annotation.strip code else code
  if options.enabled .imports then perLine Require.lower plain else plain

/-- Compile generated code. -/
def compile (options : CompileOptions) (code : List Char) : Except DelimiterError CodeUnit :=
  let lowered := options.lower code
  match validateDelimiters lowered with
  | .ok () => .ok ⟨lowered, options.extensions⟩
  | .error error => .error error

end Offside
