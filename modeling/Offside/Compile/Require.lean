/-
# Imports as calls of `require`

An import that fills its line becomes a call, behind the same indentation:

* `import {print, int as i} from 'm'` becomes `const { print, int: i } = require('m');`
* `import * as std from 'm'` becomes `const std = require('m');`
* `import 'm'` becomes `require('m');`

The module is a literal in single or double quotes without that quote inside; it is
copied. A semicolon may end the line. Anything else is left as it is.
-/

import Offside.Compile.Annotation

namespace Offside

namespace Require

/-- An import that fills its line. -/
inductive Form
  /-- Names in braces; the text between the braces. -/
  | named (names : List Char)
  /-- The whole module under one name. -/
  | whole (name : List Char)
  /-- The module for its effects only. -/
  | bare
  deriving DecidableEq, Repr

/-- Cut a literal in quotes off the front of a text. -/
def cutLiteral? (text : List Char) : Option (List Char × List Char) :=
  match text with
  | [] => none
  | quote :: rest =>
    if quote = '"' || quote = '\'' then
      match rest.dropWhile (· ≠ quote) with
      | [] => none
      | close :: behind => some (quote :: rest.takeWhile (· ≠ quote) ++ [close], behind)
    else none

/-- The literal that ends a line, up to blanks and one semicolon. -/
def moduleLiteral? (text : List Char) : Option (List Char) := do
  let (literal, rest) ← cutLiteral? (Text.trimStart text)
  let rest := Text.trimStart rest
  if Text.allBlank ((Text.dropLead? [';'] rest).getD rest) then some literal else none

/-- What stands behind blanks and the word `from`. -/
def behindFrom? (text : List Char) : Option (List Char) :=
  Text.dropLead? ['f', 'r', 'o', 'm'] (Text.trimStart text)

/-- Read what follows the word `import`, its blanks left out: the form of the import
and the module's literal. -/
def form? (text : List Char) : Option (Form × List Char) :=
  match text with
  | '\x7b' :: inner => do
    match inner.dropWhile (· ≠ '\x7d') with
    | [] => none
    | _ :: rest =>
      let literal ← moduleLiteral? (← behindFrom? rest)
      some (.named (inner.takeWhile (· ≠ '\x7d')), literal)
  | '*' :: rest => do
    let (_, rest) ← Annotation.cutWord? ['a', 's'] (Text.trimStart rest)
    let (name, rest) ← Annotation.cutIdentifier? rest
    let (_, rest) ← Annotation.cutBlanks? rest
    let literal ← moduleLiteral? (← behindFrom? rest)
    some (.whole name, literal)
  | _ => (moduleLiteral? text).map fun literal => (.bare, literal)

/-- Cut a text around its first ` as `. -/
def cutAs? : List Char → Option (List Char × List Char)
  | [] => none
  | c :: rest =>
    match Text.dropLead? [' ', 'a', 's', ' '] (c :: rest) with
    | some behind => some ([], behind)
    | none => (cutAs? rest).map fun (before, behind) => (c :: before, behind)

/-- One imported name as a property of an object pattern. -/
def property (name : List Char) : List Char :=
  match cutAs? name with
  | some (outer, inner) => Text.trim outer ++ [':', ' '] ++ Text.trim inner
  | none => name

/-- The object pattern that binds the names of an import. Empty names are left
out. -/
def pattern (names : List Char) : List Char :=
  let properties := (((names.splitOn ',').map Text.trim).filter (!·.isEmpty)).map property
  if properties.isEmpty then ['\x7b', '\x7d']
  else ['\x7b', ' '] ++ List.intercalate [',', ' '] properties ++ [' ', '\x7d']

/-- The call that loads a module. -/
def call (literal : List Char) : List Char :=
  ['r', 'e', 'q', 'u', 'i', 'r', 'e', '('] ++ literal ++ [')', ';']

/-- The statement that an import becomes. -/
def Form.render (form : Form) (literal : List Char) : List Char :=
  match form with
  | .named names => declaration (pattern names)
  | .whole name => declaration name
  | .bare => call literal
where
  /-- The declaration that binds a pattern to the loaded module. -/
  declaration (target : List Char) : List Char :=
    ['c', 'o', 'n', 's', 't', ' '] ++ target ++ [' ', '=', ' '] ++ call literal

/-- A line with its import turned into a call, if it is one. -/
def lower (line : List Char) : List Char :=
  let lowered := do
    let rest ← Text.dropLead? ['i', 'm', 'p', 'o', 'r', 't'] (Text.trimStart line)
    let (form, literal) ← form? (Text.trimStart rest)
    some (line.takeWhile Text.isBlank ++ form.render literal)
  lowered.getD line

end Require

end Offside
