/-
# Type annotations

Annotations are removed from one line of generated code at a time, in three places:

* behind the parameters of a function head, `f(a: number, b?: T = 1)`;
* behind its parameter list, `f(a): R {`;
* behind the name of a declaration, `const total: number = 0`.

Default values and everything else on the line stay as they are. Where an
annotation has no recognisable end the line is left alone, so that code without
annotations is never edited.
-/

import Offside.Compile.TopLevel
import Offside.Header
import Offside.Statement.Assignment
import Offside.Text.Word

namespace Offside

namespace Annotation

/-- A parameter without its annotation. A question mark in front of the colon goes
with it, and a default value is set off by one blank. -/
def plainParameter (parameter : List Char) : List Char :=
  match cutTopLevel? (fun place => place.char == ':' || place.char == '=') parameter with
  | some (before, ':' :: annotation) =>
    let name := Text.dropFinal '?' (Text.trimEnd before)
    match cutType? Place.isAssignment annotation with
    | some (_, value) => name ++ ' ' :: value
    | none => name
  | _ => parameter

/-- What follows a parameter list, without the return type. The body's brace is the
first one at the top level with some type text before it; without one nothing is
removed. -/
def plainResult (rest : List Char) : List Char :=
  match Text.trimStart rest with
  | ':' :: annotation =>
    match cutType? (fun place => place.char == '\x7b' && !place.blankBefore) annotation with
    | some (_, body) => ' ' :: body
    | none => rest
  | _ => rest

/-- Cut a text in front of its first `function` that is a word of its own; `afterWord`
says that a word character stands before the text. -/
def cutFunctionWord? (afterWord : Bool) : List Char → Option (List Char × List Char)
  | [] => none
  | c :: rest =>
    let here := match Text.dropLead? Keyword.functionWord (c :: rest) with
      | some behind => !afterWord && Text.startsOffWord behind
      | none => false
    if here then some ([], c :: rest)
    else
      (cutFunctionWord? (Text.isWord c) rest).map fun (before, found) => (c :: before, found)

/-- The character at this index of a text is code. -/
def inCode (text : List Char) (index : Nat) : Bool :=
  ((walk text)[index]?.map fun s => s.region == .code).getD false

/-- Cut a line behind the opening parenthesis of its first function head, if the
head stands in code. -/
def cutFunctionHead? (line : List Char) : Option (List Char × List Char) := do
  let (before, found) ← cutFunctionWord? false line
  let head := found.takeWhile (· ≠ '(')
  match found.dropWhile (· ≠ '(') with
  | [] => none
  | paren :: inner =>
    if inCode line before.length then some (before ++ head ++ [paren], inner) else none

/-- A line without the annotations of its first function head. -/
def plainHead (line : List Char) : List Char :=
  match cutFunctionHead? line with
  | none => line
  | some (head, inner) =>
    match cutTopLevel? (·.char == ')') inner with
    | some (parameters, _ :: rest) =>
      head ++ List.intercalate [','] ((topLevelParts ',' parameters).map plainParameter) ++
        ')' :: plainResult rest
    | _ => line

/-- The blanks at the front of a text, if there are any, and the rest. -/
def cutBlanks? (text : List Char) : Option (List Char × List Char) :=
  let blanks := text.takeWhile Text.isBlank
  if blanks.isEmpty then none else some (blanks, text.dropWhile Text.isBlank)

/-- Cut a word and the blanks behind it off the front of a text. -/
def cutWord? (word text : List Char) : Option (List Char × List Char) := do
  let rest ← Text.dropLead? word text
  let (blanks, rest) ← cutBlanks? rest
  some (word ++ blanks, rest)

/-- Cut an identifier off the front of a text. -/
def cutIdentifier? : List Char → Option (List Char × List Char)
  | [] => none
  | c :: rest =>
    if Assignment.isNameStart c then
      some (c :: rest.takeWhile Assignment.isNamePart, rest.dropWhile Assignment.isNamePart)
    else none

/-- Cut a line with an annotated declaration: the line up to the declared name,
and what follows the colon. An `export` may stand in front of the declaration and a
question mark in front of the colon. -/
def cutTypedDeclaration? (line : List Char) : Option (List Char × List Char) := do
  let (exported, rest) := (cutWord? ['e', 'x', 'p', 'o', 'r', 't'] (Text.trimStart line)).getD
    ([], Text.trimStart line)
  let (keyword, rest) ← (cutWord? ['l', 'e', 't'] rest).or
    ((cutWord? ['v', 'a', 'r'] rest).or (cutWord? ['c', 'o', 'n', 's', 't'] rest))
  let (name, rest) ← cutIdentifier? rest
  let rest := Text.trimStart rest
  let rest := Text.trimStart ((Text.dropLead? ['?'] rest).getD rest)
  let annotation ← Text.dropLead? [':'] rest
  some (line.takeWhile Text.isBlank ++ exported ++ keyword ++ name, annotation)

/-- A line without the annotation of the declaration that it begins with. -/
def plainDeclaration (line : List Char) : List Char :=
  match cutTypedDeclaration? line with
  | none => line
  | some (head, annotation) =>
    match cutType? (fun place => place.char == ';' || place.isAssignment) annotation with
    | some (_, ';' :: rest) => head ++ ';' :: rest
    | some (_, value) => head ++ ' ' :: value
    | none => head

/-- A line without its type annotations. -/
def strip (line : List Char) : List Char := plainDeclaration (plainHead line)

end Annotation

end Offside
