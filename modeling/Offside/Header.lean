/-
# Block headers

A line opens a block when its content begins with one of eleven keywords and
goes on in one of two ways:

* blanks and arguments follow the keyword, as in `if ready` or `class A extends B`;
* nothing follows it, and the keyword may stand alone: `else`, `try`, `catch`,
  `finally` and `do`.

Either way one colon at the end of the line is dropped. Any other line that is not
blank is a statement; `iffy = 1` and a lone `while` are statements.

The header is written in the target syntax according to its keyword: conditions
get parentheses, definitions keep their arguments as they are, and `else if` puts
the parentheses behind the `if`.
-/

import Offside.Line

namespace Offside

/-- The keywords that open blocks. -/
inductive Keyword
  | «if» | «else» | «switch» | «try» | «catch» | «finally» | «class» | «do» | «while» | «for»
  | function
  deriving DecidableEq, Repr

/-- How the arguments of a header are written behind its keyword. -/
inductive HeaderForm
  /-- The arguments are a condition and get parentheses. -/
  | condition
  /-- The arguments are target syntax already. -/
  | definition
  deriving DecidableEq, Repr

namespace Keyword

/-- The style of each keyword's arguments. -/
def style : Keyword → HeaderForm
  | .function | .class | .try => .definition
  | _ => .condition

/-- Keywords that continue a statement, or begin one without a condition, may
stand alone. -/
def argumentOptional : Keyword → Bool
  | .else | .try | .catch | .finally | .do => true
  | _ => false

/-- The keywords with one fixed spelling. -/
def spellings : List (List Char × Keyword) :=
  [(['i', 'f'], .if), (['e', 'l', 's', 'e'], .else),
    (['s', 'w', 'i', 't', 'c', 'h'], .switch), (['t', 'r', 'y'], .try),
    (['c', 'a', 't', 'c', 'h'], .catch), (['f', 'i', 'n', 'a', 'l', 'l', 'y'], .finally),
    (['c', 'l', 'a', 's', 's'], .class), (['d', 'o'], .do),
    (['w', 'h', 'i', 'l', 'e'], .while), (['f', 'o', 'r'], .for)]

/-- The words of a function header. -/
def functionWord : List Char := ['f', 'u', 'n', 'c', 't', 'i', 'o', 'n']

/-- Cut `function` or `function*` off the front of a text. -/
def cutFunction? (content : List Char) : Option (List Char × List Char) :=
  (Text.dropLead? functionWord content).map fun rest =>
    match rest with
    | '*' :: rest => (functionWord ++ ['*'], rest)
    | rest => (functionWord, rest)

/-- Cut `async`, blanks and `function` or `function*` off the front of a text. -/
def cutAsyncFunction? (content : List Char) : Option (List Char × List Char) := do
  let rest ← Text.dropLead? ['a', 's', 'y', 'n', 'c'] content
  let blanks := rest.takeWhile Text.isBlank
  if blanks.isEmpty then none
  else
    let (word, rest) ← cutFunction? (rest.dropWhile Text.isBlank)
    some (['a', 's', 'y', 'n', 'c'] ++ blanks ++ word, rest)

/-- Cut a keyword off the front of a text: which one it is, how it is written, and
the rest. No keyword is the beginning of another, so at most one can be cut. -/
def cut? (content : List Char) : Option (Keyword × List Char × List Char) :=
  match cutAsyncFunction? content with
  | some (written, rest) => some (.function, written, rest)
  | none =>
    match cutFunction? content with
    | some (written, rest) => some (.function, written, rest)
    | none =>
      spellings.findSome? fun (written, keyword) =>
        (Text.dropLead? written content).map fun rest => (keyword, written, rest)

end Keyword

/-- A recognised block header. -/
structure Header where
  /-- The keyword that opens the block. -/
  keyword : Keyword
  /-- The keyword as written, such as `async function*`. -/
  written : List Char
  /-- The arguments without the blanks around them, if there are any. -/
  args : Option (List Char)
  deriving DecidableEq, Repr

namespace Header

/-- What follows a keyword, read as arguments. The outer `none` says that the
keyword does not open a block: something other than blanks or a final colon
touches it, or the arguments run over a line feed. The inner `none` says that
there are no arguments. -/
def args? (rest : List Char) : Option (Option (List Char)) :=
  let trailing := Text.trimEnd rest
  if (rest.head?.map Text.isBlank).getD false then
    let args := Text.trim (Text.dropFinal ':' trailing)
    if args.isEmpty then some none
    else if args.contains '\n' then none
    else some (some args)
  else if trailing.isEmpty || trailing = [':'] then some none
  else none

/-- The header that a line's content forms, if it opens a block. -/
def ofContent? (content : List Char) : Option Header := do
  let (keyword, written, rest) ← Keyword.cut? content
  match ← args? rest with
  | some args => some ⟨keyword, written, some args⟩
  | none => if keyword.argumentOptional then some ⟨keyword, written, none⟩ else none

/-- The condition of `else if`: what stands behind `if` and its blanks. -/
def elseIf? (args : List Char) : Option (List Char) := do
  let rest ← Text.dropLead? ['i', 'f'] args
  let condition := Text.trimStart rest
  if condition.length < rest.length && !condition.isEmpty && !condition.contains '\n' then
    some condition
  else none

/-- A text in parentheses. -/
def parenthesized (text : List Char) : List Char := '(' :: text ++ [')']

/-- The header in target syntax, without the opening brace. -/
def render (header : Header) : List Char :=
  match header.args with
  | none => header.written
  | some args =>
    match header.keyword, header.keyword.style with
    | .else, _ =>
      match elseIf? args with
      | some condition => header.written ++ [' ', 'i', 'f', ' '] ++ parenthesized condition
      | none => header.written ++ ' ' :: args
    | _, .condition => header.written ++ ' ' :: parenthesized args
    | _, .definition => header.written ++ ' ' :: args

end Header

/-- What a line is to the block structure. -/
inductive LineKind
  /-- Blanks only: copied, and without effect on blocks. -/
  | blank
  /-- A header, which opens a block. -/
  | opener (header : Header)
  /-- Anything else. -/
  | statement
  deriving DecidableEq, Repr

/-- The kind of a line of scrubbed source. -/
def Line.kind (line : Line) : LineKind :=
  if line.isBlank then .blank
  else
    match Header.ofContent? line.content with
    | some header => .opener header
    | none => .statement

end Offside
