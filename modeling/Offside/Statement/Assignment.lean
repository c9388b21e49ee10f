/-
# Assignments

    [local | global] <targets> = … = <targets> = <expression> [;]

Each target list is one identifier or several between commas. The assignment
becomes a declaration, `let` for `local` and `var` otherwise, and its value goes
through the multi-value helper:

    local a, b = f()    becomes    let [a, b] = $assign(f())
    x = y = 0           becomes    var x = y = $assign(0)

The chain of targets is as long as it can be: it ends at the first segment that
is not a list of identifiers, and all that follows is the expression. A scope word
counts only in front of a blank; where reading it as one leaves no assignment, it
is read as a variable, so `local = 1` assigns to `local`.
-/

import Offside.Statement.Operator

namespace Offside

/-- Where a declared name lives. -/
inductive Scope
  /-- Written `local`: the enclosing block. -/
  | block
  /-- Written `global`, or without a word: the enclosing function. -/
  | wide
  deriving DecidableEq, Repr

namespace Scope

/-- The declaration keyword of the target syntax. -/
def declaration : Scope → List Char
  | block => ['l', 'e', 't']
  | wide => ['v', 'a', 'r']

/-- Read the scope word in front of a statement: the scope and the text behind the
word. Without a word the scope is wide and the text is the whole statement. -/
def split (content : List Char) : Scope × List Char :=
  match worded? ['l', 'o', 'c', 'a', 'l'] with
  | some rest => (block, rest)
  | none =>
    match worded? ['g', 'l', 'o', 'b', 'a', 'l'] with
    | some rest => (wide, rest)
    | none => (wide, content)
where
  /-- The text behind `word`, if the statement begins with it and a blank follows. -/
  worded? (word : List Char) : Option (List Char) :=
    (Text.dropLead? word content).filter fun rest => (rest.head?.map Text.isBlank).getD false

end Scope

/-- A statement recognised as an assignment. -/
structure Assignment where
  /-- Where the declared names live. -/
  scope : Scope
  /-- The chained target lists, from left to right and trimmed. -/
  targets : List (List Char)
  /-- The assigned expression, trimmed and without its final semicolon. -/
  expression : List Char
  deriving DecidableEq, Repr

namespace Assignment

/-- Characters that may begin an identifier: ASCII letters, `_` and `$`. -/
def isNameStart (c : Char) : Bool := c.isAlpha || c == '_' || c == '$'

/-- Characters that may continue an identifier: those that may begin one, and
digits. -/
def isNamePart (c : Char) : Bool := isNameStart c || c.isDigit

/-- Identifiers are ASCII. -/
def isIdentifier : List Char → Bool
  | [] => false
  | c :: rest => isNameStart c && rest.all isNamePart

/-- One identifier, or several between commas, with blanks around them at will. -/
def areTargets (segment : List Char) : Bool :=
  (segment.splitOn ',').all fun name => isIdentifier (Text.trim name)

/-- Cut the target lists off the front of a statement's segments. The last segment
is never a target list, because no operator follows it. -/
def cutTargets : List (List Char) → List (List Char) × List (List Char)
  | segment :: next :: rest =>
    if areTargets segment then
      let (targets, others) := cutTargets (next :: rest)
      (Text.trim segment :: targets, others)
    else ([], segment :: next :: rest)
  | others => ([], others)

/-- The expression that the segments behind the targets form. -/
def expressionOf (others : List (List Char)) : List Char :=
  Text.trimEnd (Text.dropFinal ';' (Text.trim (List.intercalate ['='] others)))

/-- Read a statement without a scope word as an assignment in the given scope. -/
def parseTargets? (scope : Scope) (content : List Char) : Option Assignment :=
  let (targets, others) := cutTargets (segments content)
  let expression := expressionOf others
  if targets.isEmpty || expression.isEmpty then none else some ⟨scope, targets, expression⟩

/-- Read a statement as an assignment. -/
def parse? (content : List Char) : Option Assignment :=
  let (scope, rest) := Scope.split content
  match parseTargets? scope rest with
  | some assignment => some assignment
  | none => if rest.length = content.length then none else parseTargets? .wide content

/-- A target list in target syntax: several names become an array pattern. -/
def targetText (target : List Char) : List Char :=
  if target.contains ',' then
    '[' :: List.intercalate [',', ' '] ((target.splitOn ',').map Text.trim) ++ [']']
  else target

/-- The assignment in target syntax, behind the given indentation. -/
def render (assignment : Assignment) (indentation helper : List Char) : List Char :=
  indentation ++ assignment.scope.declaration ++ ' ' ::
    List.intercalate [' ', '=', ' '] (assignment.targets.map targetText) ++
    [' ', '=', ' '] ++ helper ++ '(' :: assignment.expression ++ [')']

end Assignment

end Offside
