/-
# Walking code with literals in view

A walk goes through a piece of code one character at a time and tells, for each
character, whether it is code or stands inside a literal. Bracket tracking, the
search for assignment operators and the annotation passes are all built on it.

Literals open at `"`, at `'`, at a grave accent, and at a `/` that cannot be a
division: one at the front of the text or behind an operator or an opening
bracket, and not followed by `/` or `*`. A literal closes at the same character,
unless a backslash stands in front of it or, for a `/`, unless a character class
`[…]` is open. Delimiters are code; only what stands between them is quoted.

The state after a character depends on the state before it, on the character and
on the one behind it, so a walk looks one character ahead and never further.
-/

import Offside.Text.Blank

namespace Offside

/-- Whether a character is code or the inside of a literal. -/
inductive Region
  | code
  | quoted
  deriving DecidableEq, Repr

/-- What a walk remembers between two characters. -/
structure WalkState where
  /-- The delimiter of the literal that is open, if one is. -/
  openQuote : Option Char := none
  /-- A backslash inside the literal protects the next character. -/
  escaped : Bool := false
  /-- A character class of a regular-expression literal is open. -/
  inClass : Bool := false
  /-- The last character of code that was not blank. -/
  lastCode : Option Char := none
  deriving DecidableEq, Repr

/-- One character of a walk, with the state behind it. -/
structure WalkStep where
  /-- The character walked over. -/
  char : Char
  /-- Where it stands. -/
  region : Region
  /-- The state after it. -/
  after : WalkState
  deriving DecidableEq, Repr

/-- Opening brackets with their partners. -/
def closerOf? : Char → Option Char
  | '(' => some ')'
  | '[' => some ']'
  | '\x7b' => some '\x7d'
  | _ => none

/-- Closing brackets. -/
def isCloser (c : Char) : Bool := c == ')' || c == ']' || c == '\x7d'

namespace WalkState

/-- Characters behind which a `/` begins a regular-expression literal: operators,
separators and opening brackets, and the closing brace, but neither a closing
parenthesis nor a closing bracket, because those end a value. -/
def expectsOperand (c : Char) : Bool :=
  "(,=:[!&|?\x7b\x7d;+-*%<>~^".toList.contains c

/-- A `/` with `ahead` behind it opens a literal in this state. -/
def opensRegex (state : WalkState) (ahead : Option Char) : Bool :=
  (match state.lastCode with
    | none => true
    | some c => expectsOperand c) &&
  ahead != some '/' && ahead != some '*'

/-- Characters that open a literal wherever code stands. -/
def isQuote (c : Char) : Bool := c == '"' || c == '\'' || c == '\x60'

/-- The state that a character of code leaves: it is remembered unless blank. -/
def seeCode (state : WalkState) (c : Char) : WalkState :=
  if Text.isBlank c then state else { state with lastCode := some c }

/-- One step of a walk, over `c` with `ahead` behind it. -/
def step (state : WalkState) (c : Char) (ahead : Option Char) : Region × WalkState :=
  match state.openQuote with
  | some quote =>
    if state.escaped then (.quoted, { state with escaped := false })
    else if c = '\\' then (.quoted, { state with escaped := true })
    else if c = quote && !state.inClass then
      (.code, { state with openQuote := none }.seeCode c)
    else if quote = '/' && c = '[' then (.quoted, { state with inClass := true })
    else if quote = '/' && c = ']' then (.quoted, { state with inClass := false })
    else (.quoted, state)
  | none =>
    if isQuote c || (c = '/' && state.opensRegex ahead) then
      (.code, { state with openQuote := some c }.seeCode c)
    else (.code, state.seeCode c)

end WalkState

/-- The steps of a walk through `text` that begins in `state`. -/
def walkFrom (state : WalkState) : List Char → List WalkStep
  | [] => []
  | c :: rest =>
    let (region, after) := state.step c rest.head?
    ⟨c, region, after⟩ :: walkFrom after rest

/-- The steps of a walk through a whole text. -/
def walk (text : List Char) : List WalkStep := walkFrom {} text

/-- The state in which a walk through `text` from `state` ends. -/
def WalkState.run (state : WalkState) : List Char → WalkState
  | [] => state
  | c :: rest => (state.step c rest.head?).2.run rest

/-- The state at the end of a walk through a whole text. -/
def endOfWalk (text : List Char) : WalkState := WalkState.run {} text

end Offside
