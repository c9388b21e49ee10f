/-
# Delimiters that balance

Generated code is accepted when its brackets balance outside literals and every
literal is closed. A literal between quotes and a regular expression must also
close on the line that opened it; only a template, between grave accents, may
span lines.

The check reads the code once, from left to right, and stops at the first
violation. At the end an open literal is reported before an open bracket, and of
several open brackets the innermost one. Each error names a line, counted from
one.
-/

import Offside.Walk

namespace Offside

/-- Why code is rejected, and on which line. -/
inductive DelimiterError
  /-- A closing bracket with no bracket open. -/
  | unexpected (line : Nat) (found : Char)
  /-- A closing bracket that is not the partner of the innermost open one. -/
  | mismatched (line : Nat) (expected found : Char)
  /-- A bracket that is never closed; the line is the bracket's own. -/
  | unclosed (line : Nat) (opener : Char)
  /-- A literal that is never closed, or not on its line; the line is where it
  opened. -/
  | unterminated (line : Nat)
  deriving DecidableEq, Repr

namespace DelimiterError

/-- The line that the error points at. -/
def line : DelimiterError → Nat
  | unexpected line _ | mismatched line _ _ | unclosed line _ | unterminated line => line

/-- The error as it is shown. -/
def message : DelimiterError → String
  | unexpected line found => s!"line {line}: unexpected `{found}`"
  | mismatched line expected found => s!"line {line}: expected `{expected}` but found `{found}`"
  | unclosed line opener => s!"line {line}: `{opener}` is never closed"
  | unterminated line => s!"line {line}: unterminated string literal"

end DelimiterError

/-- What the check remembers between two characters. -/
structure BracketScan where
  /-- The open brackets with their lines, innermost first. -/
  opened : List (Char × Nat) := []
  /-- The line of the next character. -/
  line : Nat := 1
  /-- The line on which the last literal opened. -/
  quoteLine : Nat := 1
  deriving DecidableEq, Repr

namespace BracketScan

/-- Characters that can delimit a literal. -/
def isDelimiter (c : Char) : Bool := WalkState.isQuote c || c == '/'

/-- A literal with this delimiter has to close on its line. -/
def staysOnLine (quote : Option Char) : Bool :=
  quote == some '"' || quote == some '\'' || quote == some '/'

/-- Take in a closing bracket. -/
def close (scan : BracketScan) (found : Char) : Except DelimiterError BracketScan :=
  match scan.opened with
  | [] => .error (.unexpected scan.line found)
  | (opener, _) :: outer =>
    match closerOf? opener with
    | some expected =>
      if expected = found then .ok { scan with opened := outer }
      else .error (.mismatched scan.line expected found)
    | none => .ok { scan with opened := outer }

/-- Take in one character of a walk. -/
def step (scan : BracketScan) (s : WalkStep) : Except DelimiterError BracketScan :=
  if s.char = '\n' then
    if staysOnLine s.after.openQuote then .error (.unterminated scan.quoteLine)
    else .ok { scan with line := scan.line + 1 }
  else if s.region = .quoted then .ok scan
  else if isDelimiter s.char then
    .ok (if s.after.openQuote.isSome then { scan with quoteLine := scan.line } else scan)
  else if (closerOf? s.char).isSome then
    .ok { scan with opened := (s.char, scan.line) :: scan.opened }
  else if isCloser s.char then scan.close s.char
  else .ok scan

/-- Judge the end of a text, where `openQuote` delimits the literal still open. -/
def finish (scan : BracketScan) (openQuote : Option Char) : Except DelimiterError Unit :=
  if openQuote.isSome then .error (.unterminated scan.quoteLine)
  else
    match scan.opened with
    | [] => .ok ()
    | (opener, line) :: _ => .error (.unclosed line opener)

end BracketScan

/-- Check the delimiters of a whole text. -/
def validateDelimiters (code : List Char) : Except DelimiterError Unit := do
  let scan ← (walk code).foldlM BracketScan.step {}
  scan.finish (endOfWalk code).openQuote

/-- The depth after one more character, counting braces of code only; none once a
closing brace has no partner. -/
def braceStep (depth : Nat) (s : WalkStep) : Option Nat :=
  if s.region = .quoted then some depth
  else if s.char = '\x7b' then some (depth + 1)
  else if s.char = '\x7d' then
    match depth with
    | 0 => none
    | depth + 1 => some depth
  else some depth

/-- How many braces of code are open at the end of a text, or nothing if a closing
brace ever comes without its partner. -/
def braceDepth (code : List Char) : Option Nat := (walk code).foldlM braceStep 0

end Offside
