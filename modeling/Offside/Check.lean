/-
# Checks on generated code

The expectations that can be put to a generated text, each with its verdict.
-/

import Offside.Compile

namespace Offside

/-- An expectation about generated code. -/
inductive Check
  /-- The line at this index, from zero, is exactly this text. -/
  | line (index : Nat) (expected : List Char)
  /-- Some line is exactly this text. -/
  | containsLine (expected : List Char)
  /-- A reader counts this many lines. -/
  | lineCount (expected : Nat)
  /-- Every brace of code has its partner. -/
  | bracesBalanced
  /-- The text compiles with the usual options. -/
  | compiles
  deriving DecidableEq, Repr

/-- The expectation is met. -/
def Check.holds (code : List Char) : Check → Bool
  | line index expected => (Text.splitLines code)[index]? == some expected
  | containsLine expected => (Text.splitLines code).contains expected
  | lineCount expected => (Text.lines code).length == expected
  | bracesBalanced => braceDepth code == some 0
  | compiles => (compile {} code).toOption.isSome

end Offside
