/-
# Assignment operators of a statement

An assignment operator is a `=` in code, outside every bracket, that is not part
of a longer operator: no operator character stands right before it, and neither
`=` nor `>` right behind it. So comparisons, arrows and compound assignments are
passed over, and so is everything inside literals and brackets.

A statement is cut at these operators into one segment more than there are
operators; joining the segments with `=` gives the statement back.
-/

import Offside.Walk

namespace Offside

/-- The bracket depth after one more character of code. A closing bracket with
nothing open leaves the depth at zero. -/
def depthAfter (depth : Nat) (c : Char) : Nat :=
  if (closerOf? c).isSome then depth + 1 else if isCloser c then depth - 1 else depth

/-- What the search for operators remembers between two characters. -/
structure OperatorScan where
  /-- The walk through the statement. -/
  walk : WalkState := {}
  /-- The number of open brackets. -/
  depth : Nat := 0
  /-- The character before, whatever it is. -/
  previous : Option Char := none
  deriving DecidableEq, Repr

namespace OperatorScan

/-- Characters that make a `=` behind them part of a longer operator. -/
def joinsEquals (c : Char) : Bool := "=!<>+-*/%&|^~?".toList.contains c

/-- In this state `c`, with `ahead` behind it, is an assignment operator. -/
def isOperator (scan : OperatorScan) (c : Char) (ahead : Option Char) : Bool :=
  c == '=' && (scan.walk.step c ahead).1 == .code && scan.depth == 0 &&
    !(scan.previous.map joinsEquals).getD false && ahead != some '=' && ahead != some '>'

/-- The state after `c`, with `ahead` behind it. -/
def advance (scan : OperatorScan) (c : Char) (ahead : Option Char) : OperatorScan :=
  let (region, walk) := scan.walk.step c ahead
  ⟨walk, if region = .code then depthAfter scan.depth c else scan.depth, some c⟩

end OperatorScan

/-- Each character of a text together with whether it is an assignment operator. -/
def markOperatorsFrom (scan : OperatorScan) : List Char → List (Char × Bool)
  | [] => []
  | c :: rest =>
    (c, scan.isOperator c rest.head?) :: markOperatorsFrom (scan.advance c rest.head?) rest

/-- Each character of a statement with whether it is an assignment operator. -/
def markOperators (content : List Char) : List (Char × Bool) := markOperatorsFrom {} content

/-- The byte offsets of the marked characters, the first character at `start`. -/
def markedOffsets (start : Nat) : List (Char × Bool) → List Nat
  | [] => []
  | (c, marked) :: rest =>
    if marked then start :: markedOffsets (start + c.utf8Size) rest
    else markedOffsets (start + c.utf8Size) rest

/-- The byte offsets of a statement's assignment operators. -/
def operatorOffsets (content : List Char) : List Nat := markedOffsets 0 (markOperators content)

/-- The pieces of a statement between its assignment operators. -/
def segments (content : List Char) : List (List Char) :=
  ((markOperators content).splitOnP Prod.snd).map (·.map Prod.fst)

end Offside
