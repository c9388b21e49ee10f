/-
# The top level of generated code

A place is at the top level when it is code, outside every bracket and outside
every angle bracket of a type. `cutTopLevel` finds the first such place that a
test accepts and cuts the text in front of it.

Whether `<` opens a bracket depends on where it stands. It does so in type
position only: from the beginning where the scan starts inside a type, and behind
a top-level `:` up to the next top-level `,`, `;` or assignment. Elsewhere it is a
comparison. The `>` of an arrow never closes an angle bracket.
-/

import Offside.Statement.Operator

namespace Offside

/-- A character that a test looks at, with what it may know about its place. -/
structure Place where
  /-- Only blanks stand before the character. -/
  blankBefore : Bool
  /-- The character. -/
  char : Char
  /-- The character behind it. -/
  ahead : Option Char
  deriving DecidableEq, Repr

namespace Place

/-- A `=` that neither `=` nor `>` follows. -/
def isAssignment (place : Place) : Bool :=
  place.char == '=' && place.ahead != some '>' && place.ahead != some '='

end Place

/-- What the scan remembers between two characters. -/
structure TopLevelScan where
  /-- The walk through the text. -/
  walk : WalkState := {}
  /-- The number of open brackets. -/
  depth : Nat := 0
  /-- The number of open angle brackets. -/
  angles : Nat := 0
  /-- The scan is in type position. -/
  inType : Bool := false
  /-- The character before. -/
  previous : Option Char := none
  /-- Only blanks have been seen. -/
  blankSoFar : Bool := true
  deriving DecidableEq, Repr

namespace TopLevelScan

/-- The scan is outside every bracket and every angle bracket. -/
def atTop (scan : TopLevelScan) : Bool := scan.depth == 0 && scan.angles == 0

/-- The place of `c`, with `ahead` behind it. -/
def place (scan : TopLevelScan) (c : Char) (ahead : Option Char) : Place :=
  ⟨scan.blankSoFar, c, ahead⟩

/-- A character that is part of a literal, its quotes included; the slash of a
regular expression is not. -/
def inLiteral (scan : TopLevelScan) (c : Char) (ahead : Option Char) : Bool :=
  (scan.walk.step c ahead).1 == .quoted || WalkState.isQuote c

/-- The test `stop` is asked about `c` here, and accepts. -/
def stopsAt (scan : TopLevelScan) (stop : Place → Bool) (c : Char) (ahead : Option Char) : Bool :=
  !scan.inLiteral c ahead && scan.atTop && stop (scan.place c ahead)

/-- The brackets and the type position after a character outside literals. -/
def count (scan : TopLevelScan) (c : Char) (ahead : Option Char) : TopLevelScan :=
  if (closerOf? c).isSome || isCloser c then { scan with depth := depthAfter scan.depth c }
  else if c = '<' && scan.inType then { scan with angles := scan.angles + 1 }
  else if c = '>' && scan.angles > 0 && scan.previous != some '=' then
    { scan with angles := scan.angles - 1 }
  else if c = ':' && scan.atTop then { scan with inType := true }
  else if (c = ',' || c = ';') && scan.atTop then { scan with inType := false }
  else if scan.atTop && (scan.place c ahead).isAssignment then { scan with inType := false }
  else scan

/-- The state after `c`, with `ahead` behind it. -/
def advance (scan : TopLevelScan) (c : Char) (ahead : Option Char) : TopLevelScan :=
  let counted := if scan.inLiteral c ahead then scan else scan.count c ahead
  { counted with
    walk := (scan.walk.step c ahead).2
    previous := some c
    blankSoFar := scan.blankSoFar && Text.isBlank c }

/-- Cut a text in front of the first character that `stop` accepts at the top
level. -/
def cut? (scan : TopLevelScan) (stop : Place → Bool) : List Char → Option (List Char × List Char)
  | [] => none
  | c :: rest =>
    if scan.stopsAt stop c rest.head? then some ([], c :: rest)
    else
      ((scan.advance c rest.head?).cut? stop rest).map fun (before, found) => (c :: before, found)

end TopLevelScan

/-- Cut a text in front of the first character that `stop` accepts at its top level. -/
def cutTopLevel? (stop : Place → Bool) (text : List Char) : Option (List Char × List Char) :=
  ({} : TopLevelScan).cut? stop text

/-- Cut a text that begins inside a type in front of the first character that
`stop` accepts at its top level. -/
def cutType? (stop : Place → Bool) (text : List Char) : Option (List Char × List Char) :=
  { inType := true : TopLevelScan }.cut? stop text

/-- A cut loses nothing. -/
theorem TopLevelScan.append_of_cut? {scan : TopLevelScan} {stop : Place → Bool}
    {text before found : List Char} (h : scan.cut? stop text = some (before, found)) :
    before ++ found = text := by
  induction text generalizing scan before with
  | nil => simp [cut?] at h
  | cons c rest ih =>
    rw [cut?] at h
    split at h
    · simp only [Option.some.injEq, Prod.mk.injEq] at h
      rw [← h.1, ← h.2, List.nil_append]
    · obtain ⟨⟨b, f⟩, hcut, heq⟩ := Option.map_eq_some_iff.1 h
      simp only [Prod.mk.injEq] at heq
      obtain ⟨rfl, rfl⟩ := heq
      rw [List.cons_append, ih hcut]

/-- The parts of a text between the separators at its top level. The scan starts
afresh behind each separator. -/
def topLevelParts (separator : Char) (text : List Char) : List (List Char) :=
  match _hcut : cutTopLevel? (·.char == separator) text with
  | none => [text]
  | some (_, []) => [text]
  | some (before, _ :: rest) => before :: topLevelParts separator rest
termination_by text.length
decreasing_by
  have happend := TopLevelScan.append_of_cut? _hcut
  rw [← happend]
  simp only [List.length_append, List.length_cons]
  omega

end Offside
