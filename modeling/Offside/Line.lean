/-
# Lines, split at their indentation

A line is its leading blanks and the rest. The width of the indentation counts
characters, whatever they are: a tab and an ideographic space count one each.
-/

import Offside.Text.Blank

namespace Offside

/-- A line of scrubbed source, cut behind its leading blanks. -/
structure Line where
  /-- The leading blanks, as written. -/
  indentation : List Char
  /-- The line from its first character that is not blank. -/
  content : List Char
  deriving DecidableEq, Repr

namespace Line

/-- The line that is written as `raw`. -/
def ofChars (raw : List Char) : Line :=
  ⟨raw.takeWhile Text.isBlank, raw.dropWhile Text.isBlank⟩

/-- The line as written. -/
def raw (line : Line) : List Char := line.indentation ++ line.content

/-- The number of leading blanks. -/
def indent (line : Line) : Nat := line.indentation.length

/-- A line of blanks only. -/
def isBlank (line : Line) : Bool := (Text.trimEnd line.content).isEmpty

theorem raw_ofChars (raw : List Char) : (ofChars raw).raw = raw :=
  List.takeWhile_append_dropWhile

end Line

end Offside
