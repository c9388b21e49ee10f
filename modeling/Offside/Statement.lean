/-
# Statements in target syntax

Two forms of a statement line have a spelling of their own in target syntax, and
the first that applies wins: imports of names, then assignments. Any other line
stays as it is.
-/

import Offside.Statement.Assignment
import Offside.Statement.Import

namespace Offside.Line

/-- The line with its assignment turned into a declaration, if it is one. -/
def withDeclaration? (line : Line) (helper : List Char) : Option (List Char) :=
  (Assignment.parse? line.content).map (·.render line.indentation helper)

/-- A statement line in target syntax. -/
def inTarget (line : Line) (helper : List Char) : List Char :=
  match line.withNamedImport? with
  | some text => text
  | none => (line.withDeclaration? helper).getD line.raw

end Offside.Line
