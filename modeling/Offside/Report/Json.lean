/-
# Reports in JSON

A report is an object with four members in a fixed order, one on a line, indented by
two blanks. The entries of the log stand one on a line as well; an empty log is an
empty pair of brackets.
-/

import Offside.Session
import Offside.Text.Decimal

namespace Offside.Report.Json

/-- The lines between two brackets, with a comma behind all but the last. -/
def separated : List (List Char) → List Char
  | [] => []
  | [line] => line
  | line :: rest => line ++ ',' :: '\n' :: separated rest

/-- A list of texts, whose brackets stand at the given indentation. -/
def listText (indentation : List Char) (items : List (List Char)) : List Char :=
  if items.isEmpty then ['[', ']']
  else
    ['[', '\n'] ++ separated (items.map fun item => indentation ++ [' ', ' '] ++ Text.quote item) ++
      '\n' :: indentation ++ [']']

/-- A member of the object, on a line of its own. -/
def member (name : String) (value : List Char) : List Char :=
  [' ', ' '] ++ Text.quote name.toList ++ [':', ' '] ++ value

/-- A report as a document, which ends with a line feed. -/
def render (report : Report) : List Char :=
  ['\x7b', '\n'] ++
    separated [member "revision" (Text.natText report.revision),
      member "outcome" (Text.quote report.outcome.name.toList),
      member "generated" (Text.quote report.generated),
      member "log" (listText [' ', ' '] report.log)] ++
    ['\n', '\x7d', '\n']

end Offside.Report.Json
