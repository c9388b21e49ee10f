/-
# Imports of names

The statement `import <names> from <rest>` becomes `import {<names>} from <rest>`.

The names are the shortest text that is not empty, has no line feed and stands
between the blanks behind `import` and the blanks in front of a `from` that is a
word of its own. Names that begin with a brace or a star are target syntax already
and stay as they are; so does everything that is not of this form.

The blanks behind `import` are as many as can be. Only where that leaves no names
at all do some of them count as names, which happens in `import   from x`.
-/

import Offside.Text.Word
import Offside.Line

namespace Offside

namespace Import

/-- What stands behind blanks and the word `from` at the front of a text, if it
has no line feed. -/
def behindFrom? (text : List Char) : Option (List Char) := do
  if !(text.head?.map Text.isBlank).getD false then none
  else
    let rest ← Text.dropLead? ['f', 'r', 'o', 'm'] (Text.trimStart text)
    if Text.startsOffWord rest && !rest.contains '\n' then some rest else none

/-- Cut a text at its first `from` with at least one character before the blanks
in front of it: the names, and what stands behind the word. -/
def cutNames? : List Char → Option (List Char × List Char)
  | [] => none
  | c :: rest =>
    if c = '\n' then none
    else
      match behindFrom? rest with
      | some behind => some ([c], behind)
      | none => (cutNames? rest).map fun (names, behind) => (c :: names, behind)

/-- Cut a text behind the word `import`: leave out as many blanks as possible, but
at least one. -/
def cutBehindBlanks? : List Char → Option (List Char × List Char)
  | [] => none
  | c :: rest =>
    if Text.isBlank c then
      match cutBehindBlanks? rest with
      | some cut => some cut
      | none => cutNames? rest
    else none

end Import

/-- The line with its imported names in braces, if it is an import of names. -/
def Line.withNamedImport? (line : Line) : Option (List Char) := do
  let rest ← Text.dropLead? ['i', 'm', 'p', 'o', 'r', 't'] line.content
  let (names, behind) ← Import.cutBehindBlanks? rest
  if names.head? = some '\x7b' || names.head? = some '*' then none
  else
    some (line.indentation ++ ['i', 'm', 'p', 'o', 'r', 't', ' ', '\x7b'] ++ names ++
      ['\x7d', ' ', 'f', 'r', 'o', 'm'] ++ behind)

end Offside
