/-
# Emitted lines

The output of the transformer is a list of lines, each of them ended by a line
feed in the finished text. A block contributes the line that opens it and, later,
the brace that closes it, both behind the indentation of its header.
-/

import Offside.Header
import Offside.Block.Stack

namespace Offside

/-- The line that opens a block. -/
def openingLine (indentation : List Char) (header : Header) : List Char :=
  indentation ++ header.render ++ [' ', '\x7b']

/-- The line that closes a block. -/
def closingLine (block : Block) : List Char := block.indentation ++ ['\x7d']

/-- The finished text: every line with a line feed behind it. -/
def finishLines (lines : List (List Char)) : List Char := lines.flatMap (· ++ ['\n'])

end Offside
