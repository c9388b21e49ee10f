/-
# From indented source to braces

The transformer scrubs the source, then takes its lines one by one:

* a blank line is copied and has no effect on blocks;
* any other line first closes the open blocks at its depth or deeper, with one
  closing line each, innermost first;
* a header then opens a block, and a statement takes its target form.

At the end of the source the blocks still open are closed too, unless the options
say to leave them. The transformer never fails: what it does not recognise is
copied, and left for the check of the generated code.
-/

import Offside.Block.Emitter
import Offside.Scrub
import Offside.Statement

namespace Offside

/-- The usual name of the multi-value helper. -/
def assignHelper : List Char := ['$', 'a', 's', 's', 'i', 'g', 'n']

/-- What can be set about the transformer. -/
structure TranspileOptions where
  /-- Close the blocks that are open at the end of the source. -/
  flushOpenBlocks : Bool := true
  /-- The function around the value of every assignment. -/
  assignHelper : List Char := Offside.assignHelper
  deriving DecidableEq, Repr

/-- The lines that a list of scrubbed lines becomes when the blocks of `stack` are
open in front of it. -/
def emitLines (options : TranspileOptions) (stack : BlockStack) :
    List (List Char) → List (List Char)
  | [] => if options.flushOpenBlocks then stack.map closingLine else []
  | raw :: rest =>
    let line := Line.ofChars raw
    match line.kind with
    | .blank => raw :: emitLines options stack rest
    | .opener header =>
      (stack.closedBy line.indent).map closingLine ++ openingLine line.indentation header ::
        emitLines options ((stack.leftBy line.indent).push line.indentation) rest
    | .statement =>
      (stack.closedBy line.indent).map closingLine ++ line.inTarget options.assignHelper ::
        emitLines options (stack.leftBy line.indent) rest

/-- The generated code of a source. -/
def transpile (options : TranspileOptions) (source : List Char) : List Char :=
  finishLines (emitLines options [] (Text.splitLines (scrub source)))

end Offside
