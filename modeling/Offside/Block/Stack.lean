/-
# Open blocks

The stack holds the blocks whose closing brace has not been written, innermost
first. A block is known by the indentation of its header, and that text is kept
so that the closing brace lines up with it.

A line with `n` leading blanks closes every block on top of the stack whose header
sits at `n` or deeper. At the same depth counts as deeper, so a header's block
ends at the next line beside it even when nothing stands in between.
-/

namespace Offside

/-- A block whose closing brace has not been written. -/
structure Block where
  /-- The indentation of the block's header, as written. -/
  indentation : List Char
  deriving DecidableEq, Repr

/-- The depth of the block's header, in characters. -/
def Block.level (block : Block) : Nat := block.indentation.length

/-- The open blocks, innermost first. -/
abbrev BlockStack := List Block

namespace BlockStack

/-- Open a block below a header with this indentation. -/
def push (stack : BlockStack) (indentation : List Char) : BlockStack := ⟨indentation⟩ :: stack

/-- The blocks that a line at `level` closes, innermost first. -/
def closedBy (stack : BlockStack) (level : Nat) : List Block :=
  stack.takeWhile fun block => level ≤ block.level

/-- The blocks that a line at `level` leaves open. -/
def leftBy (stack : BlockStack) (level : Nat) : BlockStack :=
  stack.dropWhile fun block => level ≤ block.level

/-- Close the blocks that a line at `level` closes: those blocks, and the rest. -/
def unwind (stack : BlockStack) (level : Nat) : List Block × BlockStack :=
  (stack.closedBy level, stack.leftBy level)

/-- Close everything: all blocks, innermost first, and an empty stack. -/
def drain (stack : BlockStack) : List Block × BlockStack := (stack, [])

end BlockStack

end Offside
