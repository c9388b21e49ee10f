/-
# What closing does to a stack of blocks

Closing looks at the top of the stack only, and stops at the first block that is not deep
enough. Much of what it does holds of every stack all the same, deep blocks under shallow
ones included: no block is lost or closed twice, and closing to a level on the way to a
lower one makes no difference to the result.

One thing does not hold of every stack, that no block is left that is deep enough to be
closed. Such a block may lie under a shallow one. The transformer never comes to such a
stack. In front of each header it closes what is as deep as the header or deeper, so its
levels increase from the bottom to the top, and below a shallow top all is shallow.
-/

import Mathlib.Data.List.TakeWhile
import Offside.Proofs.Block.Layout

namespace Offside

namespace BlockStack

variable {stack : BlockStack} {level : Nat}

/-! ## Any stack -/

theorem closedBy_append_leftBy (stack : BlockStack) (level : Nat) :
    stack.closedBy level ++ stack.leftBy level = stack := List.takeWhile_append_dropWhile

/-- A block that is deep enough is closed with those behind it. -/
theorem unwind_cons_of_le {block : Block} (hle : level ≤ block.level) (stack : BlockStack) :
    unwind (block :: stack) level = (block :: (stack.unwind level).1, (stack.unwind level).2) := by
  simp [unwind, closedBy, leftBy, hle]

/-- A block that is not deep enough keeps all behind it open. -/
theorem unwind_cons_of_lt {block : Block} (hlt : block.level < level) (stack : BlockStack) :
    unwind (block :: stack) level = ([], block :: stack) := by
  simp [unwind, closedBy, leftBy, hlt]

/-- Closing to a level and then to a lower one is closing to the lower one. -/
theorem unwind_unwind {upper lower : Nat} (hle : lower ≤ upper) (stack : BlockStack) :
    ((stack.unwind upper).1 ++ ((stack.unwind upper).2.unwind lower).1,
      ((stack.unwind upper).2.unwind lower).2) = stack.unwind lower := by
  induction stack with
  | nil => rfl
  | cons block stack ih =>
      rcases Nat.lt_or_ge block.level upper with hkept | hclosed
      · rw [unwind_cons_of_lt hkept, List.nil_append]
      · rw [unwind_cons_of_le hclosed, unwind_cons_of_le (Nat.le_trans hle hclosed), ← ih,
          List.cons_append]

theorem level_lt_of_mem_head? {top : Block} (htop : top ∈ (stack.leftBy level).head?) :
    top.level < level := by
  have hstop := List.head?_dropWhile_not (fun block : Block => decide (level ≤ block.level)) stack
  rw [leftBy] at htop
  rw [Option.mem_def.mp htop] at hstop
  simpa using hstop

theorem unwind_zero (stack : BlockStack) : stack.unwind 0 = stack.drain := by
  have hdeep : ∀ block ∈ stack, decide (0 ≤ block.level) = true := fun block _ => by simp
  rw [unwind, drain, closedBy, leftBy, List.takeWhile_eq_self_iff.mpr hdeep,
    List.dropWhile_eq_nil_iff.mpr hdeep]

/-! ## The stacks of the transformer -/

/-- The levels increase from the bottom of the stack to its top. -/
def Increasing (stack : BlockStack) : Prop :=
  stack.Pairwise fun inner outer => outer.level < inner.level

theorem Increasing.leftBy (hstack : stack.Increasing) (level : Nat) :
    (stack.leftBy level).Increasing :=
  hstack.sublist (List.dropWhile_sublist _)

/-- In a stack whose levels increase, closing leaves no block that is deep enough to be
closed, wherever it lies. -/
theorem Increasing.level_lt_of_mem_leftBy (hstack : stack.Increasing) {block : Block}
    (hblock : block ∈ stack.leftBy level) : block.level < level := by
  have hfirst : stack.Pairwise fun inner outer =>
      decide (level ≤ outer.level) = true → decide (level ≤ inner.level) = true := by
    refine hstack.imp fun {inner outer} hlt hle => ?_
    rw [decide_eq_true_eq] at hle ⊢
    omega
  rw [BlockStack.leftBy, Layout.dropWhile_eq_filter_of_pairwise hfirst, List.mem_filter] at hblock
  simpa using hblock.2

/-- A header closes what is as deep as its own block before it opens that. -/
theorem Increasing.push_leftBy (hstack : stack.Increasing) (indentation : List Char) :
    ((stack.leftBy indentation.length).push indentation).Increasing :=
  List.pairwise_cons.mpr
    ⟨fun _ hblock => hstack.level_lt_of_mem_leftBy hblock, hstack.leftBy indentation.length⟩

/-- The stack behind a line. -/
def next (stack : BlockStack) (line : Line) : BlockStack :=
  match line.kind with
  | .blank => stack
  | .opener _ => (stack.leftBy line.indent).push line.indentation
  | .statement => stack.leftBy line.indent

/-- The stack behind lines, the first of which comes to an empty one. -/
def behind (lines : List (List Char)) : BlockStack :=
  lines.foldl (fun stack raw => stack.next (Line.ofChars raw)) []

theorem Increasing.next (hstack : stack.Increasing) (line : Line) :
    (stack.next line).Increasing := by
  unfold BlockStack.next
  split
  · exact hstack
  · exact hstack.push_leftBy line.indentation
  · exact hstack.leftBy line.indent

/-- Whatever lines come, the levels of the stack behind them increase. -/
theorem increasing_behind (lines : List (List Char)) : (behind lines).Increasing :=
  List.foldlRecOn lines (motive := Increasing) _ .nil fun _ hstack raw _ =>
    hstack.next (Line.ofChars raw)

end BlockStack

/-- The transformer writes something for a line and goes on with the stack behind it. -/
theorem exists_emitLines_next (options : TranspileOptions) (stack : BlockStack)
    (raw : List Char) : ∃ written, ∀ back,
      emitLines options stack (raw :: back) =
        written ++ emitLines options (stack.next (Line.ofChars raw)) back := by
  unfold BlockStack.next
  cases hkind : (Line.ofChars raw).kind with
  | blank => exact ⟨[raw], fun back => by simp [emitLines, hkind]⟩
  | opener header =>
      refine ⟨(stack.closedBy (Line.ofChars raw).indent).map closingLine ++
        [openingLine (Line.ofChars raw).indentation header], fun back => ?_⟩
      simp [emitLines, hkind]
  | statement =>
      refine ⟨(stack.closedBy (Line.ofChars raw).indent).map closingLine ++
        [(Line.ofChars raw).inTarget options.assignHelper], fun back => ?_⟩
      simp [emitLines, hkind]

/-- It comes to all further lines with the stack behind the first ones. -/
theorem exists_emitLines_foldl_next (options : TranspileOptions) (stack : BlockStack)
    (front : List (List Char)) : ∃ written, ∀ back,
      emitLines options stack (front ++ back) = written ++ emitLines options
        (front.foldl (fun stack raw => stack.next (Line.ofChars raw)) stack) back := by
  induction front generalizing stack with
  | nil => exact ⟨[], fun back => rfl⟩
  | cons raw front ih =>
      obtain ⟨first, hfirst⟩ := exists_emitLines_next options stack raw
      obtain ⟨written, hwritten⟩ := ih (stack.next (Line.ofChars raw))
      refine ⟨first ++ written, fun back => ?_⟩
      rw [List.cons_append, hfirst, hwritten, List.append_assoc, List.foldl_cons]

/-- The laws of closing. On every stack, closing to one level and then to a lower one closes
the same blocks in the same order as closing to the lower one at once, and leaves the same
stack; the blocks closed and those left are the stack, from the top; the block left on top
is too shallow to be closed; and closing to level zero takes everything. Behind any lines,
the transformer goes on with a stack whose levels increase towards the top, and closing
leaves no block in it, on top or below, that is deep enough to be closed. -/
theorem unwind_laws :
    (∀ stack : BlockStack,
      (∀ upper lower, lower ≤ upper →
        ((stack.unwind upper).1 ++ ((stack.unwind upper).2.unwind lower).1,
          ((stack.unwind upper).2.unwind lower).2) = stack.unwind lower) ∧
      (∀ level, (stack.unwind level).1 ++ (stack.unwind level).2 = stack) ∧
      (∀ level, ∀ top ∈ (stack.unwind level).2.head?, top.level < level) ∧
      stack.unwind 0 = stack.drain) ∧
    ∀ front : List (List Char),
      (∀ options, ∃ written, ∀ back, emitLines options [] (front ++ back) =
        written ++ emitLines options (BlockStack.behind front) back) ∧
      (BlockStack.behind front).Increasing ∧
      ∀ level, ((BlockStack.behind front).unwind level).2.Increasing ∧
        ∀ block ∈ ((BlockStack.behind front).unwind level).2, block.level < level := by
  refine ⟨fun stack => ⟨fun upper lower hle => BlockStack.unwind_unwind hle stack,
    stack.closedBy_append_leftBy, fun level top => BlockStack.level_lt_of_mem_head?,
    stack.unwind_zero⟩, fun front => ?_⟩
  have hbehind := BlockStack.increasing_behind front
  exact ⟨fun options => exists_emitLines_foldl_next options [] front, hbehind,
    fun level => ⟨hbehind.leftBy level, fun block => hbehind.level_lt_of_mem_leftBy⟩⟩

/-- On a stack whose levels do not increase, a block that is deep enough stays open under a
shallow one, and closing in two steps is closing in one all the same. -/
theorem unwind_laws_shallow :
    let block (level : Nat) : Block := ⟨List.replicate level ' '⟩
    let stack : BlockStack := [block 3, block 2, block 1, block 4]
    2 ≤ 3 ∧ stack.unwind 2 = ([block 3, block 2], [block 1, block 4]) ∧
      ((stack.unwind 3).1 ++ ((stack.unwind 3).2.unwind 2).1,
        ((stack.unwind 3).2.unwind 2).2) = stack.unwind 2 := by
  intro block stack
  exact ⟨by decide, by decide, (unwind_laws.1 stack).1 3 2 (by decide)⟩

end Offside
