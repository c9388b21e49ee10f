/-
# Literals in front of the check of delimiters

What stands between the quotes of a literal is nothing to the check of delimiters: it passes
over quoted characters, and it keeps of a literal only the line on which that opened. Behind
the literal the walk is in the same state whatever it has passed. So one body may take the
place of another; a line feed in it is the one thing that would count, as it moves the lines
behind it and breaks a literal between quotes.

The argument is about any reader of a walk that passes over quoted characters. The count of
braces is another one.
-/

import Offside.Delimiter
import Offside.Proofs.Walk.Literal

namespace Offside

variable {front body body' back : List Char} {quote : Char}

/-- A reader that passes over quoted characters, line feeds apart, reads of a literal its two
quotes. -/
theorem foldlM_walk_literal {m : Type → Type} [Monad m] [LawfulMonad m] {α : Type}
    {read : α → WalkStep → m α}
    (hskips : ∀ a s, s.region = .quoted → s.char ≠ '\n' → read a s = pure a)
    (hquote : WalkState.isQuote quote = true) (hclean : (WalkState.run {} front).Clean)
    (hbody : IsBody quote body) (hfeed : '\n' ∉ body) (a : α) :
    (walk (front ++ (quote :: body ++ [quote]) ++ back)).foldlM read a =
      (walkFrom {} front ++ ⟨quote, .code, ⟨some quote, false, false, some quote⟩⟩ ::
        ⟨quote, .code, .behind quote⟩ :: walkFrom (.behind quote) back).foldlM read a := by
  rw [walk_literal hquote hclean hbody, List.append_assoc, List.foldlM_append,
    List.foldlM_append]
  congr 1
  funext atFront
  rw [List.cons_append, List.foldlM_cons, List.foldlM_cons]
  congr 1
  funext inside
  have hbodySkipped := @WalkState.foldlM_of_sealed ⟨some quote, false, false, some quote⟩ _ _
    hquote m _ _ _ _ hskips rfl rfl hbody.isSealed hfeed inside
  rw [List.foldlM_append, hbodySkipped, pure_bind]

theorem BracketScan.step_of_quoted (scan : BracketScan) (s : WalkStep)
    (hquoted : s.region = .quoted) (hfeed : s.char ≠ '\n') : scan.step s = pure scan := by
  rw [step, if_neg hfeed, if_pos hquoted]
  rfl

theorem braceStep_of_quoted (depth : Nat) (s : WalkStep) (hquoted : s.region = .quoted)
    (_ : s.char ≠ '\n') : braceStep depth s = pure depth := by
  unfold braceStep
  rw [if_pos hquoted]
  rfl

/-- Where a walk finds a literal, another body that is complete and, like the first, has no
line feed changes nothing: the check accepts both texts or gives the same error for both,
with its line and its characters, and the count of braces is the same. -/
theorem validateDelimiters_literal (hquote : WalkState.isQuote quote = true)
    (hliteral : HasLiteral front quote body back) (hbody' : IsBody quote body')
    (hfeed : '\n' ∉ body) (hfeed' : '\n' ∉ body') :
    validateDelimiters (front ++ (quote :: body' ++ [quote]) ++ back) =
        validateDelimiters (front ++ (quote :: body ++ [quote]) ++ back) ∧
      braceDepth (front ++ (quote :: body' ++ [quote]) ++ back) =
        braceDepth (front ++ (quote :: body ++ [quote]) ++ back) := by
  obtain ⟨hclean, hbody⟩ := (hasLiteral_iff hquote).mp hliteral
  constructor
  · simp only [validateDelimiters, endOfWalk_literal hquote hclean hbody,
      endOfWalk_literal hquote hclean hbody',
      foldlM_walk_literal BracketScan.step_of_quoted hquote hclean hbody hfeed,
      foldlM_walk_literal BracketScan.step_of_quoted hquote hclean hbody' hfeed']
  · simp only [braceDepth, foldlM_walk_literal braceStep_of_quoted hquote hclean hbody hfeed,
      foldlM_walk_literal braceStep_of_quoted hquote hclean hbody' hfeed']

/-- Brackets, slashes and a protected quote in place of a plain body, in front of an error. -/
theorem validateDelimiters_literal_sample :
    validateDelimiters "if (a) \x7b s = '\x7d]/\\'('; return [s)".toList =
        validateDelimiters "if (a) \x7b s = 'x'; return [s)".toList ∧
      braceDepth "if (a) \x7b s = '\x7d]/\\'('; return [s)".toList =
        braceDepth "if (a) \x7b s = 'x'; return [s)".toList :=
  @validateDelimiters_literal "if (a) \x7b s = ".toList "x".toList "\x7d]/\\'(".toList
    "; return [s)".toList '\'' rfl ((hasLiteral_iff rfl).mpr ⟨by decide, by decide⟩) (by decide)
    (by decide) (by decide)

end Offside
