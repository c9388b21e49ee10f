/-
# The check of delimiters on one text after another

Behind a text that the check accepts no bracket and no literal is open, so what comes on
the lines behind it is judged as if it stood alone, and its errors are reported that many
lines further down. Two things could come between. The check counts lines and remembers
some, and the walk goes on with the last character of code, by which it tells a regular
expression from a division.

The lines that are remembered all move by the same number. That takes one exception: the
line of the last literal is a matter of what came before as long as no literal is open, so
it is compared only while one is. And the last character of code is a matter of a `/` that
no other code precedes, so the two walks are in the same state from the first character on
that is not blank, as long as that is not a `/`.
-/

import Offside.Proofs.Delimiter.Grammar
import Offside.Proofs.Text.Edges

namespace Offside

/-! ## The same error further down -/

namespace DelimiterError

/-- The same error, so many lines further down. -/
def later (count : Nat) : DelimiterError → DelimiterError
  | unexpected line found => unexpected (line + count) found
  | mismatched line expected found => mismatched (line + count) expected found
  | unclosed line opener => unclosed (line + count) opener
  | unterminated line => unterminated (line + count)

end DelimiterError

namespace BracketScan

/-- One check knows what the other knows, so many lines further down. Which line the last
literal opened on is compared only while a literal is open. -/
structure Later (count : Nat) (openQuote : Option Char) (early late : BracketScan) : Prop where
  opened : late.opened = early.opened.map (Prod.map id (· + count))
  line : late.line = early.line + count
  quoteLine : openQuote.isSome → late.quoteLine = early.quoteLine + count

/-- Two checks go on in step, or both stop with the same error. -/
inductive InLaterStep (count : Nat) (openQuote : Option Char) :
    Except DelimiterError BracketScan → Except DelimiterError BracketScan → Prop
  | reading {early late : BracketScan} (hlater : Later count openQuote early late) :
      InLaterStep count openQuote (.ok early) (.ok late)
  | stopped (error : DelimiterError) :
      InLaterStep count openQuote (.error error) (.error (error.later count))

variable {count : Nat} {early late : BracketScan} {state : WalkState}

/-- A closing bracket meets the same brackets in both checks. -/
theorem Later.close {openQuote : Option Char} (hlater : Later count openQuote early late)
    (found : Char) : InLaterStep count openQuote (early.close found) (late.close found) := by
  obtain ⟨opened, line, quoteLine⟩ := early
  obtain ⟨_, _, quoteLine'⟩ := late
  obtain ⟨rfl, rfl, hquoteLine⟩ := hlater
  cases opened with
  | nil => exact .stopped (.unexpected line found)
  | cons bracket outer =>
      obtain ⟨opener, openedOn⟩ := bracket
      unfold BracketScan.close
      cases hpair : closerOf? opener with
      | none =>
          simp only [List.map_cons, Prod.map_apply, id_eq, hpair]
          exact .reading ⟨rfl, rfl, hquoteLine⟩
      | some expected =>
          simp only [List.map_cons, Prod.map_apply, id_eq, hpair]
          split
          · exact .reading ⟨rfl, rfl, hquoteLine⟩
          · exact .stopped (.mismatched line expected found)

/-- Where a literal is open behind a character, it opened there or was open in front of it. -/
theorem isSome_openQuote_of_not_opensLiteral {s : WalkStep} {c : Char} {ahead : Option Char}
    (hs : s = ⟨c, (state.step c ahead).1, (state.step c ahead).2⟩)
    (hopens : s.opensLiteral = false) (hopen : s.after.openQuote.isSome) :
    state.openQuote.isSome := by
  subst hs
  cases hregion : (state.step c ahead).1 with
  | quoted => rwa [← WalkState.openQuote_step_of_quoted hregion]
  | code =>
      have hdelimiter := WalkState.isDelimiter_of_step hregion hopen
      simp [WalkStep.opensLiteral, hregion, hdelimiter, hopen] at hopens

/-- One character keeps two checks in step. -/
theorem Later.step (hlater : Later count state.openQuote early late) {s : WalkStep} {c : Char}
    {ahead : Option Char} (hs : s = ⟨c, (state.step c ahead).1, (state.step c ahead).2⟩) :
    InLaterStep count s.after.openQuote (early.step s) (late.step s) := by
  have hquoteLine : s.opensLiteral = false → s.after.openQuote.isSome →
      late.quoteLine = early.quoteLine + count := fun hopens hopen =>
    hlater.quoteLine (isSome_openQuote_of_not_opensLiteral hs hopens hopen)
  simp only [step_eq]
  cases hbreaks : s.breaksLiteral with
  | true =>
      simp only [if_true, hlater.quoteLine (isSome_openQuote_of_breaksLiteral hs hbreaks)]
      exact .stopped (.unterminated early.quoteLine)
  | false =>
      simp only [Bool.false_eq_true, if_false]
      cases hbracket : s.isBracket with
      | true =>
          have hbehind : Later count s.after.openQuote early late :=
            ⟨hlater.opened, hlater.line, hquoteLine (WalkStep.opensLiteral_of_isBracket hbracket)⟩
          simp only [if_true]
          split
          · refine .reading ⟨?_, hbehind.line, hbehind.quoteLine⟩
            rw [List.map_cons, Prod.map_apply, id_eq, hbehind.opened, hbehind.line]
          · exact hbehind.close s.char
      | false =>
          simp only [Bool.false_eq_true, if_false]
          refine .reading ⟨hlater.opened, ?_, fun hopen => ?_⟩
          · simp only [hlater.line]
            split <;> omega
          · cases hopens : s.opensLiteral with
            | true => simpa using hlater.line
            | false => simpa using hquoteLine hopens hopen

/-- And so does a text. -/
theorem Later.foldlM (hlater : Later count state.openQuote early late) (text : List Char) :
    InLaterStep count (state.run text).openQuote ((walkFrom state text).foldlM BracketScan.step early)
      ((walkFrom state text).foldlM BracketScan.step late) := by
  induction text generalizing state early late with
  | nil => exact .reading hlater
  | cons c text ih =>
      have hstep := hlater.step (show (⟨c, (state.step c text.head?).1,
        (state.step c text.head?).2⟩ : WalkStep) = _ from rfl)
      rw [walkFrom_cons, run_cons, List.foldlM_cons, List.foldlM_cons]
      generalize early.step _ = first at hstep ⊢
      generalize late.step _ = second at hstep ⊢
      cases hstep with
      | reading hnext => exact ih hnext
      | stopped error => exact .stopped error

theorem Later.finish {openQuote : Option Char} (hlater : Later count openQuote early late) :
    late.finish openQuote = (early.finish openQuote).mapError (DelimiterError.later count) := by
  obtain ⟨opened, line, quoteLine⟩ := early
  obtain ⟨_, _, quoteLine'⟩ := late
  obtain ⟨rfl, rfl, hquoteLine⟩ := hlater
  unfold BracketScan.finish
  cases hopen : openQuote.isSome with
  | true =>
      rw [if_pos rfl, if_pos rfl, show quoteLine' = quoteLine + count from hquoteLine hopen]
      rfl
  | false => cases opened <;> rfl

end BracketScan

/-! ## Walks that begin behind different texts -/

/-- Outside of literals a walk knows the last character of code and nothing else. -/
theorem WalkState.Clean.eq {state : WalkState} (hclean : state.Clean) :
    state = { lastCode := state.lastCode } := by
  obtain ⟨openQuote, escaped, inClass, lastCode⟩ := state
  obtain ⟨rfl, rfl, rfl⟩ := hclean
  rfl

/-- Outside of literals, a blank leaves the state of a walk as it is. -/
theorem WalkState.Clean.step_of_isBlank {state : WalkState} (hclean : state.Clean) {c : Char}
    (hblank : Text.isBlank c = true) (ahead : Option Char) :
    state.step c ahead = (.code, state) := by
  have hinert := isInert_of_isBlank hblank
  simp [WalkState.step, hclean.1, isQuote_of_isInert hinert, ne_slash_of_isInert hinert, seeCode,
    hblank]

/-- Behind a character of code that is neither a blank nor a `/`, nothing is left of what
came in front of it. -/
theorem WalkState.Clean.step_eq_step {first second : WalkState} (hfirst : first.Clean)
    (hsecond : second.Clean) {c : Char} (hblank : Text.isBlank c = false) (hslash : c ≠ '/')
    (ahead : Option Char) : first.step c ahead = second.step c ahead := by
  rw [hfirst.eq, hsecond.eq]
  simp [WalkState.step, seeCode, hblank, hslash]

/-- A text that does not begin with a `/`, blanks apart, is read the same behind any code
that leaves no literal open. -/
theorem foldlM_step_of_clean {first second : WalkState} (hfirst : first.Clean)
    (hsecond : second.Clean) {text : List Char}
    (hslash : (Text.trimStart text).head? ≠ some '/') (scan : BracketScan) :
    (walkFrom first text).foldlM BracketScan.step scan =
        (walkFrom second text).foldlM BracketScan.step scan ∧
      (first.run text).openQuote = (second.run text).openQuote := by
  induction text generalizing scan with
  | nil => exact ⟨rfl, hfirst.1.trans hsecond.1.symm⟩
  | cons c text ih =>
      rw [walkFrom_cons, walkFrom_cons, run_cons, run_cons]
      cases hblank : Text.isBlank c with
      | true =>
          rw [Text.trimStart_cons_of_isBlank hblank] at hslash
          have hscan : scan.step ⟨c, .code, first⟩ = scan.step ⟨c, .code, second⟩ := by
            simp only [BracketScan.step, hfirst.1, hsecond.1]
          rw [hfirst.step_of_isBlank hblank, hsecond.step_of_isBlank hblank, List.foldlM_cons,
            List.foldlM_cons, hscan]
          refine ⟨?_, (ih hslash scan).2⟩
          congr 1
          funext next
          exact (ih hslash next).1
      | false =>
          rw [Text.trimStart_cons_of_not_blank hblank] at hslash
          have hc : c ≠ '/' := fun heq => hslash (congrArg some heq)
          rw [hfirst.step_eq_step hsecond hblank hc]
          exact ⟨rfl, rfl⟩

/-! ## One text after another -/

theorem lineBehind_walk (text : List Char) : lineBehind (walk text) = text.count '\n' + 1 := by
  have hchars : (walk text).map WalkStep.char = text := map_char_walkFrom {} text
  conv_rhs => rw [← hchars]
  rw [lineBehind, List.count, List.countP_map]
  rfl

/-- What the check knows behind the line feed that ends a text it accepts. -/
theorem exists_foldlM_lineFeed {text : List Char} (hvalid : validateDelimiters text = .ok ()) :
    (endOfWalk text).Clean ∧ ∃ quoteLine,
      (walk text ++ [(⟨'\n', .code, endOfWalk text⟩ : WalkStep)]).foldlM BracketScan.step {} =
        .ok ⟨[], text.count '\n' + 2, quoteLine⟩ := by
  have hclosed : (endOfWalk text).openQuote = none :=
    ((validateDelimiters_eq_ok_iff text).mp hvalid).2
  refine ⟨(WalkState.clean_init.sound.run text).clean hclosed, ?_⟩
  cases hfold : (walk text).foldlM BracketScan.step {} with
  | error error =>
      rw [validateDelimiters_of_foldlM_eq_error hfold] at hvalid
      cases hvalid
  | ok scan =>
      have hline := (reads_endOfWalk hfold).line
      rw [validateDelimiters_of_foldlM_eq_ok hfold, hclosed] at hvalid
      obtain ⟨opened, line, quoteLine⟩ := scan
      cases opened with
      | cons bracket outer => cases hvalid
      | nil =>
          obtain rfl : line = text.count '\n' + 1 := hline.trans (lineBehind_walk text)
          have hstep : BracketScan.step ⟨[], text.count '\n' + 1, quoteLine⟩
              ⟨'\n', .code, endOfWalk text⟩ = .ok ⟨[], text.count '\n' + 2, quoteLine⟩ := by
            simp [BracketScan.step, hclosed, BracketScan.staysOnLine]
          refine ⟨quoteLine, ?_⟩
          rw [List.foldlM_append, hfold]
          change [_].foldlM BracketScan.step _ = _
          rw [List.foldlM_cons, hstep]
          rfl

/-- Behind a text that the check accepts and a line feed, any text that does not begin with a
`/`, blanks apart, is judged as it is alone: it is accepted, or rejected with the same error
and the same characters, on a line that is further down by the lines in front. -/
theorem validateDelimiters_append_lineFeed {first second : List Char}
    (hfirst : validateDelimiters first = .ok ())
    (hslash : (Text.trimStart second).head? ≠ some '/') :
    validateDelimiters (first ++ '\n' :: second) =
      (validateDelimiters second).mapError (.later (first.count '\n' + 1)) := by
  obtain ⟨hclean, quoteLine, hfold⟩ := exists_foldlM_lineFeed hfirst
  have hseam : Seam first ('\n' :: second) := seam_cons (by decide) first second
  have hfeed : (endOfWalk first).step '\n' second.head? = (.code, endOfWalk first) :=
    hclean.step_of_isBlank rfl _
  have hwalk : walk (first ++ '\n' :: second) =
      (walk first ++ [⟨'\n', .code, endOfWalk first⟩]) ++ walkFrom (endOfWalk first) second := by
    rw [walk, walkFrom_append_of_seam hseam, walkFrom_cons, ← endOfWalk, hfeed, List.append_assoc]
    rfl
  have hend : endOfWalk (first ++ '\n' :: second) = (endOfWalk first).run second := by
    rw [endOfWalk, run_append_of_seam hseam, run_cons, ← endOfWalk, hfeed]
  have hlater : BracketScan.Later (first.count '\n' + 1) ({} : WalkState).openQuote {}
      ⟨[], first.count '\n' + 2, quoteLine⟩ :=
    ⟨rfl, by rw [Nat.add_comm 1], fun hopen => by cases hopen⟩
  -- the walk that goes on behind the first text may as well begin anew
  obtain ⟨hsame, hquote⟩ := foldlM_step_of_clean hclean WalkState.clean_init hslash
    ⟨[], first.count '\n' + 2, quoteLine⟩
  have hstep := hlater.foldlM second
  rw [validateDelimiters, validateDelimiters, hwalk, hend, List.foldlM_append, hfold, hquote]
  change (walkFrom (endOfWalk first) second).foldlM BracketScan.step _ >>= _ = _
  rw [hsame]
  change BracketScan.InLaterStep _ _ ((walk second).foldlM BracketScan.step {}) _ at hstep
  generalize (walk second).foldlM BracketScan.step {} = early at hstep ⊢
  generalize (walkFrom {} second).foldlM BracketScan.step _ = late at hstep ⊢
  cases hstep with
  | reading hnext => exact hnext.finish
  | stopped error => rfl

/-- Behind a template over two lines, a bracket that closes nothing is found two lines further
down. The `/` in front of it is a division in both texts. -/
theorem validateDelimiters_append_lineFeed_division :
    let first := "x = \x60(\n\x60".toList
    let second := "\t'a' / b) / c".toList
    validateDelimiters first = .ok () ∧ (Text.trimStart second).head? ≠ some '/' ∧
      validateDelimiters second = .error (.unexpected 1 ')') ∧
        validateDelimiters (first ++ '\n' :: second) = .error (.unexpected 3 ')') := by
  intro first second
  have hfirst : validateDelimiters first = .ok () := by decide
  have hslash : (Text.trimStart second).head? ≠ some '/' := by decide
  have hsecond : validateDelimiters second = .error (.unexpected 1 ')') := by decide
  have hwhole := validateDelimiters_append_lineFeed hfirst hslash
  rw [hsecond] at hwhole
  exact ⟨hfirst, hslash, hsecond, hwhole⟩

end Offside
