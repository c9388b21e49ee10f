/-
# What a text does to the open brackets

The check of delimiters carries line numbers for its errors. Without them it is a
stack of open brackets, and whether a text passes is a matter of that stack and of
the literal that is open at the end.

A piece of code is then described by the brackets that it closes and by those that
it leaves open, and pieces compose: `Nests text before after` says that the text,
wherever it stands outside of literals, takes the open brackets `before` to `after`
and ends outside of literals again. Texts with a `/` are left out, because what a
`/` means depends on the code in front of it.

Where code with a `/` matters, it stays in its place: `NestsFrom` says the same of a text
from one state on.

The other direction serves to take a text apart: from a text that nests, a part that
nests can be cut off in front, and a part that opens and closes nothing at the end.
-/

import Mathlib.Data.List.TakeWhile
import Offside.Delimiter
import Offside.Proofs.Walk.Compose

namespace Offside

namespace BracketScan

/-- The open brackets without their lines. -/
def brackets (scan : BracketScan) : List Char := scan.opened.map Prod.fst

end BracketScan

/-- Take a closing bracket off the open ones, if it is the partner of the innermost. -/
def closeBracket (found : Char) : List Char → Option (List Char)
  | [] => none
  | opener :: outer => if (closerOf? opener).all (· = found) then some outer else none

/-- The open brackets, innermost first, after one more character of a walk; none where
the check of delimiters stops. -/
def nestBracket (opened : List Char) (s : WalkStep) : Option (List Char) :=
  if s.char = '\n' then
    if BracketScan.staysOnLine s.after.openQuote then none else some opened
  else if s.region = .quoted then some opened
  else if BracketScan.isDelimiter s.char then some opened
  else if (closerOf? s.char).isSome then some (s.char :: opened)
  else if isCloser s.char then closeBracket s.char opened
  else some opened

/-! ## The check of delimiters without line numbers -/

theorem toOption_close (scan : BracketScan) (found : Char) :
    (scan.close found).toOption.map BracketScan.brackets =
      closeBracket found scan.brackets := by
  obtain ⟨opened, line, quoteLine⟩ := scan
  cases opened with
  | nil => rfl
  | cons bracket outer =>
      simp only [BracketScan.close, BracketScan.brackets, List.map_cons, closeBracket]
      cases hcloser : closerOf? bracket.1 with
      | none => rfl
      | some expected =>
          by_cases hfound : expected = found
          · simp [hfound, Except.toOption, BracketScan.brackets]
          · simp [hfound, Except.toOption]

theorem toOption_step (scan : BracketScan) (s : WalkStep) :
    (scan.step s).toOption.map BracketScan.brackets = nestBracket scan.brackets s := by
  unfold BracketScan.step nestBracket
  split_ifs
  · rfl
  · rfl
  · rfl
  · rfl
  · rfl
  · rfl
  · exact toOption_close scan s.char
  · rfl

theorem toOption_foldlM_step (steps : List WalkStep) (scan : BracketScan) :
    (steps.foldlM BracketScan.step scan).toOption.map BracketScan.brackets =
      steps.foldlM nestBracket scan.brackets := by
  induction steps generalizing scan with
  | nil => rfl
  | cons s steps ih =>
      rw [List.foldlM_cons, List.foldlM_cons, ← toOption_step]
      cases scan.step s with
      | error error => rfl
      | ok after => exact ih after

/-- A text passes the check exactly when its brackets come out empty and no literal is
open at the end. -/
theorem validateDelimiters_eq_ok_iff (code : List Char) :
    validateDelimiters code = .ok () ↔
      (walk code).foldlM nestBracket [] = some [] ∧ (endOfWalk code).openQuote = none := by
  have hscan := toOption_foldlM_step (walk code) {}
  change _ = List.foldlM nestBracket [] (walk code) at hscan
  rw [← hscan, validateDelimiters]
  cases (walk code).foldlM BracketScan.step {} with
  | error error => simp [Except.toOption, bind, Except.bind]
  | ok scan =>
      obtain ⟨opened, line, quoteLine⟩ := scan
      change BracketScan.finish _ _ = _ ↔ _
      unfold BracketScan.finish
      cases (endOfWalk code).openQuote with
      | some quote => simp
      | none =>
          cases opened with
          | nil => simp [Except.toOption, BracketScan.brackets]
          | cons bracket outer => simp [Except.toOption, BracketScan.brackets]

/-! ## Brackets around a text do not matter to it -/

theorem closeBracket_eq_some_iff {found : Char} {opened outer : List Char} :
    closeBracket found opened = some outer ↔
      ∃ opener, opened = opener :: outer ∧ (closerOf? opener).all (· = found) = true := by
  cases opened with
  | nil => simp [closeBracket]
  | cons opener rest =>
      simp only [closeBracket, Option.ite_none_right_eq_some, Option.some.injEq, List.cons.injEq]
      constructor
      · rintro ⟨hpartner, rfl⟩
        exact ⟨opener, ⟨rfl, rfl⟩, hpartner⟩
      · rintro ⟨opener, ⟨rfl, rfl⟩, hpartner⟩
        exact ⟨hpartner, rfl⟩

theorem closeBracket_append {found : Char} {opened opened' : List Char}
    (hclose : closeBracket found opened = some opened') (outer : List Char) :
    closeBracket found (opened ++ outer) = some (opened' ++ outer) := by
  obtain ⟨opener, rfl, hpartner⟩ := closeBracket_eq_some_iff.mp hclose
  exact closeBracket_eq_some_iff.mpr ⟨opener, rfl, hpartner⟩

theorem nestBracket_append {opened opened' : List Char} {s : WalkStep}
    (hnest : nestBracket opened s = some opened') (outer : List Char) :
    nestBracket (opened ++ outer) s = some (opened' ++ outer) := by
  unfold nestBracket at hnest ⊢
  split_ifs at hnest ⊢
  · rw [Option.some_inj.mp hnest]
  · rw [Option.some_inj.mp hnest]
  · rw [Option.some_inj.mp hnest]
  · rw [← Option.some_inj.mp hnest, List.cons_append]
  · exact closeBracket_append hnest outer
  · rw [Option.some_inj.mp hnest]

theorem foldlM_nestBracket_append {steps : List WalkStep} {opened opened' : List Char}
    (hnest : steps.foldlM nestBracket opened = some opened') (outer : List Char) :
    steps.foldlM nestBracket (opened ++ outer) = some (opened' ++ outer) := by
  induction steps generalizing opened with
  | nil =>
      obtain rfl : opened = opened' := by simpa using hnest
      rfl
  | cons s steps ih =>
      rw [List.foldlM_cons, Option.bind_eq_bind, Option.bind_eq_some_iff] at hnest
      obtain ⟨middle, hstep, hrest⟩ := hnest
      rw [List.foldlM_cons, nestBracket_append hstep outer]
      exact ih hrest

/-- Of the state behind a character, only the literal that is open matters to the brackets. -/
theorem nestBracket_congr {region region' : Region} {after after' : WalkState}
    (hregion : region = region') (hquote : after.openQuote = after'.openQuote)
    (opened : List Char) (c : Char) :
    nestBracket opened ⟨c, region, after⟩ = nestBracket opened ⟨c, region', after'⟩ := by
  simp only [nestBracket, hregion, hquote]

/-- Through a text without `/`, two walks that agree on the open literal do the same to
the brackets. -/
theorem foldlM_nestBracket_sameLiteral {first second : WalkState}
    (hsame : first.SameLiteral second) {text : List Char} (hslash : '/' ∉ text)
    (opened : List Char) :
    (walkFrom first text).foldlM nestBracket opened =
      (walkFrom second text).foldlM nestBracket opened := by
  induction text generalizing first second opened with
  | nil => rfl
  | cons c text ih =>
      simp only [List.mem_cons, not_or] at hslash
      obtain ⟨hregion, hafter⟩ := hsame.step (Ne.symm hslash.1) text.head?
      rw [walkFrom_cons, walkFrom_cons, List.foldlM_cons, List.foldlM_cons,
        nestBracket_congr hregion hafter.1]
      congr 1
      funext middle
      exact ih hafter hslash.2 middle

/-! ## Pieces of code -/

/-- Wherever it stands outside of literals, the text takes the open brackets `before`,
innermost first, to `after`, and ends outside of literals again. -/
structure Nests (text before after : List Char) : Prop where
  slash : '/' ∉ text
  brackets : ∀ state : WalkState, state.Clean → ∀ outer,
    (walkFrom state text).foldlM nestBracket (before ++ outer) = some (after ++ outer)
  clean : ∀ state : WalkState, state.Clean → (state.run text).Clean

/-- One clean state stands for all of them. -/
theorem nests_of_clean {text before after : List Char} (hslash : '/' ∉ text) {state : WalkState}
    (hclean : state.Clean)
    (hbrackets : (walkFrom state text).foldlM nestBracket before = some after)
    (hafter : (state.run text).Clean) : Nests text before after where
  slash := hslash
  brackets other hother outer := by
    rw [foldlM_nestBracket_sameLiteral (hother.sameLiteral hclean) hslash]
    exact foldlM_nestBracket_append hbrackets outer
  clean other hother := ((hother.sameLiteral hclean).run hslash).trans hafter

theorem Nests.walk {text before after : List Char} (hnests : Nests text before after) :
    (walk text).foldlM nestBracket before = some after := by
  have hbrackets := hnests.brackets {} WalkState.clean_init []
  rwa [List.append_nil, List.append_nil] at hbrackets

/-- From this state, the text takes the open brackets `before` to `after` and ends outside of
literals. Its slashes mean what they mean there. -/
structure NestsFrom (state : WalkState) (text before after : List Char) : Prop where
  brackets : (walkFrom state text).foldlM nestBracket before = some after
  clean : (state.run text).Clean

/-- A text passes the check of delimiters exactly when it leaves the open brackets as they
are. -/
theorem validateDelimiters_eq_ok_iff_nestsFrom {text : List Char} :
    validateDelimiters text = .ok () ↔ NestsFrom {} text [] [] := by
  rw [validateDelimiters_eq_ok_iff]
  constructor
  · rintro ⟨hbrackets, hopen⟩
    exact ⟨hbrackets, (WalkState.clean_init.sound.run text).clean hopen⟩
  · rintro ⟨hbrackets, hclean⟩
    exact ⟨hbrackets, hclean.1⟩

theorem Nests.nestsFrom {text before after : List Char} (hnests : Nests text before after)
    {state : WalkState} (hclean : state.Clean) : NestsFrom state text before after where
  brackets := by
    have hbrackets := hnests.brackets state hclean []
    rwa [List.append_nil, List.append_nil] at hbrackets
  clean := hnests.clean state hclean

namespace NestsFrom

variable {state : WalkState} {first second text before middle after : List Char}

/-- Without a `/` in it, a text does the same wherever it stands. -/
theorem nests (hnests : NestsFrom state text before after) (hslash : '/' ∉ text)
    (hclean : state.Clean) : Nests text before after :=
  nests_of_clean hslash hclean hnests.brackets hnests.clean

theorem around (hnests : NestsFrom state text before after) (outer : List Char) :
    NestsFrom state text (before ++ outer) (after ++ outer) where
  brackets := foldlM_nestBracket_append hnests.brackets outer
  clean := hnests.clean

theorem append (hfirst : NestsFrom state first before middle)
    (hsecond : NestsFrom (state.run first) second middle after) (hseam : Seam first second) :
    NestsFrom state (first ++ second) before after where
  brackets := by
    rw [walkFrom_append_of_seam hseam, List.foldlM_append, hfirst.brackets]
    exact hsecond.brackets
  clean := by
    rw [run_append_of_seam hseam]
    exact hsecond.clean

/-- In front, a part that nests can be cut off. -/
theorem of_append (hboth : NestsFrom state (first ++ second) before after)
    (hfirst : NestsFrom state first before middle) (hseam : Seam first second) :
    NestsFrom (state.run first) second middle after where
  brackets := by
    have hbrackets := hboth.brackets
    rwa [walkFrom_append_of_seam hseam, List.foldlM_append, hfirst.brackets] at hbrackets
  clean := by
    have hclean := hboth.clean
    rwa [run_append_of_seam hseam] at hclean

end NestsFrom

theorem validateDelimiters_eq_ok_iff_nests {text : List Char} (hslash : '/' ∉ text) :
    validateDelimiters text = .ok () ↔ Nests text [] [] := by
  rw [validateDelimiters_eq_ok_iff_nestsFrom]
  exact ⟨fun hnests => hnests.nests hslash WalkState.clean_init,
    fun hnests => hnests.nestsFrom WalkState.clean_init⟩

/-- Brackets that a text does not reach may stand around it. -/
theorem Nests.around {text before after : List Char} (hnests : Nests text before after)
    (outer : List Char) : Nests text (before ++ outer) (after ++ outer) where
  slash := hnests.slash
  brackets state hstate outer' := by
    rw [List.append_assoc, List.append_assoc]
    exact hnests.brackets state hstate (outer ++ outer')
  clean := hnests.clean

theorem Nests.append {first second before middle after : List Char}
    (hfirst : Nests first before middle) (hsecond : Nests second middle after) :
    Nests (first ++ second) before after where
  slash := by
    rw [List.mem_append, not_or]
    exact ⟨hfirst.slash, hsecond.slash⟩
  brackets state hstate outer := by
    rw [walkFrom_append (getLast?_ne_slash hfirst.slash), List.foldlM_append,
      hfirst.brackets state hstate]
    exact hsecond.brackets _ (hfirst.clean state hstate) outer
  clean state hstate := by
    rw [run_append (getLast?_ne_slash hfirst.slash)]
    exact hsecond.clean _ (hfirst.clean state hstate)

/-- In front, a part that nests can be cut off. -/
theorem Nests.of_append {first second before middle after : List Char}
    (hboth : Nests (first ++ second) before after) (hfirst : Nests first before middle) :
    Nests second middle after := by
  have hslash : '/' ∉ second := fun hmem => hboth.slash (List.mem_append_right _ hmem)
  have hseam := seam_of_getLast?_ne (getLast?_ne_slash hfirst.slash) second
  have hsecond := (hboth.nestsFrom WalkState.clean_init).of_append
    (hfirst.nestsFrom WalkState.clean_init) hseam
  exact hsecond.nests hslash (hfirst.clean {} WalkState.clean_init)

/-! ## Characters that open and close nothing -/

/-- A character that in code is neither a bracket nor the delimiter of a literal. -/
def isInert (c : Char) : Bool :=
  !(BracketScan.isDelimiter c || (closerOf? c).isSome || isCloser c)

theorem isInert_of_all {text : List Char} (hall : text.all isInert = true) :
    ∀ c ∈ text, isInert c = true := List.all_eq_true.mp hall

theorem ne_slash_of_isInert {c : Char} (hinert : isInert c = true) : c ≠ '/' := by
  rintro rfl
  exact absurd hinert (by decide)

theorem isQuote_of_isInert {c : Char} (hinert : isInert c = true) :
    WalkState.isQuote c = false := by
  simp only [isInert, BracketScan.isDelimiter, Bool.not_eq_true', Bool.or_eq_false_iff] at hinert
  exact hinert.1.1.1

/-- Outside of literals an inert character is code and changes nothing. -/
theorem step_of_isInert {state : WalkState} (hclean : state.Clean) {c : Char}
    (hinert : isInert c = true) (ahead : Option Char) :
    (state.step c ahead).1 = .code ∧ (state.step c ahead).2.Clean := by
  have hslash := ne_slash_of_isInert hinert
  simp only [WalkState.step, hclean.1, isQuote_of_isInert hinert, hslash, decide_false,
    Bool.false_and, Bool.or_false]
  exact ⟨rfl, (WalkState.sameLiteral_seeCode state c).trans hclean⟩

theorem nestBracket_of_isInert {c : Char} (hinert : isInert c = true) {after : WalkState}
    (hclean : after.Clean) (opened : List Char) :
    nestBracket opened ⟨c, .code, after⟩ = some opened := by
  have hlineFeed : BracketScan.staysOnLine after.openQuote = false := by
    rw [hclean.1]
    rfl
  simp only [isInert, Bool.not_eq_true', Bool.or_eq_false_iff] at hinert
  obtain ⟨⟨hdelimiter, hopener⟩, hcloser⟩ := hinert
  simp [nestBracket, hlineFeed, hdelimiter, hopener, hcloser]

theorem nests_nil (opened : List Char) : Nests [] opened opened :=
  nests_of_clean (by simp) WalkState.clean_init rfl WalkState.clean_init

theorem nests_of_isInert {text : List Char} (hinert : ∀ c ∈ text, isInert c = true)
    (opened : List Char) : Nests text opened opened := by
  induction text with
  | nil => exact nests_nil opened
  | cons c text ih =>
      rw [List.forall_mem_cons] at hinert
      obtain ⟨hregion, hafter⟩ := step_of_isInert WalkState.clean_init hinert.1 none
      have hfirst : Nests [c] opened opened := by
        refine nests_of_clean ?_ WalkState.clean_init ?_ hafter
        · simpa using Ne.symm (ne_slash_of_isInert hinert.1)
        · rw [walkFrom_cons, List.head?_nil, hregion, List.foldlM_cons,
            nestBracket_of_isInert hinert.1 hafter]
          rfl
      exact hfirst.append (ih hinert.2)

/-- A literal that is open stays open over an inert character. -/
theorem openQuote_step_of_isInert {state : WalkState} (hsound : state.Sound) {quote : Char}
    (hopen : state.openQuote = some quote) {c : Char} (hinert : isInert c = true)
    (ahead : Option Char) : (state.step c ahead).2.openQuote = some quote := by
  have hquote : c ≠ quote := by
    rintro rfl
    rcases hsound.delimiter c hopen with hdelimiter | hdelimiter
    · rw [isQuote_of_isInert hinert] at hdelimiter
      cases hdelimiter
    · exact ne_slash_of_isInert hinert hdelimiter
  unfold WalkState.step
  simp only [hopen, hquote, decide_false, Bool.false_and, Bool.false_eq_true, if_false]
  split_ifs
  · rfl
  · rfl
  · rfl
  · rfl
  · exact hopen

theorem openQuote_run_of_isInert {state : WalkState} (hsound : state.Sound) {quote : Char}
    (hopen : state.openQuote = some quote) {text : List Char}
    (hinert : ∀ c ∈ text, isInert c = true) : (state.run text).openQuote = some quote := by
  induction text generalizing state with
  | nil => exact hopen
  | cons c text ih =>
      rw [List.forall_mem_cons] at hinert
      exact ih (hsound.step c text.head?) (openQuote_step_of_isInert hsound hopen hinert.1 _)
        hinert.2

/-- Where a text with inert characters at its end leaves no literal open, none was open in
front of them. -/
theorem clean_run_of_append_isInert {state : WalkState} (hsound : state.Sound)
    {first last : List Char} (hinert : ∀ c ∈ last, isInert c = true) (hseam : Seam first last)
    (hend : (state.run (first ++ last)).Clean) : (state.run first).Clean := by
  apply (hsound.run first).clean
  cases hopen : (state.run first).openQuote with
  | none => rfl
  | some quote =>
      rw [run_append_of_seam hseam] at hend
      have hstays := openQuote_run_of_isInert (hsound.run first) hopen hinert
      rw [hend.1] at hstays
      cases hstays

/-- At the end, inert characters can be cut off. -/
theorem NestsFrom.of_append_isInert {state : WalkState} {first last before after : List Char}
    (hboth : NestsFrom state (first ++ last) before after) (hsound : state.Sound)
    (hinert : ∀ c ∈ last, isInert c = true) (hseam : Seam first last) :
    NestsFrom state first before after := by
  have hclean := clean_run_of_append_isInert hsound hinert hseam hboth.clean
  have hbrackets := hboth.brackets
  rw [walkFrom_append_of_seam hseam, List.foldlM_append, Option.bind_eq_bind,
    Option.bind_eq_some_iff] at hbrackets
  obtain ⟨middle, hfirst, hrest⟩ := hbrackets
  have hsame := ((nests_of_isInert hinert middle).nestsFrom hclean).brackets
  rw [hrest, Option.some_inj] at hsame
  rw [hsame]
  exact ⟨hfirst, hclean⟩

theorem Nests.of_append_isInert {first last before after : List Char}
    (hboth : Nests (first ++ last) before after) (hinert : ∀ c ∈ last, isInert c = true) :
    Nests first before after := by
  have hslash : '/' ∉ first := fun hmem => hboth.slash (List.mem_append_left _ hmem)
  have hseam := seam_of_getLast?_ne (getLast?_ne_slash hslash) last
  have hfirst := (hboth.nestsFrom WalkState.clean_init).of_append_isInert
    WalkState.clean_init.sound hinert hseam
  exact hfirst.nests hslash WalkState.clean_init

/-- A class of characters without a bracket or a delimiter in it. -/
theorem isInert_of_class {p : Char → Bool}
    (hp : ['"', '\'', '\x60', '/', '(', '[', '\x7b', ')', ']', '\x7d'].any p = false) {c : Char}
    (hc : p c = true) : isInert c = true := by
  by_contra hinert
  have hmem : c ∈ ['"', '\'', '\x60', '/', '(', '[', '\x7b', ')', ']', '\x7d'] := by
    unfold isInert closerOf? at hinert
    split at hinert <;> simp_all [BracketScan.isDelimiter, WalkState.isQuote, isCloser]
    tauto
  exact List.any_eq_false.mp hp c hmem hc

theorem isInert_of_isBlank {c : Char} (hblank : Text.isBlank c = true) : isInert c = true :=
  isInert_of_class rfl hblank

theorem Nests.trimStart {text before after : List Char} (hnests : Nests text before after) :
    Nests (Text.trimStart text) before after := by
  rw [← Text.takeWhile_append_trimStart text] at hnests
  refine hnests.of_append (nests_of_isInert (fun c hc => ?_) before)
  exact isInert_of_isBlank (List.mem_takeWhile_imp hc)

theorem Nests.trimEnd {text before after : List Char} (hnests : Nests text before after) :
    Nests (Text.trimEnd text) before after := by
  rw [← Text.trimEnd_append text] at hnests
  refine hnests.of_append_isInert fun c hc => ?_
  exact isInert_of_isBlank (List.mem_takeWhile_imp (List.mem_reverse.mp hc))

theorem Nests.trim {text before after : List Char} (hnests : Nests text before after) :
    Nests (Text.trim text) before after := hnests.trimStart.trimEnd

theorem Nests.dropFinal {text before after : List Char} (hnests : Nests text before after)
    {last : Char} (hlast : isInert last = true) :
    Nests (Text.dropFinal last text) before after := by
  obtain ⟨final, hfinal, happend⟩ := Text.dropFinal_append last text
  rw [← happend] at hnests
  refine hnests.of_append_isInert fun c hc => ?_
  rwa [hfinal c hc]

/-! ## Brackets -/

theorem nests_opener {opener closer : Char} (hpair : closerOf? opener = some closer) :
    Nests [opener] [] [opener] := by
  unfold closerOf? at hpair
  split at hpair
  · exact nests_of_clean (by decide) WalkState.clean_init rfl WalkState.clean_init
  · exact nests_of_clean (by decide) WalkState.clean_init rfl WalkState.clean_init
  · exact nests_of_clean (by decide) WalkState.clean_init rfl WalkState.clean_init
  · cases hpair

theorem nests_closer {opener closer : Char} (hpair : closerOf? opener = some closer) :
    Nests [closer] [opener] [] := by
  unfold closerOf? at hpair
  split at hpair <;> cases hpair
  · exact nests_of_clean (by decide) WalkState.clean_init rfl WalkState.clean_init
  · exact nests_of_clean (by decide) WalkState.clean_init rfl WalkState.clean_init
  · exact nests_of_clean (by decide) WalkState.clean_init rfl WalkState.clean_init

/-- A text that nests, between a pair of brackets. -/
theorem Nests.between {text : List Char} (hnests : Nests text [] []) {opener closer : Char}
    (hpair : closerOf? opener = some closer) : Nests (opener :: text ++ [closer]) [] [] :=
  ((nests_opener hpair).append (hnests.around [opener])).append (nests_closer hpair)

/-! ## The depth of braces -/

theorem braceStep_of_ne {s : WalkStep} (hopener : s.char ≠ '\x7b') (hcloser : s.char ≠ '\x7d')
    (depth : Nat) : braceStep depth s = some depth := by
  simp [braceStep, hopener, hcloser]

theorem closerOf?_eq_brace_iff {opener : Char} :
    closerOf? opener = some '\x7d' ↔ opener = '\x7b' := by
  unfold closerOf?
  split <;> simp_all

theorem ne_brace_of_isDelimiter {c : Char} (hdelimiter : BracketScan.isDelimiter c = true) :
    c ≠ '\x7b' ∧ c ≠ '\x7d' := by
  constructor <;> rintro rfl <;> exact absurd hdelimiter (by decide)

/-- An opening bracket counts as far as it is a brace. -/
theorem braceStep_of_opener {s : WalkStep} (hcode : s.region ≠ .quoted)
    (hopener : (closerOf? s.char).isSome) (opened : List Char) :
    braceStep (opened.count '\x7b') s = some ((s.char :: opened).count '\x7b') := by
  by_cases hbrace : s.char = '\x7b'
  · simp [braceStep, hcode, hbrace]
  · have hother : s.char ≠ '\x7d' := by
      intro hchar
      rw [hchar] at hopener
      exact absurd hopener (by decide)
    rw [braceStep_of_ne hbrace hother, List.count_cons_of_ne hbrace]

/-- A closing bracket takes a brace off the count exactly when it is one, because it is
the partner of the bracket that it takes away. -/
theorem braceStep_of_closer {s : WalkStep} (hcode : s.region ≠ .quoted)
    (hcloser : closerOf? s.char = none) {opener : Char} (hpair : closerOf? opener = some s.char)
    (outer : List Char) :
    braceStep ((opener :: outer).count '\x7b') s = some (outer.count '\x7b') := by
  by_cases hbrace : s.char = '\x7d'
  · obtain rfl := closerOf?_eq_brace_iff.mp (hbrace ▸ hpair)
    simp [braceStep, hcode, hbrace]
  · have hother : s.char ≠ '\x7b' := by
      intro hchar
      rw [hchar] at hcloser
      cases hcloser
    have hopener : opener ≠ '\x7b' := by
      rintro rfl
      exact hbrace (Option.some_inj.mp hpair).symm
    rw [braceStep_of_ne hother hbrace, List.count_cons_of_ne hopener]

/-- The count of braces follows the open brackets, as long as each of those is an
opening bracket. -/
theorem braceStep_of_nestBracket {opened opened' : List Char} {s : WalkStep}
    (hopeners : ∀ opener ∈ opened, (closerOf? opener).isSome)
    (hnest : nestBracket opened s = some opened') :
    braceStep (opened.count '\x7b') s = some (opened'.count '\x7b') ∧
      ∀ opener ∈ opened', (closerOf? opener).isSome := by
  unfold nestBracket at hnest
  split_ifs at hnest with hlineFeed hstays hcode hdelimiter hopener hcloser
  · obtain rfl := Option.some_inj.mp hnest
    exact ⟨braceStep_of_ne (by simp [hlineFeed]) (by simp [hlineFeed]) _, hopeners⟩
  · obtain rfl := Option.some_inj.mp hnest
    exact ⟨if_pos hcode, hopeners⟩
  · obtain rfl := Option.some_inj.mp hnest
    obtain ⟨hopening, hclosing⟩ := ne_brace_of_isDelimiter hdelimiter
    exact ⟨braceStep_of_ne hopening hclosing _, hopeners⟩
  · obtain rfl := Option.some_inj.mp hnest
    exact ⟨braceStep_of_opener hcode hopener _, List.forall_mem_cons.mpr ⟨hopener, hopeners⟩⟩
  · obtain ⟨opener, rfl, hpartner⟩ := closeBracket_eq_some_iff.mp hnest
    rw [List.forall_mem_cons] at hopeners
    obtain ⟨closer, hpair⟩ := Option.isSome_iff_exists.mp hopeners.1
    obtain rfl : closer = s.char := by simpa [hpair] using hpartner
    exact ⟨braceStep_of_closer hcode (by simpa using hopener) hpair _, hopeners.2⟩
  · obtain rfl := Option.some_inj.mp hnest
    have hopening : s.char ≠ '\x7b' := by
      intro hchar
      rw [hchar] at hopener
      exact hopener rfl
    have hclosing : s.char ≠ '\x7d' := by
      intro hchar
      rw [hchar] at hcloser
      exact hcloser rfl
    exact ⟨braceStep_of_ne hopening hclosing _, hopeners⟩

theorem foldlM_braceStep_of_nestBracket {steps : List WalkStep} {opened opened' : List Char}
    (hopeners : ∀ opener ∈ opened, (closerOf? opener).isSome)
    (hnest : steps.foldlM nestBracket opened = some opened') :
    steps.foldlM braceStep (opened.count '\x7b') = some (opened'.count '\x7b') := by
  induction steps generalizing opened with
  | nil =>
      obtain rfl : opened = opened' := by simpa using hnest
      rfl
  | cons s steps ih =>
      rw [List.foldlM_cons, Option.bind_eq_bind, Option.bind_eq_some_iff] at hnest
      obtain ⟨middle, hstep, hrest⟩ := hnest
      obtain ⟨hbrace, hopeners'⟩ := braceStep_of_nestBracket hopeners hstep
      rw [List.foldlM_cons, hbrace]
      exact ih hopeners' hrest

/-- The depth of braces at the end of a text is the number of braces among the brackets
that it leaves open. -/
theorem Nests.braceDepth_eq {text after : List Char} (hnests : Nests text [] after) :
    braceDepth text = some (after.count '\x7b') :=
  foldlM_braceStep_of_nestBracket (by simp) hnests.walk

end Offside
