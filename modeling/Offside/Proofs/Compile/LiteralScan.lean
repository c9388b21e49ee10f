/-
# Scans past a literal

A scan for the top level passes over a literal as a whole: it stops at nothing between the
quotes, the brackets, colons and commas there count for nothing, and behind the literal it
does not know which one it has passed. So two texts that differ in a literal are cut at the
same place: in front of the literal, and then what is cut off has it; or behind it, and then
what is left has it; or nowhere.

A pass takes a line apart and scans the pieces, each from a fresh start. `DifferFrom` says of
two pieces that they differ in a literal which a walk from a given state comes to in code. It
goes from a text to the pieces in which the literal stands, and back from the pieces to a text
that is put together from them.
-/

import Offside.Proofs.Compile.Passage
import Offside.Proofs.Text.Differ
import Offside.Proofs.Walk.Literal
import Offside.Proofs.Walk.Reading

namespace Offside

open Token (Sealed pending escapesNext sealed_cons_iff)

/-- A quote, a complete body, and the quote again. -/
def IsQuoted (quote : Char) (literal : List Char) : Prop :=
  ∃ body, literal = quote :: body ++ [quote] ∧ IsBody quote body

/-- Two literals between the same quotes. -/
structure QuotedPair (quote : Char) (literal literal' : List Char) : Prop where
  isQuote : WalkState.isQuote quote = true
  first : IsQuoted quote literal
  second : IsQuoted quote literal'

/-- A character that a walk in code only remembers: no literal opens or closes at it, it is
not blank, and it makes no comment of a `/` in front of it. -/
def isMark (c : Char) : Bool := !BracketScan.isDelimiter c && !Text.isBlank c && c != '*'

/-- The test accepts nothing but marks. -/
def StopsAtMarks (stop : Place → Bool) : Prop :=
  ∀ place, stop place = true → isMark place.char = true

/-- The texts are the same but for a literal, and a walk from this state comes to the literal
in code. -/
def DifferFrom (state : WalkState) (literal literal' text text' : List Char) : Prop :=
  ∃ front back, text = front ++ literal ++ back ∧ text' = front ++ literal' ++ back ∧
    (state.run front).Clean

/-- The texts are the same, or they differ in the literal alone, which a walk from this state
comes to in code. -/
def AgreeFrom (state : WalkState) (literal literal' text text' : List Char) : Prop :=
  text' = text ∨ DifferFrom state literal literal' text text'

namespace WalkState

variable {state : WalkState} {c : Char}

theorem ne_of_isMark (hmark : isMark c = true) : c ≠ '/' ∧ c ≠ '*' := by
  constructor
  · rintro rfl
    cases hmark
  · rintro rfl
    cases hmark

theorem step_of_isMark (hclean : state.Clean) (hmark : isMark c = true) (ahead : Option Char) :
    state.step c ahead = (.code, behind c) := by
  obtain ⟨openQuote, escaped, inClass, lastCode⟩ := state
  obtain ⟨rfl, rfl, rfl⟩ := hclean
  simp only [isMark, BracketScan.isDelimiter, Bool.and_eq_true, Bool.not_eq_true',
    Bool.or_eq_false_iff, beq_eq_false_iff_ne] at hmark
  simp [step, hmark, seeCode, behind]

/-- Behind a mark of code nothing is left of what stands in front of it. -/
theorem run_append_mark {before : List Char} (hclean : (state.run before).Clean)
    (hmark : isMark c = true) (rest : List Char) :
    state.run (before ++ c :: rest) = (behind c).run rest := by
  rw [run_append_of_seam (seam_cons (ne_of_isMark hmark) before rest), run_cons,
    step_of_isMark hclean hmark]

/-- Where a character of code delimits no literal, none is open. -/
theorem Sound.clean_of_code (hsound : state.Sound) {ahead : Option Char}
    (hcode : (state.step c ahead).1 = .code) (hc : BracketScan.isDelimiter c = false) :
    state.Clean := by
  apply hsound.clean
  cases hopen : state.openQuote with
  | none => rfl
  | some quote =>
      simp only [WalkState.step, hopen] at hcode
      split_ifs at hcode with hescaped hbackslash hcloses
      simp only [Bool.and_eq_true, decide_eq_true_eq] at hcloses
      rw [hcloses.1, BracketScan.isDelimiter] at hc
      rcases hsound.delimiter quote hopen with hquote | rfl
      · rw [hquote] at hc
        cases hc
      · cases hc

/-- Behind an operator or an opening bracket a text is read as at the beginning. -/
theorem sameReading_behind (hoperand : expectsOperand c = true) : SameReading (behind c) {} :=
  (clean_behind c).sameReading clean_init (by simp [opensRegex, behind, hoperand])

end WalkState

open WalkState

/-! ## Texts that differ in a literal of code -/

variable {state state' : WalkState} {quote : Char} {literal literal' text text' : List Char}

/-- No literal goes on where another one ends. -/
theorem IsQuoted.eq_of_append (hliteral : IsQuoted quote literal)
    (hliteral' : IsQuoted quote literal') {back back' : List Char}
    (heq : literal ++ back = literal' ++ back') : literal = literal' := by
  obtain ⟨body, rfl, hbody⟩ := hliteral
  obtain ⟨body', rfl, hbody'⟩ := hliteral'
  have hbodies : body ++ quote :: back = body' ++ quote :: back' := by simpa using heq
  rw [hbody.eq_of_append hbody' hbodies]

theorem QuotedPair.symm (hpair : QuotedPair quote literal literal') :
    QuotedPair quote literal' literal := ⟨hpair.isQuote, hpair.second, hpair.first⟩

namespace DifferFrom

theorem symm (hdiffer : DifferFrom state literal literal' text text') :
    DifferFrom state literal' literal text' text := by
  obtain ⟨front, back, htext, htext', hclean⟩ := hdiffer
  exact ⟨front, back, htext', htext, hclean⟩

theorem differ (hdiffer : DifferFrom state literal literal' text text') :
    Differ literal literal' text text' := by
  obtain ⟨front, back, htext, htext', -⟩ := hdiffer
  exact ⟨front, back, htext, htext'⟩

theorem congr (hsame : SameReading state state')
    (hdiffer : DifferFrom state literal literal' text text') :
    DifferFrom state' literal literal' text text' := by
  obtain ⟨front, back, htext, htext', hclean⟩ := hdiffer
  exact ⟨front, back, htext, htext', hsame.clean_run hclean⟩

theorem append (hdiffer : DifferFrom state literal literal' text text') (after : List Char) :
    DifferFrom state literal literal' (text ++ after) (text' ++ after) := by
  obtain ⟨front, back, rfl, rfl, hclean⟩ := hdiffer
  exact ⟨front, back ++ after, by simp, by simp, hclean⟩

/-- Up to a mark, anything may stand in front that leaves no literal open. -/
theorem prepend {before : List Char} {c : Char} (hbefore : (state.run before).Clean)
    (hmark : isMark c = true) (hdiffer : DifferFrom (behind c) literal literal' text text') :
    DifferFrom state literal literal' (before ++ c :: text) (before ++ c :: text') := by
  obtain ⟨front, back, rfl, rfl, hclean⟩ := hdiffer
  refine ⟨before ++ c :: front, back, by simp, by simp, ?_⟩
  rwa [run_append_mark hbefore hmark]

/-- What drops something behind a quote keeps the literal. -/
theorem dropBack (hpair : QuotedPair quote literal literal') {drop : List Char → List Char}
    (hdrop : ∀ front back, drop (front ++ quote :: back) = front ++ quote :: drop back)
    (hdiffer : DifferFrom state literal literal' text text') :
    DifferFrom state literal literal' (drop text) (drop text') := by
  obtain ⟨front, back, rfl, rfl, hclean⟩ := hdiffer
  have hkeeps : ∀ other, IsQuoted quote other →
      drop (front ++ other ++ back) = front ++ other ++ drop back := by
    rintro other ⟨body, rfl, -⟩
    have hsplit : ∀ rest : List Char, front ++ (quote :: body ++ [quote]) ++ rest =
        front ++ quote :: body ++ quote :: rest := by simp
    rw [hsplit, hdrop, hsplit]
  exact ⟨front, drop back, hkeeps literal hpair.first, hkeeps literal' hpair.second, hclean⟩

end DifferFrom

namespace AgreeFrom

theorem sameAround (hagree : AgreeFrom state literal literal' text text') :
    SameAround literal literal' text text' := hagree.imp_right DifferFrom.differ

theorem congr (hsame : SameReading state state')
    (hagree : AgreeFrom state literal literal' text text') :
    AgreeFrom state' literal literal' text text' := hagree.imp_right (·.congr hsame)

theorem append (hagree : AgreeFrom state literal literal' text text') (after : List Char) :
    AgreeFrom state literal literal' (text ++ after) (text' ++ after) := by
  rcases hagree with rfl | hdiffer
  · exact .inl rfl
  · exact .inr (hdiffer.append after)

theorem prepend {before : List Char} {c : Char} (hbefore : (state.run before).Clean)
    (hmark : isMark c = true) (hagree : AgreeFrom (behind c) literal literal' text text') :
    AgreeFrom state literal literal' (before ++ c :: text) (before ++ c :: text') := by
  rcases hagree with rfl | hdiffer
  · exact .inl rfl
  · exact .inr (hdiffer.prepend hbefore hmark)

end AgreeFrom

/-! ## Scans -/

namespace TopLevelScan

variable {scan : TopLevelScan} {stop : Place → Bool}

/-- The walk of a scan through a text is that of the text, whatever comes next. -/
theorem walk_run {next : Char} (hnext : next ≠ '/' ∧ next ≠ '*') (scan : TopLevelScan)
    (text : List Char) : (scan.run (some next) text).walk = scan.walk.run text := by
  induction text generalizing scan with
  | nil => rfl
  | cons c text ih =>
      have hstep : scan.walk.step c (text.head?.or (some next)) =
          scan.walk.step c text.head? := by
        cases text with
        | nil => exact step_of_ahead (by simpa using hnext) scan.walk c
        | cons d text => rfl
      rw [run_cons, ih, Offside.run_cons, ← hstep]
      rfl

/-- The scan behind a literal. -/
def pastLiteral (scan : TopLevelScan) (quote : Char) : TopLevelScan :=
  { scan with walk := behind quote, previous := some quote, blankSoFar := false }

/-- What is part of a literal moves the scan on, and nothing else. -/
theorem advance_of_inLiteral {c : Char} {ahead : Option Char}
    (hinside : scan.inLiteral c ahead = true) :
    scan.advance c ahead = { scan with
      walk := (scan.walk.step c ahead).2
      previous := some c
      blankSoFar := scan.blankSoFar && Text.isBlank c } := by
  simp [advance, hinside]

theorem stopsAt_of_inLiteral {c : Char} {ahead : Option Char}
    (hinside : scan.inLiteral c ahead = true) : scan.stopsAt stop c ahead = false := by
  simp [stopsAt, hinside]

section Quote

variable (hquote : isQuote quote = true)

include hquote

/-- Inside a literal a scan goes on to its end. -/
theorem passes_of_sealed (scan : TopLevelScan) (stop : Place → Bool) {body : List Char}
    {next : Option Char} (hopen : scan.walk.openQuote = some quote)
    (hclass : scan.walk.inClass = false)
    (hsealed : Sealed scan.walk.escaped quote body) :
    scan.Passes stop next body ∧ ∃ previous blankSoFar, scan.run next body =
      { scan with
        walk := { scan.walk with escaped := pending scan.walk.escaped body }
        previous := previous
        blankSoFar := blankSoFar } := by
  induction body generalizing scan with
  | nil => exact ⟨trivial, scan.previous, scan.blankSoFar, rfl⟩
  | cons c body ih =>
      obtain ⟨hhead, htail⟩ := sealed_cons_iff.mp hsealed
      have hstep := step_of_sealed hquote hopen hclass hhead (body.head?.or next)
      have hinside : scan.inLiteral c (body.head?.or next) = true := by
        simp [inLiteral, hstep]
      have hadvance := advance_of_inLiteral hinside
      rw [hstep] at hadvance
      obtain ⟨hpasses, previous, blankSoFar, hrun⟩ :=
        ih { scan with
          walk := { scan.walk with escaped := escapesNext scan.walk.escaped c }
          previous := some c
          blankSoFar := scan.blankSoFar && Text.isBlank c } hopen hclass htail
      rw [← hadvance] at hpasses hrun
      refine ⟨⟨stopsAt_of_inLiteral hinside, hpasses⟩, previous, blankSoFar, ?_⟩
      rw [TopLevelScan.run_cons, hrun, hadvance, Token.pending_cons]

theorem inLiteral_quote (scan : TopLevelScan) (ahead : Option Char) :
    scan.inLiteral quote ahead = true := by
  simp [inLiteral, hquote]

/-- A quote that is not protected takes the scan out of the literal. -/
theorem advance_closing (hopen : scan.walk.openQuote = some quote)
    (hescaped : scan.walk.escaped = false) (hclass : scan.walk.inClass = false)
    (ahead : Option Char) : scan.advance quote ahead = scan.pastLiteral quote := by
  rw [advance_of_inLiteral (inLiteral_quote hquote scan ahead),
    step_of_closes hquote hopen hescaped hclass, isBlank_of_isQuote hquote, Bool.and_false,
    pastLiteral]

/-- A scan in code passes a literal, and behind it cannot tell which one it was. -/
theorem passes_literal (scan : TopLevelScan) (stop : Place → Bool)
    (hliteral : IsQuoted quote literal) (hclean : scan.walk.Clean) (next : Option Char) :
    scan.Passes stop next literal ∧ scan.run next literal = scan.pastLiteral quote := by
  obtain ⟨body, rfl, hsealed, hcloses⟩ := hliteral
  have hopening := advance_of_inLiteral (inLiteral_quote hquote scan (body ++ [quote]).head?)
  rw [step_of_clean hquote hclean] at hopening
  obtain ⟨hpasses, previous, blankSoFar, hrun⟩ :=
    passes_of_sealed hquote (scan.advance quote (body ++ [quote]).head?) stop (by rw [hopening])
      (by rw [hopening]) (by rw [hopening]; exact hsealed)
  have hend : ((scan.advance quote (body ++ [quote]).head?).run (some quote) body).advance quote
      next = scan.pastLiteral quote := by
    rw [hrun, hopening]
    exact advance_closing hquote rfl hcloses rfl next
  have hhead : (body ++ [quote]).head?.or next = (body ++ [quote]).head? := by
    cases body <;> rfl
  rw [List.cons_append, passes_cons, TopLevelScan.run_cons, hhead, passes_append, run_append]
  exact ⟨⟨stopsAt_of_inLiteral (inLiteral_quote hquote scan _), hpasses,
    stopsAt_of_inLiteral (inLiteral_quote hquote _ next), trivial⟩, hend⟩

theorem cut?_literal (hliteral : IsQuoted quote literal) {front : List Char}
    (hclean : (scan.walk.run front).Clean) (hpasses : scan.Passes stop (some quote) front)
    (back : List Char) :
    scan.cut? stop (front ++ literal ++ back) =
      (((scan.run (some quote) front).pastLiteral quote).cut? stop back).map fun cut =>
        (front ++ literal ++ cut.1, cut.2) := by
  have hhead : literal.head?.or back.head? = some quote := by
    obtain ⟨body, rfl, -⟩ := hliteral
    rfl
  have hnext : quote ≠ '/' ∧ quote ≠ '*' :=
    ⟨ne_of_isQuote hquote rfl, ne_of_isQuote hquote rfl⟩
  obtain ⟨hpassesLiteral, hrun⟩ := passes_literal hquote (scan.run (some quote) front) stop
    hliteral (by rwa [walk_run hnext]) back.head?
  have hboth : scan.Passes stop back.head? (front ++ literal) := by
    rw [passes_append, hhead]
    exact ⟨hpasses, hpassesLiteral⟩
  rw [hboth.cut?_append, run_append, hhead, hrun]

end Quote

/-! ## Cuts -/

/-- How a cut of a text and a cut of one that differs from it in a literal compare. The walk
of the scan is in this state at the beginning. -/
inductive CutsDiffer (state : WalkState) (literal literal' : List Char) :
    Option (List Char × List Char) → Option (List Char × List Char) → Prop
  /-- There is no cut. -/
  | none : CutsDiffer state literal literal' none none
  /-- The cut falls in front of the literal, at a mark of code. -/
  | inFront {before found found' : List Char} {c : Char} (hmark : isMark c = true)
      (hbefore : (state.run before).Clean)
      (hfound : DifferFrom (behind c) literal literal' found found') :
      CutsDiffer state literal literal' (some (before, c :: found)) (some (before, c :: found'))
  /-- The cut falls behind the literal. -/
  | behind {before before' found : List Char}
      (hbefore : DifferFrom state literal literal' before before') :
      CutsDiffer state literal literal' (some (before, found)) (some (before', found))

/-- In front of a mark at which a scan stops, no literal is open. -/
theorem clean_of_stopsAt (hsound : scan.walk.Sound) {before : List Char} {c : Char}
    {ahead : Option Char} (hmark : isMark c = true)
    (hstops : (scan.run (some c) before).stopsAt stop c ahead = true) :
    (scan.walk.run before).Clean := by
  have hwalk : (scan.run (some c) before).walk = scan.walk.run before :=
    walk_run (ne_of_isMark hmark) scan before
  simp only [stopsAt, inLiteral, hwalk, Bool.and_eq_true, Bool.not_eq_true',
    Bool.or_eq_false_iff, beq_eq_false_iff_ne] at hstops
  simp only [isMark, Bool.and_eq_true, Bool.not_eq_true'] at hmark
  have hcode : ((scan.walk.run before).step c ahead).1 = .code := by
    cases hregion : ((scan.walk.run before).step c ahead).1 with
    | code => rfl
    | quoted => exact absurd hregion hstops.1.1.1
  exact (hsound.run before).clean_of_code hcode hmark.1.1

/-- A cut at a mark falls in code. -/
theorem clean_of_cut? (hsound : scan.walk.Sound) (hmarks : StopsAtMarks stop)
    {text before found : List Char} (hcut : scan.cut? stop text = some (before, found)) :
    (scan.walk.run before).Clean ∧ ∃ c rest, isMark c = true ∧ found = c :: rest := by
  obtain ⟨c, rest, rfl, -, -, hstops⟩ := cut?_eq_some_iff.mp hcut
  have hmark : isMark c = true := by
    simp only [stopsAt, Bool.and_eq_true] at hstops
    exact hmarks _ hstops.2
  exact ⟨clean_of_stopsAt hsound hmark hstops, c, rest, hmark, rfl⟩

/-- A test that accepts nothing but marks cuts two texts that differ in a literal at the same
place. -/
theorem cutsDiffer (scan : TopLevelScan) (hpair : QuotedPair quote literal literal')
    (hsound : scan.walk.Sound) (hmarks : StopsAtMarks stop)
    (hdiffer : DifferFrom scan.walk literal literal' text text') :
    CutsDiffer scan.walk literal literal' (scan.cut? stop text) (scan.cut? stop text') := by
  obtain ⟨front, back, rfl, rfl, hclean⟩ := hdiffer
  rcases scan.passes_or_stops stop (some quote) front with
    hpasses | ⟨before, c, rest, rfl, hpasses, hstops⟩
  · rw [cut?_literal hpair.isQuote hpair.first hclean hpasses,
      cut?_literal hpair.isQuote hpair.second hclean hpasses]
    cases ((scan.run (some quote) front).pastLiteral quote).cut? stop back with
    | none => exact .none
    | some cut => exact .behind ⟨front, cut.1, rfl, rfl, hclean⟩
  · have hmark : isMark c = true := by
      simp only [stopsAt, Bool.and_eq_true] at hstops
      exact hmarks _ hstops.2
    have hbefore : (scan.walk.run before).Clean := clean_of_stopsAt hsound hmark hstops
    have hcut : ∀ other, IsQuoted quote other →
        scan.cut? stop (before ++ c :: rest ++ other ++ back) =
          some (before, c :: (rest ++ other ++ back)) := by
      rintro other ⟨body, rfl, -⟩
      rw [List.append_assoc, List.append_assoc, List.cons_append]
      refine (hpasses.cut?_cons ?_).trans (by simp)
      rwa [List.head?_append]
    rw [hcut literal hpair.first, hcut literal' hpair.second]
    refine .inFront hmark hbefore ⟨rest, back, rfl, rfl, ?_⟩
    rwa [← run_append_mark hbefore hmark]

end TopLevelScan

variable {stop : Place → Bool}

theorem cutTopLevel?_differ (hpair : QuotedPair quote literal literal')
    (hmarks : StopsAtMarks stop) (hdiffer : DifferFrom {} literal literal' text text') :
    TopLevelScan.CutsDiffer {} literal literal' (cutTopLevel? stop text)
      (cutTopLevel? stop text') :=
  TopLevelScan.cutsDiffer {} hpair clean_init.sound hmarks hdiffer

theorem cutType?_differ (hpair : QuotedPair quote literal literal') (hmarks : StopsAtMarks stop)
    (hdiffer : DifferFrom {} literal literal' text text') :
    TopLevelScan.CutsDiffer {} literal literal' (cutType? stop text) (cutType? stop text') :=
  TopLevelScan.cutsDiffer { inType := true } hpair clean_init.sound hmarks hdiffer

end Offside
