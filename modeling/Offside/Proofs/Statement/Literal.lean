/-
# Assignments do not depend on literals

The search for operators goes through the whole statement, literals included. But a walk
gets past a literal without seeing code in it, and behind the literal the search goes on
as it would behind any other between the same quotes. So the literal stands in one
segment, the operators around it are the same, and the segment is no list of targets.
The targets are the same, then, and the value is the same around the literal.
-/

import Offside.Proofs.Scrub.Literal
import Offside.Proofs.Statement.Nesting
import Offside.Proofs.Text.Differ

namespace Offside

open Token (quote? eq_of_quote?)

variable {kind : TokenKind} {quote : Char} {literal literal' text text' : List Char}

/-! ## Operators -/

/-- Past a literal, a walk is where it was, or at the literal's last quote. -/
def WalkState.behindLiteral (state : WalkState) (quote : Char) : WalkState :=
  if state.openQuote = none then ⟨none, false, false, some quote⟩
  else { state with escaped := false }

/-- The search for operators up to a quote does not see what comes behind it. -/
theorem exists_markOperatorsFrom_append_cons (stop : Char) {front : List Char}
    (hslash : '/' ∉ front) (scan : OperatorScan) :
    ∃ marks scan', scan'.walk = scan.walk.run front ∧ ∀ back,
      markOperatorsFrom scan (front ++ stop :: back) =
        marks ++ markOperatorsFrom scan' (stop :: back) := by
  induction front generalizing scan with
  | nil => exact ⟨[], scan, rfl, fun _ => rfl⟩
  | cons c front ih =>
      rw [List.mem_cons, not_or] at hslash
      obtain ⟨marks, scan', hwalk, hmarks⟩ := ih hslash.2 (scan.advance c (front ++ [stop]).head?)
      have hhead : ∀ back : List Char, (front ++ stop :: back).head? = (front ++ [stop]).head? := by
        intro back
        cases front <;> rfl
      refine ⟨(c, scan.isOperator c (front ++ [stop]).head?) :: marks, scan', ?_, fun back => ?_⟩
      · rw [hwalk, run_cons, OperatorScan.advance, WalkState.step_of_ne_slash (Ne.symm hslash.1),
          ← WalkState.step_of_ne_slash (Ne.symm hslash.1) scan.walk front.head?]
      · rw [List.cons_append, markOperatorsFrom, hhead, hmarks, List.cons_append]

/-- In a string there is no operator. -/
theorem exists_markOperatorsFrom_sealed {delimiter : Char}
    (hdelimiter : quote? kind = some delimiter) {scan : OperatorScan}
    (hopen : scan.walk.openQuote = some delimiter) (hclass : scan.walk.inClass = false)
    {text : List Char} (hsealed : Token.Sealed scan.walk.escaped delimiter text) :
    ∃ previous, ∀ back, markOperatorsFrom scan (text ++ back) =
      text.map (·, false) ++ markOperatorsFrom
        ⟨{ scan.walk with escaped := Token.pending scan.walk.escaped text }, scan.depth, previous⟩
          back := by
  induction text generalizing scan with
  | nil => exact ⟨scan.previous, fun _ => rfl⟩
  | cons c text ih =>
      obtain ⟨hhead, htail⟩ := Token.sealed_cons_iff.mp hsealed
      have hstep := WalkState.step_of_sealed (WalkState.isQuote_of_quote? hdelimiter) hopen hclass
        hhead
      have hadvance : ∀ ahead, scan.advance c ahead =
          ⟨{ scan.walk with escaped := Token.escapesNext scan.walk.escaped c }, scan.depth,
            some c⟩ := by
        intro ahead
        rw [OperatorScan.advance, hstep]
        rfl
      have hnone : ∀ ahead, scan.isOperator c ahead = false := by
        intro ahead
        rw [OperatorScan.isOperator, hstep]
        simp
      obtain ⟨previous, hback⟩ := @ih ⟨{ scan.walk with
        escaped := Token.escapesNext scan.walk.escaped c }, scan.depth, some c⟩ hopen hclass htail
      refine ⟨previous, fun back => ?_⟩
      rw [List.cons_append, markOperatorsFrom, hadvance, hnone, hback]
      rfl

theorem isOperator_quote (hquote : quote? kind = some quote) (scan : OperatorScan)
    (ahead : Option Char) : scan.isOperator quote ahead = false := by
  have hequals : quote ≠ '=' := by rcases eq_of_quote? hquote with rfl | rfl <;> decide
  simp [OperatorScan.isOperator, hequals]

theorem depthAfter_quote (hquote : quote? kind = some quote) (depth : Nat) :
    depthAfter depth quote = depth := by
  rcases eq_of_quote? hquote with rfl | rfl <;> rfl

/-- A literal in code has no operator in it either, and behind it the search is in code. -/
theorem markOperatorsFrom_of_clean (hquote : quote? kind = some quote) {scan : OperatorScan}
    (hclean : scan.walk.Clean) {body : List Char} (hbody : Token.Sealed false quote body)
    (hclose : Token.pending false body = false) (back : List Char) :
    markOperatorsFrom scan (quote :: body ++ [quote] ++ back) =
      (quote :: body ++ [quote]).map (·, false) ++ markOperatorsFrom
        ⟨⟨none, false, false, some quote⟩, scan.depth, some quote⟩ back := by
  have hopens : ∀ ahead, scan.advance quote ahead =
      ⟨⟨some quote, false, false, some quote⟩, scan.depth, some quote⟩ := by
    intro ahead
    simp [OperatorScan.advance, WalkState.step_of_clean (WalkState.isQuote_of_quote? hquote) hclean,
      depthAfter_quote hquote]
  obtain ⟨previous, hmarks⟩ := exists_markOperatorsFrom_sealed hquote
    (show (⟨⟨some quote, false, false, some quote⟩, scan.depth, some quote⟩ :
      OperatorScan).walk.openQuote = some quote from rfl) rfl hbody
  have hcloses : ∀ ahead, (⟨⟨some quote, Token.pending false body, false, some quote⟩, scan.depth,
      previous⟩ : OperatorScan).advance quote ahead =
        ⟨⟨none, false, false, some quote⟩, scan.depth, some quote⟩ := by
    intro ahead
    simp [OperatorScan.advance, hclose, depthAfter_quote hquote, WalkState.behind,
      WalkState.step_of_closes (WalkState.isQuote_of_quote? hquote)]
  simp only [List.cons_append, List.append_assoc, List.nil_append, List.map_cons, List.map_append,
    List.map_nil, markOperatorsFrom, isOperator_quote hquote, hopens, hmarks, hcloses]

/-- Nor is there one in a literal that an open string runs through, and behind it the
string is open still. -/
theorem markOperatorsFrom_of_sealed {kind' : TokenKind} {delimiter : Char}
    (hquote : quote? kind = some quote) (hdelimiter : quote? kind' = some delimiter)
    {scan : OperatorScan} (hopen : scan.walk.openQuote = some delimiter)
    (hclass : scan.walk.inClass = false) {front : List Char}
    (hsealed : Token.Sealed scan.walk.escaped delimiter (front ++ [quote])) (back : List Char) :
    markOperatorsFrom scan (front ++ [quote] ++ back) =
      (front ++ [quote]).map (·, false) ++ markOperatorsFrom
        ⟨{ scan.walk with escaped := false }, scan.depth, some quote⟩ back := by
  obtain ⟨hfront, hlast⟩ := Token.sealed_append_iff.mp hsealed
  obtain ⟨previous, hmarks⟩ := exists_markOperatorsFrom_sealed hdelimiter hopen hclass hfront
  have hplain := @Token.escapesNext_of_ne (Token.pending scan.walk.escaped front) quote
    (Token.quote_ne_backslash hquote)
  have hadvance : ∀ ahead,
      (⟨{ scan.walk with escaped := Token.pending scan.walk.escaped front }, scan.depth,
        previous⟩ : OperatorScan).advance quote ahead =
          ⟨{ scan.walk with escaped := false }, scan.depth, some quote⟩ := by
    intro ahead
    have hstep := @WalkState.step_of_sealed
      { scan.walk with escaped := Token.pending scan.walk.escaped front } delimiter quote
        (WalkState.isQuote_of_quote? hdelimiter) hopen hclass (Token.sealed_cons_iff.mp hlast).1
        ahead
    rw [OperatorScan.advance, hstep, hplain]
    rfl
  rw [List.append_assoc, hmarks, List.singleton_append, markOperatorsFrom,
    isOperator_quote hquote, hadvance]
  simp

/-- Behind a literal the search goes on as it would behind any other one between the same
quotes. -/
theorem markOperatorsFrom_literal (hquote : quote? kind = some quote)
    (hliteral : IsLiteral quote literal) {scan : OperatorScan}
    (hskips : scan.walk.Skips quote literal) (back : List Char) :
    markOperatorsFrom scan (literal ++ back) =
      literal.map (·, false) ++ markOperatorsFrom
        ⟨scan.walk.behindLiteral quote, scan.depth, some quote⟩ back := by
  rcases hskips with ⟨hclean, body, rfl, hbody, hclose⟩ | ⟨kind', delimiter, hdelimiter, hopen,
    hclass, hsealed⟩
  · have hbehind : scan.walk.behindLiteral quote = ⟨none, false, false, some quote⟩ :=
      if_pos hclean.1
    rw [hbehind]
    exact markOperatorsFrom_of_clean hquote hclean hbody hclose back
  · obtain ⟨body, rfl⟩ := hliteral.exists_body
    have hbehind : scan.walk.behindLiteral quote = { scan.walk with escaped := false } :=
      if_neg (by simp [hopen])
    rw [hbehind]
    exact markOperatorsFrom_of_sealed hquote hdelimiter hopen hclass hsealed back

/-- The segments of a statement are the same around the literal. -/
theorem segments_differ (hquote : quote? kind = some quote)
    (hpair : LiteralPair quote literal literal') {front : List Char} (hslash : '/' ∉ front)
    (hskips : (WalkState.run {} front).Skips quote literal)
    (hskips' : (WalkState.run {} front).Skips quote literal') (back : List Char) :
    ∃ pieces before after later,
      segments (front ++ literal ++ back) = pieces ++ (before ++ literal ++ after) :: later ∧
        segments (front ++ literal' ++ back) =
          pieces ++ (before ++ literal' ++ after) :: later := by
  obtain ⟨marks, scan, hwalk, hmarks⟩ := exists_markOperatorsFrom_append_cons quote hslash {}
  obtain ⟨pieces, last, hpieces⟩ :=
    (List.eq_nil_or_concat' (marks.splitOnP Prod.snd)).resolve_left (List.splitOnP_ne_nil _ _)
  obtain ⟨head, later, hlater⟩ := List.exists_cons_of_ne_nil (List.splitOnP_ne_nil Prod.snd
    (markOperatorsFrom ⟨scan.walk.behindLiteral quote, scan.depth, some quote⟩ back))
  have hone : ∀ {text : List Char}, IsLiteral quote text →
      (WalkState.run {} front).Skips quote text → segments (front ++ text ++ back) =
        pieces.map (·.map Prod.fst) ++ (last.map Prod.fst ++ text ++ head.map Prod.fst) ::
          later.map (·.map Prod.fst) := by
    intro text hliteral hskips
    obtain ⟨rest, htext, hrest⟩ := hliteral.append_left front back
    rw [← hwalk] at hskips
    have hplain : ∀ mark ∈ text.map (·, false), mark.2 = false := by simp
    have hsingle : (text.map (·, false)).splitOnP Prod.snd = [] ++ [text.map (·, false)] :=
      List.splitOnP_eq_singleton hplain
    have hmiddle := splitOnP_append hsingle hlater
    rw [List.nil_append] at hmiddle
    rw [segments, markOperators, htext, hmarks, ← hrest,
      markOperatorsFrom_literal hquote hliteral hskips, splitOnP_append hpieces hmiddle]
    simp [Function.comp_def]
  exact ⟨_, _, _, _, hone hpair.first hskips, hone hpair.second hskips'⟩

namespace Assignment

/-! ## Assignments -/

/-- A segment with a literal in it is no target list. -/
theorem areTargets_eq_false (hpair : LiteralPair quote literal literal') {segment : List Char}
    (hmem : quote ∈ segment) : areTargets segment = false := by
  by_contra htargets
  rw [Bool.not_eq_false] at htargets
  have hpart := isTargetPart_of_areTargets htargets quote hmem
  rcases hpair.isQuote with rfl | rfl <;> cases hpart

/-- The target lists end in front of a segment that is none, whatever it is. -/
theorem exists_cutTargets (pieces later : List (List Char)) :
    ∃ targets others, ∀ segment, areTargets segment = false →
      cutTargets (pieces ++ segment :: later) = (targets, others ++ segment :: later) := by
  induction pieces with
  | nil =>
      refine ⟨[], [], fun segment hsegment => ?_⟩
      cases later with
      | nil => rfl
      | cons next later => simp [cutTargets, hsegment]
  | cons piece pieces ih =>
      obtain ⟨targets, others, hcut⟩ := ih
      cases hpiece : areTargets piece with
      | true =>
          refine ⟨Text.trim piece :: targets, others, fun segment hsegment => ?_⟩
          obtain ⟨next, rest, hnext⟩ :=
            List.exists_cons_of_ne_nil (List.append_ne_nil_of_right_ne_nil pieces
              (List.cons_ne_nil segment later))
          have hrest := hcut segment hsegment
          rw [hnext] at hrest
          rw [List.cons_append, hnext, cutTargets, if_pos hpiece, hrest]
      | false =>
          refine ⟨[], piece :: pieces, fun segment hsegment => ?_⟩
          obtain ⟨next, rest, hnext⟩ :=
            List.exists_cons_of_ne_nil (List.append_ne_nil_of_right_ne_nil pieces
              (List.cons_ne_nil segment later))
          rw [List.cons_append, hnext, cutTargets, if_neg (by simp [hpiece])]

/-- Two assignments to the same targets, whose values differ in a literal. -/
structure DifferIn (literal literal' : List Char) (assignment assignment' : Assignment) : Prop where
  scope : assignment'.scope = assignment.scope
  targets : assignment'.targets = assignment.targets
  expression : Differ literal literal' assignment.expression assignment'.expression

theorem expressionOf_differ (hpair : LiteralPair quote literal literal')
    (others : List (List Char)) (before after : List Char) (later : List (List Char)) :
    Differ literal literal' (expressionOf (others ++ (before ++ literal ++ after) :: later))
      (expressionOf (others ++ (before ++ literal' ++ after) :: later)) := by
  have hsemicolon : quote ≠ ';' := hpair.ne (by decide)
  have hjoin : Differ literal literal'
      (List.intercalate ['='] (others ++ (before ++ literal ++ after) :: later))
      (List.intercalate ['='] (others ++ (before ++ literal' ++ after) :: later)) := by
    rw [intercalate_append_of_ne_nil others (List.cons_ne_nil _ _),
      intercalate_append_of_ne_nil others (List.cons_ne_nil _ _)]
    cases later with
    | nil =>
        rw [List.intercalate_singleton, List.intercalate_singleton]
        exact ⟨others.flatMap (· ++ ['=']) ++ before, after, by simp, by simp⟩
    | cons next later =>
        rw [List.intercalate_cons_of_ne_nil (List.cons_ne_nil _ _),
          List.intercalate_cons_of_ne_nil (List.cons_ne_nil _ _)]
        exact ⟨others.flatMap (· ++ ['=']) ++ before,
          after ++ ['='] ++ List.intercalate ['='] (next :: later), by simp, by simp⟩
  exact ((hjoin.trim hpair).dropFinal hpair hsemicolon).trimEnd hpair

theorem parseTargets?_differ (hquote : quote? kind = some quote)
    (hpair : LiteralPair quote literal literal') (scope : Scope) {front : List Char}
    (hslash : '/' ∉ front) (hskips : (WalkState.run {} front).Skips quote literal)
    (hskips' : (WalkState.run {} front).Skips quote literal') (back : List Char) :
    Option.Rel (DifferIn literal literal') (parseTargets? scope (front ++ literal ++ back))
      (parseTargets? scope (front ++ literal' ++ back)) := by
  obtain ⟨pieces, before, after, later, hsegments, hsegments'⟩ :=
    segments_differ hquote hpair hslash hskips hskips' back
  obtain ⟨targets, others, hcut⟩ := exists_cutTargets pieces later
  have hmem : ∀ {text : List Char}, IsLiteral quote text → quote ∈ before ++ text ++ after := by
    rintro text ⟨⟨body, rfl⟩, -⟩
    simp
  have hexpression := expressionOf_differ hpair others before after later
  obtain ⟨hempty, hempty'⟩ := hexpression.isEmpty hpair
  simp only [parseTargets?, hsegments, hsegments',
    hcut _ (areTargets_eq_false hpair (hmem hpair.first)),
    hcut _ (areTargets_eq_false hpair (hmem hpair.second)), hempty, hempty', Bool.or_false]
  split_ifs
  · exact .none
  · exact .some ⟨rfl, rfl, hexpression⟩

/-- A scope word is found in front of a quote or not at all. -/
theorem split_append_cons (hpair : LiteralPair quote literal literal') (front back : List Char) :
    Scope.split (front ++ quote :: back) =
      ((Scope.split front).1, (Scope.split front).2 ++ quote :: back) := by
  have hworded : ∀ word : List Char, quote ∉ word →
      Scope.split.worded? (front ++ quote :: back) word =
        (Scope.split.worded? front word).map (· ++ quote :: back) := by
    intro word hword
    rw [Scope.split.worded?, Text.dropLead?_append_cons hword, Scope.split.worded?]
    cases Text.dropLead? word front with
    | none => rfl
    | some rest =>
        rw [Option.map_some, Option.filter_some, Option.filter_some,
          Text.startsBlank_append_cons hpair.isBlank]
        split <;> rfl
  have hlocal : quote ∉ ['l', 'o', 'c', 'a', 'l'] := hpair.notMem (by decide)
  have hglobal : quote ∉ ['g', 'l', 'o', 'b', 'a', 'l'] := hpair.notMem (by decide)
  simp only [Scope.split, hworded _ hlocal, hworded _ hglobal]
  cases Scope.split.worded? front ['l', 'o', 'c', 'a', 'l'] with
  | some rest => rfl
  | none => cases Scope.split.worded? front ['g', 'l', 'o', 'b', 'a', 'l'] <;> rfl

end Assignment

/-- What a walk leaves out in front of code makes no difference to a literal. -/
theorem WalkState.Skips.of_append {front rest : List Char}
    (hfront : ∀ c ∈ front, isQuote c = false ∧ c ≠ '/') (hslash : '/' ∉ rest)
    (hskips : (run {} (front ++ rest)).Skips quote literal) :
    (run {} rest).Skips quote literal := by
  have hseam : '/' ∉ front := fun hmem => (hfront '/' hmem).2 rfl
  rw [run_append (getLast?_ne_slash hseam)] at hskips
  exact hskips.congr (SameLiteral.run (clean_init.run hfront) hslash)

theorem Assignment.parse?_differ (hquote : quote? kind = some quote)
    (hpair : LiteralPair quote literal literal') {front : List Char} (hslash : '/' ∉ front)
    (hskips : (WalkState.run {} front).Skips quote literal)
    (hskips' : (WalkState.run {} front).Skips quote literal') (back : List Char) :
    Option.Rel (DifferIn literal literal') (parse? (front ++ literal ++ back))
      (parse? (front ++ literal' ++ back)) := by
  obtain ⟨word, hword, hfront⟩ := split_append front
  have hnames : ∀ c ∈ word, WalkState.isQuote c = false ∧ c ≠ '/' := fun c hc =>
    have hinert := isInert_of_isNamePart (hword c hc)
    ⟨isQuote_of_isInert hinert, ne_slash_of_isInert hinert⟩
  have hsplit : ∀ {text : List Char}, IsLiteral quote text →
      Scope.split (front ++ text ++ back) =
        ((Scope.split front).1, (Scope.split front).2 ++ text ++ back) := by
    intro text hliteral
    obtain ⟨rest, htext, hrest⟩ := hliteral.append_left front back
    rw [htext, split_append_cons hpair, ← hrest, List.append_assoc]
  have hlength : ∀ text : List Char,
      ((Scope.split front).2 ++ text ++ back).length = (front ++ text ++ back).length ↔
        (Scope.split front).2.length = front.length := by
    intro text
    simp only [List.length_append]
    omega
  have hslash' : '/' ∉ (Scope.split front).2 := fun hmem =>
    hslash (hfront ▸ List.mem_append_right _ hmem)
  have hscoped := parseTargets?_differ hquote hpair (Scope.split front).1 hslash'
    ((hfront ▸ hskips).of_append hnames hslash') ((hfront ▸ hskips').of_append hnames hslash') back
  have hwide := parseTargets?_differ hquote hpair .wide hslash hskips hskips' back
  simp only [parse?, hsplit hpair.first, hsplit hpair.second, hlength]
  generalize parseTargets? _ ((Scope.split front).2 ++ literal ++ back) = found at hscoped ⊢
  generalize parseTargets? _ ((Scope.split front).2 ++ literal' ++ back) = found' at hscoped ⊢
  cases hscoped with
  | some hassignment => exact .some hassignment
  | none =>
      simp only
      split_ifs
      · exact .none
      · exact hwide

theorem Assignment.DifferIn.render {assignment assignment' : Assignment}
    (hdiffer : assignment.DifferIn literal literal' assignment') (indentation helper : List Char) :
    Differ literal literal' (assignment.render indentation helper)
      (assignment'.render indentation helper) := by
  obtain ⟨hscope, htargets, hexpression⟩ := hdiffer
  unfold Assignment.render
  rw [hscope, htargets]
  have hwhole := hexpression.append (indentation ++ assignment.scope.declaration ++ ' ' ::
    List.intercalate [' ', '=', ' '] (assignment.targets.map Assignment.targetText) ++
      [' ', '=', ' '] ++ helper ++ ['(']) [')']
  simpa using hwhole

end Offside
