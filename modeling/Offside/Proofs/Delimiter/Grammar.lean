/-
# Where the check of delimiters stops

The check runs through a text once, with a stack of open brackets, a count of lines
and the line of the last literal. This module describes its answer without any of
them. A text is accepted when its brackets form a word of the grammar of balanced
brackets, no line feed falls into a literal that has to close on its line, and every
literal is closed at the end. Otherwise the error is that of the first violation, and
`Blames` says for each error where it stands and what it carries.

The grammar speaks of whole words and the check of prefixes. The link between them is
`Unclosed`: a prefix falls into balanced pieces with the brackets between them that are
still open. Such a prefix can always be completed, and a closing bracket that does not
match the innermost of its open brackets is exactly one behind which it no longer can.
-/

import Offside.Proofs.Delimiter.Nesting

namespace Offside

/-! ## Words of brackets -/

/-- A word of brackets balances: it is empty, or a pair around a word that balances in
front of another one. -/
inductive Balanced : List Char → Prop
  | nil : Balanced []
  | pair {opener closer : Char} {inner rest : List Char} (hpair : closerOf? opener = some closer)
      (hinner : Balanced inner) (hrest : Balanced rest) :
      Balanced (opener :: inner ++ closer :: rest)

/-- A word can be completed to one that balances. -/
def Extendable (word : List Char) : Prop := ∃ rest, Balanced (word ++ rest)

theorem Balanced.append {first second : List Char} (hfirst : Balanced first)
    (hsecond : Balanced second) : Balanced (first ++ second) := by
  induction hfirst with
  | nil => exact hsecond
  | @pair opener closer inner rest hpair hinner _ _ ihrest =>
      have happend := Balanced.pair hpair hinner ihrest
      simpa using happend

/-- A pair of brackets around a word that balances. -/
theorem Balanced.between {inner : List Char} (hinner : Balanced inner) {opener closer : Char}
    (hpair : closerOf? opener = some closer) : Balanced (opener :: inner ++ [closer]) :=
  .pair hpair hinner .nil

theorem Extendable.of_append {first second : List Char} (hextends : Extendable (first ++ second)) :
    Extendable first := by
  obtain ⟨rest, hrest⟩ := hextends
  exact ⟨second ++ rest, by rwa [← List.append_assoc]⟩

/-- The open brackets, innermost first, after one more bracket. -/
def takeBracket (opened : List Char) (c : Char) : Option (List Char) :=
  if (closerOf? c).isSome then some (c :: opened) else closeBracket c opened

theorem closerOf?_closer {opener closer : Char} (hpair : closerOf? opener = some closer) :
    closerOf? closer = none := by
  unfold closerOf? at hpair
  split at hpair <;> cases hpair <;> rfl

theorem takeBracket_opener {opener closer : Char} (hpair : closerOf? opener = some closer)
    (opened : List Char) : takeBracket opened opener = some (opener :: opened) := by
  simp [takeBracket, hpair]

theorem takeBracket_closer {opener closer : Char} (hpair : closerOf? opener = some closer)
    (outer : List Char) : takeBracket (opener :: outer) closer = some outer := by
  simp [takeBracket, closerOf?_closer hpair, closeBracket, hpair]

/-- A word that balances leaves the open brackets as they are. -/
theorem Balanced.foldlM_takeBracket {word : List Char} (hword : Balanced word)
    (opened : List Char) : word.foldlM takeBracket opened = some opened := by
  induction hword generalizing opened with
  | nil => rfl
  | @pair opener closer inner rest hpair _ _ ihinner ihrest =>
      rw [List.cons_append, List.foldlM_cons, takeBracket_opener hpair, Option.bind_eq_bind,
        Option.bind_some, List.foldlM_append, ihinner, Option.bind_eq_bind, Option.bind_some,
        List.foldlM_cons, takeBracket_closer hpair]
      exact ihrest opened

/-- A word that can be completed never closes a bracket that is not open. -/
theorem Extendable.isSome_foldlM {word : List Char} (hextends : Extendable word) :
    (word.foldlM takeBracket []).isSome := by
  obtain ⟨rest, hrest⟩ := hextends
  have hread := hrest.foldlM_takeBracket []
  rw [List.foldlM_append, Option.bind_eq_bind, Option.bind_eq_some_iff] at hread
  obtain ⟨opened, hopened, -⟩ := hread
  rw [hopened]
  rfl

/-! ## What stands in a walk -/

namespace WalkStep

/-- The character is a bracket of code. -/
def isBracket (s : WalkStep) : Bool :=
  s.region == .code && ((closerOf? s.char).isSome || isCloser s.char)

/-- The character is a line feed in a literal that has to close on its line. -/
def breaksLiteral (s : WalkStep) : Bool :=
  s.char == '\n' && BracketScan.staysOnLine s.after.openQuote

/-- The character is a delimiter of code with an open literal behind it. -/
def opensLiteral (s : WalkStep) : Bool :=
  s.region == .code && BracketScan.isDelimiter s.char && s.after.openQuote.isSome

end WalkStep

/-- The brackets of code on a walk, in order. -/
def bracketsOf (steps : List WalkStep) : List Char :=
  (steps.filter WalkStep.isBracket).map WalkStep.char

/-- The line of the character behind a walk. -/
def lineBehind (steps : List WalkStep) : Nat := steps.countP (·.char == '\n') + 1

/-- Nothing on the walk is a violation: no line feed breaks a literal, and the brackets
can be completed to a word that balances. -/
def Admissible (steps : List WalkStep) : Prop :=
  (∀ s ∈ steps, s.breaksLiteral = false) ∧ Extendable (bracketsOf steps)

/-- The literal that is open behind a walk opened on this line: all that stands behind
its opening delimiter is quoted. -/
def LiteralOpenedOn (steps : List WalkStep) (line : Nat) : Prop :=
  ∃ before opening inner, steps = before ++ opening :: inner ∧ opening.opensLiteral = true ∧
    (∀ s ∈ inner, s.region = .quoted) ∧ line = lineBehind before

/-- The first violation of a text, and the error that reports it. -/
inductive Blames (code : List Char) : DelimiterError → Prop
  /-- A bracket behind which the word can no longer be completed, where all brackets in
  front of it are closed. -/
  | unexpected {before : List WalkStep} {s : WalkStep} {after : List WalkStep}
      (hwalk : walk code = before ++ s :: after) (hfirst : Admissible before)
      (hbracket : s.isBracket = true) (hstop : ¬ Extendable (bracketsOf (before ++ [s])))
      (hclosed : Balanced (bracketsOf before)) :
      Blames code (.unexpected (lineBehind before) s.char)
  /-- A bracket behind which the word can no longer be completed, where the innermost
  open bracket asks for another closing one. -/
  | mismatched {before : List WalkStep} {s : WalkStep} {after : List WalkStep}
      {outer inner : List Char} {opener expected : Char}
      (hwalk : walk code = before ++ s :: after) (hfirst : Admissible before)
      (hbracket : s.isBracket = true) (hstop : ¬ Extendable (bracketsOf (before ++ [s])))
      (hopened : bracketsOf before = outer ++ opener :: inner) (hinner : Balanced inner)
      (hpair : closerOf? opener = some expected) :
      Blames code (.mismatched (lineBehind before) expected s.char)
  /-- A line feed in a literal that has to close on its line. -/
  | brokenLiteral {before : List WalkStep} {s : WalkStep} {after : List WalkStep} {line : Nat}
      (hwalk : walk code = before ++ s :: after) (hfirst : Admissible before)
      (hbreaks : s.breaksLiteral = true) (hopened : LiteralOpenedOn before line) :
      Blames code (.unterminated line)
  /-- A literal that is open at the end of a text without any other violation. -/
  | endlessLiteral {line : Nat} (hfirst : Admissible (walk code))
      (hopen : (endOfWalk code).openQuote.isSome) (hopened : LiteralOpenedOn (walk code) line) :
      Blames code (.unterminated line)
  /-- The innermost bracket that is never closed, in a text without any other violation
  whose literals are all closed. -/
  | unclosed {before : List WalkStep} {s : WalkStep} {after : List WalkStep}
      (hwalk : walk code = before ++ s :: after) (hfirst : Admissible (walk code))
      (hliterals : (endOfWalk code).openQuote = none) (hbracket : s.isBracket = true)
      (hopener : (closerOf? s.char).isSome) (hafter : Balanced (bracketsOf after)) :
      Blames code (.unclosed (lineBehind before) s.char)

@[simp]
theorem bracketsOf_append (first second : List WalkStep) :
    bracketsOf (first ++ second) = bracketsOf first ++ bracketsOf second := by
  simp [bracketsOf]

theorem bracketsOf_cons_of_isBracket {s : WalkStep} (hbracket : s.isBracket = true)
    (steps : List WalkStep) : bracketsOf (s :: steps) = s.char :: bracketsOf steps := by
  simp [bracketsOf, hbracket]

theorem bracketsOf_cons_of_not_isBracket {s : WalkStep} (hbracket : s.isBracket = false)
    (steps : List WalkStep) : bracketsOf (s :: steps) = bracketsOf steps := by
  simp [bracketsOf, hbracket]

theorem lineBehind_concat (steps : List WalkStep) (s : WalkStep) :
    lineBehind (steps ++ [s]) =
      if s.char = '\n' then lineBehind steps + 1 else lineBehind steps := by
  by_cases hfeed : s.char = '\n' <;> simp [lineBehind, List.countP_append, hfeed]

/-! ## One step of the check -/

namespace WalkStep

theorem isBracket_of_breaksLiteral {s : WalkStep} (hbreaks : s.breaksLiteral = true) :
    s.isBracket = false := by
  simp only [breaksLiteral, Bool.and_eq_true, beq_iff_eq] at hbreaks
  simp [isBracket, hbreaks.1, closerOf?, isCloser]

theorem ne_lineFeed_of_isBracket {s : WalkStep} (hbracket : s.isBracket = true) :
    s.char ≠ '\n' := by
  intro hfeed
  simp [isBracket, hfeed, closerOf?, isCloser] at hbracket

/-- The delimiters of literals are no brackets. -/
theorem isBracket_of_isDelimiter {s : WalkStep}
    (hdelimiter : BracketScan.isDelimiter s.char = true) : s.isBracket = false := by
  obtain ⟨c, region, after⟩ := s
  simp only [BracketScan.isDelimiter, WalkState.isQuote, Bool.or_eq_true, beq_iff_eq] at hdelimiter
  rcases hdelimiter with ((rfl | rfl) | rfl) | rfl <;> simp [isBracket, closerOf?, isCloser]

theorem opensLiteral_of_isBracket {s : WalkStep} (hbracket : s.isBracket = true) :
    s.opensLiteral = false := by
  by_contra hopens
  simp only [opensLiteral, Bool.not_eq_false, Bool.and_eq_true] at hopens
  rw [isBracket_of_isDelimiter hopens.1.2] at hbracket
  cases hbracket

end WalkStep

namespace BracketScan

/-- What the check does with one character: it stops at a line feed that breaks a
literal, takes in a bracket of code, and otherwise only keeps count of lines and
literals. -/
theorem step_eq (scan : BracketScan) (s : WalkStep) :
    scan.step s =
      if s.breaksLiteral then .error (.unterminated scan.quoteLine)
      else if s.isBracket then
        if (closerOf? s.char).isSome then
          .ok { scan with opened := (s.char, scan.line) :: scan.opened }
        else scan.close s.char
      else
        .ok { scan with
          line := if s.char = '\n' then scan.line + 1 else scan.line
          quoteLine := if s.opensLiteral then scan.line else scan.quoteLine } := by
  unfold step
  by_cases hfeed : s.char = '\n'
  · have hbracket : s.isBracket = false := by
      simp [WalkStep.isBracket, hfeed, closerOf?, isCloser]
    have hopens : s.opensLiteral = false := by
      simp [WalkStep.opensLiteral, hfeed, isDelimiter, WalkState.isQuote]
    simp [WalkStep.breaksLiteral, hfeed, hbracket, hopens]
  · have hbreaks : s.breaksLiteral = false := by simp [WalkStep.breaksLiteral, hfeed]
    cases hregion : s.region with
    | quoted =>
        simp [hfeed, hbreaks, WalkStep.isBracket, WalkStep.opensLiteral, hregion]
    | code =>
        by_cases hdelimiter : isDelimiter s.char = true
        · have hbracket : s.isBracket = false := WalkStep.isBracket_of_isDelimiter hdelimiter
          simp only [hfeed, hbreaks, hbracket, WalkStep.opensLiteral, hregion, hdelimiter]
          by_cases hopen : s.after.openQuote.isSome = true <;> simp [hopen]
        · simp only [hfeed, hbreaks, WalkStep.isBracket, WalkStep.opensLiteral, hregion, hdelimiter]
          by_cases hopener : (closerOf? s.char).isSome = true
          · simp [hopener]
          · by_cases hcloser : isCloser s.char = true <;> simp [hopener, hcloser]

/-- The check refuses a closing bracket without an open one and one that the innermost
open bracket does not ask for. -/
theorem close_eq_error {scan : BracketScan} {found : Char} {error : DelimiterError}
    (hclose : scan.close found = .error error) :
    scan.opened = [] ∧ error = .unexpected scan.line found ∨
      ∃ opener line outer expected, scan.opened = (opener, line) :: outer ∧
        closerOf? opener = some expected ∧ error = .mismatched scan.line expected found := by
  unfold close at hclose
  split at hclose
  · rename_i hopened
    exact .inl ⟨hopened, (Except.error.inj hclose).symm⟩
  · rename_i opener line outer hopened
    split at hclose
    · rename_i expected hpair
      split at hclose
      · cases hclose
      · exact .inr ⟨opener, line, outer, expected, hopened, hpair, (Except.error.inj hclose).symm⟩
    · cases hclose

theorem close_eq_ok {scan next : BracketScan} {found : Char}
    (hclose : scan.close found = .ok next) :
    ∃ opener line outer, scan.opened = (opener, line) :: outer ∧
      (closerOf? opener).all (· = found) = true ∧ next = { scan with opened := outer } := by
  unfold close at hclose
  split at hclose
  · cases hclose
  · rename_i opener line outer hopened
    refine ⟨opener, line, outer, hopened, ?_⟩
    split at hclose
    · rename_i expected hpair
      split at hclose
      · rename_i hfound
        exact ⟨by simp [hpair, hfound], (Except.ok.inj hclose).symm⟩
      · cases hclose
    · rename_i hpair
      exact ⟨by simp [hpair], (Except.ok.inj hclose).symm⟩

end BracketScan

/-! ## The open brackets of a prefix -/

/-- The brackets that a walk leaves open, with their lines and innermost first: the walk
falls into pieces that balance with these brackets between them. -/
inductive Unclosed : List WalkStep → List (Char × Nat) → Prop
  | nil {steps : List WalkStep} (hsteps : Balanced (bracketsOf steps)) : Unclosed steps []
  | cons {front back : List WalkStep} {s : WalkStep} {outer : List (Char × Nat)}
      (hfront : Unclosed front outer) (hbracket : s.isBracket = true)
      (hopener : (closerOf? s.char).isSome) (hback : Balanced (bracketsOf back)) :
      Unclosed (front ++ s :: back) ((s.char, lineBehind front) :: outer)

theorem Unclosed.balanced {steps : List WalkStep} (hsteps : Unclosed steps []) :
    Balanced (bracketsOf steps) := by
  generalize hnone : ([] : List (Char × Nat)) = opened at hsteps
  cases hsteps with
  | nil hbalanced => exact hbalanced
  | cons => cases hnone

/-- Where the innermost open bracket stands. -/
theorem Unclosed.exists_innermost {steps : List WalkStep} {opener : Char} {line : Nat}
    {outer : List (Char × Nat)} (hsteps : Unclosed steps ((opener, line) :: outer)) :
    ∃ front s back, steps = front ++ s :: back ∧ s.isBracket = true ∧ (closerOf? s.char).isSome ∧
      Balanced (bracketsOf back) ∧ Unclosed front outer ∧ opener = s.char ∧
      line = lineBehind front := by
  generalize hopened : (opener, line) :: outer = opened at hsteps
  cases hsteps with
  | nil => cases hopened
  | @cons front back s _ hfront hbracket hopener hback =>
      simp only [List.cons.injEq, Prod.mk.injEq] at hopened
      obtain ⟨⟨rfl, rfl⟩, rfl⟩ := hopened
      exact ⟨front, s, back, rfl, hbracket, hopener, hback, hfront, rfl, rfl⟩

theorem Unclosed.append {steps more : List WalkStep} {opened : List (Char × Nat)}
    (hsteps : Unclosed steps opened) (hmore : Balanced (bracketsOf more)) :
    Unclosed (steps ++ more) opened := by
  cases hsteps with
  | nil hsteps => exact .nil (by simpa using hsteps.append hmore)
  | cons hfront hbracket hopener hback =>
      rw [List.append_assoc, List.cons_append]
      exact .cons hfront hbracket hopener (by simpa using hback.append hmore)

/-- The closing brackets that complete a prefix, also behind one more word that
balances. -/
theorem Unclosed.exists_completion {steps : List WalkStep} {opened : List (Char × Nat)}
    (hsteps : Unclosed steps opened) :
    ∃ rest, ∀ word, Balanced word → Balanced (bracketsOf steps ++ word ++ rest) := by
  induction hsteps with
  | nil hsteps => exact ⟨[], fun word hword => by simpa using hsteps.append hword⟩
  | @cons front back s outer _ hbracket hopener hback ih =>
      obtain ⟨rest, hrest⟩ := ih
      obtain ⟨closer, hpair⟩ := Option.isSome_iff_exists.mp hopener
      refine ⟨closer :: rest, fun word hword => ?_⟩
      have hinner := hrest _ ((hback.append hword).between hpair)
      simpa [bracketsOf_cons_of_isBracket hbracket] using hinner

theorem Unclosed.extendable {steps : List WalkStep} {opened : List (Char × Nat)}
    (hsteps : Unclosed steps opened) : Extendable (bracketsOf steps) := by
  obtain ⟨rest, hrest⟩ := hsteps.exists_completion
  exact ⟨rest, by simpa using hrest [] .nil⟩

theorem Unclosed.foldlM_takeBracket {steps : List WalkStep} {opened : List (Char × Nat)}
    (hsteps : Unclosed steps opened) :
    (bracketsOf steps).foldlM takeBracket [] = some (opened.map Prod.fst) := by
  induction hsteps with
  | nil hsteps => exact hsteps.foldlM_takeBracket []
  | @cons front back s outer _ hbracket hopener hback ih =>
      obtain ⟨closer, hpair⟩ := Option.isSome_iff_exists.mp hopener
      rw [bracketsOf_append, bracketsOf_cons_of_isBracket hbracket, List.foldlM_append, ih,
        Option.bind_eq_bind, Option.bind_some, List.foldlM_cons, takeBracket_opener hpair]
      exact hback.foldlM_takeBracket _

/-- A closing bracket that matches the innermost open one takes it away. -/
theorem Unclosed.close {steps : List WalkStep} {opener : Char} {line : Nat}
    {outer : List (Char × Nat)} (hsteps : Unclosed steps ((opener, line) :: outer)) {s : WalkStep}
    (hbracket : s.isBracket = true) (hmatch : (closerOf? opener).all (· = s.char) = true) :
    Unclosed (steps ++ [s]) outer := by
  obtain ⟨front, t, back, rfl, hbracket', hopener, hback, hfront, rfl, rfl⟩ :=
    hsteps.exists_innermost
  obtain ⟨closer, hpair⟩ := Option.isSome_iff_exists.mp hopener
  obtain rfl : closer = s.char := by simpa [hpair] using hmatch
  have hpiece : Balanced (bracketsOf (t :: back ++ [s])) := by
    simpa [bracketsOf, hbracket', hbracket] using hback.between hpair
  simpa using hfront.append hpiece

/-- Behind a closing bracket that does not match the innermost open one, the word can no
longer be completed. -/
theorem Unclosed.not_extendable {steps : List WalkStep} {opened : List (Char × Nat)}
    (hsteps : Unclosed steps opened) {s : WalkStep} (hbracket : s.isBracket = true)
    (hcloser : closerOf? s.char = none)
    (hmismatch : closeBracket s.char (opened.map Prod.fst) = none) :
    ¬ Extendable (bracketsOf (steps ++ [s])) := by
  intro hextends
  have hread := hextends.isSome_foldlM
  rw [bracketsOf_append, List.foldlM_append, hsteps.foldlM_takeBracket, Option.bind_eq_bind,
    Option.bind_some, bracketsOf_cons_of_isBracket hbracket, List.foldlM_cons, takeBracket, hcloser,
    if_neg (by simp), hmismatch] at hread
  cases hread

/-! ## The state of the check behind a prefix -/

namespace WalkState

/-- Where code leaves a literal open, the character is its delimiter. -/
theorem isDelimiter_of_step {state : WalkState} {c : Char} {ahead : Option Char}
    (hregion : (state.step c ahead).1 = .code)
    (hopen : (state.step c ahead).2.openQuote.isSome) : BracketScan.isDelimiter c = true := by
  unfold step at hregion hopen
  cases hquote : state.openQuote with
  | none =>
      simp only [hquote] at hopen
      split_ifs at hopen with hopens
      · simp only [Bool.or_eq_true, Bool.and_eq_true, decide_eq_true_eq] at hopens
        rcases hopens with hdelimiter | ⟨rfl, -⟩
        · simp [BracketScan.isDelimiter, hdelimiter]
        · rfl
      · simp [hquote] at hopen
  | some quote =>
      simp only [hquote] at hregion hopen
      split_ifs at hregion hopen
      simp at hopen

/-- A quoted character leaves the literal open that it stands in. -/
theorem openQuote_step_of_quoted {state : WalkState} {c : Char} {ahead : Option Char}
    (hregion : (state.step c ahead).1 = .quoted) :
    (state.step c ahead).2.openQuote = state.openQuote := by
  unfold step at hregion ⊢
  cases hquote : state.openQuote with
  | none =>
      simp only [hquote] at hregion
      split_ifs at hregion
  | some quote =>
      simp only [hquote] at hregion ⊢
      split_ifs at hregion ⊢ <;> simp [hquote]

end WalkState

namespace BracketScan

/-- What the check knows behind a prefix of a walk that is in `state` there. -/
structure Reads (steps : List WalkStep) (state : WalkState) (scan : BracketScan) : Prop where
  unbroken : ∀ s ∈ steps, s.breaksLiteral = false
  line : scan.line = lineBehind steps
  opened : Unclosed steps scan.opened
  quoteLine : state.openQuote.isSome → LiteralOpenedOn steps scan.quoteLine

theorem reads_nil : Reads [] {} {} where
  unbroken := by simp
  line := rfl
  opened := .nil .nil
  quoteLine hopen := by cases hopen

variable {steps : List WalkStep} {state : WalkState} {scan : BracketScan}

theorem Reads.admissible (hreads : Reads steps state scan) : Admissible steps :=
  ⟨hreads.unbroken, hreads.opened.extendable⟩

/-- The literal that is open behind one more character opened there, or where the check
remembers that the last one did. -/
theorem Reads.literalOpenedOn (hreads : Reads steps state scan) {s : WalkStep} {c : Char}
    {ahead : Option Char} (hs : s = ⟨c, (state.step c ahead).1, (state.step c ahead).2⟩)
    (hopen : s.after.openQuote.isSome) :
    LiteralOpenedOn (steps ++ [s]) (if s.opensLiteral then scan.line else scan.quoteLine) := by
  cases hregion : s.region with
  | code =>
      have hdelimiter : isDelimiter s.char = true := by
        subst hs
        exact WalkState.isDelimiter_of_step hregion hopen
      have hopens : s.opensLiteral = true := by
        simp [WalkStep.opensLiteral, hregion, hdelimiter, hopen]
      rw [if_pos hopens, hreads.line]
      exact ⟨steps, s, [], rfl, hopens, by simp, rfl⟩
  | quoted =>
      have hstate : state.openQuote.isSome := by
        subst hs
        rwa [← WalkState.openQuote_step_of_quoted hregion]
      have hopens : s.opensLiteral = false := by simp [WalkStep.opensLiteral, hregion]
      obtain ⟨before, opening, inner, rfl, hopening, hinner, hline⟩ := hreads.quoteLine hstate
      rw [if_neg (by simp [hopens])]
      refine ⟨before, opening, inner ++ [s], by simp, hopening, fun t ht => ?_, hline⟩
      rcases List.mem_append.mp ht with ht | ht
      · exact hinner t ht
      · rw [List.mem_singleton.mp ht, hregion]

/-- One character that the check accepts. -/
theorem Reads.step (hreads : Reads steps state scan) {s : WalkStep} {c : Char}
    {ahead : Option Char} (hs : s = ⟨c, (state.step c ahead).1, (state.step c ahead).2⟩)
    {next : BracketScan} (hstep : scan.step s = .ok next) :
    Reads (steps ++ [s]) s.after next := by
  have hliteral := hreads.literalOpenedOn hs
  have hunbroken : s.breaksLiteral = false → ∀ t ∈ steps ++ [s], t.breaksLiteral = false := by
    intro hbreaks t ht
    rcases List.mem_append.mp ht with ht | ht
    · exact hreads.unbroken t ht
    · rwa [List.mem_singleton.mp ht]
  rw [step_eq] at hstep
  cases hbreaks : s.breaksLiteral with
  | true => simp [hbreaks] at hstep
  | false =>
      rw [hbreaks, if_neg (by simp)] at hstep
      cases hbracket : s.isBracket with
      | false =>
          rw [hbracket, if_neg (by simp), Except.ok.injEq] at hstep
          obtain rfl := hstep
          refine ⟨hunbroken hbreaks, ?_, ?_, hliteral⟩
          · rw [lineBehind_concat, ← hreads.line]
          · have hnone := bracketsOf_cons_of_not_isBracket hbracket []
            exact hreads.opened.append (hnone ▸ .nil)
      | true =>
          have hopens := WalkStep.opensLiteral_of_isBracket hbracket
          have hline : scan.line = lineBehind (steps ++ [s]) := by
            rw [lineBehind_concat, if_neg (WalkStep.ne_lineFeed_of_isBracket hbracket)]
            exact hreads.line
          rw [hbracket, if_pos rfl] at hstep
          rw [hopens] at hliteral
          split at hstep
          · rename_i hopener
            obtain rfl := Except.ok.inj hstep
            refine ⟨hunbroken hbreaks, hline, ?_, hliteral⟩
            rw [hreads.line]
            exact .cons hreads.opened hbracket hopener .nil
          · obtain ⟨opener, line, outer, hopened, hmatch, rfl⟩ := close_eq_ok hstep
            refine ⟨hunbroken hbreaks, hline, ?_, hliteral⟩
            exact Unclosed.close (hopened ▸ hreads.opened) hbracket hmatch

/-- A part of a walk that the check accepts, and where the walk goes on behind it. -/
theorem Reads.foldlM {front : List WalkStep} (hreads : Reads steps state scan) {text : List Char}
    {rest : List WalkStep} (hwalk : walkFrom state text = front ++ rest) {next : BracketScan}
    (hfold : front.foldlM BracketScan.step scan = .ok next) :
    ∃ state' text', rest = walkFrom state' text' ∧ state'.run text' = state.run text ∧
      Reads (steps ++ front) state' next := by
  induction front generalizing steps state scan text with
  | nil =>
      obtain rfl := Except.ok.inj hfold
      exact ⟨state, text, hwalk.symm, rfl, by rwa [List.append_nil]⟩
  | cons s front ih =>
      cases text with
      | nil => cases hwalk
      | cons c text =>
          rw [walkFrom_cons, List.cons_append, List.cons.injEq] at hwalk
          obtain ⟨rfl, hwalk⟩ := hwalk
          rw [List.foldlM_cons] at hfold
          cases hstep : scan.step _ with
          | error error =>
              rw [hstep] at hfold
              cases hfold
          | ok middle =>
              rw [hstep] at hfold
              have hmiddle := hreads.step rfl hstep
              obtain ⟨state', text', hrest, hrun, hnext⟩ := ih hmiddle hwalk hfold
              exact ⟨state', text', hrest, hrun, by simpa using hnext⟩

/-- What the check reports when it stops: a broken literal, or a closing bracket that is
not the next one to come. -/
theorem step_eq_error {s : WalkStep} {error : DelimiterError} (hstep : scan.step s = .error error) :
    s.breaksLiteral = true ∧ error = .unterminated scan.quoteLine ∨
      s.isBracket = true ∧ closerOf? s.char = none ∧ scan.close s.char = .error error := by
  rw [step_eq] at hstep
  cases hbreaks : s.breaksLiteral with
  | true =>
      rw [hbreaks, if_pos rfl] at hstep
      exact .inl ⟨rfl, (Except.error.inj hstep).symm⟩
  | false =>
      rw [hbreaks, if_neg (by simp)] at hstep
      cases hbracket : s.isBracket with
      | false => simp [hbracket] at hstep
      | true =>
          rw [hbracket, if_pos rfl] at hstep
          split at hstep
          · cases hstep
          · rename_i hopener
            exact .inr ⟨rfl, by simpa using hopener, hstep⟩

/-- Behind a bracket at which the check stops, the word can no longer be completed. -/
theorem Reads.not_extendable (hreads : Reads steps state scan) {s : WalkStep}
    {error : DelimiterError} (hbracket : s.isBracket = true) (hcloser : closerOf? s.char = none)
    (hclose : scan.close s.char = .error error) : ¬ Extendable (bracketsOf (steps ++ [s])) := by
  refine hreads.opened.not_extendable hbracket hcloser ?_
  have hbrackets := toOption_close scan s.char
  rw [hclose] at hbrackets
  exact hbrackets.symm

end BracketScan

/-! ## The first violation -/

theorem exists_of_foldlM_step_eq_error {steps : List WalkStep} {scan : BracketScan}
    {error : DelimiterError} (hfold : steps.foldlM BracketScan.step scan = .error error) :
    ∃ before s after reached, steps = before ++ s :: after ∧
      before.foldlM BracketScan.step scan = .ok reached ∧ reached.step s = .error error := by
  induction steps generalizing scan with
  | nil => cases hfold
  | cons s steps ih =>
      rw [List.foldlM_cons] at hfold
      cases hstep : scan.step s with
      | error found =>
          rw [hstep] at hfold
          obtain rfl := Except.error.inj hfold
          exact ⟨[], s, steps, scan, rfl, rfl, hstep⟩
      | ok next =>
          rw [hstep] at hfold
          obtain ⟨before, t, after, reached, rfl, hbefore, hfound⟩ := ih hfold
          refine ⟨s :: before, t, after, reached, rfl, ?_, hfound⟩
          rw [List.foldlM_cons, hstep]
          exact hbefore

variable {code : List Char}

/-- What the check knows at a character of a text that it has read so far. -/
theorem exists_reads_of_walk {before : List WalkStep} {s : WalkStep} {after : List WalkStep}
    (hwalk : walk code = before ++ s :: after) {scan : BracketScan}
    (hfold : before.foldlM BracketScan.step {} = .ok scan) :
    ∃ state c ahead, s = ⟨c, (state.step c ahead).1, (state.step c ahead).2⟩ ∧
      BracketScan.Reads before state scan := by
  obtain ⟨state, text, hrest, -, hreads⟩ := BracketScan.reads_nil.foldlM hwalk hfold
  cases text with
  | nil => cases hrest
  | cons c text =>
      rw [walkFrom_cons, List.cons.injEq] at hrest
      exact ⟨state, c, text.head?, hrest.1, hreads⟩

/-- What the check knows at the end of a text that it has read to its end. -/
theorem reads_endOfWalk {scan : BracketScan}
    (hfold : (walk code).foldlM BracketScan.step {} = .ok scan) :
    BracketScan.Reads (walk code) (endOfWalk code) scan := by
  have hwalk : walk code = walk code ++ [] := (List.append_nil _).symm
  obtain ⟨state, text, hrest, hrun, hreads⟩ := BracketScan.reads_nil.foldlM hwalk hfold
  cases text with
  | nil =>
      obtain rfl : state = endOfWalk code := hrun
      exact hreads
  | cons c text => cases hrest

/-- The check reads every prefix without a violation to its end. -/
theorem exists_foldlM_eq_ok {before after : List WalkStep} (hwalk : walk code = before ++ after)
    (hfirst : Admissible before) : ∃ scan, before.foldlM BracketScan.step {} = .ok scan := by
  cases hfold : before.foldlM BracketScan.step {} with
  | ok scan => exact ⟨scan, rfl⟩
  | error error =>
      obtain ⟨front, s, back, scan, rfl, hfront, hstep⟩ := exists_of_foldlM_step_eq_error hfold
      rw [List.append_assoc] at hwalk
      obtain ⟨state, c, ahead, -, hreads⟩ := exists_reads_of_walk hwalk hfront
      rcases BracketScan.step_eq_error hstep with ⟨hbreaks, -⟩ | ⟨hbracket, hcloser, hclose⟩
      · rw [hfirst.1 s (by simp)] at hbreaks
        cases hbreaks
      · have hextends : Extendable (bracketsOf (front ++ [s]) ++ bracketsOf back) := by
          simpa [← bracketsOf_append] using hfirst.2
        exact absurd hextends.of_append (hreads.not_extendable hbracket hcloser hclose)

theorem validateDelimiters_of_foldlM_eq_error {error : DelimiterError}
    (hfold : (walk code).foldlM BracketScan.step {} = .error error) :
    validateDelimiters code = .error error := by
  rw [validateDelimiters, hfold]
  rfl

theorem validateDelimiters_of_foldlM_eq_ok {scan : BracketScan}
    (hfold : (walk code).foldlM BracketScan.step {} = .ok scan) :
    validateDelimiters code = scan.finish (endOfWalk code).openQuote := by
  rw [validateDelimiters, hfold]
  rfl

/-- The check stops where it cannot take in a character. -/
theorem validateDelimiters_of_step_eq_error {before : List WalkStep} {s : WalkStep}
    {after : List WalkStep} (hwalk : walk code = before ++ s :: after) {scan : BracketScan}
    (hfold : before.foldlM BracketScan.step {} = .ok scan) {error : DelimiterError}
    (hstep : scan.step s = .error error) : validateDelimiters code = .error error := by
  apply validateDelimiters_of_foldlM_eq_error
  rw [hwalk, List.foldlM_append, hfold]
  change (s :: after).foldlM BracketScan.step scan = _
  rw [List.foldlM_cons, hstep]
  rfl

/-- A literal is open at a line feed that breaks one. -/
theorem isSome_openQuote_of_breaksLiteral {state : WalkState} {s : WalkStep} {c : Char}
    {ahead : Option Char} (hs : s = ⟨c, (state.step c ahead).1, (state.step c ahead).2⟩)
    (hbreaks : s.breaksLiteral = true) : state.openQuote.isSome := by
  simp only [WalkStep.breaksLiteral, Bool.and_eq_true, beq_iff_eq] at hbreaks
  obtain ⟨hfeed, hstays⟩ := hbreaks
  have hopen : s.after.openQuote.isSome := by
    cases hquote : s.after.openQuote with
    | none => simp [hquote, BracketScan.staysOnLine] at hstays
    | some quote => rfl
  subst hs
  cases hregion : (state.step c ahead).1 with
  | quoted => rwa [← WalkState.openQuote_step_of_quoted hregion]
  | code =>
      have hdelimiter := WalkState.isDelimiter_of_step hregion hopen
      rw [show c = '\n' from hfeed] at hdelimiter
      exact absurd hdelimiter (by decide)

/-! ## Each error in both directions -/

theorem Balanced.extendable {word : List Char} (hword : Balanced word) : Extendable word :=
  ⟨[], by rwa [List.append_nil]⟩

/-- Two ways to cut a list at an element are the same, or one of the elements stands
behind the other. -/
theorem append_cons_eq_append_cons {α : Type _} {front back front' back' : List α} {a a' : α}
    (heq : front ++ a :: back = front' ++ a' :: back') :
    (front = front' ∧ a = a') ∨ (∃ middle, back = middle ++ a' :: back') ∨
      ∃ middle, back' = middle ++ a :: back := by
  rcases List.append_eq_append_iff.mp heq with ⟨middle, hfront, hback⟩ | ⟨middle, hfront, hback⟩
  · cases middle with
    | nil => exact .inl ⟨by simpa using hfront.symm, (List.cons.inj hback).1⟩
    | cons b middle => exact .inr (.inl ⟨middle, (List.cons.inj hback).2⟩)
  · cases middle with
    | nil => exact .inl ⟨by simpa using hfront, (List.cons.inj hback).1.symm⟩
    | cons b middle => exact .inr (.inr ⟨middle, (List.cons.inj hback).2⟩)

/-- The delimiter that opened the literal behind a walk is the last one of code. -/
theorem LiteralOpenedOn.unique {steps : List WalkStep} {line line' : Nat}
    (hopened : LiteralOpenedOn steps line) (hopened' : LiteralOpenedOn steps line') :
    line = line' := by
  obtain ⟨before, opening, inner, rfl, hopening, hinner, rfl⟩ := hopened
  obtain ⟨before', opening', inner', hsteps, hopening', hinner', rfl⟩ := hopened'
  have hcode : ∀ s : WalkStep, s.opensLiteral = true → s.region ≠ .quoted := by
    intro s hopens hquoted
    simp [WalkStep.opensLiteral, hquoted] at hopens
  rcases append_cons_eq_append_cons hsteps with ⟨rfl, -⟩ | ⟨middle, rfl⟩ | ⟨middle, rfl⟩
  · rfl
  · exact absurd (hinner opening' (by simp)) (hcode opening' hopening')
  · exact absurd (hinner' opening (by simp)) (hcode opening hopening)

/-- An opening bracket in front of a word that balances is not closed. -/
theorem not_balanced_of_opener {front back : List Char} {opener : Char}
    (hopener : (closerOf? opener).isSome) (hback : Balanced back) :
    ¬ Balanced (front ++ opener :: back) := by
  intro hword
  obtain ⟨closer, hpair⟩ := Option.isSome_iff_exists.mp hopener
  have hread := hword.foldlM_takeBracket []
  rw [List.foldlM_append, Option.bind_eq_bind, Option.bind_eq_some_iff] at hread
  obtain ⟨opened, -, hrest⟩ := hread
  rw [List.foldlM_cons, takeBracket_opener hpair, Option.bind_eq_bind, Option.bind_some,
    hback.foldlM_takeBracket] at hrest
  cases hrest

/-- The innermost bracket that a walk leaves open is on top, with its line. -/
theorem Unclosed.eq_cons {before : List WalkStep} {s : WalkStep} {after : List WalkStep}
    {opened : List (Char × Nat)} (hsteps : Unclosed (before ++ s :: after) opened)
    (hbracket : s.isBracket = true) (hopener : (closerOf? s.char).isSome)
    (hafter : Balanced (bracketsOf after)) :
    ∃ outer, opened = (s.char, lineBehind before) :: outer := by
  generalize hwalk : before ++ s :: after = steps at hsteps
  cases hsteps with
  | nil hsteps =>
      rw [← hwalk, bracketsOf_append, bracketsOf_cons_of_isBracket hbracket] at hsteps
      exact absurd hsteps (not_balanced_of_opener hopener hafter)
  | @cons front back t outer _ hbracket' hopener' hback =>
      rcases append_cons_eq_append_cons hwalk with ⟨rfl, rfl⟩ | ⟨middle, rfl⟩ | ⟨middle, rfl⟩
      · exact ⟨outer, rfl⟩
      · rw [bracketsOf_append, bracketsOf_cons_of_isBracket hbracket'] at hafter
        exact absurd hafter (not_balanced_of_opener hopener' hback)
      · rw [bracketsOf_append, bracketsOf_cons_of_isBracket hbracket] at hback
        exact absurd hback (not_balanced_of_opener hopener hafter)

/-- At a bracket behind which the word can no longer be completed, the check finds its
error in the open brackets. -/
theorem validateDelimiters_of_not_extendable {before : List WalkStep} {s : WalkStep}
    {after : List WalkStep} (hwalk : walk code = before ++ s :: after) (hfirst : Admissible before)
    (hbracket : s.isBracket = true) (hstop : ¬ Extendable (bracketsOf (before ++ [s]))) :
    ∃ scan error, Unclosed before scan.opened ∧ scan.line = lineBehind before ∧
      BracketScan.close scan s.char = .error error ∧ validateDelimiters code = .error error := by
  obtain ⟨scan, hfold⟩ := exists_foldlM_eq_ok hwalk hfirst
  obtain ⟨state, c, ahead, hs, hreads⟩ := exists_reads_of_walk hwalk hfold
  cases hstep : scan.step s with
  | ok next => exact absurd (hreads.step hs hstep).opened.extendable hstop
  | error error =>
      have hresult := validateDelimiters_of_step_eq_error hwalk hfold hstep
      rcases BracketScan.step_eq_error hstep with ⟨hbreaks, -⟩ | ⟨-, -, hclose⟩
      · rw [WalkStep.isBracket_of_breaksLiteral hbreaks] at hbracket
        cases hbracket
      · exact ⟨scan, error, hreads.opened, hreads.line, hclose, hresult⟩

/-- What the check reports is the first violation. -/
theorem blames_of_eq_error {error : DelimiterError}
    (hcheck : validateDelimiters code = .error error) : Blames code error := by
  cases hfold : (walk code).foldlM BracketScan.step {} with
  | error found =>
      rw [validateDelimiters_of_foldlM_eq_error hfold, Except.error.injEq] at hcheck
      obtain rfl := hcheck
      obtain ⟨before, s, after, scan, hwalk, hbefore, hstep⟩ := exists_of_foldlM_step_eq_error hfold
      obtain ⟨state, c, ahead, hs, hreads⟩ := exists_reads_of_walk hwalk hbefore
      rcases BracketScan.step_eq_error hstep with ⟨hbreaks, rfl⟩ | ⟨hbracket, hcloser, hclose⟩
      · have hopened := hreads.quoteLine (isSome_openQuote_of_breaksLiteral hs hbreaks)
        exact .brokenLiteral hwalk hreads.admissible hbreaks hopened
      · have hstop := hreads.not_extendable hbracket hcloser hclose
        have hopened := hreads.opened
        rcases BracketScan.close_eq_error hclose with
          ⟨hnone, rfl⟩ | ⟨opener, line, outer, expected, hsome, hpair, rfl⟩
        · rw [hreads.line]
          exact .unexpected hwalk hreads.admissible hbracket hstop (hnone ▸ hopened).balanced
        · obtain ⟨front, t, back, hfront, hbracket', -, hback, -, rfl, -⟩ :=
            Unclosed.exists_innermost (hsome ▸ hopened)
          have hbrackets : bracketsOf before = bracketsOf front ++ t.char :: bracketsOf back := by
            rw [hfront, bracketsOf_append, bracketsOf_cons_of_isBracket hbracket']
          rw [hreads.line]
          exact .mismatched hwalk hreads.admissible hbracket hstop hbrackets hback hpair
  | ok scan =>
      rw [validateDelimiters_of_foldlM_eq_ok hfold, BracketScan.finish] at hcheck
      have hreads := reads_endOfWalk hfold
      split at hcheck
      · rename_i hopen
        obtain rfl := Except.error.inj hcheck
        exact .endlessLiteral hreads.admissible hopen (hreads.quoteLine hopen)
      · rename_i hopen
        have hliterals : (endOfWalk code).openQuote = none := by simpa using hopen
        have hopened := hreads.opened
        split at hcheck
        · cases hcheck
        · rename_i opener line outer hsome
          obtain rfl := Except.error.inj hcheck
          obtain ⟨front, s, back, hwalk, hbracket, hopener, hback, -, rfl, rfl⟩ :=
            Unclosed.exists_innermost (hsome ▸ hopened)
          exact .unclosed hwalk hreads.admissible hliterals hbracket hopener hback

/-- The first violation is what the check reports. -/
theorem Blames.eq_error {error : DelimiterError} (hblames : Blames code error) :
    validateDelimiters code = .error error := by
  cases hblames with
  | unexpected hwalk hfirst hbracket hstop hclosed =>
      obtain ⟨scan, error, hopened, hline, hclose, hcheck⟩ :=
        validateDelimiters_of_not_extendable hwalk hfirst hbracket hstop
      have hread := hopened.foldlM_takeBracket
      rw [hclosed.foldlM_takeBracket, Option.some_inj] at hread
      have hnone : scan.opened = [] := List.map_eq_nil_iff.mp hread.symm
      rcases BracketScan.close_eq_error hclose with ⟨-, rfl⟩ | ⟨_, _, _, _, hsome, -⟩
      · rwa [← hline]
      · rw [hnone] at hsome
        cases hsome
  | @mismatched before s after outer inner opener expected hwalk hfirst hbracket hstop hbrackets
      hinner hpair =>
      obtain ⟨scan, error, hopened, hline, hclose, hcheck⟩ :=
        validateDelimiters_of_not_extendable hwalk hfirst hbracket hstop
      have hread := hopened.foldlM_takeBracket
      rw [hbrackets, List.foldlM_append, Option.bind_eq_bind, Option.bind_eq_some_iff] at hread
      obtain ⟨around, -, hread⟩ := hread
      rw [List.foldlM_cons, takeBracket_opener hpair, Option.bind_eq_bind, Option.bind_some,
        hinner.foldlM_takeBracket, Option.some_inj] at hread
      rcases BracketScan.close_eq_error hclose with
        ⟨hnone, -⟩ | ⟨opener', line, outer', expected', hsome, hpair', rfl⟩
      · rw [hnone] at hread
        cases hread
      · rw [hsome] at hread
        obtain rfl : opener = opener' := (List.cons.inj hread).1
        rw [hpair, Option.some_inj] at hpair'
        rwa [hpair', ← hline]
  | brokenLiteral hwalk hfirst hbreaks hopened =>
      obtain ⟨scan, hfold⟩ := exists_foldlM_eq_ok hwalk hfirst
      obtain ⟨state, c, ahead, hs, hreads⟩ := exists_reads_of_walk hwalk hfold
      have hline := hreads.quoteLine (isSome_openQuote_of_breaksLiteral hs hbreaks)
      refine validateDelimiters_of_step_eq_error hwalk hfold ?_
      rw [BracketScan.step_eq, if_pos hbreaks, hopened.unique hline]
  | endlessLiteral hfirst hopen hopened =>
      obtain ⟨scan, hfold⟩ := exists_foldlM_eq_ok (List.append_nil _).symm hfirst
      have hline := (reads_endOfWalk hfold).quoteLine hopen
      rw [validateDelimiters_of_foldlM_eq_ok hfold, BracketScan.finish, if_pos hopen,
        hopened.unique hline]
  | unclosed hwalk hfirst hliterals hbracket hopener hafter =>
      obtain ⟨scan, hfold⟩ := exists_foldlM_eq_ok (List.append_nil _).symm hfirst
      have hopened := (reads_endOfWalk hfold).opened
      rw [hwalk] at hopened
      obtain ⟨outer, hsome⟩ := hopened.eq_cons hbracket hopener hafter
      rw [validateDelimiters_of_foldlM_eq_ok hfold, BracketScan.finish, hliterals,
        if_neg (by simp), hsome]

/-- A text is accepted when its brackets balance and its literals are closed in time. -/
theorem eq_ok_iff_balanced :
    validateDelimiters code = .ok () ↔
      Balanced (bracketsOf (walk code)) ∧ (∀ s ∈ walk code, s.breaksLiteral = false) ∧
        (endOfWalk code).openQuote = none := by
  constructor
  · intro hcheck
    cases hfold : (walk code).foldlM BracketScan.step {} with
    | error error =>
        rw [validateDelimiters_of_foldlM_eq_error hfold] at hcheck
        cases hcheck
    | ok scan =>
        have hreads := reads_endOfWalk hfold
        have hopened := hreads.opened
        rw [validateDelimiters_of_foldlM_eq_ok hfold, BracketScan.finish] at hcheck
        split at hcheck
        · cases hcheck
        · rename_i hopen
          split at hcheck
          · rename_i hnone
            exact ⟨(hnone ▸ hopened).balanced, hreads.unbroken, by simpa using hopen⟩
          · cases hcheck
  · rintro ⟨hbalanced, hunbroken, hliterals⟩
    obtain ⟨scan, hfold⟩ :=
      exists_foldlM_eq_ok (List.append_nil _).symm ⟨hunbroken, hbalanced.extendable⟩
    have hread := (reads_endOfWalk hfold).opened.foldlM_takeBracket
    rw [hbalanced.foldlM_takeBracket, Option.some_inj] at hread
    have hnone : scan.opened = [] := List.map_eq_nil_iff.mp hread.symm
    rw [validateDelimiters_of_foldlM_eq_ok hfold, BracketScan.finish, hliterals,
      if_neg (by simp), hnone]

/-- The check decides balance and blames the right place. For every text, it is accepted
exactly if the brackets of its code form a word of the grammar, no line feed is read in a
literal that has to close on its line, and no literal is open at the end. Otherwise the
error is the one that reports the first violation, and no other. -/
theorem validateDelimiters_judges (code : List Char) :
    (validateDelimiters code = .ok () ↔
      Balanced (bracketsOf (walk code)) ∧ (∀ s ∈ walk code, s.breaksLiteral = false) ∧
        (endOfWalk code).openQuote = none) ∧
    ∀ error, validateDelimiters code = .error error ↔ Blames code error :=
  ⟨eq_ok_iff_balanced, fun _ => ⟨blames_of_eq_error, Blames.eq_error⟩⟩

end Offside
