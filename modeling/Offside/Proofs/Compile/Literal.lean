/-
# Stripping around a literal

A line loses the annotations of its function head and then that of its declaration. A
declaration begins the line, with blanks and words, so a literal stands in its annotation or
behind it, and goes or stays with the text there. A function head may stand anywhere, and the
search for it does look into literals. So what a literal holds steers the stripping of a line
exactly as far as it decides whether the line has an annotated head.
-/

import Offside.Proofs.Compile.LiteralHead

namespace Offside

open WalkState

variable {quote : Char} {literal literal' text text' : List Char}

namespace Annotation

/-! ## Where a declaration is settled -/

section Stop

variable {stop : Char}

theorem notMem_of_all {p : Char → Bool} (hstop : p stop = false) {word : List Char}
    (hword : word.all p = true) : stop ∉ word := by
  intro hmem
  rw [List.all_eq_true.mp hword stop hmem] at hstop
  cases hstop

theorem cutBlanks?_append_cons (hblank : Text.isBlank stop = false) (front back : List Char) :
    cutBlanks? (front ++ stop :: back) =
      (cutBlanks? front).map fun cut => (cut.1, cut.2 ++ stop :: back) := by
  simp only [cutBlanks?, takeWhile_append_cons hblank, dropWhile_append_cons hblank]
  split <;> rfl

theorem cutWord?_append_cons (hblank : Text.isBlank stop = false) {word : List Char}
    (hword : stop ∉ word) (front back : List Char) :
    cutWord? word (front ++ stop :: back) =
      (cutWord? word front).map fun cut => (cut.1, cut.2 ++ stop :: back) := by
  rw [cutWord?, cutWord?, Text.dropLead?_append_cons hword]
  cases Text.dropLead? word front with
  | none => rfl
  | some behind =>
      simp only [Option.map_some, Option.bind_eq_bind, Option.bind_some,
        cutBlanks?_append_cons hblank]
      cases cutBlanks? behind <;> rfl

theorem cutIdentifier?_append_cons (hname : Assignment.isNamePart stop = false)
    (front back : List Char) :
    cutIdentifier? (front ++ stop :: back) =
      (cutIdentifier? front).map fun cut => (cut.1, cut.2 ++ stop :: back) := by
  cases front with
  | nil =>
      simp only [Assignment.isNamePart, Bool.or_eq_false_iff] at hname
      simp [cutIdentifier?, hname.1]
  | cons c front =>
      simp only [List.cons_append, cutIdentifier?, takeWhile_append_cons hname,
        dropWhile_append_cons hname]
      split <;> rfl

theorem cutKeyword?_append_cons (hblank : Text.isBlank stop = false)
    (hname : Assignment.isNamePart stop = false) (front back : List Char) :
    (cutWord? ['l', 'e', 't'] (front ++ stop :: back)).or
        ((cutWord? ['v', 'a', 'r'] (front ++ stop :: back)).or
          (cutWord? ['c', 'o', 'n', 's', 't'] (front ++ stop :: back))) =
      ((cutWord? ['l', 'e', 't'] front).or
        ((cutWord? ['v', 'a', 'r'] front).or (cutWord? ['c', 'o', 'n', 's', 't'] front))).map
          fun cut => (cut.1, cut.2 ++ stop :: back) := by
  have hword : ∀ word : List Char, word.all Assignment.isNamePart = true → stop ∉ word :=
    fun word hword => notMem_of_all hname hword
  rw [cutWord?_append_cons hblank (hword _ rfl), cutWord?_append_cons hblank (hword _ rfl),
    cutWord?_append_cons hblank (hword _ rfl), Option.map_or, Option.map_or]

/-- What a declaration looks like is settled in front of the first character that is no part of
one. -/
theorem cutTypedDeclaration?_append_cons (hstop : isDeclared stop = false) (hcolon : stop ≠ ':')
    (front back : List Char) :
    cutTypedDeclaration? (front ++ stop :: back) =
      (cutTypedDeclaration? front).map fun cut => (cut.1, cut.2 ++ stop :: back) := by
  simp only [isDeclared, Bool.or_eq_false_iff, beq_eq_false_iff_ne] at hstop
  obtain ⟨⟨hblank, hname⟩, hquestion⟩ := hstop
  simp only [cutTypedDeclaration?, Option.bind_eq_bind]
  rw [takeWhile_append_cons hblank, Text.trimStart_append_cons hblank,
    cutWord?_append_cons hblank (notMem_of_all hname rfl)]
  generalize Text.trimStart front = start
  have hexport := @Option.getD_map _ _ (fun cut : List Char × List Char =>
    (cut.1, cut.2 ++ stop :: back)) ([], start) (cutWord? ['e', 'x', 'p', 'o', 'r', 't'] start)
  dsimp only at hexport
  rw [hexport]
  generalize (cutWord? ['e', 'x', 'p', 'o', 'r', 't'] start).getD ([], start) = cut
  obtain ⟨exported, rest⟩ := cut
  dsimp only
  rw [cutKeyword?_append_cons hblank hname]
  generalize (cutWord? ['l', 'e', 't'] rest).or
    ((cutWord? ['v', 'a', 'r'] rest).or (cutWord? ['c', 'o', 'n', 's', 't'] rest)) = cut
  cases cut with
  | none => rfl
  | some cut =>
      rw [Option.map_some, Option.bind_some, Option.bind_some]
      dsimp only
      rw [cutIdentifier?_append_cons hname]
      cases cutIdentifier? cut.2 with
      | none => rfl
      | some cut' =>
          rw [Option.map_some, Option.bind_some, Option.bind_some]
          dsimp only
          have hmark : stop ∉ ['?'] := by simpa using hquestion
          rw [Text.trimStart_append_cons hblank, Text.dropLead?_append_cons hmark]
          have hoptional := @Option.getD_map _ _ (· ++ stop :: back) (Text.trimStart cut'.2)
            (Text.dropLead? ['?'] (Text.trimStart cut'.2))
          rw [hoptional, Text.trimStart_append_cons hblank,
            Text.dropLead?_append_cons (by simpa using hcolon)]
          generalize Text.dropLead? [':'] _ = typed
          cases typed <;> rfl

end Stop

theorem isInert_of_isDeclared {c : Char} (hc : isDeclared c = true) : isInert c = true :=
  isInert_of_class rfl hc

theorem isDeclared_of_isQuote (hquote : isQuote quote = true) : isDeclared quote = false := by
  rcases eq_of_isQuote hquote with rfl | rfl | rfl <;> rfl

/-! ## The pass over declarations -/

/-- Two declarations that differ in a literal have the same head. The literal stands behind the
colon of both. -/
theorem cutTypedDeclaration?_differ (hpair : QuotedPair quote literal literal')
    (hdiffer : DifferFrom {} literal literal' text text') :
    (cutTypedDeclaration? text = none ∧ cutTypedDeclaration? text' = none) ∨
      ∃ head typed typed', cutTypedDeclaration? text = some (head, typed) ∧
        cutTypedDeclaration? text' = some (head, typed') ∧
        DifferFrom {} literal literal' typed typed' := by
  obtain ⟨front, back, rfl, rfl, hclean⟩ := hdiffer
  have hcuts : ∀ other, IsQuoted quote other →
      cutTypedDeclaration? (front ++ other ++ back) =
        (cutTypedDeclaration? front).map fun cut => (cut.1, cut.2 ++ (other ++ back)) := by
    rintro other ⟨body, rfl, -⟩
    rw [List.append_assoc]
    exact cutTypedDeclaration?_append_cons (isDeclared_of_isQuote hpair.isQuote)
      (ne_of_isQuote hpair.isQuote rfl) front _
  rw [hcuts literal hpair.first, hcuts literal' hpair.second]
  cases hfront : cutTypedDeclaration? front with
  | none => exact .inl ⟨rfl, rfl⟩
  | some cut =>
      obtain ⟨head, inner⟩ := cut
      obtain ⟨gap, hline, -, hdeclared⟩ := exists_of_cutTypedDeclaration? hfront
      have hhead : (WalkState.run {} (head ++ gap)).Clean :=
        (nests_of_isInert (fun c hc => isInert_of_isDeclared (hdeclared c hc)) []).clean {}
          clean_init
      rw [← hline, ← List.append_assoc, run_append_mark hhead rfl] at hclean
      exact .inr ⟨head, _, _, rfl, rfl, inner, back, by simp, by simp,
        sameReading_colon.clean_run hclean⟩

/-- The pass over declarations keeps the same around the literal. -/
theorem sameAround_plainDeclaration (hpair : QuotedPair quote literal literal')
    (hdiffer : DifferFrom {} literal literal' text text') :
    SameAround literal literal' (plainDeclaration text) (plainDeclaration text') := by
  rcases cutTypedDeclaration?_differ hpair hdiffer with
    ⟨hnone, hnone'⟩ | ⟨head, typed, typed', hcut, hcut', htyped⟩
  · rw [plainDeclaration_of_none hnone, plainDeclaration_of_none hnone']
    exact .inr hdiffer.differ
  · have hends := cutType?_differ hpair stopsAtMarks_endsDeclaration htyped
    generalize hend : cutType? endsDeclaration typed = cut at hends
    generalize hend' : cutType? endsDeclaration typed' = cut' at hends
    cases hends with
    | none =>
        left
        rw [plainDeclaration_eq hcut, plainDeclaration_eq hcut', hend, hend']
    | behind =>
        -- The literal goes with the type.
        left
        obtain ⟨place, found, rfl, -⟩ := TopLevelScan.exists_of_cut? hend
        rw [plainDeclaration_of_cut hcut hend, plainDeclaration_of_cut hcut' hend']
    | @inFront _ _ _ c _ _ hfound =>
        right
        rw [plainDeclaration_of_cut hcut hend, plainDeclaration_of_cut hcut' hend']
        simpa using hfound.differ.append (head ++ ((if c = ';' then [] else [' ']) ++ [c])) []

/-! ## Both passes -/

/-- Put another complete body into a literal of a line. Where the parenthesis of an annotated
head is code, the pass over function heads keeps the same around the literal exactly if the
literal does not decide whether the line has such a head; and then so does stripping: either
the literal went with an annotation, or it is kept as it stands. Declarations ask for nothing
more. -/
theorem strip_literal (hquote : isQuote quote = true)
    {front body body' back line line' : List Char} (hliteral : HasLiteral front quote body back)
    (hbody' : IsBody quote body') (hline : line = front ++ (quote :: body ++ [quote]) ++ back)
    (hline' : line' = front ++ (quote :: body' ++ [quote]) ++ back)
    (hcode : HasTypedHead line → HeadInCode line)
    (hcode' : HasTypedHead line' → HeadInCode line') :
    (SameAround (quote :: body ++ [quote]) (quote :: body' ++ [quote]) (plainHead line)
        (plainHead line') ↔ (HasTypedHead line' ↔ HasTypedHead line)) ∧
      ((HasTypedHead line' ↔ HasTypedHead line) →
        SameAround (quote :: body ++ [quote]) (quote :: body' ++ [quote]) (strip line)
          (strip line')) := by
  subst hline hline'
  obtain ⟨hclean, hbody⟩ := (hasLiteral_iff hquote).mp hliteral
  have hpair : QuotedPair quote (quote :: body ++ [quote]) (quote :: body' ++ [quote]) :=
    ⟨hquote, ⟨body, rfl, hbody⟩, ⟨body', rfl, hbody'⟩⟩
  refine ⟨sameAround_plainHead_iff hpair hclean hcode hcode', fun htyped => ?_⟩
  rcases agree_plainHead hpair hclean hcode hcode' htyped with heq | hdiffer
  · left
    rw [strip, strip, heq]
  · exact sameAround_plainDeclaration hpair hdiffer

/-- A default value may hold what looks like the end of a head and the beginning of another. -/
theorem strip_literal_sample :
    let front := "function f(a: T = ".toList
    let back := "): V \x7b\x7d".toList
    let body' := "): U \x7bfunction g(".toList
    let line := front ++ ('\'' :: ['x'] ++ ['\'']) ++ back
    let line' := front ++ ('\'' :: body' ++ ['\'']) ++ back
    HasLiteral front '\'' ['x'] back ∧ IsBody '\'' body' ∧
      (HasTypedHead line ∧ HeadInCode line) ∧ (HasTypedHead line' ∧ HeadInCode line') ∧
      strip line = "function f(a = 'x') \x7b\x7d".toList ∧
      SameAround ('\'' :: ['x'] ++ ['\'']) ('\'' :: body' ++ ['\'']) (strip line)
        (strip line') := by
  intro front back body' line line'
  have hliteral : HasLiteral front '\'' ['x'] back :=
    (hasLiteral_iff rfl).mpr ⟨by decide, by decide⟩
  have hbody' : IsBody '\'' body' := by decide
  have hhead : HasTypedHead line ∧ HeadInCode line := by decide +kernel
  have hhead' : HasTypedHead line' ∧ HeadInCode line' := by decide +kernel
  have hkeeps := strip_literal rfl hliteral hbody' rfl rfl (fun _ => hhead.2) (fun _ => hhead'.2)
  exact ⟨hliteral, hbody', hhead, hhead', by decide +kernel,
    hkeeps.2 ⟨fun _ => hhead.1, fun _ => hhead'.1⟩⟩

/-- The word `function` in a literal hides the head behind it. -/
theorem strip_literal_ne :
    let front := "x = ".toList
    let back := "; function f(a: T) \x7b\x7d".toList
    let body' := "function".toList
    let line := front ++ ('\'' :: ['y'] ++ ['\'']) ++ back
    let line' := front ++ ('\'' :: body' ++ ['\'']) ++ back
    HasLiteral front '\'' ['y'] back ∧ IsBody '\'' body' ∧
      ¬ SameAround ('\'' :: ['y'] ++ ['\'']) ('\'' :: body' ++ ['\'']) (strip line)
        (strip line') := by
  intro front back body' line line'
  refine ⟨(hasLiteral_iff rfl).mpr ⟨by decide, by decide⟩, by decide, ?_⟩
  have hplain : strip line = "x = 'y'; function f(a) \x7b\x7d".toList := by decide +kernel
  have hkept : strip line' = "x = 'function'; function f(a: T) \x7b\x7d".toList := by
    decide +kernel
  rw [hplain, hkept]
  rintro (heq | ⟨left, right, hleft, hright⟩)
  · exact absurd heq (by decide)
  · -- The literals differ by seven characters, and the lines by ten.
    have hlength := congrArg List.length hleft
    have hlength' := congrArg List.length hright
    simp only [List.length_append] at hlength hlength'
    simp [body'] at hlength hlength'
    omega

/-- A parenthesis in a literal passes for that of the head, and then the literal itself is taken
for the parameters. -/
example : strip "function 'g(a: T)' \x7b\x7d".toList = "function 'g(a)' \x7b\x7d".toList := by
  decide +kernel

end Annotation

end Offside
