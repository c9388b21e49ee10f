/-
# Function heads around a literal

The pass over function heads looks for the first head of a line in its bare text: the word
`function`, and then the first parenthesis. Whether that is code is asked of the word alone, and
of no head but the first. So a literal has a say in where the pass finds a head: the word may
stand in the literal, and then a head behind it is not looked at; or the parenthesis stands
there, and then the parameters are read from the middle of the literal on.

Where the parenthesis is code, a head stands in front of the literal, and then another literal
changes nothing; or it ends behind the literal, and then another literal can only hide it.
-/

import Offside.Proofs.Compile.LiteralPart

namespace Offside

open WalkState

variable {quote : Char} {literal literal' : List Char}

namespace Annotation

/-! ## The search for a head -/

/-- The word `function` stands at the front of the text, as a word of its own. -/
def startsFunction (afterWord : Bool) (text : List Char) : Bool :=
  match Text.dropLead? Keyword.functionWord text with
  | some behind => !afterWord && Text.startsOffWord behind
  | none => false

theorem cutFunctionWord?_cons (afterWord : Bool) (c : Char) (rest : List Char) :
    cutFunctionWord? afterWord (c :: rest) =
      if startsFunction afterWord (c :: rest) then some ([], c :: rest)
      else (cutFunctionWord? (Text.isWord c) rest).map fun cut => (c :: cut.1, cut.2) := rfl

theorem length_pos_of_cutFunctionWord? {afterWord : Bool} {line before found : List Char}
    (hcut : cutFunctionWord? afterWord line = some (before, found)) : 0 < found.length := by
  fun_induction cutFunctionWord? afterWord line generalizing before with
  | case1 => cases hcut
  | case2 =>
      obtain ⟨rfl, rfl⟩ := Prod.mk.inj (Option.some_inj.mp hcut)
      exact Nat.zero_lt_succ _
  | case3 =>
      rename_i ih
      obtain ⟨⟨later, _⟩, hlater, heq⟩ := Option.map_eq_some_iff.mp hcut
      obtain ⟨rfl, rfl⟩ := Prod.mk.inj heq
      exact ih hlater

section Stop

variable {stop : Char} (hword : Text.isWord stop = false) (hstop : stop ∉ Keyword.functionWord)

include hword hstop

theorem startsFunction_append_cons (afterWord : Bool) (front back : List Char) :
    startsFunction afterWord (front ++ stop :: back) = startsFunction afterWord front := by
  rw [startsFunction, startsFunction, Text.dropLead?_append_cons hstop]
  cases Text.dropLead? Keyword.functionWord front with
  | none => rfl
  | some behind =>
      cases behind with
      | nil => simp [Text.startsOffWord, hword]
      | cons d behind => rfl

/-- The search for a head goes over a character that belongs to no word: a word is found in
front of it or behind it. -/
theorem cutFunctionWord?_append_cons (afterWord : Bool) (front back : List Char) :
    cutFunctionWord? afterWord (front ++ stop :: back) =
      ((cutFunctionWord? afterWord front).map fun cut => (cut.1, cut.2 ++ stop :: back)).or
        ((cutFunctionWord? false back).map fun cut => (front ++ stop :: cut.1, cut.2)) := by
  induction front generalizing afterWord with
  | nil =>
      have hstarts := startsFunction_append_cons hword hstop afterWord [] back
      rw [List.nil_append] at hstarts ⊢
      rw [cutFunctionWord?_cons, hstarts, hword]
      rfl
  | cons d front ih =>
      rw [List.cons_append, cutFunctionWord?_cons, ← List.cons_append,
        startsFunction_append_cons hword hstop, ih, cutFunctionWord?_cons]
      split
      · rfl
      · rw [Option.map_or, Option.map_map, Option.map_map, Option.map_map]
        rfl

end Stop

/-- Cut a text behind its first opening parenthesis. -/
def cutParen? (text : List Char) : Option (List Char × List Char) :=
  match text.dropWhile (· ≠ '(') with
  | [] => none
  | paren :: rest => some (text.takeWhile (· ≠ '(') ++ [paren], rest)

theorem exists_of_cutParen? {text front rest : List Char}
    (hcut : cutParen? text = some (front, rest)) :
    ∃ before, front = before ++ ['('] ∧ front ++ rest = text := by
  unfold cutParen? at hcut
  split at hcut
  · cases hcut
  · rename_i paren behind hdrop
    obtain ⟨rfl, htext⟩ := eq_of_dropWhile_ne hdrop
    obtain ⟨rfl, rfl⟩ := Prod.mk.inj (Option.some_inj.mp hcut)
    exact ⟨_, rfl, by rw [List.append_assoc, List.singleton_append, htext]⟩

theorem cutParen?_cons_of_ne {c : Char} (hc : c ≠ '(') (rest : List Char) :
    cutParen? (c :: rest) = (cutParen? rest).map fun cut => (c :: cut.1, cut.2) := by
  have hskips : decide (c ≠ '(') = true := decide_eq_true hc
  simp only [cutParen?, List.dropWhile_cons, List.takeWhile_cons, hskips, if_true]
  cases rest.dropWhile (· ≠ '(') <;> rfl

theorem cutParen?_eq_none_iff (text : List Char) : cutParen? text = none ↔ '(' ∉ text := by
  induction text with
  | nil => simp [cutParen?]
  | cons c text ih =>
      by_cases hparen : c = '('
      · simp [cutParen?, hparen]
      · rw [cutParen?_cons_of_ne hparen, Option.map_eq_none_iff, ih]
        simp [Ne.symm hparen]

theorem cutParen?_append_cons {stop : Char} (hstop : stop ≠ '(') (front back : List Char) :
    cutParen? (front ++ stop :: back) =
      ((cutParen? front).map fun cut => (cut.1, cut.2 ++ stop :: back)).or
        ((cutParen? back).map fun cut => (front ++ stop :: cut.1, cut.2)) := by
  induction front with
  | nil => exact cutParen?_cons_of_ne hstop back
  | cons c front ih =>
      by_cases hparen : c = '('
      · simp [cutParen?, hparen]
      · rw [List.cons_append, cutParen?_cons_of_ne hparen, ih, cutParen?_cons_of_ne hparen,
          Option.map_or, Option.map_map, Option.map_map, Option.map_map]
        rfl

/-- The first function head of a text, be it code or not, and the rest of the text. -/
def searchHead? (text : List Char) : Option (List Char × List Char) :=
  (cutFunctionWord? false text).bind fun cut =>
    (cutParen? cut.2).map fun cut' => (cut.1 ++ cut'.1, cut'.2)

theorem cutFunctionHead?_eq_bind (line : List Char) :
    cutFunctionHead? line = (cutFunctionWord? false line).bind fun cut =>
      if inCode line cut.1.length then
        (cutParen? cut.2).map fun cut' => (cut.1 ++ cut'.1, cut'.2)
      else none := by
  unfold cutFunctionHead?
  congr 1
  funext ⟨before, found⟩
  dsimp only
  rw [cutParen?]
  cases found.dropWhile (· ≠ '(') with
  | nil => simp
  | cons paren rest => rw [Option.map_some, ← List.append_assoc]

/-- The head of a line begins at the first word `function`, if that is code, and ends at the
first parenthesis behind it. -/
theorem cutFunctionHead?_eq_some_iff {line head inner : List Char} :
    cutFunctionHead? line = some (head, inner) ↔
      ∃ before found middle, cutFunctionWord? false line = some (before, found) ∧
        inCode line before.length = true ∧ cutParen? found = some (middle, inner) ∧
          head = before ++ middle := by
  rw [cutFunctionHead?_eq_bind, Option.bind_eq_some_iff]
  constructor
  · rintro ⟨⟨before, found⟩, hword, hfound⟩
    rw [Option.ite_none_right_eq_some, Option.map_eq_some_iff] at hfound
    obtain ⟨hstarts, ⟨middle, _⟩, hparen, heq⟩ := hfound
    obtain ⟨rfl, rfl⟩ := Prod.mk.inj heq
    exact ⟨before, found, middle, hword, hstarts, hparen, rfl⟩
  · rintro ⟨before, found, middle, hword, hstarts, hparen, rfl⟩
    exact ⟨(before, found), hword, by simp [hstarts, hparen]⟩

/-! ## Code around a literal -/

/-- In front of a character of code that delimits no literal, none is open. -/
theorem clean_of_inCode {front back : List Char} {c : Char} (hmark : isMark c = true)
    (hcode : inCode (front ++ c :: back) front.length = true) :
    (WalkState.run {} front).Clean := by
  rw [inCode, walk, walkFrom_append_of_seam (seam_cons (ne_of_isMark hmark) front back),
    List.getElem?_append_right (by simp [length_walkFrom]), length_walkFrom, Nat.sub_self,
    walkFrom_cons] at hcode
  simp only [isMark, Bool.and_eq_true, Bool.not_eq_true'] at hmark
  exact (clean_init.sound.run front).clean_of_code (by simpa using hcode) hmark.1.1

/-- In front of a literal the same characters are code as without it. -/
theorem inCode_front (hquote : isQuote quote = true) (hliteral : IsQuoted quote literal)
    {front back : List Char} (hclean : (WalkState.run {} front).Clean) {index : Nat}
    (hindex : index < front.length) :
    inCode (front ++ literal ++ back) index = inCode front index := by
  obtain ⟨body, rfl, hbody⟩ := hliteral
  rw [inCode, inCode, walk_literal hquote hclean hbody back, List.append_assoc,
    List.getElem?_append_left (by rwa [length_walkFrom]), walk]

/-- The body of a literal is not code. -/
theorem inCode_body (hquote : isQuote quote = true) {front body before : List Char}
    (hclean : (WalkState.run {} front).Clean) (hbody : IsBody quote body)
    (hshorter : before.length < body.length) (back : List Char) :
    inCode (front ++ (quote :: body ++ [quote]) ++ back) (front ++ quote :: before).length =
      false := by
  have hregions := @map_region_of_sealed ⟨some quote, false, false, some quote⟩ _ _ hquote rfl rfl
    hbody.isSealed
  have hregion : ((walkFrom ⟨some quote, false, false, some quote⟩ body)[before.length]?).map
      WalkStep.region = some .quoted := by
    rw [← List.getElem?_map, hregions, List.getElem?_replicate_of_lt hshorter]
  have hwalk : (walk (front ++ (quote :: body ++ [quote]) ++ back))[(front ++
      quote :: before).length]? =
        (walkFrom ⟨some quote, false, false, some quote⟩ body)[before.length]? := by
    rw [walk_literal hquote hclean hbody back, List.append_assoc, List.length_append,
      List.getElem?_append_right (by simp [length_walkFrom]), length_walkFrom,
      Nat.add_sub_cancel_left, List.length_cons, List.cons_append, List.getElem?_cons_succ,
      List.getElem?_append_left (by rwa [length_walkFrom])]
  obtain ⟨s, hs, hquoted⟩ := Option.map_eq_some_iff.mp hregion
  rw [inCode, hwalk, hs, Option.map_some, Option.getD_some, hquoted]
  rfl

theorem isWord_of_isQuote (hquote : isQuote quote = true) : Text.isWord quote = false := by
  rcases eq_of_isQuote hquote with rfl | rfl | rfl <;> rfl

theorem notMem_functionWord (hquote : isQuote quote = true) : quote ∉ Keyword.functionWord := by
  rcases eq_of_isQuote hquote with rfl | rfl | rfl <;> decide

/-- A head in front of a literal is found, whatever the literal is. -/
theorem cutFunctionHead?_front (hquote : isQuote quote = true) (hliteral : IsQuoted quote literal)
    {front head rest : List Char} (hclean : (WalkState.run {} front).Clean)
    (hcut : cutFunctionHead? front = some (head, rest)) (back : List Char) :
    cutFunctionHead? (front ++ literal ++ back) = some (head, rest ++ literal ++ back) := by
  obtain ⟨before, found, middle, hword, hstarts, hparen, rfl⟩ :=
    cutFunctionHead?_eq_some_iff.mp hcut
  have hfront : before ++ found = front := append_of_cutFunctionWord? hword
  have hshorter : before.length < front.length := by
    rw [← hfront, List.length_append]
    exact Nat.lt_add_of_pos_right (length_pos_of_cutFunctionWord? hword)
  have hcode : inCode (front ++ literal ++ back) before.length = true := by
    rwa [inCode_front hquote hliteral hclean hshorter]
  obtain ⟨body, rfl, -⟩ := hliteral
  refine cutFunctionHead?_eq_some_iff.mpr
    ⟨before, found ++ (quote :: body ++ [quote]) ++ back, middle, ?_, hcode, ?_, rfl⟩
  · rw [List.append_assoc, List.cons_append, List.cons_append,
      cutFunctionWord?_append_cons (isWord_of_isQuote hquote) (notMem_functionWord hquote), hword]
    simp
  · rw [List.append_assoc, List.cons_append, List.cons_append,
      cutParen?_append_cons (ne_of_isQuote hquote rfl), hparen]
    simp

/-! ## Where the head stands -/

/-- The parenthesis of the function head that is found is code. -/
def HeadInCode (line : List Char) : Prop :=
  ∀ cut ∈ cutFunctionHead? line, inCode line (cut.1.length - 1) = true

instance (line : List Char) : Decidable (HeadInCode line) :=
  inferInstanceAs (Decidable (∀ cut ∈ cutFunctionHead? line, _))

/-- Where a head goes on behind a literal: from the first parenthesis there if it has begun in
front of the literal, and from the first head there if not. -/
def headBehind? (front back : List Char) : Option (List Char × List Char) :=
  match cutFunctionWord? false front with
  | some _ => cutParen? back
  | none => searchHead? back

/-- A word of code stands in front of a literal or behind it. -/
theorem word_cases (hquote : isQuote quote = true) {front body back before found : List Char}
    (hclean : (WalkState.run {} front).Clean) (hbody : IsBody quote body)
    (hword : cutFunctionWord? false (front ++ (quote :: body ++ [quote]) ++ back) =
      some (before, found))
    (hcode : inCode (front ++ (quote :: body ++ [quote]) ++ back) before.length = true) :
    (∃ late, cutFunctionWord? false front = some (before, late) ∧
        found = late ++ (quote :: body ++ [quote]) ++ back) ∨
      (cutFunctionWord? false front = none ∧ ∃ early,
        cutFunctionWord? false back = some (early, found) ∧
          before = front ++ (quote :: body ++ [quote]) ++ early) := by
  have hline : front ++ (quote :: body ++ [quote]) ++ back =
      front ++ quote :: (body ++ quote :: back) := by simp
  rw [hline, cutFunctionWord?_append_cons (isWord_of_isQuote hquote) (notMem_functionWord hquote)]
    at hword
  cases hfront : cutFunctionWord? false front with
  | some cut =>
      rw [hfront, Option.map_some, Option.some_or] at hword
      obtain ⟨rfl, rfl⟩ := Prod.mk.inj (Option.some_inj.mp hword)
      exact .inl ⟨cut.2, rfl, by simp⟩
  | none =>
      rw [hfront, Option.map_none, Option.none_or,
        cutFunctionWord?_append_cons (isWord_of_isQuote hquote) (notMem_functionWord hquote)]
        at hword
      cases hinner : cutFunctionWord? false body with
      | some cut =>
          -- A word in the literal is not code.
          rw [hinner, Option.map_some, Option.some_or, Option.map_some] at hword
          obtain ⟨rfl, -⟩ := Prod.mk.inj (Option.some_inj.mp hword)
          have hshorter : cut.1.length < body.length := by
            rw [← append_of_cutFunctionWord? hinner, List.length_append]
            exact Nat.lt_add_of_pos_right (length_pos_of_cutFunctionWord? hinner)
          rw [inCode_body hquote hclean hbody hshorter] at hcode
          cases hcode
      | none =>
          rw [hinner, Option.map_none, Option.none_or, Option.map_map] at hword
          obtain ⟨cut, hback, heq⟩ := Option.map_eq_some_iff.mp hword
          obtain ⟨rfl, rfl⟩ := Prod.mk.inj heq
          exact .inr ⟨rfl, cut.1, hback, by simp⟩

/-- The first parenthesis stands in front of a literal, in it, or behind it. -/
theorem paren_cases (hquote : isQuote quote = true) {late body back middle inner : List Char}
    (hcut : cutParen? (late ++ (quote :: body ++ [quote]) ++ back) = some (middle, inner)) :
    (∃ rest, cutParen? late = some (middle, rest) ∧
        inner = rest ++ (quote :: body ++ [quote]) ++ back) ∨
      (∃ before, before.length < body.length ∧ middle = late ++ quote :: before ++ ['(']) ∨
      (cutParen? late = none ∧ ∃ between, cutParen? back = some (between, inner) ∧
        middle = late ++ (quote :: body ++ [quote]) ++ between) := by
  have hparen : quote ≠ '(' := ne_of_isQuote hquote rfl
  have htext : late ++ (quote :: body ++ [quote]) ++ back =
      late ++ quote :: (body ++ quote :: back) := by simp
  rw [htext, cutParen?_append_cons hparen, cutParen?_append_cons hparen] at hcut
  cases hlate : cutParen? late with
  | some cut =>
      rw [hlate, Option.map_some, Option.some_or] at hcut
      obtain ⟨rfl, rfl⟩ := Prod.mk.inj (Option.some_inj.mp hcut)
      exact .inl ⟨cut.2, rfl, by simp⟩
  | none =>
      rw [hlate, Option.map_none, Option.none_or] at hcut
      cases hinner : cutParen? body with
      | some cut =>
          obtain ⟨before, hbefore, hbody⟩ := exists_of_cutParen? hinner
          rw [hinner, Option.map_some, Option.some_or] at hcut
          obtain ⟨rfl, -⟩ := Prod.mk.inj (Option.some_inj.mp hcut)
          refine .inr (.inl ⟨before, ?_, by simp [hbefore]⟩)
          rw [← hbody, hbefore]
          simp
      | none =>
          rw [hinner, Option.map_none, Option.none_or, Option.map_map] at hcut
          obtain ⟨cut, hback, heq⟩ := Option.map_eq_some_iff.mp hcut
          obtain ⟨rfl, rfl⟩ := Prod.mk.inj heq
          exact .inr (.inr ⟨rfl, cut.1, hback, by simp⟩)

/-- A head with its parenthesis in code stands in front of a literal, or it ends behind the
literal. Where it ends is up to the texts around the literal. -/
theorem head_cases (hquote : isQuote quote = true) (hliteral : IsQuoted quote literal)
    {front back head inner : List Char} (hclean : (WalkState.run {} front).Clean)
    (hcode : HeadInCode (front ++ literal ++ back))
    (hcut : cutFunctionHead? (front ++ literal ++ back) = some (head, inner)) :
    (∃ rest, cutFunctionHead? front = some (head, rest)) ∨
      (cutFunctionHead? front = none ∧ ∃ between, headBehind? front back = some (between, inner) ∧
        head = front ++ literal ++ between) := by
  have hends := hcode _ hcut
  have hliteral' := hliteral
  obtain ⟨body, rfl, hbody⟩ := hliteral
  obtain ⟨before, found, middle, hword, hstarts, hparen, rfl⟩ :=
    cutFunctionHead?_eq_some_iff.mp hcut
  rcases word_cases hquote hclean hbody hword hstarts with
    ⟨late, hfront, rfl⟩ | ⟨hfront, early, hback, rfl⟩
  · have hsplit : before ++ late = front := append_of_cutFunctionWord? hfront
    rcases paren_cases hquote hparen with
      ⟨rest, hlate, -⟩ | ⟨inside, hshorter, rfl⟩ | ⟨hnone, between, hback, rfl⟩
    · left
      have hshorter : before.length < front.length := by
        rw [← hsplit, List.length_append]
        exact Nat.lt_add_of_pos_right (length_pos_of_cutFunctionWord? hfront)
      rw [inCode_front hquote hliteral' hclean hshorter] at hstarts
      exact ⟨rest, cutFunctionHead?_eq_some_iff.mpr
        ⟨before, late, middle, hfront, hstarts, hlate, rfl⟩⟩
    · -- A parenthesis in the literal is not code.
      have hhead : before ++ (late ++ quote :: inside ++ ['(']) =
          front ++ quote :: inside ++ ['('] := by simp [← hsplit]
      rw [hhead, List.length_append, List.length_singleton, Nat.add_sub_cancel,
        inCode_body hquote hclean hbody hshorter] at hends
      cases hends
    · right
      refine ⟨?_, between, by simp [headBehind?, hfront, hback], by simp [← hsplit]⟩
      rw [Option.eq_none_iff_forall_ne_some]
      rintro ⟨head, rest⟩ hcut
      obtain ⟨_, _, _, hfront', -, hlate, -⟩ := cutFunctionHead?_eq_some_iff.mp hcut
      rw [hfront, Option.some_inj] at hfront'
      obtain ⟨rfl, rfl⟩ := Prod.mk.inj hfront'
      rw [hnone] at hlate
      cases hlate
  · right
    refine ⟨?_, early ++ middle, by simp [headBehind?, hfront, searchHead?, hback, hparen],
      by simp⟩
    rw [Option.eq_none_iff_forall_ne_some]
    rintro ⟨head, rest⟩ hcut
    obtain ⟨_, _, _, hfront', -⟩ := cutFunctionHead?_eq_some_iff.mp hcut
    rw [hfront] at hfront'
    cases hfront'

/-! ## The pass over function heads -/

section Line

variable {front back : List Char} (hpair : QuotedPair quote literal literal')
  (hclean : (WalkState.run {} front).Clean)

include hpair hclean

/-- Behind a head in front of the literal, the parameters and what follows them differ in the
literal. -/
theorem differ_inner {head rest : List Char} (hcode : HeadInCode (front ++ literal ++ back))
    (hfront : cutFunctionHead? front = some (head, rest)) :
    ∃ before, head = before ++ ['('] ∧ (WalkState.run {} before).Clean ∧
      DifferFrom {} literal literal' (rest ++ literal ++ back) (rest ++ literal' ++ back) := by
  have hcut := cutFunctionHead?_front hpair.isQuote hpair.first hclean hfront back
  obtain ⟨before, rfl, hline⟩ := exists_of_cutFunctionHead? hcut
  have hends := hcode _ hcut
  rw [← hline, List.append_assoc, List.singleton_append, List.length_append,
    List.length_singleton, Nat.add_sub_cancel] at hends
  have hbefore : (WalkState.run {} before).Clean := clean_of_inCode rfl hends
  obtain ⟨-, -, hsplit⟩ := exists_of_cutFunctionHead? hfront
  rw [← hsplit, List.append_assoc, List.singleton_append, run_append_mark hbefore rfl] at hclean
  have hparen : SameReading (behind '(') {} := sameReading_behind rfl
  exact ⟨before, rfl, hbefore, rest, back, rfl, rfl, hparen.clean_run hclean⟩

/-- A head in front of the literal has its annotations whatever the literal is. -/
theorem HasTypedHead.of_front {head rest : List Char}
    (hcode : HeadInCode (front ++ literal ++ back))
    (hfront : cutFunctionHead? front = some (head, rest))
    (htyped : HasTypedHead (front ++ literal ++ back)) :
    HasTypedHead (front ++ literal' ++ back) := by
  obtain ⟨_, parameters, after, ⟨inner, hcut, hclose⟩, htyped⟩ := htyped
  rw [cutFunctionHead?_front hpair.isQuote hpair.first hclean hfront, Option.some_inj] at hcut
  obtain ⟨rfl, rfl⟩ := Prod.mk.inj hcut
  have hcut' := cutFunctionHead?_front hpair.isQuote hpair.second hclean hfront back
  obtain ⟨-, -, -, hinner⟩ := differ_inner hpair hclean hcode hfront
  have hcuts := cutTopLevel?_differ hpair (@stopsAtMarks_eq ')' rfl) hinner
  rw [hclose] at hcuts
  generalize hclose' : cutTopLevel? (·.char == ')') (rest ++ literal' ++ back) = cut' at hcuts
  cases hcuts with
  | inFront _ _ hafter =>
      exact ⟨head, parameters, _, ⟨_, hcut', hclose'⟩,
        htyped.imp_right (·.differ hpair (clean_behind ')') hafter)⟩
  | behind hparameters =>
      exact ⟨head, _, after, ⟨_, hcut', hclose'⟩,
        htyped.imp_left (exists_isTypedParameter_iff hpair hparameters).mpr⟩

/-- Two lines with an annotated head each keep the same around the literal. -/
theorem agree_plainHead_of_typed (hcode : HeadInCode (front ++ literal ++ back))
    (hcode' : HeadInCode (front ++ literal' ++ back))
    (htyped : HasTypedHead (front ++ literal ++ back))
    (htyped' : HasTypedHead (front ++ literal' ++ back)) :
    AgreeFrom {} literal literal' (plainHead (front ++ literal ++ back))
      (plainHead (front ++ literal' ++ back)) := by
  obtain ⟨head, parameters, rest, hhead, -⟩ := htyped
  obtain ⟨head', parameters', rest', hhead', -⟩ := htyped'
  rw [hhead.plainHead_eq, hhead'.plainHead_eq]
  obtain ⟨inner, hcut, hclose⟩ := hhead
  obtain ⟨inner', hcut', hclose'⟩ := hhead'
  rcases head_cases hpair.isQuote hpair.first hclean hcode hcut with
    ⟨later, hfront⟩ | ⟨hnone, between, hbehind, rfl⟩
  · -- The head stands in front of the literal.
    rw [cutFunctionHead?_front hpair.isQuote hpair.first hclean hfront, Option.some_inj] at hcut
    rw [cutFunctionHead?_front hpair.isQuote hpair.second hclean hfront, Option.some_inj] at hcut'
    obtain ⟨-, rfl⟩ := Prod.mk.inj hcut
    obtain ⟨rfl, rfl⟩ := Prod.mk.inj hcut'
    obtain ⟨before, rfl, hbefore, hinner⟩ := differ_inner hpair hclean hcode hfront
    have hparen : SameReading (behind '(') {} := sameReading_behind rfl
    have hagree := agree_parameters_result hpair hinner hclose hclose'
    simpa using AgreeFrom.prepend hbefore rfl (hagree.congr hparen.symm)
  · rcases head_cases hpair.isQuote hpair.second hclean hcode' hcut' with
      ⟨later, hfront⟩ | ⟨-, between', hbehind', rfl⟩
    · rw [hnone] at hfront
      cases hfront
    · -- It ends behind the literal.
      rw [hbehind, Option.some_inj] at hbehind'
      obtain ⟨rfl, rfl⟩ := Prod.mk.inj hbehind'
      rw [hclose, Option.some_inj] at hclose'
      obtain ⟨rfl, hrest⟩ := Prod.mk.inj hclose'
      obtain rfl := (List.cons.inj hrest).2
      exact .inr ⟨front, between ++ ([','].intercalate ((topLevelParts ',' parameters).map
        plainParameter) ++ ')' :: plainResult rest), by simp, by simp, hclean⟩

/-- If the pass keeps two lines the same but for the literal, and one of them has an annotated
head, then so has the other: what the pass takes out of a line has a colon in it. -/
theorem HasTypedHead.of_sameAround (hcode : HeadInCode (front ++ literal ++ back))
    (hsame : SameAround literal literal' (plainHead (front ++ literal ++ back))
      (plainHead (front ++ literal' ++ back)))
    (htyped : HasTypedHead (front ++ literal ++ back)) :
    HasTypedHead (front ++ literal' ++ back) := by
  by_contra huntyped
  have hshrinks := ((reduces_plainHead (front ++ literal ++ back)).count_lt
    fun heq => plainHead_eq_iff.mp heq htyped)
  rw [plainHead_of_not huntyped] at hsame
  rcases hsame with heq | ⟨left, right, hleft, hright⟩
  · obtain ⟨head, parameters, rest, hhead, -⟩ := id htyped
    rw [hhead.plainHead_eq] at heq
    obtain ⟨inner, hcut, -⟩ := hhead
    rcases head_cases hpair.isQuote hpair.first hclean hcode hcut with
      ⟨later, hfront⟩ | ⟨-, between, -, rfl⟩
    · exact huntyped (htyped.of_front hpair hclean hcode hfront)
    · simp only [List.append_assoc, List.append_cancel_left_eq] at heq
      rw [hpair.second.eq_of_append hpair.first heq] at huntyped
      exact huntyped htyped
  · have hcount := congrArg (List.count ':') hright
    rw [hleft] at hshrinks
    simp only [List.count_append] at hshrinks hcount
    omega

variable (hcode : HasTypedHead (front ++ literal ++ back) →
    HeadInCode (front ++ literal ++ back))
  (hcode' : HasTypedHead (front ++ literal' ++ back) → HeadInCode (front ++ literal' ++ back))

include hcode hcode'

/-- If both lines have an annotated head, or neither has one, the pass keeps the same around
the literal. -/
theorem agree_plainHead (htyped : HasTypedHead (front ++ literal' ++ back) ↔
      HasTypedHead (front ++ literal ++ back)) :
    AgreeFrom {} literal literal' (plainHead (front ++ literal ++ back))
      (plainHead (front ++ literal' ++ back)) := by
  by_cases hfirst : HasTypedHead (front ++ literal ++ back)
  · have hsecond := htyped.mpr hfirst
    exact agree_plainHead_of_typed hpair hclean (hcode hfirst) (hcode' hsecond) hfirst hsecond
  · have hsecond := fun htyped' => hfirst (htyped.mp htyped')
    rw [plainHead_of_not hfirst, plainHead_of_not hsecond]
    exact .inr ⟨front, back, rfl, rfl, hclean⟩

/-- The pass keeps the same around the literal exactly if the literal does not decide whether
the line has an annotated head. -/
theorem sameAround_plainHead_iff :
    SameAround literal literal' (plainHead (front ++ literal ++ back))
        (plainHead (front ++ literal' ++ back)) ↔
      (HasTypedHead (front ++ literal' ++ back) ↔ HasTypedHead (front ++ literal ++ back)) := by
  constructor
  · intro hsame
    constructor
    · intro htyped'
      exact htyped'.of_sameAround hpair.symm hclean (hcode' htyped') hsame.symm
    · intro htyped
      exact htyped.of_sameAround hpair hclean (hcode htyped) hsame
  · intro htyped
    exact (agree_plainHead hpair hclean hcode hcode' htyped).sameAround

end Line

end Annotation

end Offside
