/-
# The patterns of annotated code

A function head is the word `function` up to the next opening parenthesis; it is searched
for, and the foremost one counts. An annotated declaration begins a line.

In both patterns every greedy run ends where the next part cannot begin within it, so the
readers take whatever they can and never give any of it back. Where one of several words
may stand, their first letters differ.
-/

import Offside.Proofs.Compile.LiteralHead
import Offside.Proofs.Statement.Segments
import Offside.Proofs.Text.Pattern

namespace Offside

namespace Annotation

open Text (Pattern Spot isBlank)
open Assignment (isNameStart isNamePart)

variable {α : Type} {next : Spot → Option α} {passed ahead : List Char}
  {captured : List (Nat × List Char)}

/-! ## Words and names -/

theorem followed?_cutBlanks? (hnext : Pattern.RulesOut isBlank captured next) :
    (Pattern.oneOrMore isBlank).followed? next ⟨passed, ahead, captured⟩ =
      (cutBlanks? ahead).bind fun cut => next ⟨cut.1.reverse ++ passed, cut.2, captured⟩ := by
  rw [Pattern.followed?_oneOrMore_of_rulesOut hnext, cutBlanks?]
  split <;> rfl

theorem followed?_cutWord? {word : List Char} (hnext : Pattern.RulesOut isBlank captured next) :
    (Pattern.word word).followed? ((Pattern.oneOrMore isBlank).followed? next)
        ⟨passed, ahead, captured⟩ =
      (cutWord? word ahead).bind fun cut => next ⟨cut.1.reverse ++ passed, cut.2, captured⟩ := by
  simp only [Pattern.followed?_word, followed?_cutBlanks? hnext, cutWord?, Option.bind_eq_bind,
    Option.bind_assoc, Option.bind_some, List.reverse_append, List.append_assoc]

/-- A name. -/
def namePattern : Pattern := .both (.one isNameStart) (.many isNamePart)

theorem followed?_namePattern (hnext : Pattern.RulesOut isNamePart captured next) :
    namePattern.followed? next ⟨passed, ahead, captured⟩ =
      (cutIdentifier? ahead).bind fun cut =>
        next ⟨cut.1.reverse ++ passed, cut.2, captured⟩ := by
  rw [namePattern, Pattern.followed?_both]
  cases ahead with
  | nil => rfl
  | cons c ahead =>
      rw [Pattern.followed?_one_cons, Pattern.followed?_many_of_rulesOut hnext, cutIdentifier?]
      split <;> simp

/-- An identifier is a text that is nothing but a name. -/
theorem isIdentifier_eq_first? (text : List Char) :
    Assignment.isIdentifier text = ((Pattern.both namePattern .finish).first? text).isSome := by
  rw [Pattern.first?_eq_followed?, Pattern.followed?_both,
    followed?_namePattern Pattern.rulesOut_finish]
  cases text with
  | nil => rfl
  | cons c rest =>
      rw [Assignment.isIdentifier, cutIdentifier?]
      cases hstart : isNameStart c with
      | false => rfl
      | true =>
          rw [if_pos rfl, Option.bind_some, Pattern.followed?_finish, Bool.true_and,
            Bool.eq_iff_iff, List.all_eq_true, ← List.dropWhile_eq_nil_iff, ← List.isEmpty_iff]
          split <;> simp [*]

/-! ## Function heads -/

/-- The word `function`, and what follows up to the next opening parenthesis. -/
def headPattern : Pattern :=
  .seq [.edge, .word Keyword.functionWord, .edge, .many (· ≠ '('), .one (· == '(')]

theorem followed?_cutParen? :
    (Pattern.many (· ≠ '(')).followed? ((Pattern.one (· == '(')).followed? next)
        ⟨passed, ahead, captured⟩ =
      (cutParen? ahead).bind fun cut => next ⟨cut.1.reverse ++ passed, cut.2, captured⟩ := by
  rw [Pattern.followed?_many_of_rulesOut (Pattern.rulesOut_one (by simp)), cutParen?]
  cases hdrop : ahead.dropWhile (· ≠ '(') with
  | nil => rfl
  | cons paren inner =>
      obtain ⟨rfl, -⟩ := eq_of_dropWhile_ne hdrop
      simp

/-- A head begins where the reader finds the word, and ends behind the parenthesis. -/
theorem followed?_headPattern :
    headPattern.followed? next ⟨passed, ahead, captured⟩ =
      if startsFunction ((passed.head?.map Text.isWord).getD false) ahead then
        (cutParen? ahead).bind fun cut => next ⟨cut.1.reverse ++ passed, cut.2, captured⟩
      else none := by
  simp only [headPattern, Pattern.seq, Pattern.followed?_both, Pattern.followed?_nothing]
  rw [Pattern.followed?_edge, Pattern.followed?_word, startsFunction]
  cases hlead : Text.dropLead? Keyword.functionWord ahead with
  | none => simp
  | some behind =>
      obtain rfl := Text.dropLead?_eq_some_iff.mp hlead
      have hstart : Spot.isEdge ⟨passed, Keyword.functionWord ++ behind, captured⟩ =
          !(passed.head?.map Text.isWord).getD false := by
        simp [Spot.isEdge, Keyword.functionWord, show Text.isWord 'f' = true from rfl]
      have hstop : Spot.isEdge ⟨Keyword.functionWord.reverse ++ passed, behind, captured⟩ =
          Text.startsOffWord behind := Spot.isEdge_cons rfl
      have hparen : cutParen? (Keyword.functionWord ++ behind) =
          (cutParen? behind).map fun cut => (Keyword.functionWord ++ cut.1, cut.2) := by
        simp [Keyword.functionWord, cutParen?_cons_of_ne, Function.comp_def]
      rw [hstart, Option.bind_some, Pattern.followed?_edge, hstop, followed?_cutParen?, hparen,
        Option.bind_map]
      cases (passed.head?.map Text.isWord).getD false <;>
        cases hoff : Text.startsOffWord behind <;> cases cutParen? behind <;> simp [hoff]

/-- The pattern is found where the reader finds the word, if a parenthesis follows. -/
theorem find?_go_headPattern (passed text : List Char) :
    Pattern.find?.go headPattern passed text =
      (cutFunctionWord? ((passed.head?.map Text.isWord).getD false) text).bind fun cut =>
        (cutParen? cut.2).map fun cut' =>
          (⟨cut.1.reverse ++ passed, cut.2, []⟩,
            ⟨cut'.1.reverse ++ (cut.1.reverse ++ passed), cut'.2, []⟩) := by
  induction text generalizing passed with
  | nil => simp [Pattern.find?.go, Pattern.head?_spots, followed?_headPattern, startsFunction,
      Keyword.functionWord, Text.dropLead?, cutFunctionWord?]
  | cons c text ih =>
      rw [Pattern.find?.go, Pattern.head?_spots, followed?_headPattern, cutFunctionWord?_cons]
      cases hstarts : startsFunction ((passed.head?.map Text.isWord).getD false) (c :: text) with
      | false =>
          rw [if_neg Bool.false_ne_true, if_neg Bool.false_ne_true, Option.bind_map]
          simpa [Function.comp_def] using ih (c :: passed)
      | true =>
          rw [if_pos rfl, if_pos rfl, Option.bind_some]
          cases hparen : cutParen? (c :: text) with
          | some cut => simp
          | none =>
              -- Without a parenthesis behind this word there is none behind a later one.
              have hnone : ∀ cut, cutFunctionWord? (Text.isWord c) text = some cut →
                  cutParen? cut.2 = none := by
                rintro ⟨before, found⟩ hcut
                rw [cutParen?_eq_none_iff] at hparen ⊢
                intro hmem
                apply hparen
                rw [← append_of_cutFunctionWord? hcut]
                exact List.mem_cons_of_mem c (List.mem_append_right before hmem)
              simp only [Option.bind_none, Option.map_none]
              rw [ih, Option.bind_eq_none_iff]
              intro cut hcut
              rw [hnone cut hcut, Option.map_none]

/-- A function head is the foremost place where the pattern of function heads fits, if that
is code. -/
theorem cutFunctionHead?_eq_find? (line : List Char) :
    cutFunctionHead? line = (headPattern.find? line).bind fun found =>
      if inCode line found.1.passed.length then some (found.2.passed.reverse, found.2.ahead)
      else none := by
  rw [Pattern.find?, find?_go_headPattern, cutFunctionHead?_eq_bind, Option.bind_assoc]
  congr 1
  funext ⟨before, found⟩
  cases hcode : inCode line before.length <;> cases cutParen? found <;> simp [hcode]

/-! ## Declarations -/

/-- A word that begins a declaration. -/
def declaringPattern : Pattern :=
  .either (.word ['l', 'e', 't'])
    (.either (.word ['v', 'a', 'r']) (.word ['c', 'o', 'n', 's', 't']))

/-- A declaration up to the declared name. -/
def declaredPattern : Pattern :=
  .seq [.many isBlank, .optional (.both (.word ['e', 'x', 'p', 'o', 'r', 't']) (.oneOrMore isBlank)),
    declaringPattern, .oneOrMore isBlank, namePattern]

/-- What stands between a declared name and its annotation. -/
def colonPattern : Pattern :=
  .seq [.many isBlank, .optional (.word ['?']), .many isBlank, .word [':']]

/-- A declaration up to the colon of its annotation; the text up to the declared name is
captured. -/
def declarationPattern : Pattern := .both (.capture 1 declaredPattern) colonPattern

/-- What a match of a declaration cuts: the text up to the name, and the text behind the
colon. -/
def cutAt (found : Spot) : List Char × List Char := (found.text 1, found.ahead)

section Colon

/-- What follows the colon behind a declared name. -/
def afterColon? (text : List Char) : Option (List Char) :=
  let rest := Text.trimStart text
  Text.dropLead? [':'] (Text.trimStart ((Text.dropLead? ['?'] rest).getD rest))

variable {written : List Char}

theorem followed?_blankColon :
    (Pattern.many isBlank).followed? ((Pattern.word [':']).followed? fun found =>
        some (cutAt found)) ⟨passed, ahead, [(1, written)]⟩ =
      (Text.dropLead? [':'] (Text.trimStart ahead)).map fun annotation => (written, annotation) := by
  rw [Pattern.followed?_many_of_rulesOut (Pattern.rulesOut_word rfl), Pattern.followed?_word,
    Option.map_eq_bind]
  rfl

/-- A question mark that may come first is taken if it does. -/
theorem followed?_markColon :
    (Pattern.optional (.word ['?'])).followed? ((Pattern.many isBlank).followed?
        ((Pattern.word [':']).followed? fun found => some (cutAt found)))
      ⟨passed, ahead, [(1, written)]⟩ =
      (Text.dropLead? [':'] (Text.trimStart ((Text.dropLead? ['?'] ahead).getD ahead))).map
        fun annotation => (written, annotation) := by
  rw [Pattern.optional, Pattern.followed?_either, Pattern.followed?_nothing,
    Pattern.followed?_word, followed?_blankColon]
  cases hmark : Text.dropLead? ['?'] ahead with
  | none => rfl
  | some rest =>
      obtain rfl := Text.dropLead?_eq_some_iff.mp hmark
      have hcolon : Text.dropLead? [':'] (Text.trimStart (['?'] ++ rest)) = none := rfl
      rw [Option.bind_some, followed?_blankColon, hcolon, Option.map_none, Option.or_none]
      rfl

theorem followed?_colonPattern :
    colonPattern.followed? (fun found => some (cutAt found)) ⟨passed, ahead, [(1, written)]⟩ =
      (afterColon? ahead).map fun annotation => (written, annotation) := by
  simp only [colonPattern, Pattern.seq, Pattern.followed?_both, Pattern.followed?_nothing]
  rw [Pattern.followed?_many_of_step, followed?_markColon]
  · rfl
  · -- The second run takes up the blanks that the first gives back, so they help only if a
    -- question mark follows, and then the colon is missing.
    rintro passed c after - hc hnone
    rw [followed?_markColon, Option.map_eq_none_iff] at hnone ⊢
    have hmark : '?' ≠ c := by
      rintro rfl
      cases hc
    rw [Text.dropLead?, if_neg hmark, Option.getD_none, Text.trimStart_cons_of_isBlank hc]
    cases hlead : Text.dropLead? ['?'] after with
    | none =>
        rwa [hlead] at hnone
    | some rest =>
        rw [Text.dropLead?_eq_some_iff.mp hlead]
        rfl

theorem rulesOut_colonPattern {accepts : Char → Bool} (hblank : ∀ c, accepts c = true →
      isBlank c = false) (hmark : accepts '?' = false) (hcolon : accepts ':' = false)
    {next : Spot → Option α} :
    Pattern.RulesOut accepts captured (colonPattern.followed? next) := by
  simp only [colonPattern, Pattern.seq, Pattern.followed?_both, Pattern.followed?_nothing]
  apply Pattern.RulesOut.many hblank
  apply Pattern.RulesOut.optional (Pattern.rulesOut_word hmark)
  exact (Pattern.rulesOut_word hcolon).many hblank

end Colon

section Declared

variable {word : List Char} {c : Char}

theorem cutWord?_of_head?_ne (hne : ahead.head? ≠ some c) : cutWord? (c :: word) ahead = none := by
  rw [cutWord?, Text.dropLead?_of_head?_ne hne]
  rfl

theorem head?_of_cutWord? {cut : List Char × List Char}
    (hcut : cutWord? (c :: word) ahead = some cut) : ahead.head? = some c := by
  by_contra hne
  rw [cutWord?_of_head?_ne hne] at hcut
  cases hcut

/-- The word that begins a declaration, with the blanks behind it. -/
def cutDeclaring? (text : List Char) : Option (List Char × List Char) :=
  (cutWord? ['l', 'e', 't'] text).or
    ((cutWord? ['v', 'a', 'r'] text).or (cutWord? ['c', 'o', 'n', 's', 't'] text))

/-- No two of the words begin with the same letter, so at most one of them is there. -/
theorem bind_cutDeclaring? {found : List Char × List Char → Option α} :
    (cutDeclaring? ahead).bind found =
      ((cutWord? ['l', 'e', 't'] ahead).bind found).or
        (((cutWord? ['v', 'a', 'r'] ahead).bind found).or
          ((cutWord? ['c', 'o', 'n', 's', 't'] ahead).bind found)) := by
  rw [cutDeclaring?]
  cases hlet : cutWord? ['l', 'e', 't'] ahead with
  | some cut =>
      have hhead := head?_of_cutWord? hlet
      rw [cutWord?_of_head?_ne (c := 'v') (by simp [hhead]),
        cutWord?_of_head?_ne (c := 'c') (by simp [hhead])]
      simp
  | none =>
      cases hvar : cutWord? ['v', 'a', 'r'] ahead with
      | some cut =>
          rw [cutWord?_of_head?_ne (c := 'c') (by simp [head?_of_cutWord? hvar])]
          simp
      | none => simp

theorem rulesOut_namePattern : Pattern.RulesOut isBlank captured (namePattern.followed? next) := by
  rw [namePattern, Pattern.followed?_both]
  apply Pattern.rulesOut_one
  intro c hc
  by_contra hstart
  have hpart : isNamePart c = true := by
    rw [isNamePart, Bool.not_eq_false _ |>.mp hstart, Bool.true_or]
  rw [Assignment.isBlank_of_isNamePart hpart] at hc
  cases hc

theorem followed?_declaringPattern (hnext : Pattern.RulesOut isNamePart captured next) :
    declaringPattern.followed? ((Pattern.oneOrMore isBlank).followed? (namePattern.followed? next))
        ⟨passed, ahead, captured⟩ =
      (cutDeclaring? ahead).bind fun cut => (cutIdentifier? cut.2).bind fun cut' =>
        next ⟨cut'.1.reverse ++ (cut.1.reverse ++ passed), cut'.2, captured⟩ := by
  simp only [declaringPattern, Pattern.followed?_either, followed?_cutWord? rulesOut_namePattern,
    followed?_namePattern hnext, bind_cutDeclaring?]

theorem rulesOut_declaringPattern {accepts : Char → Bool} (hlet : accepts 'l' = false)
    (hvar : accepts 'v' = false) (hconst : accepts 'c' = false) :
    Pattern.RulesOut accepts captured (declaringPattern.followed? next) :=
  (Pattern.rulesOut_word hlet).either ((Pattern.rulesOut_word hvar).either
    (Pattern.rulesOut_word hconst))

/-- Nothing, or the word `export` with the blanks behind it. -/
def cutExported (text : List Char) : List Char × List Char :=
  (cutWord? ['e', 'x', 'p', 'o', 'r', 't'] text).getD ([], text)

/-- No declaration begins like `export`, so that word is taken if it is there. -/
theorem followed?_exported :
    (Pattern.optional (.both (.word ['e', 'x', 'p', 'o', 'r', 't']) (.oneOrMore isBlank))).followed?
        (declaringPattern.followed? next) ⟨passed, ahead, captured⟩ =
      declaringPattern.followed? next
        ⟨(cutExported ahead).1.reverse ++ passed, (cutExported ahead).2, captured⟩ := by
  rw [Pattern.optional, Pattern.followed?_either, Pattern.followed?_nothing, Pattern.followed?_both,
    followed?_cutWord? (rulesOut_declaringPattern rfl rfl rfl), cutExported]
  cases hexport : cutWord? ['e', 'x', 'p', 'o', 'r', 't'] ahead with
  | none => rfl
  | some cut =>
      obtain ⟨rest, rfl⟩ := List.head?_eq_some_iff.mp (head?_of_cutWord? hexport)
      have hrules : Pattern.RulesOut (· == 'e') captured (declaringPattern.followed? next) :=
        rulesOut_declaringPattern rfl rfl rfl
      rw [hrules passed 'e' rest rfl, Option.or_none]
      rfl

theorem followed?_declaredPattern (hnext : Pattern.RulesOut isNamePart captured next) :
    declaredPattern.followed? next ⟨passed, ahead, captured⟩ =
      let exported := cutExported (Text.trimStart ahead)
      (cutDeclaring? exported.2).bind fun cut => (cutIdentifier? cut.2).bind fun cut' =>
        next ⟨(ahead.takeWhile isBlank ++ exported.1 ++ cut.1 ++ cut'.1).reverse ++ passed, cut'.2,
          captured⟩ := by
  have hdeclaring : Pattern.RulesOut isBlank captured (declaringPattern.followed?
      ((Pattern.oneOrMore isBlank).followed? (namePattern.followed? next))) :=
    rulesOut_declaringPattern rfl rfl rfl
  simp only [declaredPattern, Pattern.seq, Pattern.followed?_both, Pattern.followed?_nothing]
  rw [Pattern.followed?_many_of_rulesOut, followed?_exported, followed?_declaringPattern hnext]
  · simp only [List.reverse_append, List.append_assoc]
    rfl
  · refine Pattern.RulesOut.optional ?_ hdeclaring
    rw [Pattern.followed?_both]
    exact Pattern.rulesOut_word rfl

end Declared

theorem cutTypedDeclaration?_eq_bind (line : List Char) :
    cutTypedDeclaration? line =
      let exported := cutExported (Text.trimStart line)
      (cutDeclaring? exported.2).bind fun cut => (cutIdentifier? cut.2).bind fun cut' =>
        (afterColon? cut'.2).map fun annotation =>
          (line.takeWhile isBlank ++ exported.1 ++ cut.1 ++ cut'.1, annotation) := by
  simp only [cutTypedDeclaration?, Option.bind_eq_bind, Option.map_eq_bind]
  rfl

/-- An annotated declaration is cut as the pattern matches it. -/
theorem cutTypedDeclaration?_eq_first? (line : List Char) :
    cutTypedDeclaration? line = (declarationPattern.first? line).map cutAt := by
  rw [Pattern.first?_eq_followed?, Pattern.map_followed?, cutTypedDeclaration?_eq_bind,
    declarationPattern, Pattern.followed?_both, Pattern.followed?_capture]
  simp only [Option.map_some]
  rw [followed?_declaredPattern]
  · simp only [Spot.upTo_nil, List.append_nil, List.reverse_reverse, followed?_colonPattern]
  · exact fun passed c after hc => rulesOut_colonPattern
      (fun _ => Assignment.isBlank_of_isNamePart) rfl rfl passed c after hc

end Annotation

end Offside
