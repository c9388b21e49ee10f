/-
# The patterns of imports in code

An import fills its line in one of three ways, which are tried one after another: names in
braces, the whole module under one name, or nothing but the module. Each is a pattern that
captures the indentation, what is imported, and the literal of the module.

No greedy run of these patterns gives a character back: the names end at the next closing
brace, a literal at the next quote of its kind, and blanks in front of something that is no
blank. So the reader has nothing to try but the three forms, and their first characters tell
which one it is.
-/

import Offside.Proofs.Compile.AnnotationPattern
import Offside.Proofs.Compile.Require

namespace Offside

namespace Require

open Text (Pattern Spot isBlank)
open Annotation (namePattern)

/-- A literal in a kind of quotes, which has no quote of that kind inside. -/
def quotedPattern (quote : Char) : Pattern :=
  .seq [.word [quote], .many (· ≠ quote), .word [quote]]

/-- The literal of a module, which is captured, up to the end of the line. -/
def modulePattern (number : Nat) : Pattern :=
  .seq [.many isBlank, .capture number (.either (quotedPattern '"') (quotedPattern '\'')),
    .closing ';']

/-- The indentation of a line, which is captured, and the word `import`. -/
def importPattern : Pattern :=
  .seq [.capture 1 (.many isBlank), .word ['i', 'm', 'p', 'o', 'r', 't']]

/-- Names in braces, and their module. -/
def namesPattern : Pattern :=
  .seq [.many isBlank, .word ['\x7b'], .capture 2 (.many (· ≠ '\x7d')), .word ['\x7d'],
    .many isBlank, .word ['f', 'r', 'o', 'm'], modulePattern 3]

/-- The name of a whole module, and the module. -/
def wholePattern : Pattern :=
  .seq [.many isBlank, .word ['*'], .many isBlank, .word ['a', 's'], .oneOrMore isBlank,
    .capture 2 namePattern, .oneOrMore isBlank, .word ['f', 'r', 'o', 'm'], modulePattern 3]

/-- The forms of an import, in the order in which they are tried: the pattern of what stands
behind `import`, and what it captures. -/
def forms : List (Pattern × (Spot → Form × List Char)) :=
  [(namesPattern, fun found => (.named (found.text 2), found.text 3)),
    (wholePattern, fun found => (.whole (found.text 2), found.text 3)),
    (modulePattern 2, fun found => (.bare, found.text 2))]

variable {α : Type} {next : Spot → Option α} {passed ahead line : List Char}
  {captured : List (Nat × List Char)} {number : Nat}

/-! ## The literal of a module -/

theorem cutLiteral?_of_head?_ne (hdouble : ahead.head? ≠ some '"')
    (hsingle : ahead.head? ≠ some '\'') : cutLiteral? ahead = none := by
  cases ahead with
  | nil => rfl
  | cons c ahead =>
      have hnone : (c = '"' || c = '\'') = false := by simpa using And.intro hdouble hsingle
      rw [cutLiteral?, hnone]
      rfl

theorem followed?_quotedPattern {quote : Char} (hquote : (quote = '"' || quote = '\'') = true) :
    (quotedPattern quote).followed? next ⟨passed, ahead, captured⟩ =
      if ahead.head? = some quote then
        (cutLiteral? ahead).bind fun cut => next ⟨cut.1.reverse ++ passed, cut.2, captured⟩
      else none := by
  simp only [quotedPattern, Pattern.seq, Pattern.followed?_both, Pattern.followed?_nothing]
  rw [Pattern.followed?_word]
  cases ahead with
  | nil => rfl
  | cons c ahead =>
      by_cases hc : quote = c
      · subst hc
        rw [Text.dropLead?, if_pos rfl, Text.dropLead?, Option.bind_some, List.head?_cons,
          if_pos rfl, cutLiteral?, if_pos hquote,
          Pattern.followed?_many_of_rulesOut (Pattern.rulesOut_word (by simp)),
          Pattern.followed?_word]
        cases hdrop : ahead.dropWhile (· ≠ quote) with
        | nil => rfl
        | cons close behind =>
            obtain ⟨rfl, -⟩ := eq_of_dropWhile_ne hdrop
            simp [Text.dropLead?]
      · simp [Text.dropLead?, hc, Ne.symm hc]

/-- The quote at the front of a literal tells which one ends it. -/
theorem followed?_cutLiteral? :
    (Pattern.either (quotedPattern '"') (quotedPattern '\'')).followed? next
        ⟨passed, ahead, captured⟩ =
      (cutLiteral? ahead).bind fun cut => next ⟨cut.1.reverse ++ passed, cut.2, captured⟩ := by
  rw [Pattern.followed?_either, followed?_quotedPattern rfl,
    followed?_quotedPattern rfl]
  by_cases hdouble : ahead.head? = some '"'
  · rw [if_pos hdouble, if_neg (by simp [hdouble]), Option.or_none]
  · rw [if_neg hdouble, Option.none_or]
    split
    · rfl
    · rename_i hsingle
      rw [cutLiteral?_of_head?_ne hdouble hsingle, Option.bind_none]

theorem rulesOut_quotedPatterns {accepts : Char → Bool} (hdouble : accepts '"' = false)
    (hsingle : accepts '\'' = false) : Pattern.RulesOut accepts captured
      ((Pattern.either (quotedPattern '"') (quotedPattern '\'')).followed? next) := by
  apply Pattern.RulesOut.either
  · rw [quotedPattern, Pattern.seq, Pattern.followed?_both]
    exact Pattern.rulesOut_word hdouble
  · rw [quotedPattern, Pattern.seq, Pattern.followed?_both]
    exact Pattern.rulesOut_word hsingle

/-- Behind the literal of a module nothing is left to choose. -/
theorem followed?_modulePattern :
    (modulePattern number).followed? next ⟨passed, ahead, captured⟩ =
      (moduleLiteral? ahead).bind fun literal =>
        next ⟨ahead.reverse ++ passed, [], (number, literal) :: captured⟩ := by
  have hblank := Text.takeWhile_append_trimStart ahead
  simp only [modulePattern, Pattern.seq, Pattern.followed?_both, Pattern.followed?_nothing]
  rw [Pattern.followed?_many_of_rulesOut
    (Pattern.RulesOut.capture fun _ => rulesOut_quotedPatterns rfl rfl),
    Pattern.followed?_capture, followed?_cutLiteral?]
  change (cutLiteral? (Text.trimStart ahead)).bind _ = _
  simp only [moduleLiteral?, Option.bind_eq_bind, Option.bind_assoc]
  apply Option.bind_congr
  rintro ⟨literal, rest⟩ hcut
  dsimp only
  have hcloses : Text.closes ';' rest =
      Text.allBlank ((Text.dropLead? [';'] (Text.trimStart rest)).getD (Text.trimStart rest)) := rfl
  have hpassed : rest.reverse ++ (literal.reverse ++ ((ahead.takeWhile isBlank).reverse ++ passed)) =
      ahead.reverse ++ passed := by
    rw [← List.append_assoc, ← List.append_assoc, ← List.reverse_append, ← List.reverse_append,
      append_of_cutLiteral? hcut, hblank]
  rw [Pattern.followed?_closing rfl, hpassed, hcloses, Spot.upTo_append, List.reverse_reverse]
  split <;> rfl

/-! ## What an import is of -/

/-- The names in braces, and the literal of the module. -/
def named? (text : List Char) : Option (List Char × List Char) := do
  let inner ← Text.dropLead? ['\x7b'] text
  let rest ← Text.dropLead? ['\x7d'] (inner.dropWhile (· ≠ '\x7d'))
  let literal ← moduleLiteral? (← behindFrom? rest)
  some (inner.takeWhile (· ≠ '\x7d'), literal)

/-- The name of the whole module, and its literal. -/
def whole? (text : List Char) : Option (List Char × List Char) := do
  let rest ← Text.dropLead? ['*'] text
  let (_, rest) ← Annotation.cutWord? ['a', 's'] (Text.trimStart rest)
  let (name, rest) ← Annotation.cutIdentifier? rest
  let (_, rest) ← Annotation.cutBlanks? rest
  let literal ← moduleLiteral? (← behindFrom? rest)
  some (name, literal)

theorem named?_of_head?_ne {text : List Char} (hne : text.head? ≠ some '\x7b') :
    named? text = none := by
  rw [named?, Text.dropLead?_of_head?_ne hne]
  rfl

theorem whole?_of_head?_ne {text : List Char} (hne : text.head? ≠ some '*') :
    whole? text = none := by
  rw [whole?, Text.dropLead?_of_head?_ne hne]
  rfl

/-- The first character of an import tells its form, so the order in which the forms are
tried makes no difference. -/
theorem form?_eq_or (text : List Char) :
    form? text = ((named? text).map fun cut => (.named cut.1, cut.2)).or
      (((whole? text).map fun cut => (.whole cut.1, cut.2)).or
        ((moduleLiteral? text).map fun literal => (.bare, literal))) := by
  unfold form?
  split
  case h_1 inner =>
    have hbare : moduleLiteral? ('\x7b' :: inner) = none := rfl
    rw [whole?_of_head?_ne (by simp), hbare, Option.map_none, Option.map_none, Option.or_none,
      Option.or_none]
    simp only [named?, Text.dropLead?, if_pos, Option.bind_eq_bind, Option.bind_some]
    cases hdrop : inner.dropWhile (· ≠ '\x7d') with
    | nil => rfl
    | cons brace rest =>
        obtain ⟨rfl, -⟩ := eq_of_dropWhile_ne hdrop
        simp [Text.dropLead?, Option.map_eq_bind, Option.bind_assoc]
  case h_2 rest =>
    have hbare : moduleLiteral? ('*' :: rest) = none := rfl
    rw [named?_of_head?_ne (by simp), hbare, Option.map_none, Option.map_none, Option.or_none,
      Option.none_or]
    simp [whole?, Text.dropLead?, Option.map_eq_bind, Option.bind_assoc]
  case h_3 hbrace hstar =>
    have hnamed : text.head? ≠ some '\x7b' := fun hhead =>
      (List.head?_eq_some_iff.mp hhead).elim hbrace
    have hwhole : text.head? ≠ some '*' := fun hhead =>
      (List.head?_eq_some_iff.mp hhead).elim hstar
    rw [named?_of_head?_ne hnamed, whole?_of_head?_ne hwhole]
    rfl

section Captures

-- What is made of a match depends on its captures alone.
variable {β : Type} {parts : Spot → β}
  (hparts : ∀ passed captured, parts ⟨passed, [], captured⟩ = parts ⟨[], [], captured⟩)

include hparts

/-- The word `from` and the literal of the module behind it. -/
theorem followed?_fromModule :
    (Pattern.word ['f', 'r', 'o', 'm']).followed? ((modulePattern number).followed? fun found =>
        some (parts found)) ⟨passed, Text.trimStart ahead, captured⟩ =
      (behindFrom? ahead).bind fun rest =>
        (moduleLiteral? rest).map fun literal => parts ⟨[], [], (number, literal) :: captured⟩ := by
  simp only [Pattern.followed?_word, followed?_modulePattern, behindFrom?, Option.map_eq_bind, hparts]
  rfl

theorem followed?_namesPattern :
    namesPattern.followed? (fun found => some (parts found)) ⟨passed, ahead, captured⟩ =
      (named? (Text.trimStart ahead)).map fun cut =>
        parts ⟨[], [], (3, cut.2) :: (2, cut.1) :: captured⟩ := by
  simp only [namesPattern, Pattern.seq, Pattern.followed?_both, Pattern.followed?_nothing, named?,
    Option.bind_eq_bind]
  rw [Pattern.followed?_many_of_rulesOut (Pattern.rulesOut_word rfl), Pattern.followed?_word,
    Option.map_bind]
  congr 1
  funext inner
  rw [Pattern.followed?_capture_many fun _ => Pattern.rulesOut_word (by simp),
    Pattern.followed?_word, Function.comp_apply, Option.map_bind]
  congr 1
  funext rest
  rw [Pattern.followed?_many_of_rulesOut (Pattern.rulesOut_word rfl)]
  refine (followed?_fromModule hparts).trans ?_
  simp only [Option.map_eq_bind, Option.bind_assoc, Option.bind_some, Function.comp_def]

theorem followed?_wholePattern :
    wholePattern.followed? (fun found => some (parts found)) ⟨passed, ahead, captured⟩ =
      (whole? (Text.trimStart ahead)).map fun cut =>
        parts ⟨[], [], (3, cut.2) :: (2, cut.1) :: captured⟩ := by
  simp only [wholePattern, Pattern.seq, Pattern.followed?_both, Pattern.followed?_nothing, whole?,
    Option.bind_eq_bind]
  rw [Pattern.followed?_many_of_rulesOut (Pattern.rulesOut_word rfl), Pattern.followed?_word,
    Option.map_bind]
  congr 1
  funext rest
  rw [Pattern.followed?_many_of_rulesOut (Pattern.rulesOut_word rfl),
    Annotation.followed?_cutWord? (Pattern.RulesOut.capture fun _ =>
      Annotation.rulesOut_namePattern), Function.comp_apply, Option.map_bind]
  congr 1
  funext cut
  rw [Pattern.followed?_capture, Annotation.followed?_namePattern, Function.comp_apply,
    Option.map_bind]
  · congr 1
    funext cut'
    rw [Spot.upTo_append, List.reverse_reverse,
      Pattern.followed?_oneOrMore_of_rulesOut (Pattern.rulesOut_word rfl), Function.comp_apply,
      Annotation.cutBlanks?]
    dsimp only
    split
    · rfl
    · refine (followed?_fromModule hparts).trans ?_
      have hfrom : behindFrom? (cut'.2.dropWhile isBlank) = behindFrom? cut'.2 :=
        congrArg (Text.dropLead? ['f', 'r', 'o', 'm']) (Text.trimStart_trimStart cut'.2)
      simp only [Option.map_eq_bind, Option.bind_assoc, Option.bind_some, Function.comp_def, hfrom]
  · exact fun passed c after hc => Pattern.RulesOut.oneOrMore
      (fun _ => Assignment.isBlank_of_isNamePart) passed c after hc

theorem followed?_barePattern :
    (modulePattern 2).followed? (fun found => some (parts found))
        ⟨passed, ahead, captured⟩ =
      (moduleLiteral? (Text.trimStart ahead)).map fun literal =>
        parts ⟨[], [], (2, literal) :: captured⟩ := by
  have hblank : moduleLiteral? (Text.trimStart ahead) = moduleLiteral? ahead := by
    rw [moduleLiteral?, Text.trimStart_trimStart]
    rfl
  simp only [followed?_modulePattern, hblank, Option.map_eq_bind, hparts]
  rfl

end Captures

/-- Read a line from its front: its indentation, the word `import`, and what stands behind. -/
theorem first?_importPattern (rest : Pattern) (line : List Char) :
    (Pattern.both importPattern rest).first? line =
      (Text.dropLead? ['i', 'm', 'p', 'o', 'r', 't'] (Text.trimStart line)).bind fun behind =>
        rest.followed? some ⟨['i', 'm', 'p', 'o', 'r', 't'].reverse ++
          (line.takeWhile isBlank).reverse, behind, [(1, line.takeWhile isBlank)]⟩ := by
  rw [Pattern.first?_eq_followed?]
  simp only [importPattern, Pattern.seq, Pattern.followed?_both, Pattern.followed?_nothing]
  rw [Pattern.followed?_capture_many fun _ => Pattern.rulesOut_word rfl, Pattern.followed?_word,
    List.append_nil]
  rfl

/-- A line is an import if one of the forms fits it, and then the first that does tells what
is imported. -/
theorem import?_eq_findSome? (line : List Char) :
    (import? line).map (fun found => (line.takeWhile isBlank, found)) =
      forms.findSome? fun form => ((Pattern.both importPattern form.1).first? line).map fun found =>
        (found.text 1, form.2 found) := by
  simp only [first?_importPattern, import?, Option.bind_eq_bind]
  cases Text.dropLead? ['i', 'm', 'p', 'o', 'r', 't'] (Text.trimStart line) with
  | none => rfl
  | some behind =>
      simp only [Option.bind_some, Pattern.map_followed?, Option.map_some, forms,
        List.findSome?_cons, List.findSome?_nil]
      rw [followed?_namesPattern fun _ _ => rfl, followed?_wholePattern fun _ _ => rfl,
        followed?_barePattern fun _ _ => rfl, form?_eq_or]
      cases named? (Text.trimStart behind) with
      | some cut => rfl
      | none =>
          cases whole? (Text.trimStart behind) with
          | some cut => rfl
          | none => cases moduleLiteral? (Text.trimStart behind) <;> rfl

/-- What becomes of a line is made of the captures of the first form that fits it. -/
theorem lower_eq_findSome? (line : List Char) :
    lower line = ((forms.findSome? fun form =>
      ((Pattern.both importPattern form.1).first? line).map fun found =>
        found.text 1 ++ (form.2 found).1.render (form.2 found).2).getD line) := by
  have hfound := congrArg (Option.map fun found : List Char × Form × List Char =>
    found.1 ++ found.2.1.render found.2.2) (import?_eq_findSome? line)
  simp only [List.map_findSome?, Function.comp_def, Option.map_map] at hfound
  rw [← hfound]
  cases himport : import? line with
  | none => exact lower_of_none himport
  | some found => exact lower_of_some himport

end Require

end Offside
