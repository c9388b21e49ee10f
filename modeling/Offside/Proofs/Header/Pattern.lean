/-
# The pattern of a block header

A header is a keyword, possibly blanks and arguments, and at the end blanks and at most one
colon. The blanks in front of the arguments are greedy and the arguments are lazy, so no
blank at their edges and no final colon belongs to them. The keyword is the first spelling in a
list that the rest of the line does not rule out.

The readers do not try one spelling after another: whatever stands at the front of a line,
only one of them can be followed by arguments.
-/

import Offside.Proofs.Header.Grammar
import Offside.Proofs.Text.Pattern

namespace Offside

open Text (Pattern Spot isBlank isInLine)

variable {α : Type} {passed ahead content written rest : List Char}
  {captured : List (Nat × List Char)} {keyword : Keyword}

namespace Keyword

/-- `function` or `function*`, possibly behind `async` and blanks. -/
def functionPattern : Pattern :=
  .seq [.optional (.both (.word ['a', 's', 'y', 'n', 'c']) (.oneOrMore isBlank)),
    .word functionWord, .optional (.one (· == '*'))]

/-- The spellings of the keywords. -/
def pattern : Pattern := .oneOf (functionPattern :: spellings.map fun spelling => .word spelling.1)

/-- The keyword that is spelled in a way. -/
def ofSpelling (written : List Char) : Keyword := (spellings.lookup written).getD .function

theorem Spells.ofSpelling_eq (hspells : Spells keyword written) : ofSpelling written = keyword := by
  cases hspells with
  | function hword => cases hword <;> rfl
  | async hne hblanks hword => rfl
  | _ => rfl

end Keyword

namespace Header

/-- What stands behind the keyword of a header: possibly blanks and arguments, which are
captured, and then blanks and at most one colon. -/
def restPattern : Pattern :=
  .seq [.optional (.both (.oneOrMore isBlank) (.capture 2 (.few isInLine))), .closing ':']

/-- A header; its keyword is captured as it is written. -/
def pattern : Pattern := .seq [.capture 1 Keyword.pattern, restPattern]

/-- The captures of a header: the keyword as written, and the arguments if there are any. -/
def parts (found : Spot) : List Char × Option (List Char) :=
  (found.text 1, (found.text? 2).filter fun args => !args.isEmpty)

/-! ## Arguments -/

theorem args?_of_blank (hhead : (rest.head?.map isBlank).getD false = true) :
    args? rest =
      if '\n' ∈ Text.withoutSign ':' (Text.trimStart rest) then none
      else some ((some (Text.withoutSign ':' (Text.trimStart rest))).filter
        fun args => !args.isEmpty) := by
  have hargs : Text.trim (Text.dropFinal ':' (Text.trimEnd rest)) =
      Text.withoutSign ':' (Text.trimStart rest) := trim_dropFinal_trimEnd rest
  rw [args?, if_pos hhead]
  simp only [hargs]
  generalize Text.withoutSign ':' (Text.trimStart rest) = args
  cases args with
  | nil => rfl
  | cons c args => simp [Option.filter]

theorem args?_of_not_blank (hhead : (rest.head?.map isBlank).getD false = false) :
    args? rest = if Text.closes ':' rest then some none else none := by
  rw [args?, hhead]
  cases rest with
  | nil => rfl
  | cons c rest =>
      have hc : isBlank c = false := hhead
      rw [Text.closes_cons, hc, Text.trimEnd_cons_of_not_blank hc]
      simp [Text.trimEnd_eq_nil_iff, @eq_comm _ ':' c]

/-- What follows a keyword is read as the pattern matches it. -/
theorem followed?_restPattern :
    restPattern.followed? (fun found => some (parts found)) ⟨passed, ahead, [(1, written)]⟩ =
      (args? ahead).map fun args => (written, args) := by
  have hcolon : isBlank ':' = false := rfl
  simp only [restPattern, Pattern.seq, Pattern.optional, Pattern.followed?_both,
    Pattern.followed?_either, Pattern.followed?_nothing]
  rw [Pattern.followed?_oneOrMore_of_step, Pattern.followed?_captureFew_closing hcolon,
    Pattern.followed?_closing hcolon, Pattern.isEmpty_takeWhile]
  · cases hhead : (ahead.head?.map isBlank).getD false with
    | false =>
        rw [args?_of_not_blank hhead]
        cases Text.closes ':' ahead <;> rfl
    | true =>
        rw [args?_of_blank hhead]
        change Option.or (if '\n' ∈ Text.withoutSign ':' (Text.trimStart ahead) then none
          else some (written, (some (Text.withoutSign ':' (Text.trimStart ahead))).filter
            fun args => !args.isEmpty)) _ = _
        by_cases hfeed : '\n' ∈ Text.withoutSign ':' (Text.trimStart ahead)
        · rw [if_pos hfeed, if_pos hfeed, ← Text.closes_trimStart,
            Text.closes_eq_false_of_mem hfeed]
          rfl
        · rw [if_neg hfeed, if_neg hfeed]
          rfl
  · -- Only a line feed keeps arguments from being read, and it stays ahead of a blank given back.
    rintro passed c after - hc hnone
    rw [Pattern.followed?_captureFew_closing hcolon] at hnone ⊢
    have hfeed : '\n' ∈ Text.withoutSign ':' after := by simpa using hnone
    rw [Text.withoutSign_cons, Text.closes_cons, if_pos hc, Text.closes_eq_false_of_mem hfeed]
    exact if_pos (List.mem_cons_of_mem c hfeed)

/-! ## Keywords -/

/-- The keyword as written with the arguments behind it, if what follows can be read so. -/
def withArgs? (cut : List Char × List Char) : Option (List Char × Option (List Char)) :=
  (args? cut.2).map fun args => (cut.1, args)

theorem args?_star (rest : List Char) : args? ('*' :: rest) = none := by
  rw [args?_of_not_blank rfl, Text.closes_cons]
  rfl

theorem bind_cut?_of_spells {found : List Char × Option (List Char)}
    (hspells : keyword.Spells written) (hargs : withArgs? (written, rest) = some found) :
    ((Keyword.cut? (written ++ rest)).bind fun cut => withArgs? cut.2) = some found := by
  have hstar : rest.head? ≠ some '*' := by
    intro hstar
    obtain ⟨behind, rfl⟩ := List.head?_eq_some_iff.mp hstar
    rw [withArgs?, args?_star] at hargs
    cases hargs
  rw [hspells.cut? hstar]
  exact hargs

section Keywords

variable {next : Spot → Option (List Char × Option (List Char))}
  (hnext : ∀ taken rest, next ⟨taken, rest, []⟩ = withArgs? (taken.reverse, rest))

include hnext

theorem followed?_spelling (written content : List Char) :
    (Pattern.word written).followed? next ⟨[], content, []⟩ =
      (Text.dropLead? written content).bind fun rest => withArgs? (written, rest) := by
  simp only [Pattern.followed?_word, hnext, List.append_nil, List.reverse_reverse]

/-- A star belongs to the keyword, for nothing that begins with it is read as arguments. -/
theorem followed?_functionWord (taken content : List Char) :
    (Pattern.word Keyword.functionWord).followed?
        ((Pattern.optional (.one (· == '*'))).followed? next) ⟨taken, content, []⟩ =
      (Keyword.cutFunction? content).bind fun cut => withArgs? (taken.reverse ++ cut.1, cut.2) := by
  rw [Pattern.followed?_word, Keyword.cutFunction?, Option.bind_map]
  congr 1
  funext rest
  rw [Pattern.optional, Pattern.followed?_either, Pattern.followed?_nothing, hnext]
  cases rest with
  | nil => simp
  | cons c rest =>
      rw [Pattern.followed?_one_cons]
      by_cases hc : c = '*'
      · simp [hc, hnext, withArgs?, args?_star]
      · simp [hc]

theorem followed?_functionPattern (content : List Char) :
    Keyword.functionPattern.followed? next ⟨[], content, []⟩ =
      ((Keyword.cutAsyncFunction? content).bind withArgs?).or
        ((Keyword.cutFunction? content).bind withArgs?) := by
  simp only [Keyword.functionPattern, Pattern.seq, Pattern.followed?_both,
    Pattern.followed?_nothing]
  rw [Pattern.optional, Pattern.followed?_either, Pattern.followed?_nothing,
    followed?_functionWord hnext]
  congr 1
  simp only [Keyword.cutAsyncFunction?, Pattern.followed?_both, Pattern.followed?_word,
    Option.bind_eq_bind, Option.bind_assoc]
  congr 1
  funext rest
  have hword : Pattern.RulesOut isBlank [] ((Pattern.word Keyword.functionWord).followed?
      ((Pattern.optional (.one (· == '*'))).followed? next)) := Pattern.rulesOut_word rfl
  rw [Pattern.followed?_oneOrMore_of_rulesOut hword, followed?_functionWord hnext]
  cases hblanks : (rest.takeWhile isBlank).isEmpty with
  | true => rfl
  | false => simp [Option.bind_assoc]

/-- Whichever spelling the pattern tries, the readers find the same one. -/
theorem followed?_keyword (content : List Char) :
    Keyword.pattern.followed? next ⟨[], content, []⟩ =
      (Keyword.cut? content).bind fun cut => withArgs? cut.2 := by
  apply Pattern.followed?_oneOf_eq
  · intro pattern hmem found hfound
    rcases List.mem_cons.mp hmem with rfl | hmem
    · rw [followed?_functionPattern hnext, Option.or_eq_some_iff] at hfound
      rcases hfound with hasync | ⟨-, hfunction⟩
      · obtain ⟨⟨written, rest⟩, hcut, hargs⟩ := Option.bind_eq_some_iff.mp hasync
        obtain ⟨hspells, rfl⟩ := Keyword.spells_of_cutAsyncFunction? hcut
        exact bind_cut?_of_spells hspells hargs
      · obtain ⟨⟨written, rest⟩, hcut, hargs⟩ := Option.bind_eq_some_iff.mp hfunction
        obtain ⟨hword, rfl⟩ := Keyword.spellsFunction_of_cutFunction? hcut
        exact bind_cut?_of_spells (.function hword) hargs
    · obtain ⟨spelling, hspelling, rfl⟩ := List.mem_map.mp hmem
      rw [followed?_spelling hnext] at hfound
      obtain ⟨rest, hlead, hargs⟩ := Option.bind_eq_some_iff.mp hfound
      rw [Text.dropLead?_eq_some_iff.mp hlead]
      exact bind_cut?_of_spells (Keyword.spells_of_mem_spellings hspelling) hargs
  · intro found hfound
    obtain ⟨⟨keyword, written, rest⟩, hcut, hargs⟩ := Option.bind_eq_some_iff.mp hfound
    unfold Keyword.cut? at hcut
    split at hcut
    · rename_i hasync
      obtain ⟨-, rfl, rfl⟩ : _ ∧ _ ∧ _ := by simpa using hcut
      refine ⟨_, List.mem_cons_self, ?_⟩
      rw [followed?_functionPattern hnext, hasync, Option.bind_some, hargs, Option.some_or]
    · rename_i hasync
      split at hcut
      · rename_i hfunction
        obtain ⟨-, rfl, rfl⟩ : _ ∧ _ ∧ _ := by simpa using hcut
        refine ⟨_, List.mem_cons_self, ?_⟩
        rw [followed?_functionPattern hnext, hasync, hfunction, Option.bind_none, Option.none_or,
          Option.bind_some, hargs]
      · obtain ⟨spelling, hspelling, hcut⟩ := List.exists_of_findSome?_eq_some hcut
        obtain ⟨behind, hlead, htriple⟩ := Option.map_eq_some_iff.mp hcut
        obtain ⟨-, rfl, rfl⟩ : _ ∧ _ ∧ _ := by simpa using htriple
        refine ⟨_, List.mem_cons_of_mem _ (List.mem_map_of_mem hspelling), ?_⟩
        rw [followed?_spelling hnext, hlead, Option.bind_some, hargs]

end Keywords

/-- The captures of the preferred match are what the readers find. -/
theorem map_parts_first? (content : List Char) :
    (pattern.first? content).map parts =
      (Keyword.cut? content).bind fun cut => withArgs? cut.2 := by
  rw [Pattern.first?_eq_followed?, Pattern.map_followed?]
  simp only [pattern, Pattern.seq, Pattern.followed?_both, Pattern.followed?_nothing,
    Pattern.followed?_capture, Option.map_some]
  refine followed?_keyword (fun taken rest => ?_) content
  rw [Spot.upTo_nil]
  exact followed?_restPattern

/-- The header of a match, unless its keyword needs arguments and there are none. -/
def ofParts? (parts : List Char × Option (List Char)) : Option Header :=
  if parts.2.isNone && !(Keyword.ofSpelling parts.1).argumentOptional then none
  else some ⟨Keyword.ofSpelling parts.1, parts.1, parts.2⟩

/-- A line's content is read as the pattern of headers matches it. -/
theorem ofContent?_eq_first? (content : List Char) :
    ofContent? content = ((pattern.first? content).map parts).bind ofParts? := by
  rw [map_parts_first?, ofContent?]
  cases hcut : Keyword.cut? content with
  | none => rfl
  | some cut =>
      obtain ⟨keyword, written, rest⟩ := cut
      have hkeyword := (Keyword.spells_of_cut? hcut).1.ofSpelling_eq
      simp only [Option.bind_eq_bind, Option.bind_some, withArgs?]
      cases args? rest with
      | none => rfl
      | some args =>
          cases args with
          | none => cases hoptional : keyword.argumentOptional <;> simp [ofParts?, hkeyword, hoptional]
          | some args => simp [ofParts?, hkeyword]

/-! ## The condition behind `else` -/

/-- `if`, blanks, and a condition, which is captured. -/
def elseIfPattern : Pattern :=
  .seq [.word ['i', 'f'], .oneOrMore isBlank, .capture 1 (.oneOrMore isInLine), .finish]

/-- The arguments of `else` do not end in a blank, so all the blanks behind `if` stand in
front of the condition. -/
theorem elseIf?_eq_first? {args : List Char} (htrim : Text.trimEnd args = args) :
    elseIf? args = (elseIfPattern.first? args).map (·.text 1) := by
  rw [Pattern.first?_eq_followed?, Pattern.map_followed?]
  simp only [elseIfPattern, Pattern.seq, Pattern.followed?_both, Pattern.followed?_nothing,
    Pattern.followed?_word, elseIf?, Option.bind_eq_bind, Option.map_some]
  cases hlead : Text.dropLead? ['i', 'f'] args with
  | none => rfl
  | some rest =>
      rw [Option.bind_some, Option.bind_some, Pattern.followed?_oneOrMore_of_step,
        Pattern.followed?_captureLine_of_ne_nil, Pattern.isEmpty_takeWhile]
      · have hblanks := Text.length_trimStart_lt_iff rest
        cases hhead : (rest.head?.map isBlank).getD false with
        | false =>
            rw [hhead] at hblanks
            simp [hblanks]
        | true =>
            have hlt : (Text.trimStart rest).length < rest.length := hblanks.mpr hhead
            change _ = if Text.trimStart rest = [] ∨ '\n' ∈ Text.trimStart rest then none
              else some (Text.trimStart rest)
            by_cases hnil : Text.trimStart rest = [] <;>
              by_cases hfeed : '\n' ∈ Text.trimStart rest <;> simp [hlt, hnil, hfeed]
      · -- A blank given back would be a condition by itself if nothing followed it.
        intro passed c after hsuffix hc hnone
        rw [Pattern.followed?_captureLine_of_ne_nil] at hnone ⊢
        have hfeed : after ≠ [] → '\n' ∈ after := by simpa using hnone
        have hne : after ≠ [] := by
          rintro rfl
          have hargs : [c] <:+ args := by
            rw [Text.dropLead?_eq_some_iff.mp hlead]
            exact hsuffix.trans (List.suffix_append _ _)
          rw [Text.isBlank_eq_false_of_trimEnd htrim hargs] at hc
          cases hc
        exact if_pos (.inr (List.mem_cons_of_mem c (hfeed hne)))

theorem elseIf?_eq_first?_of_ofContent? {header : Header} {args : List Char}
    (hheader : ofContent? content = some header) (hargs : args ∈ header.args) :
    elseIf? args = (elseIfPattern.first? args).map (·.text 1) :=
  elseIf?_eq_first? (Text.trimEnd_of_trim ((writes_of_ofContent? hheader).trim_args args hargs))

end Header

end Offside
