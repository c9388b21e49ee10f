/-
# Headers keep their brackets

A header line is its keyword, its arguments and blanks, with a colon at most. The
keyword opens and closes nothing, so the arguments nest when the line does, and so
do the arguments in parentheses. The rendered line leaves open exactly the brace
that it ends in.
-/

import Offside.Proofs.Delimiter.Nesting
import Offside.Proofs.Header.Grammar

namespace Offside

namespace Keyword

/-- Characters of a keyword as written. -/
def isWritten (c : Char) : Bool := c.isAlpha || Text.isBlank c || c == '*'

theorem isInert_of_isWritten {c : Char} (hc : isWritten c = true) : isInert c = true :=
  isInert_of_class rfl hc

theorem isWritten_of_all {text : List Char} (hall : text.all isWritten = true) :
    ∀ c ∈ text, isWritten c = true := List.all_eq_true.mp hall

theorem SpellsFunction.forall_isWritten {word : List Char} (hword : SpellsFunction word) :
    ∀ c ∈ word, isWritten c = true := by
  cases hword <;> exact isWritten_of_all rfl

theorem Spells.forall_isWritten {keyword : Keyword} {written : List Char}
    (hspells : Spells keyword written) : ∀ c ∈ written, isWritten c = true := by
  cases hspells with
  | function hword => exact hword.forall_isWritten
  | async hne hblanks hword =>
      have hasync : ∀ c ∈ ['a', 's', 'y', 'n', 'c'], isWritten c = true := isWritten_of_all rfl
      intro c hc
      rw [List.mem_append, List.mem_append] at hc
      rcases hc with (hc | hc) | hc
      · exact hasync c hc
      · simp [Keyword.isWritten, hblanks c hc]
      · exact hword.forall_isWritten c hc
  | _ => exact isWritten_of_all rfl

/-- A keyword stands in front of the rest. -/
theorem cut?_append {content written rest : List Char} {keyword : Keyword}
    (hcut : cut? content = some (keyword, written, rest)) :
    written ++ rest = content ∧ ∀ c ∈ written, isWritten c = true := by
  obtain ⟨hspells, hcontent⟩ := spells_of_cut? hcut
  exact ⟨hcontent.symm, hspells.forall_isWritten⟩

end Keyword

namespace Header

/-- What a header holds: a keyword that opens and closes nothing, and arguments that
nest. -/
structure Nested (header : Header) : Prop where
  written : ∀ c ∈ header.written, isInert c = true
  args : ∀ args ∈ header.args, Nests args [] []

theorem nests_of_args? {rest args : List Char} (hargs : args? rest = some (some args))
    (hrest : Nests rest [] []) : Nests args [] [] := by
  unfold args? at hargs
  simp only at hargs
  split_ifs at hargs
  · cases hargs
  · rw [Option.some_inj, Option.some_inj] at hargs
    rw [← hargs]
    exact (hrest.trimEnd.dropFinal (by decide)).trim
  · cases hargs

theorem nested_of_ofContent? {content : List Char} {header : Header}
    (hheader : ofContent? content = some header) (hcontent : Nests content [] []) :
    header.Nested := by
  simp only [ofContent?, Option.bind_eq_bind, Option.bind_eq_some_iff] at hheader
  obtain ⟨⟨keyword, written, rest⟩, hcut, found, hargs, hheader⟩ := hheader
  obtain ⟨rfl, hletters⟩ := Keyword.cut?_append hcut
  have hwritten : ∀ c ∈ written, isInert c = true :=
    fun c hc => Keyword.isInert_of_isWritten (hletters c hc)
  have hrest : Nests rest [] [] := hcontent.of_append (nests_of_isInert hwritten [])
  cases found with
  | none =>
      obtain ⟨-, hheader⟩ := Option.ite_none_right_eq_some.mp hheader
      obtain rfl := Option.some_inj.mp hheader
      exact ⟨hwritten, by simp⟩
  | some args =>
      obtain rfl := Option.some_inj.mp hheader
      exact ⟨hwritten, by simpa using nests_of_args? hargs hrest⟩

theorem nests_of_elseIf? {args condition : List Char} (hcondition : elseIf? args = some condition)
    (hargs : Nests args [] []) : Nests condition [] [] := by
  rw [elseIf?, Option.bind_eq_bind, Option.bind_eq_some_iff] at hcondition
  obtain ⟨rest, hword, hcondition⟩ := hcondition
  obtain ⟨-, hcondition⟩ := Option.ite_none_right_eq_some.mp hcondition
  obtain rfl := Option.some_inj.mp hcondition
  rw [Text.dropLead?_eq_some_iff.mp hword] at hargs
  exact (hargs.of_append (nests_of_isInert (isInert_of_all rfl) [])).trimStart

theorem nests_parenthesized {text : List Char} (htext : Nests text [] []) :
    Nests (parenthesized text) [] [] :=
  htext.between (show closerOf? '(' = some ')' from rfl)

theorem Nested.render {header : Header} (hnested : header.Nested) :
    Nests header.render [] [] := by
  have hwritten := nests_of_isInert hnested.written []
  have hblank : Nests [' '] [] [] := nests_of_isInert (isInert_of_all rfl) []
  have helse : Nests [' ', 'i', 'f', ' '] [] [] := nests_of_isInert (isInert_of_all rfl) []
  unfold Header.render
  split
  · exact hwritten
  · rename_i args hsome
    have hargs := hnested.args args hsome
    split
    · split
      · rename_i condition hcondition
        have hparens := nests_parenthesized (nests_of_elseIf? hcondition hargs)
        exact (hwritten.append helse).append hparens
      · exact hwritten.append (hblank.append hargs)
    · exact hwritten.append (hblank.append (nests_parenthesized hargs))
    · exact hwritten.append (hblank.append hargs)

/-- A rendered header line leaves its brace open. -/
theorem Nested.openingLine {header : Header} (hnested : header.Nested) {indentation : List Char}
    (hindentation : ∀ c ∈ indentation, isInert c = true) :
    Nests (indentation ++ header.render ++ [' ', '\x7b']) [] ['\x7b'] := by
  have hpair : closerOf? '\x7b' = some '\x7d' := rfl
  have hbrace : Nests ([' '] ++ ['\x7b']) [] ['\x7b'] :=
    (nests_of_isInert (isInert_of_all rfl) []).append (nests_opener hpair)
  exact ((nests_of_isInert hindentation []).append hnested.render).append hbrace

end Header

end Offside
