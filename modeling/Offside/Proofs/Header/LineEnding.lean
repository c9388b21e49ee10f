/-
# Headers of lines with carriage returns

A keyword stands in front of every quote, so a line has the same one with carriage returns
and without. A carriage return at the end of the line is a blank, and blanks at the edges of
the arguments do not count: one that follows a keyword leaves it without arguments. So a line
is the same header, but for the carriage returns that stand in literals of the arguments.
-/

import Offside.Proofs.Header.Nesting
import Offside.Proofs.Text.LineEnding

namespace Offside

variable {ends : Bool} {text text' : List Char}

/-! ## Keywords -/

namespace Keyword

/-- The two texts are cut behind the same word. -/
def CutAlike (ends : Bool) (cut cut' : List Char × List Char) : Prop :=
  cut'.1 = cut.1 ∧ WithReturns ends false cut.2 cut'.2

theorem cutFunction?_withReturns (htexts : WithReturns ends false text text') :
    Option.Rel (CutAlike ends) (cutFunction? text) (cutFunction? text') := by
  have hletters : functionWord.all Char.isAlpha = true := rfl
  refine map_rel (htexts.dropLead? hletters) fun rest rest' hrest => ?_
  cases hrest with
  | nil => exact ⟨rfl, .nil⟩
  | last hends => exact ⟨rfl, .last hends⟩
  | @keep _ c _ _ hreturn hfeed hrest =>
      by_cases hstar : c = '*'
      · subst hstar
        exact ⟨rfl, hrest⟩
      · simpa [hstar, CutAlike] using WithReturns.keep hreturn hfeed hrest
  | feed hbehind => cases hbehind

theorem cutAsyncFunction?_withReturns (htexts : WithReturns ends false text text') :
    Option.Rel (CutAlike ends) (cutAsyncFunction? text) (cutAsyncFunction? text') := by
  have hletters : ['a', 's', 'y', 'n', 'c'].all Char.isAlpha = true := rfl
  refine bind_rel (htexts.dropLead? hletters) fun rest _ rest' _ hrest => ?_
  have hfunction : Option.Rel (CutAlike ends) (cutFunction? (rest.dropWhile Text.isBlank))
      (cutFunction? (rest'.dropWhile Text.isBlank)) := cutFunction?_withReturns hrest.trimStart
  -- Where a word follows the blanks, they are the same.
  have hblanks : cutFunction? (rest.dropWhile Text.isBlank) ≠ none →
      rest'.takeWhile Text.isBlank = rest.takeWhile Text.isBlank := fun hsome =>
    hrest.takeWhile_isBlank rfl fun hnil => hsome (congrArg cutFunction? hnil)
  generalize cutFunction? (rest.dropWhile Text.isBlank) = found at hfunction hblanks ⊢
  generalize cutFunction? (rest'.dropWhile Text.isBlank) = found' at hfunction ⊢
  cases hfunction with
  | none =>
      simp only [Option.bind_eq_bind, Option.bind_none, ite_self]
      exact .none
  | some halike =>
      simp only [hblanks (Option.some_ne_none _)]
      split
      · exact .none
      · exact .some ⟨by rw [halike.1], halike.2⟩

theorem cut?_eq (content : List Char) :
    cut? content = ((cutAsyncFunction? content).map (Keyword.function, ·)).or
      (((cutFunction? content).map (Keyword.function, ·)).or
        (spellings.findSome? fun spelling =>
          (Text.dropLead? spelling.1 content).map fun rest => (spelling.2, spelling.1, rest))) := by
  unfold cut?
  cases cutAsyncFunction? content with
  | some cut => rfl
  | none => cases cutFunction? content <;> rfl

/-- A keyword is found in front of the first quote or not at all. -/
theorem cut?_withReturns (htexts : WithReturns ends false text text') :
    Option.Rel (fun cut cut' => cut'.1 = cut.1 ∧ CutAlike ends cut.2 cut'.2)
      (cut? text) (cut? text') := by
  have hletters : spellings.all (·.1.all Char.isAlpha) = true := rfl
  rw [cut?_eq, cut?_eq]
  refine or_rel (map_rel (cutAsyncFunction?_withReturns htexts) fun _ _ halike => ⟨rfl, halike⟩)
    (or_rel (map_rel (cutFunction?_withReturns htexts) fun _ _ halike => ⟨rfl, halike⟩)
      (findSome?_rel fun spelling hmem => ?_))
  exact map_rel (htexts.dropLead? (List.all_eq_true.mp hletters spelling hmem))
    fun _ _ hrest => ⟨rfl, rfl, hrest⟩

end Keyword

/-! ## Arguments -/

namespace Header

/-- Two headers that are the same but for carriage returns in the arguments. -/
structure Alike (header header' : Header) : Prop where
  keyword : header'.keyword = header.keyword
  written : header'.written = header.written
  returnFree : '\r' ∉ header.written
  args : Option.Rel (WithReturns false false) header.args header'.args

theorem args?_withReturns (htexts : WithReturns ends false text text') :
    Option.Rel (Option.Rel (WithReturns false false)) (args? text) (args? text') := by
  have htrailing := htexts.trimEnd
  have hargs : WithReturns false false (Text.trim (Text.dropFinal ':' (Text.trimEnd text)))
      (Text.trim (Text.dropFinal ':' (Text.trimEnd text'))) :=
    (htrailing.dropFinal (by decide) (by decide) (by decide)).trim
  obtain ⟨hfeed, hfeed'⟩ := hargs.contains_lineFeed
  rcases htexts.head?_eq with hhead | ⟨-, rfl, rfl⟩
  · unfold args?
    simp only [hhead, hargs.isEmpty_eq, htrailing.isEmpty_eq, hfeed, hfeed',
      htrailing.eq_singleton_iff (show ':' ≠ '\r' by decide), Bool.false_eq_true, if_false]
    split_ifs
    · exact .some .none
    · exact .some (.some hargs)
    · exact .some .none
    · exact .none
  · exact .some .none

theorem ofContent?_alike (htexts : WithReturns ends false text text') :
    Option.Rel Alike (ofContent? text) (ofContent? text') := by
  refine bind_rel (Keyword.cut?_withReturns htexts) ?_
  rintro ⟨keyword, written, rest⟩ hcut ⟨keyword', written', rest'⟩ - ⟨hkeyword, hwritten, hrest⟩
  obtain rfl : keyword' = keyword := hkeyword
  obtain rfl : written' = written := hwritten
  have hreturn : '\r' ∉ written' := fun hmem =>
    htexts.notMem.1 ((Keyword.cut?_append (Option.mem_def.mp hcut)).1 ▸ List.mem_append_left _ hmem)
  refine bind_rel (args?_withReturns hrest) fun args _ args' _ hargs => ?_
  cases hargs with
  | some hargs => exact .some ⟨rfl, rfl, hreturn, .some hargs⟩
  | none =>
      simp only
      split
      · exact .some ⟨rfl, rfl, hreturn, .none⟩
      · exact .none

theorem elseIf?_withReturns (htexts : WithReturns false false text text') :
    Option.Rel (WithReturns false false) (elseIf? text) (elseIf? text') := by
  have hletters : ['i', 'f'].all Char.isAlpha = true := rfl
  refine bind_rel (htexts.dropLead? hletters) fun rest _ rest' _ hrest => ?_
  have hcondition := hrest.trimStart
  obtain ⟨hfeed, hfeed'⟩ := hcondition.contains_lineFeed
  have hhead : rest'.head? = rest.head? := by
    rcases hrest.head?_eq with hhead | ⟨hends, -⟩
    · exact hhead
    · cases hends
  simp only [Text.length_trimStart_lt_iff, hhead, hcondition.isEmpty_eq, hfeed, hfeed']
  split
  · exact .some hcondition
  · exact .none

theorem dropReturns_parenthesized (htexts : WithReturns ends false text text') :
    Text.dropReturns (parenthesized text') = parenthesized text := by
  rw [parenthesized, Text.dropReturns_append, Text.dropReturns_cons_of_ne (by decide),
    htexts.dropReturns_eq, Text.dropReturns_of_notMem (show '\r' ∉ [')'] by decide), parenthesized]

/-- In target syntax the headers are the same but for the carriage returns. -/
theorem Alike.dropReturns_render {header header' : Header} (halike : header.Alike header') :
    Text.dropReturns header'.render = header.render := by
  obtain ⟨keyword, written, args⟩ := header
  obtain ⟨keyword', written', args'⟩ := header'
  obtain ⟨hkeyword, hwritten, hreturn, hargs⟩ := halike
  obtain rfl : keyword' = keyword := hkeyword
  obtain rfl : written' = written := hwritten
  cases hargs with
  | none => exact Text.dropReturns_of_notMem hreturn
  | @some text text' htexts =>
      have hword := Text.dropReturns_of_notMem hreturn
      have hdefinition : Text.dropReturns (written' ++ ' ' :: text') = written' ++ ' ' :: text := by
        rw [Text.dropReturns_append, hword, Text.dropReturns_cons_of_ne (by decide),
          htexts.dropReturns_eq]
      have hcondition : Text.dropReturns (written' ++ ' ' :: parenthesized text') =
          written' ++ ' ' :: parenthesized text := by
        rw [Text.dropReturns_append, hword, Text.dropReturns_cons_of_ne (by decide),
          dropReturns_parenthesized htexts]
      cases keyword' with
      | «else» =>
          have helseIf := elseIf?_withReturns htexts
          simp only [Header.render]
          generalize elseIf? text = found at helseIf ⊢
          generalize elseIf? text' = found' at helseIf ⊢
          cases helseIf with
          | none => exact hdefinition
          | some hrest =>
              rw [Text.dropReturns_append, Text.dropReturns_append, hword,
                dropReturns_parenthesized hrest]
              rfl
      | function | «class» | «try» => exact hdefinition
      | «if» | «switch» | «catch» | «finally» | «do» | «while» | «for» => exact hcondition

end Header

end Offside
