/-
# Statements in target syntax stay as they are

A statement in target syntax is neither an import of names nor an assignment, so nothing is
left to write: not for other names, another helper or another value, whatever `=` they hold.

An import of names has a brace where its first name would be. A declaration has its keyword,
a blank and the beginning of a name in front of the first operator, and with a blank in the
middle that is no target list. So the first segment alone shows that nothing is assigned.
-/

import Offside.Proofs.Statement.Import
import Offside.Proofs.Statement.Segments

namespace Offside

/-- Nothing about the line is left to put in target syntax. -/
structure Line.IsTargetSyntax (line : Line) : Prop where
  namedImport? : line.namedImport? = none
  parse? : Assignment.parse? line.content = none

namespace Assignment

/-- A word of the target syntax, a blank and something that is no operator make no
assignment, whatever follows. -/
theorem parse?_eq_none {word : List Char}
    (hword : word ∈ [['i', 'm', 'p', 'o', 'r', 't'], ['l', 'e', 't'], ['v', 'a', 'r']]) {c : Char}
    (hblank : Text.isBlank c = false) (hcomma : c ≠ ',') (hequals : c ≠ '=') (rest : List Char) :
    parse? (word ++ ' ' :: c :: rest) = none := by
  have hfront : word ++ ' ' :: c :: rest = (word ++ [' ', c]) ++ rest := by simp
  simp only [List.mem_cons, List.not_mem_nil, or_false] at hword
  have hscope : Scope.split.worded? (word ++ ' ' :: c :: rest) ['l', 'o', 'c', 'a', 'l'] = none ∧
      Scope.split.worded? (word ++ ' ' :: c :: rest) ['g', 'l', 'o', 'b', 'a', 'l'] = none := by
    rcases hword with rfl | rfl | rfl <;> exact ⟨rfl, rfl⟩
  obtain ⟨hequals', hcomma', hname⟩ :
      '=' ∉ word ∧ ',' ∉ word ∧ ∃ c ∈ word, Text.isBlank c = false := by
    rcases hword with rfl | rfl | rfl <;>
      exact ⟨by decide, by decide, _, List.mem_cons_self, rfl⟩
  have hfree : '=' ∉ word ++ [' ', c] := by
    simp [hequals', Ne.symm hequals]
  obtain ⟨more, others, hsegments⟩ := exists_segments_append hfree rest
  rw [parse?_eq, hscope.1, hscope.2, Option.bind_none, Option.bind_none, Option.none_or,
    Option.none_or, hfront]
  refine parseTargets?_eq_none (fun segment hsegment => ?_) .wide
  rw [hsegments, List.head?_cons, Option.mem_some_iff] at hsegment
  rw [← hsegment, ← Bool.not_eq_true, List.append_assoc]
  intro htargets
  have hmem : c ∈ (c :: more).takeWhile (· ≠ ',') := by simp [hcomma]
  have hnone := isBlank_of_areTargets hname hcomma' (by decide) htargets c hmem
  rw [hblank] at hnone
  cases hnone

/-- In target syntax, a target list begins with a bracket or a name. -/
theorem exists_targetText_cons {target : List Char} (htargets : areTargets target = true)
    (htrim : Text.trim target = target) :
    ∃ c rest, targetText target = c :: rest ∧ Text.isBlank c = false ∧ c ≠ ',' ∧ c ≠ '=' := by
  unfold targetText
  split
  · exact ⟨'[', _, rfl, by decide⟩
  · rename_i hone
    have hwhole : target.takeWhile (· ≠ ',') = target := by
      refine List.takeWhile_eq_self_iff.mpr fun c hc => decide_eq_true ?_
      rintro rfl
      exact hone (by simpa using hc)
    have hname := isIdentifier_of_areTargets htargets
    rw [hwhole, htrim] at hname
    cases target with
    | nil => cases hname
    | cons c rest =>
        have hpart := isNamePart_of_isIdentifier hname c List.mem_cons_self
        refine ⟨c, rest, rfl, isBlank_of_isNamePart hpart, ?_, ?_⟩
        · rintro rfl
          cases hpart
        · rintro rfl
          cases hpart

/-- Behind its keyword and a blank, a declaration goes on with its first name. -/
theorem exists_render_eq {content : List Char} {assignment : Assignment}
    (hparse : parse? content = some assignment) (indentation helper : List Char) :
    ∃ c rest, assignment.render indentation helper =
        indentation ++ (assignment.scope.declaration ++ ' ' :: c :: rest) ∧
      Text.isBlank c = false ∧ c ≠ ',' ∧ c ≠ '=' := by
  obtain ⟨hne, htargets⟩ := targets_of_parse? hparse
  obtain ⟨scope, targets, expression⟩ := assignment
  obtain ⟨first, others, rfl⟩ := List.exists_cons_of_ne_nil hne
  obtain ⟨hfirst, htrim⟩ := htargets first List.mem_cons_self
  obtain ⟨c, rest, htext, hc⟩ := exists_targetText_cons hfirst htrim
  refine ⟨c, List.intercalate [' ', '=', ' '] (rest :: others.map targetText) ++
    ([' ', '=', ' '] ++ helper ++ '(' :: expression ++ [')']), ?_, hc⟩
  rw [render, List.map_cons, htext, List.intercalate_cons_cons_left]
  simp

end Assignment

namespace Line

/-- Behind blanks, the content of a line begins at the first character that is none. -/
theorem ofChars_append_cons {blanks : List Char} (hblanks : ∀ c ∈ blanks, Text.isBlank c = true)
    {c : Char} (hc : Text.isBlank c = false) (rest : List Char) :
    ofChars (blanks ++ c :: rest) = ⟨blanks, c :: rest⟩ := by
  have hstop : ¬ Text.isBlank c = true := by simp [hc]
  rw [ofChars, List.takeWhile_append_of_pos hblanks, List.takeWhile_cons_of_neg hstop,
    List.append_nil, List.dropWhile_append_of_pos hblanks, List.dropWhile_cons_of_neg hstop]

theorem IsTargetSyntax.inTarget {line : Line} (hline : line.IsTargetSyntax)
    (helper : List Char) : line.inTarget helper = line.raw := by
  rw [Line.inTarget, withNamedImport?_eq, hline.namedImport?, Option.map_none, withDeclaration?,
    hline.parse?]
  rfl

/-- With braces around its names, an import is in target syntax. -/
theorem isTargetSyntax_namedImport (indentation rest : List Char) :
    IsTargetSyntax ⟨indentation, ['i', 'm', 'p', 'o', 'r', 't'] ++ ' ' :: '\x7b' :: rest⟩ where
  namedImport? := by
    rw [namedImport?_eq (Text.dropLead?_eq_some_iff.mpr rfl)]
    exact if_pos (.inl rfl)
  parse? := Assignment.parse?_eq_none (by simp) (by decide) (by decide) (by decide) rest

/-- A declaration is in target syntax. -/
theorem isTargetSyntax_declaration (indentation : List Char) (scope : Scope) {c : Char}
    (hblank : Text.isBlank c = false) (hcomma : c ≠ ',') (hequals : c ≠ '=') (rest : List Char) :
    IsTargetSyntax ⟨indentation, scope.declaration ++ ' ' :: c :: rest⟩ where
  namedImport? := by cases scope <;> rfl
  parse? := Assignment.parse?_eq_none (by cases scope <;> simp [Scope.declaration]) hblank hcomma
    hequals rest

/-- What a statement becomes is in target syntax, behind the same blanks. -/
theorem ofChars_inTarget (raw helper : List Char) :
    (ofChars ((ofChars raw).inTarget helper)).indentation = (ofChars raw).indentation ∧
      (ofChars ((ofChars raw).inTarget helper)).IsTargetSyntax := by
  have hblanks : ∀ c ∈ (ofChars raw).indentation, Text.isBlank c = true :=
    fun _ hc => List.mem_takeWhile_imp hc
  rw [inTarget, withNamedImport?_eq, withDeclaration?]
  cases himport : (ofChars raw).namedImport? with
  | some cut =>
      have hline : ofChars ((ofChars raw).indentation ++
          ['i', 'm', 'p', 'o', 'r', 't', ' ', '\x7b'] ++ cut.1 ++
            ['\x7d', ' ', 'f', 'r', 'o', 'm'] ++ cut.2) =
          ⟨(ofChars raw).indentation, ['i', 'm', 'p', 'o', 'r', 't'] ++ ' ' :: '\x7b' ::
            (cut.1 ++ (['\x7d', ' ', 'f', 'r', 'o', 'm'] ++ cut.2))⟩ := by
        rw [List.append_assoc, List.append_assoc, List.append_assoc]
        exact ofChars_append_cons hblanks (show Text.isBlank 'i' = false from rfl) _
      rw [Option.map_some, hline]
      exact ⟨rfl, isTargetSyntax_namedImport _ _⟩
  | none =>
      cases hparse : Assignment.parse? (ofChars raw).content with
      | some assignment =>
          obtain ⟨c, rest, hrender, hblank, hcomma, hequals⟩ :=
            Assignment.exists_render_eq hparse (ofChars raw).indentation helper
          have hline : ofChars (assignment.render (ofChars raw).indentation helper) =
              ⟨(ofChars raw).indentation, assignment.scope.declaration ++ ' ' :: c :: rest⟩ := by
            rw [hrender]
            cases assignment.scope <;> exact ofChars_append_cons hblanks (by decide) _
          rw [Option.map_none, Option.map_some, Option.getD_some, hline]
          exact ⟨rfl, isTargetSyntax_declaration _ _ hblank hcomma hequals rest⟩
      | none =>
          rw [Option.map_none, Option.map_none, Option.getD_none, raw_ofChars]
          exact ⟨rfl, himport, hparse⟩

/-- Writing a statement in target syntax keeps its indentation, and once is enough. -/
theorem inTarget_inTarget (raw helper : List Char) :
    (ofChars ((ofChars raw).inTarget helper)).indentation = (ofChars raw).indentation ∧
      (ofChars ((ofChars raw).inTarget helper)).inTarget helper =
        (ofChars raw).inTarget helper := by
  obtain ⟨hindentation, hline⟩ := ofChars_inTarget raw helper
  exact ⟨hindentation, by rw [hline.inTarget, raw_ofChars]⟩

end Line

end Offside
