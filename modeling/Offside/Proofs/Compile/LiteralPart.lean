/-
# Parameters and results around a literal

A parameter loses its annotation and keeps its name and its default value; behind a list of
parameters the type goes and the body stays. Where two texts differ in a literal, the passes
find the same ends of names, types and values in both. So a literal in a type goes in both
texts, and anywhere else it stays in both.

The parts of a text are put together again. For a literal in one of them to be found there in
code, the parts in front of it must leave no literal open. They do not, because each ends where
a scan stops, and what is taken out of it ends there too.
-/

import Offside.Proofs.Compile.LiteralScan
import Offside.Proofs.Compile.TypeEnd

namespace Offside

open WalkState

variable {state : WalkState} {quote : Char} {literal literal' text text' : List Char}

namespace Annotation

/-! ## The tests -/

theorem stopsAtMarks_eq {c : Char} (hmark : isMark c = true) :
    StopsAtMarks fun place => place.char == c := by
  intro place hstop
  rwa [eq_of_beq hstop]

theorem stopsAtMarks_endsName : StopsAtMarks endsName := by
  intro place hstop
  simp only [endsName, Bool.or_eq_true, beq_iff_eq] at hstop
  rcases hstop with hchar | hchar <;> rw [hchar] <;> rfl

theorem stopsAtMarks_isAssignment : StopsAtMarks Place.isAssignment := by
  intro place hstop
  simp only [Place.isAssignment, Bool.and_eq_true, beq_iff_eq] at hstop
  rw [hstop.1.1]
  rfl

theorem stopsAtMarks_beginsBody : StopsAtMarks beginsBody := by
  intro place hstop
  simp only [beginsBody, Bool.and_eq_true, beq_iff_eq] at hstop
  rw [hstop.1]
  rfl

theorem stopsAtMarks_endsDeclaration : StopsAtMarks endsDeclaration := by
  intro place hstop
  rw [endsDeclaration, Bool.or_eq_true] at hstop
  rcases hstop with hsemicolon | hassigns
  · rw [eq_of_beq hsemicolon]
    rfl
  · exact stopsAtMarks_isAssignment place hassigns

/-! ## Names -/

theorem clean_nameOf (hsound : state.Sound) {before : List Char}
    (hclean : (state.run before).Clean) : (state.run (nameOf before)).Clean := by
  obtain ⟨final, hfinal, hname⟩ := Text.dropFinal_append '?' (Text.trimEnd before)
  have hblanks := Text.trimEnd_append before
  rw [← hname, List.append_assoc] at hblanks
  rw [← hblanks] at hclean
  have htail : ∀ c ∈ final ++ (before.reverse.takeWhile Text.isBlank).reverse,
      c = '?' ∨ Text.isBlank c = true := by
    intro c hc
    rcases List.mem_append.mp hc with hc | hc
    · exact .inl (hfinal c hc)
    · exact .inr (List.mem_takeWhile_imp (List.mem_reverse.mp hc))
  refine clean_run_of_append_isInert hsound (fun c hc => ?_) (fun _ c hc => ?_) hclean
  · rcases htail c hc with rfl | hblank
    · rfl
    · exact isInert_of_isBlank hblank
  · rcases htail c (List.mem_of_mem_head? hc) with rfl | hblank
    · exact ⟨by decide, by decide⟩
    · constructor <;> rintro rfl <;> cases hblank

theorem differ_nameOf (hpair : QuotedPair quote literal literal')
    (hdiffer : DifferFrom state literal literal' text text') :
    DifferFrom state literal literal' (nameOf text) (nameOf text') := by
  have htrimmed := hdiffer.dropBack hpair
    (Text.trimEnd_append_cons (isBlank_of_isQuote hpair.isQuote))
  have hquestion : quote ≠ '?' := ne_of_isQuote hpair.isQuote rfl
  have hname := htrimmed.dropBack hpair (Text.dropFinal_append_cons hquestion)
  exact hname

/-! ## Parameters -/

/-- Behind a colon a text is read as at the beginning. -/
theorem sameReading_colon : SameReading (behind ':') {} := sameReading_behind rfl

/-- A blank behind a name leaves it in code. -/
theorem clean_run_blank {before : List Char} (hclean : (state.run before).Clean) :
    (state.run (before ++ [' '])).Clean := by
  rw [run_append_of_seam (seam_cons (by decide) before [])]
  exact (step_of_isInert hclean rfl none).2

theorem clean_plainParameter {parameter : List Char}
    (hclean : (WalkState.run {} parameter).Clean) :
    (WalkState.run {} (plainParameter parameter)).Clean := by
  by_cases htyped : IsTypedParameter parameter
  · obtain ⟨before, typed, hcut⟩ := htyped
    have hparameter : before ++ ':' :: typed = parameter := TopLevelScan.append_of_cut? hcut
    obtain ⟨hbefore, -⟩ := TopLevelScan.clean_of_cut? clean_init.sound stopsAtMarks_endsName hcut
    have hname := clean_nameOf clean_init.sound hbefore
    rw [plainParameter_of_cut hcut]
    split
    · rename_i type value hvalue
      obtain ⟨htype, c, rest, hmark, rfl⟩ :=
        TopLevelScan.clean_of_cut? clean_init.sound stopsAtMarks_isAssignment hvalue
      have htypedText : type ++ c :: rest = typed := TopLevelScan.append_of_cut? hvalue
      -- The value is read as it was behind the type.
      rw [← hparameter, run_append_mark hbefore rfl] at hclean
      have hinside := sameReading_colon.clean_run hclean
      rw [← htypedText, run_append_mark htype hmark] at hinside
      rw [← List.singleton_append, ← List.append_assoc,
        run_append_mark (clean_run_blank hname) hmark]
      exact hinside
    · exact hname
  · rwa [plainParameter_of_not htyped]

/-- A literal does not decide whether a parameter has an annotation. -/
theorem isTypedParameter_iff (hpair : QuotedPair quote literal literal')
    (hdiffer : DifferFrom {} literal literal' text text') :
    IsTypedParameter text' ↔ IsTypedParameter text := by
  have hcuts := cutTopLevel?_differ hpair stopsAtMarks_endsName hdiffer
  change (∃ before typed, cutTopLevel? endsName text' = some (before, ':' :: typed)) ↔
    ∃ before typed, cutTopLevel? endsName text = some (before, ':' :: typed)
  generalize cutTopLevel? endsName text = cut at hcuts ⊢
  generalize cutTopLevel? endsName text' = cut' at hcuts ⊢
  cases hcuts <;> simp

theorem agree_plainParameter (hpair : QuotedPair quote literal literal')
    (hdiffer : DifferFrom {} literal literal' text text') :
    AgreeFrom {} literal literal' (plainParameter text) (plainParameter text') := by
  by_cases htyped : IsTypedParameter text
  · obtain ⟨before', typed', hcut'⟩ := (isTypedParameter_iff hpair hdiffer).mpr htyped
    obtain ⟨before, typed, hcut⟩ := htyped
    rw [plainParameter_of_cut hcut, plainParameter_of_cut hcut']
    have hcuts : TopLevelScan.CutsDiffer {} literal literal' (some (before, ':' :: typed))
        (some (before', ':' :: typed')) :=
      hcut ▸ hcut' ▸ cutTopLevel?_differ hpair stopsAtMarks_endsName hdiffer
    cases hcuts with
    | inFront _ hbefore hfound =>
        have hcuts := cutType?_differ hpair stopsAtMarks_isAssignment
          (hfound.congr sameReading_colon)
        generalize cutType? Place.isAssignment typed = cut at hcuts ⊢
        generalize cutType? Place.isAssignment typed' = cut' at hcuts ⊢
        cases hcuts with
        | none => exact .inl rfl
        | behind => exact .inl rfl
        | inFront hmark _ hvalue =>
            have hname := clean_run_blank (clean_nameOf clean_init.sound hbefore)
            have hresult := hvalue.prepend hname hmark
            rw [List.append_assoc, List.append_assoc] at hresult
            exact .inr hresult
    | behind hbefore =>
        have hname := differ_nameOf hpair hbefore
        split
        · exact .inr (hname.append _)
        · exact .inr hname
  · have htyped' : ¬ IsTypedParameter text' := fun htyped' =>
      htyped ((isTypedParameter_iff hpair hdiffer).mp htyped')
    rw [plainParameter_of_not htyped, plainParameter_of_not htyped']
    exact .inr hdiffer

/-! ## Lists of parameters -/

/-- Where a text leaves no literal open, none of its parts does. -/
theorem clean_of_splits {separator : Char} (hmark : isMark separator = true)
    (hoperand : expectsOperand separator = true) {parts : List (List Char)}
    (hsplits : Splits separator text parts) (hclean : (WalkState.run {} text).Clean) :
    ∀ part ∈ parts, (WalkState.run {} part).Clean := by
  induction hsplits with
  | last => exact List.forall_mem_singleton.mpr hclean
  | round hcut _ ih =>
      obtain ⟨hbefore, -⟩ :=
        TopLevelScan.clean_of_cut? clean_init.sound (stopsAtMarks_eq hmark) hcut
      rw [← TopLevelScan.append_of_cut? hcut, run_append_mark hbefore hmark] at hclean
      have hrest := (sameReading_behind hoperand).clean_run hclean
      exact List.forall_mem_cons.mpr ⟨hbefore, ih hrest⟩

theorem clean_intercalate {separator : Char} (hmark : isMark separator = true)
    (hoperand : expectsOperand separator = true) {parts : List (List Char)}
    (hparts : ∀ part ∈ parts, (WalkState.run {} part).Clean) :
    (WalkState.run {} ([separator].intercalate parts)).Clean := by
  induction parts with
  | nil => exact clean_init
  | cons part parts ih =>
      rw [List.forall_mem_cons] at hparts
      cases parts with
      | nil => simpa using hparts.1
      | cons next parts =>
          rw [List.intercalate_cons_cons, List.append_assoc, List.singleton_append,
            run_append_mark hparts.1 hmark]
          exact (sameReading_behind hoperand).symm.clean_run (ih hparts.2)

/-- Of the parts of two texts that differ in a literal, all are the same but one. -/
theorem exists_of_splits {separator : Char} (hpair : QuotedPair quote literal literal')
    (hmark : isMark separator = true) (hoperand : expectsOperand separator = true)
    {parts parts' : List (List Char)} (hsplits : Splits separator text parts)
    (hsplits' : Splits separator text' parts')
    (hdiffer : DifferFrom {} literal literal' text text') :
    ∃ before part part' after, parts = before ++ part :: after ∧
      parts' = before ++ part' :: after ∧ DifferFrom {} literal literal' part part' ∧
      ∀ part ∈ before, (WalkState.run {} part).Clean := by
  induction hsplits generalizing text' parts' with
  | last hcut =>
      have hcuts := cutTopLevel?_differ hpair (stopsAtMarks_eq hmark) hdiffer
      rw [hcut] at hcuts
      cases hsplits' with
      | last => exact ⟨[], _, text', [], rfl, rfl, hdiffer, by simp⟩
      | round hcut' =>
          rw [hcut'] at hcuts
          cases hcuts
  | round hcut hrest ih =>
      have hcuts := cutTopLevel?_differ hpair (stopsAtMarks_eq hmark) hdiffer
      rw [hcut] at hcuts
      cases hsplits' with
      | last hcut' =>
          rw [hcut'] at hcuts
          cases hcuts
      | round hcut' hrest' =>
          rw [hcut'] at hcuts
          cases hcuts with
          | behind hfront =>
              -- What is left is the same text, so all that follows is the same.
              obtain rfl := (splits_iff.mp hrest).symm.trans (splits_iff.mp hrest')
              exact ⟨[], _, _, _, rfl, rfl, hfront, by simp⟩
          | inFront _ hfront hdiffer' =>
              obtain ⟨before, part, part', after, rfl, rfl, hpart, hbefore⟩ :=
                ih hrest' (hdiffer'.congr (sameReading_behind hoperand))
              exact ⟨_ :: before, part, part', after, rfl, rfl, hpart,
                List.forall_mem_cons.mpr ⟨hfront, hbefore⟩⟩

theorem agree_intercalate {separator : Char} (hmark : isMark separator = true)
    (hoperand : expectsOperand separator = true) {before after : List (List Char)}
    {part part' : List Char} (hbefore : ∀ part ∈ before, (WalkState.run {} part).Clean)
    (hpart : AgreeFrom {} literal literal' part part') :
    AgreeFrom {} literal literal' ([separator].intercalate (before ++ part :: after))
      ([separator].intercalate (before ++ part' :: after)) := by
  induction before with
  | nil =>
      cases after with
      | nil => simpa using hpart
      | cons next after =>
          rw [List.nil_append, List.nil_append, List.intercalate_cons_cons,
            List.intercalate_cons_cons, List.append_assoc, List.append_assoc]
          exact hpart.append _
  | cons first before ih =>
      rw [List.forall_mem_cons] at hbefore
      rw [List.cons_append, List.cons_append, List.intercalate_cons_of_ne_nil (by simp),
        List.intercalate_cons_of_ne_nil (by simp), List.append_assoc, List.append_assoc,
        List.singleton_append, List.singleton_append]
      exact AgreeFrom.prepend hbefore.1 hmark
        ((ih hbefore.2).congr (sameReading_behind hoperand).symm)

/-- The parameters of two lists that differ in a literal, without their annotations. -/
theorem agree_parameters (hpair : QuotedPair quote literal literal')
    (hdiffer : DifferFrom {} literal literal' text text') :
    AgreeFrom {} literal literal'
      ([','].intercalate ((topLevelParts ',' text).map plainParameter))
      ([','].intercalate ((topLevelParts ',' text').map plainParameter)) := by
  obtain ⟨before, part, part', after, hparts, hparts', hpart, hbefore⟩ :=
    exists_of_splits hpair rfl rfl (splits_topLevelParts ',' text) (splits_topLevelParts ',' text')
      hdiffer
  rw [hparts, hparts', List.map_append, List.map_append, List.map_cons, List.map_cons]
  refine agree_intercalate rfl rfl ?_ (agree_plainParameter hpair hpart)
  intro plain hplain
  obtain ⟨parameter, hmem, rfl⟩ := List.mem_map.mp hplain
  exact clean_plainParameter (hbefore parameter hmem)

/-- Whether a list has a parameter with an annotation is not up to the literal in it. -/
theorem exists_isTypedParameter_iff (hpair : QuotedPair quote literal literal')
    (hdiffer : DifferFrom {} literal literal' text text') :
    (∃ parameter ∈ topLevelParts ',' text', IsTypedParameter parameter) ↔
      ∃ parameter ∈ topLevelParts ',' text, IsTypedParameter parameter := by
  obtain ⟨before, part, part', after, hparts, hparts', hpart, -⟩ :=
    exists_of_splits hpair rfl rfl (splits_topLevelParts ',' text) (splits_topLevelParts ',' text')
      hdiffer
  rw [hparts, hparts']
  simp only [List.mem_append, List.mem_cons, or_and_right, exists_or, exists_eq_left,
    isTypedParameter_iff hpair hpart]

theorem clean_parameters (hclean : (WalkState.run {} text).Clean) :
    (WalkState.run {} ([','].intercalate ((topLevelParts ',' text).map plainParameter))).Clean := by
  apply clean_intercalate rfl rfl
  intro plain hplain
  obtain ⟨parameter, hmem, rfl⟩ := List.mem_map.mp hplain
  exact clean_plainParameter
    (clean_of_splits rfl rfl (splits_topLevelParts ',' text) hclean parameter hmem)

/-! ## Results -/

/-- Blanks leave a walk in code. -/
theorem clean_run_blanks (hstate : state.Clean) (text : List Char) :
    (state.run (text.takeWhile Text.isBlank)).Clean :=
  (nests_of_isInert (fun _ hc => isInert_of_isBlank (List.mem_takeWhile_imp hc)) []).clean state
    hstate

/-- Whether a text begins with a colon is not up to the literal in it. -/
theorem exists_typed (hpair : QuotedPair quote literal literal') (hstate : state.Clean)
    (hdiffer : DifferFrom state literal literal' text text') {typed : List Char}
    (htrim : Text.trimStart text = ':' :: typed) :
    ∃ typed', Text.trimStart text' = ':' :: typed' ∧
      DifferFrom {} literal literal' typed typed' := by
  obtain ⟨front, back, rfl, rfl, hclean⟩ := hdiffer
  have htrimmed : ∀ other, IsQuoted quote other →
      Text.trimStart (front ++ other ++ back) = Text.trimStart front ++ (other ++ back) := by
    rintro other ⟨body, rfl, -⟩
    rw [List.append_assoc, List.cons_append, List.cons_append,
      Text.trimStart_append_cons (isBlank_of_isQuote hpair.isQuote)]
  rw [htrimmed literal hpair.first] at htrim
  rw [htrimmed literal' hpair.second]
  cases hfront : Text.trimStart front with
  | nil =>
      obtain ⟨body, rfl, -⟩ := hpair.first
      rw [hfront] at htrim
      exact absurd (List.cons.inj htrim).1 (ne_of_isQuote hpair.isQuote rfl)
  | cons c inner =>
      rw [hfront] at htrim
      obtain ⟨rfl, rfl⟩ := List.cons.inj htrim
      refine ⟨inner ++ (literal' ++ back), rfl, inner, back, by simp, by simp, ?_⟩
      have hblanks := Text.takeWhile_append_trimStart front
      rw [hfront] at hblanks
      rw [← hblanks, run_append_mark (clean_run_blanks hstate front) rfl] at hclean
      exact sameReading_colon.clean_run hclean

/-- Whether a type stands behind a list of parameters is not up to the literal in it. -/
theorem IsTypedResult.differ (hpair : QuotedPair quote literal literal') (hstate : state.Clean)
    (hdiffer : DifferFrom state literal literal' text text') (htyped : IsTypedResult text) :
    IsTypedResult text' := by
  obtain ⟨typed, cut, htrim, hcut⟩ := htyped
  obtain ⟨typed', htrim', htypes⟩ := exists_typed hpair hstate hdiffer htrim
  have hcuts := cutType?_differ hpair stopsAtMarks_beginsBody htypes
  change cutType? beginsBody typed = some cut at hcut
  rw [hcut] at hcuts
  generalize hcut' : cutType? beginsBody typed' = cut' at hcuts
  cases hcuts with
  | inFront => exact ⟨typed', _, htrim', hcut'⟩
  | behind => exact ⟨typed', _, htrim', hcut'⟩

theorem agree_plainResult (hpair : QuotedPair quote literal literal')
    (hdiffer : DifferFrom (behind ')') literal literal' text text') :
    AgreeFrom (behind ')') literal literal' (plainResult text) (plainResult text') := by
  by_cases htyped : IsTypedResult text
  · obtain ⟨typed, ⟨type, body⟩, htrim, hcut⟩ := htyped
    obtain ⟨typed', htrim', htypes⟩ :=
      exists_typed hpair (clean_behind ')') hdiffer htrim
    have hcuts := cutType?_differ hpair stopsAtMarks_beginsBody htypes
    change cutType? beginsBody typed = some (type, body) at hcut
    rw [hcut] at hcuts
    generalize hcut' : cutType? beginsBody typed' = cut' at hcuts
    cases hcuts with
    | inFront hmark _ hbody =>
        rw [plainResult_of_cut htrim hcut, plainResult_of_cut htrim' hcut']
        have hblank := @clean_run_blank (behind ')') [] (clean_behind ')')
        exact .inr (DifferFrom.prepend hblank hmark hbody)
    | behind =>
        rw [plainResult_of_cut htrim hcut, plainResult_of_cut htrim' hcut']
        exact .inl rfl
  · have htyped' : ¬ IsTypedResult text' := fun htyped' =>
      htyped (htyped'.differ hpair.symm (clean_behind ')') hdiffer.symm)
    rw [plainResult_of_not htyped, plainResult_of_not htyped']
    exact .inr hdiffer

/-- A list of parameters and what follows it, in two texts that differ in a literal. -/
theorem agree_parameters_result (hpair : QuotedPair quote literal literal')
    {inner inner' parameters parameters' rest rest' : List Char}
    (hdiffer : DifferFrom {} literal literal' inner inner')
    (hclose : cutTopLevel? (·.char == ')') inner = some (parameters, ')' :: rest))
    (hclose' : cutTopLevel? (·.char == ')') inner' = some (parameters', ')' :: rest')) :
    AgreeFrom {} literal literal'
      ([','].intercalate ((topLevelParts ',' parameters).map plainParameter) ++
        ')' :: plainResult rest)
      ([','].intercalate ((topLevelParts ',' parameters').map plainParameter) ++
        ')' :: plainResult rest') := by
  have hcuts := cutTopLevel?_differ hpair (@stopsAtMarks_eq ')' rfl) hdiffer
  rw [hclose, hclose'] at hcuts
  cases hcuts with
  | inFront _ hparameters hrest =>
      exact AgreeFrom.prepend (clean_parameters hparameters) rfl (agree_plainResult hpair hrest)
  | behind hparameters => exact (agree_parameters hpair hparameters).append _

end Annotation

end Offside
