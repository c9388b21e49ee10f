/-
# Statements of lines with carriage returns

A carriage return in the middle of a statement stands in front of a backslash and an `n`.
The pattern of imports sees a blank there, but no `from` behind it. The search for operators
is in the same state behind the three characters as behind the last two, whatever it was in
front of them. So the cuts are the same, and the segments of a statement are the same but for
the carriage returns. A target list has no backslash, so one that is cut off in front of an
operator has no carriage return either.
-/

import Offside.Proofs.Statement.Import
import Offside.Proofs.Statement.Segments
import Offside.Proofs.Text.LineEnding

namespace Offside

variable {ends behind : Bool} {text text' : List Char}

/-! ## Imports -/

namespace Import

/-- A carriage return is no word character, and neither is the backslash behind it. -/
theorem startsOffWord_eq (htexts : WithReturns ends behind text text') :
    Text.startsOffWord text' = Text.startsOffWord text := by
  have hreturn : Text.isWord '\r' = false := by decide
  have hbackslash : Text.isWord '\\' = false := by decide
  cases htexts with
  | nil | keep => rfl
  | last => simp [Text.startsOffWord, hreturn]
  | feed => simp [Text.startsOffWord, hreturn, hbackslash]

theorem behindFrom?_withReturns (htexts : WithReturns ends behind text text') :
    Option.Rel (WithReturns ends behind) (behindFrom? text) (behindFrom? text') := by
  have hletters : ['f', 'r', 'o', 'm'].all Char.isAlpha = true := rfl
  have hword := htexts.trimStart.dropLead? hletters
  cases htexts with
  | nil | last | feed =>
      -- No letter follows the carriage return.
      exact .none
  | @keep _ c text text' =>
      unfold behindFrom?
      rw [List.head?_cons, List.head?_cons]
      split
      · exact .none
      · refine bind_rel hword fun rest _ rest' _ hrest => ?_
        obtain ⟨hfeed, hfeed'⟩ := hrest.contains_lineFeed
        simp only [startsOffWord_eq hrest, hfeed, hfeed']
        split
        · exact .some hrest
        · exact .none

/-- Two cuts of an import that are the same but for carriage returns. -/
structure CutAlike (cut cut' : List Char × List Char) : Prop where
  names : WithReturns false true cut.1 cut'.1
  rest : WithReturns true true cut.2 cut'.2

theorem behindFrom?_cons {c : Char} (hc : Text.isBlank c = false) (rest : List Char) :
    behindFrom? (c :: rest) = none := by
  simp [behindFrom?, hc]

theorem cutNames?_cons_eq_or {c : Char} (hc : '\n' ≠ c) (rest : List Char) :
    cutNames? (c :: rest) = ((behindFrom? rest).map ([c], ·)).or
      ((cutNames? rest).map fun cut => (c :: cut.1, cut.2)) := by
  rw [cutNames?_cons hc]
  cases behindFrom? rest <;> rfl

theorem cutBehindBlanks?_cons_of_isBlank {c : Char} (hc : Text.isBlank c = true)
    (rest : List Char) :
    cutBehindBlanks? (c :: rest) = (cutBehindBlanks? rest).or (cutNames? rest) := by
  rw [cutBehindBlanks?, if_pos hc]
  cases cutBehindBlanks? rest <;> rfl

theorem cutNames?_cons_of_not_blank {c d : Char} (hc : '\n' ≠ c) (hd : Text.isBlank d = false)
    (rest : List Char) :
    cutNames? (c :: d :: rest) = (cutNames? (d :: rest)).map fun cut => (c :: cut.1, cut.2) := by
  rw [cutNames?_cons hc, behindFrom?_cons hd]

/-- One more character in front of both texts. -/
theorem cutNames?_cons_alike {c : Char} (hreturn : c ≠ '\r') (hfeed : c ≠ '\n')
    (hrest : WithReturns true behind text text')
    (hcuts : Option.Rel CutAlike (cutNames? text) (cutNames? text')) :
    Option.Rel CutAlike (cutNames? (c :: text)) (cutNames? (c :: text')) := by
  rw [cutNames?_cons_eq_or hfeed.symm, cutNames?_cons_eq_or hfeed.symm]
  refine or_rel (map_rel (behindFrom?_withReturns hrest) fun _ _ hbehind => ?_)
    (map_rel hcuts fun _ _ halike => ?_)
  · exact ⟨.keep hreturn hfeed .nil, hbehind.mono_behind⟩
  · exact ⟨.keep hreturn hfeed halike.names, halike.rest⟩

theorem cutNames?_alike (htexts : WithReturns true behind text text') :
    Option.Rel CutAlike (cutNames? text) (cutNames? text') := by
  induction htexts with
  | nil | last => exact .none
  | keep hreturn hfeed hrest ih => exact cutNames?_cons_alike hreturn hfeed hrest ih
  | @feed _ text text' _ hrest ih =>
      have hcuts := cutNames?_cons_alike (show 'n' ≠ '\r' by decide) (by decide) hrest ih
      have hbackslash : '\n' ≠ '\\' := by decide
      have hreturn : '\n' ≠ '\r' := by decide
      rw [cutNames?_cons_of_not_blank hbackslash rfl, cutNames?_cons_of_not_blank hreturn rfl,
        cutNames?_cons_of_not_blank hbackslash rfl, Option.map_map]
      have hfirst : ∀ text, ∀ cut ∈ cutNames? ('n' :: text), ∃ more, cut.1 = 'n' :: more :=
        fun _ _ hcut => exists_of_cutNames?_cons (Option.mem_def.mp hcut)
      have hnames := hfirst text
      have hnames' := hfirst text'
      generalize cutNames? ('n' :: text) = found at hcuts hnames ⊢
      generalize cutNames? ('n' :: text') = found' at hcuts hnames' ⊢
      cases hcuts with
      | none => exact .none
      | @some cut cut' halike =>
          obtain ⟨more, hmore⟩ := hnames cut rfl
          obtain ⟨more', hmore'⟩ := hnames' cut' rfl
          have hinner := halike.names
          rw [hmore, hmore'] at hinner
          cases hinner with
          | keep _ _ hinner =>
              refine .some ⟨?_, halike.rest⟩
              simpa [hmore, hmore'] using WithReturns.feed rfl hinner

theorem cutBehindBlanks?_alike (htexts : WithReturns true behind text text')
    (hbehind : behind = false) :
    Option.Rel CutAlike (cutBehindBlanks? text) (cutBehindBlanks? text') := by
  induction htexts with
  | nil | last => exact .none
  | @keep behind c text text' _ _ hrest ih =>
      cases hblank : Text.isBlank c with
      | false =>
          simp only [cutBehindBlanks?, hblank, Bool.false_eq_true, if_false]
          exact .none
      | true =>
          have hplain : (behind || !Token.isPlain c) = false := by
            rw [hbehind, Text.isPlain_of_isBlank hblank]
            rfl
          rw [cutBehindBlanks?_cons_of_isBlank hblank, cutBehindBlanks?_cons_of_isBlank hblank]
          exact or_rel (ih hplain) (cutNames?_alike hrest)
  | feed htrue => exact absurd (htrue.symm.trans hbehind) (by decide)

end Import

/-- Two lines that are the same but for carriage returns in their contents. -/
structure Line.Alike (line line' : Line) : Prop where
  indentation : line'.indentation = line.indentation
  returnFree : '\r' ∉ line.indentation
  content : WithReturns true false line.content line'.content

theorem Line.Alike.namedImport? {line line' : Line} (halike : line.Alike line') :
    Option.Rel Import.CutAlike line.namedImport? line'.namedImport? := by
  have hletters : ['i', 'm', 'p', 'o', 'r', 't'].all Char.isAlpha = true := rfl
  refine filter_rel (bind_rel (halike.content.dropLead? hletters) fun rest _ rest' _ hrest =>
    Import.cutBehindBlanks?_alike hrest rfl) fun cut cut' hcut => ?_
  have hhead : ∀ d, d ≠ '\\' → d ≠ '\r' →
      (cut'.1.head? == some d) = (cut.1.head? == some d) := fun d hd hd' => by
    rw [Bool.eq_iff_iff, beq_iff_eq, beq_iff_eq, hcut.names.head?_eq_some_iff hd hd']
  rw [hhead _ (by decide) (by decide), hhead _ (by decide) (by decide)]

theorem Line.Alike.map_dropReturns_withNamedImport? {line line' : Line}
    (halike : line.Alike line') :
    line'.withNamedImport?.map Text.dropReturns = line.withNamedImport? := by
  have himports := halike.namedImport?
  rw [Line.withNamedImport?_eq, Line.withNamedImport?_eq, halike.indentation]
  generalize line.namedImport? = found at himports ⊢
  generalize line'.namedImport? = found' at himports ⊢
  cases himports with
  | none => rfl
  | some hcut =>
      have hfront : '\r' ∉ ['i', 'm', 'p', 'o', 'r', 't', ' ', '\x7b'] := by decide
      have hmiddle : '\r' ∉ ['\x7d', ' ', 'f', 'r', 'o', 'm'] := by decide
      simp only [Option.map_some, Text.dropReturns_append, hcut.names.dropReturns_eq,
        hcut.rest.dropReturns_eq, Text.dropReturns_of_notMem halike.returnFree,
        Text.dropReturns_of_notMem hfront, Text.dropReturns_of_notMem hmiddle]

/-! ## Operators -/

/-- The segments of two statements, which are the same but for carriage returns. -/
inductive SegmentsAlike : List (List Char) → List (List Char) → Prop
  /-- The last segment may end in a carriage return. -/
  | last {segment segment' : List Char} (hsegment : WithReturns true true segment segment') :
      SegmentsAlike [segment] [segment']
  /-- In front of an operator no segment does. -/
  | cons {segment segment' : List Char} {others others' : List (List Char)}
      (hsegment : WithReturns false true segment segment')
      (hothers : SegmentsAlike others others') :
      SegmentsAlike (segment :: others) (segment' :: others')

namespace SegmentsAlike

variable {others others' : List (List Char)}

theorem ne_nil (halike : SegmentsAlike others others') : others ≠ [] ∧ others' ≠ [] := by
  cases halike <;> simp

theorem modifyHead {add add' : List Char → List Char} (halike : SegmentsAlike others others')
    (hadd : ∀ {ends segment segment'}, WithReturns ends true segment segment' →
      WithReturns ends true (add segment) (add' segment')) :
    SegmentsAlike (others.modifyHead add) (others'.modifyHead add') := by
  cases halike with
  | last hsegment => exact .last (hadd hsegment)
  | cons hsegment hothers => exact .cons (hadd hsegment) hothers

theorem intercalate (halike : SegmentsAlike others others') :
    WithReturns true true (List.intercalate ['='] others) (List.intercalate ['='] others') := by
  induction halike with
  | last hsegment => simpa using hsegment
  | cons hsegment hothers ih =>
      rw [List.intercalate_cons_of_ne_nil hothers.ne_nil.1,
        List.intercalate_cons_of_ne_nil hothers.ne_nil.2, List.append_assoc, List.append_assoc]
      exact hsegment.append (.keep (by decide) (by decide) ih)

end SegmentsAlike

/-! ### Looking ahead -/

/-- What stands ahead is the same, as far as operators and slashes are concerned. -/
def SameAhead (ahead ahead' : Option Char) : Prop :=
  ∀ d, d ≠ '\\' → d ≠ '\r' → (ahead' = some d ↔ ahead = some d)

theorem WithReturns.sameAhead (htexts : WithReturns ends behind text text') :
    SameAhead text.head? text'.head? := fun _ hd hd' => htexts.head?_eq_some_iff hd hd'

section SameAhead

variable {ahead ahead' : Option Char}

theorem SameAhead.bne_some (hahead : SameAhead ahead ahead') {d : Char} (hd : d ≠ '\\')
    (hd' : d ≠ '\r') : (ahead' != some d) = (ahead != some d) := by
  rw [bne, bne, Bool.eq_iff_iff, Bool.not_eq_true', Bool.not_eq_true', beq_eq_false_iff_ne,
    beq_eq_false_iff_ne, ne_eq, ne_eq, hahead d hd hd']

theorem WalkState.step_of_sameAhead (hahead : SameAhead ahead ahead') (state : WalkState)
    (c : Char) : state.step c ahead' = state.step c ahead := by
  have hopens : state.opensRegex ahead' = state.opensRegex ahead := by
    rw [opensRegex, opensRegex, hahead.bne_some (by decide) (by decide),
      hahead.bne_some (by decide) (by decide)]
  rw [step, step, hopens]

theorem OperatorScan.advance_of_sameAhead (hahead : SameAhead ahead ahead') (scan : OperatorScan)
    (c : Char) : scan.advance c ahead' = scan.advance c ahead := by
  rw [advance, advance, WalkState.step_of_sameAhead hahead]

theorem OperatorScan.isOperator_of_sameAhead (hahead : SameAhead ahead ahead')
    (scan : OperatorScan) (c : Char) : scan.isOperator c ahead' = scan.isOperator c ahead := by
  rw [isOperator, isOperator, WalkState.step_of_sameAhead hahead,
    hahead.bne_some (by decide) (by decide), hahead.bne_some (by decide) (by decide)]

end SameAhead

theorem OperatorScan.advance_of_depthAfter {c : Char} (hc : ∀ depth, depthAfter depth c = depth)
    (scan : OperatorScan) (ahead : Option Char) :
    scan.advance c ahead = ⟨(scan.walk.step c ahead).2, scan.depth, some c⟩ := by
  simp [advance, hc]

/-- Behind an escaped line feed a walk is where it would be without the carriage return in
front: in a literal no backslash protects what comes next, and in code the `n` was the last
character. -/
theorem WalkState.step_return {state : WalkState} (hsound : state.Sound)
    (first second third second' third' : Option Char) :
    (((state.step '\r' first).2.step '\\' second).2.step 'n' third).2 =
      ((state.step '\\' second').2.step 'n' third').2 := by
  have hclean := hsound.escaped
  have hdelimiter : ∀ quote ∈ state.openQuote, '\r' ≠ quote ∧ 'n' ≠ quote := by
    intro quote hquote
    rcases hsound.delimiter quote hquote with hdelimiter | rfl
    · constructor <;> rintro rfl <;> cases hdelimiter
    · decide
  obtain ⟨openQuote, escaped, inClass, lastCode⟩ := state
  cases openQuote with
  | none =>
      obtain rfl : escaped = false := hclean rfl
      rfl
  | some quote =>
      obtain ⟨hreturn, hn⟩ := hdelimiter quote rfl
      cases escaped <;> simp [step, hreturn, hn]

/-- Behind an escaped line feed the search is where it would be without the carriage return in
front. -/
theorem OperatorScan.advance_return {scan : OperatorScan} (hsound : scan.walk.Sound)
    (first second third second' third' : Option Char) :
    ((scan.advance '\r' first).advance '\\' second).advance 'n' third =
      (scan.advance '\\' second').advance 'n' third' := by
  have hreturn : ∀ depth, depthAfter depth '\r' = depth := fun _ => rfl
  have hbackslash : ∀ depth, depthAfter depth '\\' = depth := fun _ => rfl
  have hn : ∀ depth, depthAfter depth 'n' = depth := fun _ => rfl
  simp only [advance_of_depthAfter hreturn, advance_of_depthAfter hbackslash,
    advance_of_depthAfter hn]
  rw [WalkState.step_return hsound]

theorem segmentsFrom_alike (htexts : WithReturns true behind text text') {scan : OperatorScan}
    (hsound : scan.walk.Sound) :
    SegmentsAlike (segmentsFrom scan text) (segmentsFrom scan text') := by
  induction htexts generalizing scan with
  | nil => exact .last .nil
  | last => exact .last (.last rfl)
  | @keep _ c text text' hreturn hfeed hrest ih =>
      have halike := @ih (scan.advance c text.head?) (hsound.step c text.head?)
      rw [segmentsFrom_cons, segmentsFrom_cons, scan.isOperator_of_sameAhead hrest.sameAhead,
        scan.advance_of_sameAhead hrest.sameAhead]
      split
      · exact .cons .nil halike
      · exact halike.modifyHead fun hsegment => .keep hreturn hfeed hsegment
  | @feed _ text text' _ hrest ih =>
      have hone : ∀ {c : Char}, c ≠ '=' → ∀ scan rest, segmentsFrom scan (c :: rest) =
          (segmentsFrom (scan.advance c rest.head?) rest).modifyHead (c :: ·) := by
        intro c hc scan rest
        rw [segmentsFrom_cons, OperatorScan.isOperator_of_ne hc, if_neg Bool.false_ne_true]
      have hbackslash : '\\' ≠ '=' := by decide
      have hn : 'n' ≠ '=' := by decide
      have hreturn : '\r' ≠ '=' := by decide
      have halike := @ih ((scan.advance '\\' (some 'n')).advance 'n' text.head?)
        ((hsound.step '\\' (some 'n')).step 'n' text.head?)
      rw [hone hbackslash, hone hn, hone hreturn, hone hbackslash, hone hn,
        OperatorScan.advance_return hsound _ _ _ (some 'n') text.head?, List.modifyHead_modifyHead,
        List.modifyHead_modifyHead, List.modifyHead_modifyHead]
      exact halike.modifyHead fun hsegment => .feed rfl hsegment

/-! ## Assignments -/

namespace Assignment

/-- Two assignments to the same targets, whose values are the same but for carriage returns. -/
structure Alike (assignment assignment' : Assignment) : Prop where
  scope : assignment'.scope = assignment.scope
  targets : assignment'.targets = assignment.targets
  returnFree : ∀ target ∈ assignment.targets, '\r' ∉ target
  expression : WithReturns false true assignment.expression assignment'.expression

/-- A target list has no backslash, so it has no carriage return. -/
theorem eq_of_areTargets (htexts : WithReturns false behind text text') :
    areTargets text' = areTargets text ∧ (areTargets text = true → text' = text) := by
  rcases htexts.eq_or_mem with rfl | ⟨hmem, hmem'⟩
  · exact ⟨rfl, fun _ => rfl⟩
  · have hnone : ∀ segment : List Char, '\\' ∈ segment → areTargets segment = false := by
      intro segment hmem
      by_contra htargets
      rw [Bool.not_eq_false] at htargets
      exact absurd (isTargetPart_of_areTargets htargets '\\' hmem) (by decide)
    rw [hnone text hmem, hnone text' hmem']
    exact ⟨rfl, fun hfalse => Bool.noConfusion hfalse⟩

theorem cutTargets_alike {others others' : List (List Char)}
    (halike : SegmentsAlike others others') :
    (cutTargets others').1 = (cutTargets others).1 ∧
      SegmentsAlike (cutTargets others).2 (cutTargets others').2 := by
  induction halike with
  | last hsegment => exact ⟨rfl, .last hsegment⟩
  | @cons segment segment' _ _ hsegment hothers ih =>
      obtain ⟨hsame, heq⟩ := eq_of_areTargets hsegment
      rw [cutTargets_cons segment hothers.ne_nil.1, cutTargets_cons segment' hothers.ne_nil.2,
        hsame]
      split
      · rename_i htargets
        rw [heq htargets, ih.1]
        exact ⟨rfl, ih.2⟩
      · exact ⟨rfl, .cons hsegment hothers⟩

theorem expressionOf_withReturns {others others' : List (List Char)}
    (halike : SegmentsAlike others others') :
    WithReturns false true (expressionOf others) (expressionOf others') :=
  (halike.intercalate.trim.dropFinal (by decide) (by decide) (by decide)).trimEnd

/-- Targets are made of characters of the statement. -/
theorem notMem_of_mem_cutTargets {c : Char} (hc : c ∉ text) :
    ∀ target ∈ (cutTargets (segments text)).1, c ∉ target := by
  obtain ⟨names, hsplit, htrim, -⟩ := cutTargets_append (segments text)
  rw [htrim, List.forall_mem_map]
  intro name hname hmem
  have hsegment : name ∈ segments text := hsplit ▸ List.mem_append_left _ hname
  rw [← intercalate_segments text] at hc
  exact hc (Text.mem_intercalate_of_mem hsegment (Text.mem_of_mem_trim hmem))

theorem parseTargets?_alike (htexts : WithReturns true behind text text') (scope : Scope) :
    Option.Rel Alike (parseTargets? scope text) (parseTargets? scope text') := by
  have hsegments : SegmentsAlike (segments text) (segments text') :=
    segmentsFrom_alike htexts WalkState.clean_init.sound
  obtain ⟨htargets, hothers⟩ := cutTargets_alike hsegments
  have hexpression := expressionOf_withReturns hothers
  have hread : ∀ text, parseTargets? scope text =
      if (cutTargets (segments text)).1.isEmpty ||
          (expressionOf (cutTargets (segments text)).2).isEmpty then none
      else some ⟨scope, (cutTargets (segments text)).1,
        expressionOf (cutTargets (segments text)).2⟩ := fun _ => rfl
  rw [hread, hread, htargets, hexpression.isEmpty_eq]
  split
  · exact .none
  · exact .some ⟨rfl, rfl, notMem_of_mem_cutTargets htexts.notMem.1, hexpression⟩

theorem worded?_bind_alike (htexts : WithReturns true false text text') (scope : Scope)
    {word : List Char} (hletters : word.all Char.isAlpha = true) :
    Option.Rel Alike ((Scope.split.worded? text word).bind (parseTargets? scope))
      ((Scope.split.worded? text' word).bind (parseTargets? scope)) := by
  have hread : ∀ content, (Scope.split.worded? content word).bind (parseTargets? scope) =
      (Text.dropLead? word content).bind fun rest =>
        if (rest.head?.map Text.isBlank).getD false then parseTargets? scope rest else none := by
    intro content
    rw [Scope.split.worded?]
    cases Text.dropLead? word content with
    | none => rfl
    | some rest =>
        rw [Option.filter_some, Option.bind_some]
        split <;> rfl
  rw [hread, hread]
  refine bind_rel (htexts.dropLead? hletters) fun rest _ rest' _ hrest => ?_
  rcases hrest.head?_eq with hhead | ⟨-, rfl, rfl⟩
  · rw [hhead]
    split
    · exact parseTargets?_alike hrest scope
    · exact .none
  · -- Only the carriage return follows the word, and assigns nothing.
    exact .none

theorem parse?_alike (htexts : WithReturns true false text text') :
    Option.Rel Alike (parse? text) (parse? text') := by
  rw [parse?_eq, parse?_eq]
  exact or_rel (worded?_bind_alike htexts .block rfl)
    (or_rel (worded?_bind_alike htexts .wide rfl) (parseTargets?_alike htexts .wide))

theorem notMem_intercalate {c : Char} {separator : List Char} {pieces : List (List Char)}
    (hseparator : c ∉ separator) (hpieces : ∀ piece ∈ pieces, c ∉ piece) :
    c ∉ List.intercalate separator pieces := by
  intro hmem
  rcases Text.mem_or_mem_of_mem_intercalate hmem with hmem | ⟨piece, hpiece, hmem⟩
  · exact hseparator hmem
  · exact hpieces piece hpiece hmem

theorem notMem_targetText {c : Char} (hc : c ∉ ['[', ',', ' ', ']']) {target : List Char}
    (htarget : c ∉ target) : c ∉ targetText target := by
  simp only [List.mem_cons, List.not_mem_nil, or_false, not_or] at hc
  unfold targetText
  split
  · have hnames : c ∉ List.intercalate [',', ' '] ((target.splitOn ',').map Text.trim) := by
      refine notMem_intercalate (by simp [hc]) (List.forall_mem_map.mpr fun name hname hmem => ?_)
      exact htarget (Text.mem_of_mem_splitOn hname (Text.mem_of_mem_trim hmem))
    simp [hc, hnames]
  · exact htarget

/-- Targets are made of characters of the statement, whichever way its scope is written. -/
theorem notMem_of_parse? {c : Char} (hc : c ∉ text) {assignment : Assignment}
    (hparse : parse? text = some assignment) : ∀ target ∈ assignment.targets, c ∉ target := by
  obtain ⟨word, rest, -, -, rfl, hread⟩ := exists_of_parse? hparse
  simp only [parseTargets?, Option.ite_none_left_eq_some, Option.some.injEq] at hread
  rw [← hread.2]
  exact notMem_of_mem_cutTargets fun hmem => hc (List.mem_append_right _ hmem)

theorem Alike.dropReturns_render {assignment assignment' : Assignment}
    (halike : assignment.Alike assignment') {indentation helper : List Char}
    (hindentation : '\r' ∉ indentation) (hhelper : '\r' ∉ helper) :
    Text.dropReturns (assignment'.render indentation helper) =
      assignment.render indentation helper := by
  obtain ⟨scope, targets, expression⟩ := assignment
  obtain ⟨scope', targets', expression'⟩ := assignment'
  obtain ⟨hscope, htargets, hreturn, hexpression⟩ := halike
  obtain rfl : scope' = scope := hscope
  obtain rfl : targets' = targets := htargets
  have hchain : '\r' ∉ List.intercalate [' ', '=', ' '] (targets'.map targetText) :=
    notMem_intercalate (by decide) (List.forall_mem_map.mpr fun target htarget =>
      notMem_targetText (by decide) (hreturn target htarget))
  have hdeclaration : '\r' ∉ scope'.declaration := by cases scope' <;> decide
  have hrender : ∀ value, render ⟨scope', targets', value⟩ indentation helper =
      (indentation ++ scope'.declaration ++ [' '] ++
        List.intercalate [' ', '=', ' '] (targets'.map targetText) ++ [' ', '=', ' '] ++ helper ++
          ['(']) ++ value ++ [')'] := fun value => by simp [render]
  rw [hrender, hrender, Text.dropReturns_append, Text.dropReturns_append,
    hexpression.dropReturns_eq,
    Text.dropReturns_of_notMem (by simp [hindentation, hdeclaration, hchain, hhelper]),
    Text.dropReturns_of_notMem (show '\r' ∉ [')'] by decide)]

end Assignment

/-- In target syntax the statements are the same but for the carriage returns. -/
theorem Line.Alike.dropReturns_inTarget {line line' : Line} (halike : line.Alike line')
    {helper : List Char} (hhelper : '\r' ∉ helper) :
    Text.dropReturns (line'.inTarget helper) = line.inTarget helper := by
  have himport := halike.map_dropReturns_withNamedImport?
  have hassignment := Assignment.parse?_alike halike.content
  unfold Line.inTarget Line.withDeclaration?
  rw [← himport]
  cases line'.withNamedImport? with
  | some text => rfl
  | none =>
      generalize Assignment.parse? line.content = found at hassignment ⊢
      generalize Assignment.parse? line'.content = found' at hassignment ⊢
      cases hassignment with
      | some hassignment =>
          rw [halike.indentation]
          exact hassignment.dropReturns_render halike.returnFree hhelper
      | none =>
          calc
            Text.dropReturns line'.raw =
                Text.dropReturns line.indentation ++ Text.dropReturns line'.content := by
              rw [Line.raw, halike.indentation, Text.dropReturns_append]
            _ = line.raw := by
              rw [Text.dropReturns_of_notMem halike.returnFree, halike.content.dropReturns_eq,
                Line.raw]

end Offside
