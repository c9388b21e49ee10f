/-
# Where the operators are

Which `=` of a statement is an operator depends on the state of the search in front of it, and
of that on little: how the walk reads on, how many brackets are open, and whether the last
character joins a `=`. So a text has the same operators in another place, if these are the same
there: behind a target list, which leaves nothing open, and behind `=` and a blank. At the end,
a semicolon makes no difference.
-/

import Offside.Proofs.Statement.Segments
import Offside.Proofs.Walk.Reading

namespace Offside

/-! ## Searches that go side by side -/

namespace OperatorScan

/-- Two states of the search from which the same operators are found. -/
structure SameReading (first second : OperatorScan) : Prop where
  walk : first.walk.SameReading second.walk
  depth : first.depth = second.depth
  previous : (first.previous.map joinsEquals).getD false =
    (second.previous.map joinsEquals).getD false

theorem SameReading.isOperator {first second : OperatorScan} (hsame : SameReading first second)
    (c : Char) (ahead : Option Char) : first.isOperator c ahead = second.isOperator c ahead := by
  rw [OperatorScan.isOperator, OperatorScan.isOperator, (hsame.walk.step c ahead).1, hsame.depth,
    hsame.previous]

theorem SameReading.advance {first second : OperatorScan} (hsame : SameReading first second)
    (c : Char) (ahead : Option Char) :
    SameReading (first.advance c ahead) (second.advance c ahead) where
  walk := (hsame.walk.step c ahead).2
  depth := by
    simp only [OperatorScan.advance, (hsame.walk.step c ahead).1, hsame.depth]
  previous := rfl

/-- Outside of literals and brackets, and not behind a character that joins a `=`. -/
structure Ready (scan : OperatorScan) : Prop where
  clean : scan.walk.Clean
  depth : scan.depth = 0
  previous : (scan.previous.map joinsEquals).getD false = false

theorem ready_init : Ready {} := ⟨WalkState.clean_init, rfl, rfl⟩

/-- The search behind an operator. -/
def behindEquals : OperatorScan := ⟨⟨none, false, false, some '='⟩, 0, some '='⟩

end OperatorScan

theorem segmentsFrom_sameReading {first second : OperatorScan} (hsame : first.SameReading second)
    (text : List Char) : segmentsFrom first text = segmentsFrom second text := by
  induction text generalizing first second with
  | nil => rfl
  | cons c text ih =>
      rw [segmentsFrom_cons, segmentsFrom_cons, hsame.isOperator, ih (hsame.advance c text.head?)]

/-- Behind an operator and a blank, a text has the segments that it has by itself. -/
theorem segmentsFrom_behindEquals (text : List Char) :
    segmentsFrom .behindEquals (' ' :: text) = (segments text).modifyHead (' ' :: ·) := by
  have hsame : (OperatorScan.behindEquals.advance ' ' text.head?).SameReading {} :=
    { walk := WalkState.Clean.sameReading ⟨rfl, rfl, rfl⟩ WalkState.clean_init rfl
      depth := rfl
      previous := rfl }
  rw [segmentsFrom_cons, OperatorScan.isOperator_of_ne (by decide), if_neg Bool.false_ne_true,
    segmentsFrom_sameReading hsame]
  rfl

/-! ## Segments in front of an operator -/

namespace OperatorScan

variable {scan : OperatorScan}

theorem ready_advance (hclean : scan.walk.Clean) (hdepth : scan.depth = 0) {c : Char}
    (hc : Assignment.isTargetPart c = true) (ahead : Option Char) :
    (scan.advance c ahead).Ready := by
  have hinert : isInert c = true := isInert_of_class rfl hc
  obtain ⟨hregion, hclean'⟩ := step_of_isInert hclean hinert ahead
  have hdepth' : depthAfter scan.depth c = 0 := by
    simp only [isInert, Bool.not_eq_true', Bool.or_eq_false_iff] at hinert
    simp [depthAfter, hinert.1.2, hinert.2, hdepth]
  have hpart : ∀ d ∈ "=!<>+-*/%&|^~?".toList, (!Assignment.isTargetPart d) = true :=
    List.all_eq_true.mp rfl
  refine ⟨hclean', ?_, ?_⟩
  · simp only [advance, hregion, if_true, hdepth']
  · change joinsEquals c = false
    by_contra hjoins
    have hnot := hpart c (List.contains_iff_mem.mp (Bool.of_not_eq_false hjoins))
    rw [hc] at hnot
    cases hnot

/-- At a `=` it makes no difference what stands in front. -/
theorem Ready.segmentsFrom_equals (hready : scan.Ready) (back : List Char) :
    segmentsFrom scan ('=' :: back) =
      if back.head? ≠ some '=' ∧ back.head? ≠ some '>' then [] :: segmentsFrom behindEquals back
      else (segmentsFrom behindEquals back).modifyHead ('=' :: ·) := by
  obtain ⟨⟨openQuote, escaped, inClass, lastCode⟩, depth, previous⟩ := scan
  obtain ⟨⟨hopen, hescaped, hclass⟩, hdepth, hprevious⟩ := hready
  simp only at hopen hescaped hclass hdepth hprevious
  subst hopen hescaped hclass hdepth
  have hadvance : advance ⟨⟨none, false, false, lastCode⟩, 0, previous⟩ '=' back.head? =
      behindEquals := rfl
  have hoperator : isOperator ⟨⟨none, false, false, lastCode⟩, 0, previous⟩ '=' back.head? = true ↔
      back.head? ≠ some '=' ∧ back.head? ≠ some '>' := by
    have hcode : (WalkState.step ⟨none, false, false, lastCode⟩ '=' back.head?).1 = .code := rfl
    simp [isOperator, hcode, hprevious]
  rw [segmentsFrom_cons, hadvance]
  simp only [hoperator]

end OperatorScan

theorem modifyHead_nil_append (pieces : List (List Char)) :
    pieces.modifyHead ([] ++ ·) = pieces := by
  cases pieces <;> rfl

/-- In front of a `=`, characters of a target list stand in the first segment. -/
theorem segmentsFrom_append_equals {scan : OperatorScan} (hready : scan.Ready) {front : List Char}
    (hfront : ∀ c ∈ front, Assignment.isTargetPart c = true) (back : List Char) :
    segmentsFrom scan (front ++ '=' :: back) =
      (segments ('=' :: back)).modifyHead (front ++ ·) := by
  induction front generalizing scan with
  | nil =>
      have hinit : segments ('=' :: back) = segmentsFrom {} ('=' :: back) := rfl
      rw [modifyHead_nil_append, hinit, List.nil_append, hready.segmentsFrom_equals,
        OperatorScan.ready_init.segmentsFrom_equals]
  | cons c front ih =>
      rw [List.forall_mem_cons] at hfront
      have hne : c ≠ '=' := by
        rintro rfl
        cases hfront.1
      rw [List.cons_append, segmentsFrom_cons, OperatorScan.isOperator_of_ne hne,
        if_neg Bool.false_ne_true,
        ih (OperatorScan.ready_advance hready.clean hready.depth hfront.1 _) hfront.2,
        List.modifyHead_modifyHead]
      rfl

/-- In front of a target list, another word makes no difference to the operators. -/
theorem segments_append_equals {word list : List Char}
    (hword : ∀ c ∈ word, Assignment.isTargetPart c = true)
    (hlist : ∀ c ∈ list, Assignment.isTargetPart c = true) (back : List Char) :
    segments (word ++ (list ++ '=' :: back)) =
      (segments (list ++ '=' :: back)).modifyHead (word ++ ·) := by
  have hboth : ∀ c ∈ word ++ list, Assignment.isTargetPart c = true :=
    fun c hc => (List.mem_append.mp hc).elim (hword c) (hlist c)
  have hone := segmentsFrom_append_equals OperatorScan.ready_init hboth back
  have hother := segmentsFrom_append_equals OperatorScan.ready_init hlist back
  calc
    segments (word ++ (list ++ '=' :: back)) =
        (segments ('=' :: back)).modifyHead (word ++ list ++ ·) := by
      rw [← List.append_assoc]
      exact hone
    _ = ((segments ('=' :: back)).modifyHead (list ++ ·)).modifyHead (word ++ ·) := by
      rw [List.modifyHead_modifyHead]
      simp only [Function.comp_def, List.append_assoc]
    _ = (segments (list ++ '=' :: back)).modifyHead (word ++ ·) := by rw [← hother]; rfl

/-- A target list with an operator and a blank behind it is a segment. -/
theorem segments_append_operator {list : List Char}
    (hlist : ∀ c ∈ list, Assignment.isTargetPart c = true) (rest : List Char) :
    segments (list ++ '=' :: ' ' :: rest) = list :: (segments rest).modifyHead (' ' :: ·) := by
  have hequals : segments ('=' :: ' ' :: rest) = [] :: segmentsFrom .behindEquals (' ' :: rest) :=
    (OperatorScan.ready_init.segmentsFrom_equals (' ' :: rest)).trans (if_pos (by simp))
  have hsegments := segmentsFrom_append_equals OperatorScan.ready_init hlist (' ' :: rest)
  rw [hequals, segmentsFrom_behindEquals, List.modifyHead_cons, List.append_nil] at hsegments
  exact hsegments

/-! ## A semicolon at the end -/

theorem markOperatorsFrom_append_semicolon (scan : OperatorScan) (text : List Char) :
    markOperatorsFrom scan (text ++ [';']) = markOperatorsFrom scan text ++ [(';', false)] := by
  induction text generalizing scan with
  | nil => rfl
  | cons c text ih =>
      have hahead : ∀ scan : OperatorScan, scan.isOperator c (text ++ [';']).head? =
            scan.isOperator c text.head? ∧
          scan.advance c (text ++ [';']).head? = scan.advance c text.head? := by
        intro scan
        cases text with
        | nil =>
            have hstep : scan.walk.step c (some ';') = scan.walk.step c none :=
              WalkState.step_of_ahead (by simp) scan.walk c
            rw [List.nil_append, List.head?_cons, List.head?_nil, OperatorScan.isOperator,
              OperatorScan.isOperator, OperatorScan.advance, OperatorScan.advance, hstep]
            exact ⟨rfl, rfl⟩
        | cons d text => exact ⟨rfl, rfl⟩
      rw [List.cons_append, markOperatorsFrom, (hahead scan).1, (hahead scan).2, ih,
        markOperatorsFrom, List.cons_append]

/-- A semicolon behind a text stands in the last segment. -/
theorem exists_segments_append_semicolon (text : List Char) :
    ∃ front last, segments text = front ++ [last] ∧
      segments (text ++ [';']) = front ++ [last ++ [';']] := by
  obtain ⟨pieces, last, hpieces⟩ :=
    (List.eq_nil_or_concat' ((markOperators text).splitOnP Prod.snd)).resolve_left
      (List.splitOnP_ne_nil _ _)
  have hsemicolon : [(';', false)].splitOnP Prod.snd = [[(';', false)]] := rfl
  refine ⟨pieces.map (·.map Prod.fst), last.map Prod.fst, ?_, ?_⟩
  · rw [segments, hpieces, List.map_append]
    rfl
  · rw [segments, markOperators, markOperatorsFrom_append_semicolon, ← markOperators,
      splitOnP_append hpieces hsemicolon]
    simp

end Offside
