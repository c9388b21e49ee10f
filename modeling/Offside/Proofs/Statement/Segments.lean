/-
# Segments and target lists

A statement is cut into segments at its operators, and a segment is a target list or not by
itself, whatever the blanks at its edges. So a statement assigns something only if its first
segment is a target list. In a target list no name has a blank in it: behind a name and a
blank comes an operator or a comma, or nothing but blanks.
-/

import Offside.Proofs.Statement.Nesting
import Offside.Proofs.Text.Differ
import Offside.Proofs.Text.Edges

namespace Offside

/-! ## Segments -/

/-- The segments of the rest of a statement that begins in the state `scan`. -/
def segmentsFrom (scan : OperatorScan) (text : List Char) : List (List Char) :=
  ((markOperatorsFrom scan text).splitOnP Prod.snd).map (·.map Prod.fst)

theorem segmentsFrom_cons (scan : OperatorScan) (c : Char) (rest : List Char) :
    segmentsFrom scan (c :: rest) =
      if scan.isOperator c rest.head? then [] :: segmentsFrom (scan.advance c rest.head?) rest
      else (segmentsFrom (scan.advance c rest.head?) rest).modifyHead (c :: ·) := by
  obtain ⟨segment, others, hsplit⟩ := List.exists_cons_of_ne_nil
    (List.splitOnP_ne_nil Prod.snd (markOperatorsFrom (scan.advance c rest.head?) rest))
  rw [segmentsFrom, markOperatorsFrom, List.splitOnP_cons_eq_if_modifyHead, segmentsFrom, hsplit]
  split <;> rfl

theorem OperatorScan.isOperator_of_ne {c : Char} (hc : c ≠ '=') (scan : OperatorScan)
    (ahead : Option Char) : scan.isOperator c ahead = false := by
  simp [isOperator, hc]

/-- Without a `=` in it, the front of a statement stands in the first segment. -/
theorem exists_segmentsFrom_append {front : List Char} (hequals : '=' ∉ front)
    (scan : OperatorScan) (rest : List Char) :
    ∃ scan', segmentsFrom scan (front ++ rest) =
      (segmentsFrom scan' rest).modifyHead (front ++ ·) := by
  induction front generalizing scan with
  | nil => exact ⟨scan, List.modifyHead_id.symm ▸ rfl⟩
  | cons c front ih =>
      rw [List.mem_cons, not_or] at hequals
      obtain ⟨scan', hrest⟩ := ih hequals.2 (scan.advance c (front ++ rest).head?)
      refine ⟨scan', ?_⟩
      rw [List.cons_append, segmentsFrom_cons, OperatorScan.isOperator_of_ne (Ne.symm hequals.1),
        if_neg Bool.false_ne_true, hrest, List.modifyHead_modifyHead]
      rfl

theorem exists_segments_append {front : List Char} (hequals : '=' ∉ front) (rest : List Char) :
    ∃ more others, segments (front ++ rest) = (front ++ more) :: others := by
  obtain ⟨scan, hsegments⟩ := exists_segmentsFrom_append hequals {} rest
  obtain ⟨more, others, hmore⟩ := List.exists_cons_of_ne_nil
    (show segmentsFrom scan rest ≠ [] by simp [segmentsFrom])
  exact ⟨more, others, by rw [hmore] at hsegments; exact hsegments⟩

/-- What stands between two characters that are not blank is not trimmed. -/
theorem Text.mem_trim_append_cons {front back : List Char} (hfront : ∃ c ∈ front, isBlank c = false)
    (hback : ∃ c ∈ back, isBlank c = false) (c : Char) : c ∈ trim (front ++ c :: back) := by
  obtain ⟨first, hfirst, hblank⟩ := hfront
  obtain ⟨last, hlast, hblank'⟩ := hback
  obtain ⟨before, front, rfl⟩ := List.append_of_mem hfirst
  obtain ⟨back, after, rfl⟩ := List.append_of_mem hlast
  have hstart : trimStart (before ++ first :: front ++ c :: (back ++ last :: after)) =
      (trimStart before ++ first :: front ++ c :: back) ++ last :: after := by
    rw [List.append_assoc, List.cons_append, trimStart_append_cons hblank]
    simp only [List.append_assoc, List.cons_append]
  rw [trim, hstart, trimEnd_append_cons hblank']
  simp

/-- The words in front of a statement, with the scopes that they stand for. -/
inductive Scope.Spells : Scope → List Char → Prop
  | «local» : Spells .block ['l', 'o', 'c', 'a', 'l']
  | «global» : Spells .wide ['g', 'l', 'o', 'b', 'a', 'l']
  | none : Spells .wide []

theorem Scope.Spells.isNamePart {scope : Scope} {word : List Char} (hspells : scope.Spells word) :
    ∀ c ∈ word, Assignment.isNamePart c = true := by
  cases hspells <;> exact List.all_eq_true.mp rfl

theorem Scope.Spells.isTargetPart {scope : Scope} {word : List Char} (hspells : scope.Spells word) :
    ∀ c ∈ word, Assignment.isTargetPart c = true :=
  fun c hc => by simp [Assignment.isTargetPart, hspells.isNamePart c hc]

theorem Scope.Spells.unique {scope scope' : Scope} {word : List Char}
    (hspells : scope.Spells word) (hspells' : scope'.Spells word) : scope = scope' := by
  cases hspells <;> cases hspells' <;> rfl

namespace Assignment

/-! ## Target lists -/

theorem isBlank_of_isNamePart {c : Char} (hc : isNamePart c = true) : Text.isBlank c = false := by
  by_contra hblank
  simp only [Text.isBlank, Bool.not_eq_false, Bool.or_eq_true, Bool.and_eq_true,
    decide_eq_true_eq, beq_iff_eq] at hblank
  simp only [isNamePart, isNameStart] at hc
  delta Char.isAlpha Char.isUpper Char.isLower Char.isDigit at hc
  simp only [Bool.or_eq_true, Bool.and_eq_true, decide_eq_true_eq, beq_iff_eq, ge_iff_le,
    UInt32.le_iff_toNat_le, ← Char.toNat_inj, Char.toNat_val, Char.reduceToNat] at hc
  omega

theorem head?_splitOn (separator : Char) (text : List Char) :
    (text.splitOn separator).head? = some (text.takeWhile (· ≠ separator)) := by
  induction text with
  | nil => rfl
  | cons c text ih =>
      obtain ⟨piece, pieces, hpieces⟩ :=
        List.exists_cons_of_ne_nil (List.splitOn_ne_nil separator text)
      rw [hpieces, List.head?_cons, Option.some_inj] at ih
      rw [List.splitOn_cons_eq_if_modifyHead, hpieces]
      by_cases hc : c = separator
      · simp [hc]
      · simp [hc, ih]

/-- The first name of a target list. -/
theorem isIdentifier_of_areTargets {segment : List Char} (htargets : areTargets segment = true) :
    isIdentifier (Text.trim (segment.takeWhile (· ≠ ','))) = true :=
  List.all_eq_true.mp htargets _ (List.mem_of_mem_head? (head?_splitOn ',' segment))

/-- Behind a name and a blank there is no second name in front of the next comma. -/
theorem isBlank_of_areTargets {word back : List Char} (hword : ∃ c ∈ word, Text.isBlank c = false)
    (hcomma : ',' ∉ word) {blank : Char} (hblank : Text.isBlank blank = true)
    (htargets : areTargets (word ++ blank :: back) = true) :
    ∀ c ∈ back.takeWhile (· ≠ ','), Text.isBlank c = true := by
  have hfirst : (word ++ blank :: back).takeWhile (· ≠ ',') =
      word ++ blank :: back.takeWhile (· ≠ ',') := by
    have hne : blank ≠ ',' := by
      rintro rfl
      cases hblank
    have hne' : ∀ c ∈ word, decide (c ≠ ',') = true := fun c hc =>
      decide_eq_true (ne_of_mem_of_not_mem hc hcomma)
    rw [List.takeWhile_append_of_pos hne', List.takeWhile_cons_of_pos (by simpa using hne)]
  intro c hc
  by_contra hname
  rw [Bool.not_eq_true] at hname
  have hmem := Text.mem_trim_append_cons hword ⟨c, hc, hname⟩ blank
  have hpart := isNamePart_of_isIdentifier (hfirst ▸ isIdentifier_of_areTargets htargets) blank hmem
  rw [isBlank_of_isNamePart hpart] at hblank
  cases hblank

theorem splitOn_of_isBlank {blanks : List Char} (hblanks : ∀ c ∈ blanks, Text.isBlank c = true) :
    blanks.splitOn ',' = [blanks] :=
  List.splitOn_eq_singleton fun hcomma => absurd (hblanks ',' hcomma) (by decide)

theorem areTargets_append_left {blanks : List Char} (hblanks : ∀ c ∈ blanks, Text.isBlank c = true)
    (segment : List Char) : areTargets (blanks ++ segment) = areTargets segment := by
  obtain ⟨name, names, hsplit⟩ := List.exists_cons_of_ne_nil (List.splitOn_ne_nil ',' segment)
  have hblanks' : blanks.splitOn ',' = [] ++ [blanks] := splitOn_of_isBlank hblanks
  have hwhole : (blanks ++ segment).splitOn ',' = (blanks ++ name) :: names :=
    splitOnP_append hblanks' hsplit
  have htrim : Text.trim (blanks ++ name) = Text.trim name := by
    rw [Text.trim, Text.trimStart_append_of_isBlank hblanks, Text.trim]
  rw [areTargets, areTargets, hwhole, hsplit, List.all_cons, List.all_cons, htrim]

theorem areTargets_append_right {blanks : List Char} (hblanks : ∀ c ∈ blanks, Text.isBlank c = true)
    (segment : List Char) : areTargets (segment ++ blanks) = areTargets segment := by
  obtain ⟨names, name, hsplit⟩ :=
    (List.eq_nil_or_concat' (segment.splitOn ',')).resolve_left (List.splitOn_ne_nil ',' segment)
  have hwhole : (segment ++ blanks).splitOn ',' = names ++ [name ++ blanks] :=
    splitOnP_append hsplit (splitOn_of_isBlank hblanks)
  have htrim : Text.trim (name ++ blanks) = Text.trim name := by
    rw [Text.trim, ← Text.trimStart_trimEnd, Text.trimEnd_append_of_isBlank hblanks,
      Text.trimStart_trimEnd, Text.trim]
  rw [areTargets, areTargets, hwhole, hsplit, List.all_append, List.all_append, List.all_cons,
    List.all_cons, htrim]

/-- The blanks at its edges do not make a target list. -/
theorem areTargets_trim (segment : List Char) :
    areTargets (Text.trim segment) = areTargets segment := by
  obtain ⟨blanks, hblanks, hstart⟩ := exists_trimStart segment
  obtain ⟨blanks', hblanks', hend⟩ := exists_trimEnd (Text.trimStart segment)
  rw [Text.trim, ← areTargets_append_right hblanks', hend, ← areTargets_append_left hblanks, hstart]

/-! ## Reading -/

/-- An assignment has targets and a value. -/
theorem parseTargets?_eq_some_iff {scope : Scope} {content : List Char} {assignment : Assignment} :
    parseTargets? scope content = some assignment ↔
      assignment = ⟨scope, (cutTargets (segments content)).1,
        expressionOf (cutTargets (segments content)).2⟩ ∧
      assignment.targets ≠ [] ∧ assignment.expression ≠ [] := by
  simp only [parseTargets?, Option.ite_none_left_eq_some, Option.some_inj, Bool.or_eq_true,
    List.isEmpty_iff, not_or]
  constructor
  · rintro ⟨hne, rfl⟩
    exact ⟨rfl, hne⟩
  · rintro ⟨rfl, hne⟩
    exact ⟨hne, rfl⟩

theorem parseTargets?_eq_none {content : List Char}
    (hfirst : ∀ segment ∈ (segments content).head?, areTargets segment = false) (scope : Scope) :
    parseTargets? scope content = none := by
  obtain ⟨segment, others, hsegments⟩ := List.exists_cons_of_ne_nil (segments_ne_nil content)
  rw [hsegments] at hfirst
  have hcut : (cutTargets (segment :: others)).1 = [] := by
    cases others with
    | nil => rfl
    | cons next rest => simp [cutTargets, hfirst segment rfl]
  simp [parseTargets?, hsegments, hcut]

theorem areTargets_of_mem_cutTargets {pieces : List (List Char)} :
    ∀ target ∈ (cutTargets pieces).1, areTargets target = true ∧ Text.trim target = target := by
  obtain ⟨names, -, htrim, hnames⟩ := cutTargets_append pieces
  rw [htrim, List.forall_mem_map]
  exact fun name hname => ⟨by rw [areTargets_trim, hnames name hname], Text.trim_trim name⟩

theorem cutTargets_cons (segment : List Char) {others : List (List Char)} (hothers : others ≠ []) :
    cutTargets (segment :: others) =
      if areTargets segment then
        (Text.trim segment :: (cutTargets others).1, (cutTargets others).2)
      else ([], segment :: others) := by
  obtain ⟨next, rest, rfl⟩ := List.exists_cons_of_ne_nil hothers
  rw [cutTargets]

/-- A statement is read behind a scope word, if there is one, and then as a whole. -/
theorem parse?_eq (content : List Char) :
    parse? content =
      ((Scope.split.worded? content ['l', 'o', 'c', 'a', 'l']).bind (parseTargets? .block)).or
        (((Scope.split.worded? content ['g', 'l', 'o', 'b', 'a', 'l']).bind
          (parseTargets? .wide)).or (parseTargets? .wide content)) := by
  have hshorter : ∀ {word rest : List Char}, Scope.split.worded? content word = some rest →
      word ≠ [] → rest.length ≠ content.length := by
    intro word rest hword hne
    have hpos := List.length_pos_iff.mpr hne
    rw [← append_of_worded? hword, List.length_append]
    omega
  unfold parse? Scope.split
  cases hlocal : Scope.split.worded? content ['l', 'o', 'c', 'a', 'l'] with
  | some rest =>
      have hglobal : Scope.split.worded? content ['g', 'l', 'o', 'b', 'a', 'l'] = none := by
        rw [← append_of_worded? hlocal]
        rfl
      rw [hglobal]
      simp only [if_neg (hshorter hlocal (by simp)), Option.bind_some, Option.bind_none,
        Option.none_or]
      cases parseTargets? .block rest <;> rfl
  | none =>
      cases hglobal : Scope.split.worded? content ['g', 'l', 'o', 'b', 'a', 'l'] with
      | some rest =>
          simp only [if_neg (hshorter hglobal (by simp)), Option.bind_some, Option.bind_none,
            Option.none_or]
          cases parseTargets? .wide rest <;> rfl
      | none =>
          simp only [if_true, Option.bind_none, Option.none_or]
          cases parseTargets? .wide content <;> rfl

/-- A statement is read behind the word of its scope, if it has one and a blank follows. -/
theorem exists_of_parse? {content : List Char} {assignment : Assignment}
    (hparse : parse? content = some assignment) :
    ∃ word rest, assignment.scope.Spells word ∧
      (word ≠ [] → ∃ c ∈ rest.head?, Text.isBlank c = true) ∧ word ++ rest = content ∧
        parseTargets? assignment.scope rest = some assignment := by
  have hworded : ∀ {scope : Scope} {word : List Char}, scope.Spells word →
      (Scope.split.worded? content word).bind (parseTargets? scope) = some assignment →
        ∃ word rest, assignment.scope.Spells word ∧
          (word ≠ [] → ∃ c ∈ rest.head?, Text.isBlank c = true) ∧ word ++ rest = content ∧
            parseTargets? assignment.scope rest = some assignment := by
    intro scope word hspells hread
    obtain ⟨rest, hword, hread⟩ := Option.bind_eq_some_iff.mp hread
    obtain ⟨hassignment, -⟩ := parseTargets?_eq_some_iff.mp hread
    have hscope : assignment.scope = scope := by rw [hassignment]
    rw [hscope]
    refine ⟨word, rest, hspells, fun _ => ?_, append_of_worded? hword, hread⟩
    obtain ⟨-, hblank⟩ := Option.filter_eq_some_iff.mp hword
    simpa [Option.getD_eq_iff] using hblank
  rw [parse?_eq, Option.or_eq_some_iff, Option.or_eq_some_iff] at hparse
  rcases hparse with hread | ⟨-, hread | ⟨-, hread⟩⟩
  · exact hworded .local hread
  · exact hworded .global hread
  · obtain ⟨hassignment, -⟩ := parseTargets?_eq_some_iff.mp hread
    have hscope : assignment.scope = .wide := by rw [hassignment]
    rw [hscope]
    exact ⟨[], content, .none, fun hne => absurd rfl hne, rfl, hread⟩

theorem targets_of_parse? {content : List Char} {assignment : Assignment}
    (hparse : parse? content = some assignment) :
    assignment.targets ≠ [] ∧
      ∀ target ∈ assignment.targets, areTargets target = true ∧ Text.trim target = target := by
  obtain ⟨word, rest, -, -, -, hread⟩ := exists_of_parse? hparse
  obtain ⟨hassignment, hne, -⟩ := parseTargets?_eq_some_iff.mp hread
  refine ⟨hne, ?_⟩
  rw [hassignment]
  exact areTargets_of_mem_cutTargets

end Assignment

end Offside
