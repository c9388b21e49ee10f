/-
# Statements keep their brackets

An assignment is taken apart at its operators and put together again with other
characters in between. What is dropped and what is added opens and closes nothing,
but for two pairs of brackets: those around the names of a list, and those around
the arguments of the helper. So the declaration nests when the statement does.

Everything in front of the expression is names, commas, blanks and `=`. The cut is
therefore made where no literal is open, although the search for operators never
says so itself.
-/

import Offside.Proofs.Delimiter.Nesting
import Offside.Statement
import Offside.Text.Lines

namespace Offside

/-! ## Pieces and what stands between them -/

theorem Nests.intercalate {separator : List Char}
    (hseparator : ∀ c ∈ separator, isInert c = true) {pieces : List (List Char)}
    (hpieces : ∀ piece ∈ pieces, Nests piece [] []) :
    Nests (separator.intercalate pieces) [] [] := by
  induction pieces with
  | nil => exact nests_nil []
  | cons piece pieces ih =>
      rw [List.forall_mem_cons] at hpieces
      by_cases hlast : pieces = []
      · subst hlast
        rw [List.intercalate_singleton]
        exact hpieces.1
      · rw [List.intercalate_cons_of_ne_nil hlast]
        exact (hpieces.1.append (nests_of_isInert hseparator [])).append (ih hpieces.2)

/-! ## A statement and its segments -/

theorem map_fst_markOperatorsFrom (scan : OperatorScan) (text : List Char) :
    (markOperatorsFrom scan text).map Prod.fst = text := by
  induction text generalizing scan with
  | nil => rfl
  | cons c text ih => rw [markOperatorsFrom, List.map_cons, ih]

theorem eq_of_mem_markOperatorsFrom {scan : OperatorScan} {text : List Char} {c : Char}
    (hmark : (c, true) ∈ markOperatorsFrom scan text) : c = '=' := by
  induction text generalizing scan with
  | nil => cases hmark
  | cons d text ih =>
      rw [markOperatorsFrom, List.mem_cons] at hmark
      rcases hmark with hmark | hmark
      · obtain ⟨rfl, hoperator⟩ := Prod.mk.inj hmark
        have hcode := hoperator.symm
        simp only [OperatorScan.isOperator, Bool.and_eq_true, beq_iff_eq] at hcode
        exact hcode.1.1.1.1.1
      · exact ih hmark

/-- Marked characters that are all one separator can be put back between the pieces. -/
theorem intercalate_splitOnP_snd {separator : Char} {marks : List (Char × Bool)}
    (hmarks : ∀ c, (c, true) ∈ marks → c = separator) :
    [separator].intercalate ((marks.splitOnP Prod.snd).map (·.map Prod.fst)) =
      marks.map Prod.fst := by
  induction marks with
  | nil => rfl
  | cons mark marks ih =>
      obtain ⟨c, marked⟩ := mark
      have hrest := ih fun d hd => hmarks d (List.mem_cons_of_mem _ hd)
      have hne := List.splitOnP_ne_nil Prod.snd marks
      rw [List.splitOnP_cons_eq_if_modifyHead]
      cases marked with
      | true =>
          obtain rfl := hmarks c List.mem_cons_self
          rw [if_pos rfl, List.map_cons, List.intercalate_cons_of_ne_nil (by simp), hrest]
          rfl
      | false =>
          obtain ⟨piece, pieces, hpieces⟩ := List.exists_cons_of_ne_nil hne
          rw [hpieces] at hrest ⊢
          rw [if_neg (by simp), List.modifyHead_cons, List.map_cons, List.map_cons,
            List.intercalate_cons_cons_left, List.map_cons, ← hrest, List.map_cons]

/-- The segments of a statement, joined with `=`, give the statement back. -/
theorem intercalate_segments (content : List Char) :
    List.intercalate ['='] (segments content) = content := by
  rw [segments, markOperators, intercalate_splitOnP_snd fun c => eq_of_mem_markOperatorsFrom,
    map_fst_markOperatorsFrom]

theorem segments_ne_nil (content : List Char) : segments content ≠ [] := by
  simp [segments]

namespace Assignment

/-! ## Targets -/

/-- The segments fall into target lists, which are trimmed, and the others. -/
theorem cutTargets_append (pieces : List (List Char)) :
    ∃ names, pieces = names ++ (cutTargets pieces).2 ∧
      (cutTargets pieces).1 = names.map Text.trim ∧ ∀ name ∈ names, areTargets name = true := by
  fun_induction cutTargets pieces with
  | case1 segment next rest htargets targets others hcut ih =>
      obtain ⟨names, hsplit, htrim, hnames⟩ := ih
      rw [hcut] at hsplit htrim
      refine ⟨segment :: names, ?_, ?_, List.forall_mem_cons.mpr ⟨htargets, hnames⟩⟩
      · rw [hsplit, List.cons_append]
      · rw [List.map_cons, ← htrim]
  | case2 segment next rest htargets => exact ⟨[], rfl, rfl, by simp⟩
  | case3 pieces hshort => exact ⟨[], rfl, rfl, by simp⟩

theorem cutTargets_snd_ne_nil {pieces : List (List Char)} (hpieces : pieces ≠ []) :
    (cutTargets pieces).2 ≠ [] := by
  fun_induction cutTargets pieces with
  | case1 segment next rest htargets targets others hcut ih =>
      rw [hcut] at ih
      exact ih (List.cons_ne_nil _ _)
  | case2 segment next rest htargets => exact hpieces
  | case3 pieces hshort => exact hpieces

theorem isInert_of_isNamePart {c : Char} (hc : isNamePart c = true) : isInert c = true :=
  isInert_of_class rfl hc

theorem isNamePart_of_isIdentifier {name : List Char} (hname : isIdentifier name = true) :
    ∀ c ∈ name, isNamePart c = true := by
  cases name with
  | nil => cases hname
  | cons c rest =>
      rw [isIdentifier, Bool.and_eq_true, List.all_eq_true] at hname
      rw [List.forall_mem_cons]
      exact ⟨by simp [isNamePart, hname.1], hname.2⟩

end Assignment

/-- A property that blanks have and the characters of the trimmed text. -/
theorem forall_mem_of_trim {p : Char → Bool} (hp : ∀ c, Text.isBlank c = true → p c = true)
    {text : List Char} (htrim : ∀ c ∈ Text.trim text, p c = true) : ∀ c ∈ text, p c = true := by
  intro c hc
  rw [← Text.takeWhile_append_trimStart text, ← Text.trimEnd_append (Text.trimStart text),
    List.mem_append, List.mem_append] at hc
  rcases hc with hc | hc | hc
  · exact hp c (List.mem_takeWhile_imp hc)
  · exact htrim c hc
  · exact hp c (List.mem_takeWhile_imp (List.mem_reverse.mp hc))

theorem isInert_of_trim {text : List Char} (htrim : ∀ c ∈ Text.trim text, isInert c = true) :
    ∀ c ∈ text, isInert c = true := forall_mem_of_trim (fun _ => isInert_of_isBlank) htrim

namespace Assignment

/-- Characters of a target list. -/
def isTargetPart (c : Char) : Bool := isNamePart c || Text.isBlank c || c == ','

theorem isTargetPart_of_areTargets {segment : List Char} (htargets : areTargets segment = true) :
    ∀ c ∈ segment, isTargetPart c = true := by
  intro c hc
  have hjoin : List.intercalate [','] (segment.splitOn ',') = segment :=
    List.intercalate_splitOn ','
  rw [← hjoin] at hc
  rcases Text.mem_or_mem_of_mem_intercalate hc with hc | ⟨name, hname, hc⟩
  · rw [List.mem_singleton.mp hc]
    decide
  · have hidentifier := List.all_eq_true.mp htargets name hname
    refine forall_mem_of_trim (fun d hd => ?_) (fun d hd => ?_) c hc
    · simp [isTargetPart, hd]
    · simp [isTargetPart, isNamePart_of_isIdentifier hidentifier d hd]

theorem isInert_of_areTargets {segment : List Char} (htargets : areTargets segment = true) :
    ∀ c ∈ segment, isInert c = true :=
  fun c hc => isInert_of_class rfl (isTargetPart_of_areTargets htargets c hc)

/-- Several names get a pair of brackets, one stays as it is. -/
theorem nests_targetText {target : List Char} (hinert : ∀ c ∈ target, isInert c = true) :
    Nests (targetText target) [] [] := by
  unfold targetText
  split
  · have hpair : closerOf? '[' = some ']' := rfl
    refine Nests.between (nests_of_isInert (fun c hc => ?_) []) hpair
    rcases Text.mem_or_mem_of_mem_intercalate hc with hc | ⟨piece, hpiece, hc⟩
    · have hseparator : ∀ d ∈ [',', ' '], isInert d = true :=
        isInert_of_all rfl
      exact hseparator c hc
    · obtain ⟨name, hname, rfl⟩ := List.mem_map.mp hpiece
      exact hinert c (Text.mem_of_mem_splitOn hname (Text.mem_of_mem_trim hc))
  · exact nests_of_isInert hinert []

/-! ## The declaration -/

theorem nests_expressionOf {others : List (List Char)}
    (hothers : Nests (List.intercalate ['='] others) [] []) : Nests (expressionOf others) [] [] :=
  (hothers.trim.dropFinal (by decide)).trimEnd

/-- What an assignment holds: target lists that open and close nothing, and an
expression that nests. -/
structure Nested (assignment : Assignment) : Prop where
  targets : ∀ target ∈ assignment.targets, ∀ c ∈ target, isInert c = true
  expression : Nests assignment.expression [] []

theorem nested_of_parseTargets? {scope : Scope} {content : List Char} {assignment : Assignment}
    (hparse : parseTargets? scope content = some assignment) (hcontent : Nests content [] []) :
    assignment.Nested := by
  obtain ⟨names, hsplit, htrim, hnames⟩ := cutTargets_append (segments content)
  have hinert : ∀ name ∈ names, ∀ c ∈ name, isInert c = true :=
    fun name hname => isInert_of_areTargets (hnames name hname)
  simp only [parseTargets?, Option.ite_none_left_eq_some, Option.some.injEq] at hparse
  obtain ⟨-, rfl⟩ := hparse
  constructor
  · intro target htarget c hc
    rw [htrim] at htarget
    obtain ⟨name, hname, rfl⟩ := List.mem_map.mp htarget
    exact hinert name hname c (Text.mem_of_mem_trim hc)
  · have hothers := cutTargets_snd_ne_nil (segments_ne_nil content)
    rw [← intercalate_segments content, hsplit, intercalate_append_of_ne_nil names hothers]
      at hcontent
    refine nests_expressionOf (hcontent.of_append (nests_of_isInert (fun c hc => ?_) []))
    obtain ⟨name, hname, hc⟩ := List.mem_flatMap.mp hc
    rcases List.mem_append.mp hc with hc | hc
    · exact hinert name hname c hc
    · rw [List.mem_singleton.mp hc]
      decide

theorem append_of_worded? {content word rest : List Char}
    (hword : Scope.split.worded? content word = some rest) : word ++ rest = content := by
  rw [Scope.split.worded?, Option.filter_eq_some_iff] at hword
  exact (Text.dropLead?_eq_some_iff.mp hword.1).symm

/-- A scope word is letters. -/
theorem split_append (content : List Char) :
    ∃ word, (∀ c ∈ word, isNamePart c = true) ∧ word ++ (Scope.split content).2 = content := by
  unfold Scope.split
  split
  · rename_i rest hlocal
    exact ⟨_, List.all_eq_true.mp rfl, append_of_worded? hlocal⟩
  · split
    · rename_i rest hglobal
      exact ⟨_, List.all_eq_true.mp rfl, append_of_worded? hglobal⟩
    · exact ⟨[], by simp, rfl⟩

theorem nested_of_parse? {content : List Char} {assignment : Assignment}
    (hparse : parse? content = some assignment) (hcontent : Nests content [] []) :
    assignment.Nested := by
  obtain ⟨word, hword, happend⟩ := split_append content
  have hrest : Nests (Scope.split content).2 [] [] := by
    rw [← happend] at hcontent
    exact hcontent.of_append
      (nests_of_isInert (fun c hc => isInert_of_isNamePart (hword c hc)) [])
  unfold parse? at hparse
  simp only at hparse
  split at hparse
  · rename_i hscoped
    rw [Option.some_inj] at hparse
    exact nested_of_parseTargets? (hparse ▸ hscoped) hrest
  · rw [Option.ite_none_left_eq_some] at hparse
    exact nested_of_parseTargets? hparse.2 hcontent

/-- What a declaration holds in front of the arguments of the helper. -/
theorem nests_render_front {assignment : Assignment}
    (htargets : ∀ target ∈ assignment.targets, ∀ c ∈ target, isInert c = true)
    {indentation helper : List Char} (hindentation : ∀ c ∈ indentation, isInert c = true)
    (hhelper : ∀ c ∈ helper, isInert c = true) :
    Nests (indentation ++ assignment.scope.declaration ++ ' ' ::
      List.intercalate [' ', '=', ' '] (assignment.targets.map targetText) ++
      [' ', '=', ' '] ++ helper) [] [] := by
  have hdeclaration : Nests (assignment.scope.declaration ++ [' ']) [] [] := by
    refine nests_of_isInert (isInert_of_all ?_) []
    cases assignment.scope <;> rfl
  have hchain : Nests (List.intercalate [' ', '=', ' '] (assignment.targets.map targetText))
      [] [] := by
    refine Nests.intercalate (isInert_of_all rfl) fun piece hpiece => ?_
    obtain ⟨target, htarget, rfl⟩ := List.mem_map.mp hpiece
    exact nests_targetText (htargets target htarget)
  have hequals : Nests [' ', '=', ' '] [] [] := nests_of_isInert (isInert_of_all rfl) []
  have hall := ((((nests_of_isInert hindentation []).append hdeclaration).append
    hchain).append hequals).append (nests_of_isInert hhelper [])
  simpa using hall

theorem Nested.render {assignment : Assignment} (hnested : assignment.Nested)
    {indentation helper : List Char} (hindentation : ∀ c ∈ indentation, isInert c = true)
    (hhelper : ∀ c ∈ helper, isInert c = true) :
    Nests (assignment.render indentation helper) [] [] := by
  have hcall : Nests ('(' :: assignment.expression ++ [')']) [] [] :=
    hnested.expression.between (show closerOf? '(' = some ')' from rfl)
  have hall := (nests_render_front hnested.targets hindentation hhelper).append hcall
  simpa [Assignment.render] using hall

end Assignment

/-! ## Imports -/

namespace Import

theorem behindFrom?_append {text behind : List Char} (hfrom : behindFrom? text = some behind) :
    ∃ blanks, (∀ c ∈ blanks, Text.isBlank c = true) ∧
      blanks ++ (['f', 'r', 'o', 'm'] ++ behind) = text := by
  unfold behindFrom? at hfrom
  split at hfrom
  · cases hfrom
  · rw [Option.bind_eq_bind, Option.bind_eq_some_iff] at hfrom
    obtain ⟨rest, hrest, hword⟩ := hfrom
    rw [Option.ite_none_right_eq_some, Option.some_inj] at hword
    obtain ⟨-, rfl⟩ := hword
    refine ⟨text.takeWhile Text.isBlank, fun c hc => List.mem_takeWhile_imp hc, ?_⟩
    rw [← Text.dropLead?_eq_some_iff.mp hrest, Text.takeWhile_append_trimStart]

theorem cutNames?_append {text names behind : List Char}
    (hcut : cutNames? text = some (names, behind)) :
    ∃ blanks, (∀ c ∈ blanks, Text.isBlank c = true) ∧
      names ++ (blanks ++ (['f', 'r', 'o', 'm'] ++ behind)) = text := by
  induction text generalizing names with
  | nil => cases hcut
  | cons c rest ih =>
      rw [cutNames?, Option.ite_none_left_eq_some] at hcut
      obtain ⟨-, hcut⟩ := hcut
      split at hcut
      · rename_i behind' hfrom
        obtain ⟨rfl, rfl⟩ := Prod.mk.inj (Option.some_inj.mp hcut)
        obtain ⟨blanks, hblanks, rfl⟩ := behindFrom?_append hfrom
        exact ⟨blanks, hblanks, rfl⟩
      · obtain ⟨⟨names', behind'⟩, hrest, hpair⟩ := Option.map_eq_some_iff.mp hcut
        obtain ⟨rfl, rfl⟩ := Prod.mk.inj hpair
        obtain ⟨blanks, hblanks, rfl⟩ := ih hrest
        exact ⟨blanks, hblanks, rfl⟩

/-- The names stand between blanks, the second of them in front of the word `from`. -/
theorem cutBehindBlanks?_append {text names behind : List Char}
    (hcut : cutBehindBlanks? text = some (names, behind)) :
    ∃ blanks blanks', (∀ c ∈ blanks, Text.isBlank c = true) ∧
      (∀ c ∈ blanks', Text.isBlank c = true) ∧
        blanks ++ (names ++ (blanks' ++ (['f', 'r', 'o', 'm'] ++ behind))) = text := by
  induction text with
  | nil => cases hcut
  | cons c rest ih =>
      rw [cutBehindBlanks?, Option.ite_none_right_eq_some] at hcut
      obtain ⟨hblank, hcut⟩ := hcut
      split at hcut
      · rename_i cut hrest
        obtain ⟨blanks, blanks', hblanks, hblanks', rfl⟩ := ih (hrest.trans hcut)
        exact ⟨c :: blanks, blanks', List.forall_mem_cons.mpr ⟨hblank, hblanks⟩, hblanks', rfl⟩
      · obtain ⟨blanks', hblanks', rfl⟩ := cutNames?_append hcut
        exact ⟨[c], blanks', by simpa using hblank, hblanks', rfl⟩

end Import

namespace Line

/-- The names of an import of names, and what stands behind its `from`. -/
def namedImport? (line : Line) : Option (List Char × List Char) :=
  ((Text.dropLead? ['i', 'm', 'p', 'o', 'r', 't'] line.content).bind
    Import.cutBehindBlanks?).filter fun cut =>
      !(cut.1.head? == some '\x7b' || cut.1.head? == some '*')

theorem withNamedImport?_eq (line : Line) :
    line.withNamedImport? = line.namedImport?.map fun cut =>
      line.indentation ++ ['i', 'm', 'p', 'o', 'r', 't', ' ', '\x7b'] ++ cut.1 ++
        ['\x7d', ' ', 'f', 'r', 'o', 'm'] ++ cut.2 := by
  unfold withNamedImport? namedImport?
  cases Text.dropLead? ['i', 'm', 'p', 'o', 'r', 't'] line.content with
  | none => rfl
  | some rest =>
      cases hcut : Import.cutBehindBlanks? rest with
      | none => simp [hcut]
      | some cut =>
          simp only [Option.bind_some, Option.bind_eq_bind, hcut]
          by_cases hbrace : cut.1.head? = some '\x7b'
          · simp [hbrace, Option.filter]
          · by_cases hstar : cut.1.head? = some '*' <;>
              simp [hbrace, hstar, Option.filter]

end Line

/-- An import of names is written with characters of the line and of fixed words. -/
theorem mem_of_withNamedImport? {line : Line} {text : List Char}
    (himport : line.withNamedImport? = some text) {c : Char} (hc : c ∈ text) :
    c ∈ line.raw ∨ c ∈ ['i', 'm', 'p', 'o', 'r', 't', ' ', '\x7b'] ∨
      c ∈ ['\x7d', ' ', 'f', 'r', 'o', 'm'] := by
  simp only [Line.withNamedImport?, Option.bind_eq_bind, Option.bind_eq_some_iff] at himport
  obtain ⟨rest, hword, ⟨names, behind⟩, hcut, htext⟩ := himport
  rw [Option.ite_none_left_eq_some, Option.some_inj] at htext
  obtain ⟨-, rfl⟩ := htext
  obtain ⟨blanks, blanks', -, -, rfl⟩ := Import.cutBehindBlanks?_append hcut
  rw [Line.raw, Text.dropLead?_eq_some_iff.mp hword]
  simp only [List.mem_append] at hc ⊢
  tauto

end Offside
