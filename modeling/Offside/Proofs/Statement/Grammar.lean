/-
# The grammar of assignments

`Assignment.Writes` says how an assignment may be written: the word of its scope or none,
target lists with an operator behind each, and behind the last operator its value, among
blanks and with at most one semicolon that is not part of it. The chain of targets is as
long as it can be. Where the operators are is for `segments` to say, and `Assigns` tells which
characters that makes them; the relation knows nothing else of how a statement is read.

The main result says that a statement is read as an assignment exactly when the assignment
writes it, and that an assignment written out is read as itself, with a semicolon or without.
A `local` in front may be a word or a name, but no statement can be read in both ways,
because no second name follows a name and a blank.
-/

import Offside.Proofs.Statement.Operators

namespace Offside

namespace Assignment

/-! ## Target lists -/

/-- One identifier, or several between commas, each among blanks. -/
def IsTargets (text : List Char) : Prop :=
  ∃ names, names ≠ [] ∧ (∀ name ∈ names, isIdentifier (Text.trim name) = true) ∧
    text = List.intercalate [','] names

theorem areTargets_iff {text : List Char} : areTargets text = true ↔ IsTargets text := by
  constructor
  · intro htargets
    exact ⟨text.splitOn ',', List.splitOn_ne_nil ',' text, List.all_eq_true.mp htargets,
      (List.intercalate_splitOn ',').symm⟩
  · rintro ⟨names, hne, hnames, rfl⟩
    have hcomma : ∀ name ∈ names, ',' ∉ name := by
      intro name hname hmem
      have hpart : ∀ c ∈ name, (isNamePart c || Text.isBlank c) = true :=
        forall_mem_of_trim (fun c hc => by simp [hc]) fun c hc => by
          simp [isNamePart_of_isIdentifier (hnames name hname) c hc]
      exact absurd (hpart ',' hmem) (by decide)
    rw [areTargets, List.splitOn_intercalate ',' hcomma hne]
    exact List.all_eq_true.mpr hnames

variable {word list content : List Char} {assignment assignment' : Assignment}

theorem isTargetPart_of_isTargets (hlist : IsTargets list) : ∀ c ∈ list, isTargetPart c = true :=
  isTargetPart_of_areTargets (areTargets_iff.mpr hlist)

/-! ## Values -/

/-- The text is the expression among blanks, with or without a semicolon behind it that is not
part of it. -/
structure IsValue (expression text : List Char) : Prop where
  ne_nil : expression ≠ []
  trim : Text.trim expression = expression
  exists_pieces : ∃ blanks blanks' final blanks'', (∀ c ∈ blanks, Text.isBlank c = true) ∧
    (∀ c ∈ blanks', Text.isBlank c = true) ∧ final ∈ [[], [';']] ∧
      (∀ c ∈ blanks'', Text.isBlank c = true) ∧ (final = [] → expression.getLast? ≠ some ';') ∧
        text = blanks ++ expression ++ blanks' ++ final ++ blanks''

theorem IsValue.blank_cons {expression text : List Char} (hvalue : IsValue expression text)
    {blank : Char} (hblank : Text.isBlank blank = true) : IsValue expression (blank :: text) := by
  obtain ⟨hne, htrim, blanks, blanks', final, blanks'', hblanks, hblanks', hfinal, hblanks'', hlast,
    rfl⟩ := hvalue
  exact ⟨hne, htrim, blank :: blanks, blanks', final, blanks'',
    List.forall_mem_cons.mpr ⟨hblank, hblanks⟩, hblanks', hfinal, hblanks'', hlast, rfl⟩

/-- A text that begins with no blank and ends in a semicolon has no blanks to lose. -/
theorem trim_append_semicolon {text : List Char} (htext : Text.trimStart text = text) :
    Text.trim (text ++ [';']) = text ++ [';'] := by
  have hsemicolon : Text.isBlank ';' = false := rfl
  rw [Text.trim, Text.trimStart_append_cons hsemicolon, htext, Text.trimEnd_append_cons hsemicolon]
  rfl

theorem IsValue.eq_of_text {expression text : List Char} (hvalue : IsValue expression text) :
    Text.trimEnd (Text.dropFinal ';' (Text.trim text)) = expression := by
  obtain ⟨hne, htrim, blanks, blanks', final, blanks'', hblanks, hblanks', hfinal, hblanks'', hlast,
    rfl⟩ := hvalue
  have hend : Text.trimEnd (expression ++ blanks') = expression := by
    rw [Text.trimEnd_append_of_isBlank hblanks', Text.trimEnd_of_trim htrim]
  have hstart : Text.trimStart (expression ++ blanks') = expression ++ blanks' := by
    have hself := Text.trimStart_of_trim htrim
    rw [Text.trimStart_append_of_ne_nil (by rwa [hself]), hself]
  have hedges : Text.trim (blanks ++ expression ++ blanks' ++ final ++ blanks'') =
      Text.trim (expression ++ blanks' ++ final) := by
    rw [← Text.trim_append_of_isBlank hblanks hblanks'' (expression ++ blanks' ++ final)]
    simp only [List.append_assoc]
  rw [hedges]
  rcases List.mem_pair.mp hfinal with rfl | rfl
  · rw [List.append_nil, Text.trim, hstart, hend, Text.dropFinal, if_neg (hlast rfl),
      Text.trimEnd_of_trim htrim]
  · rw [trim_append_semicolon hstart, Text.dropFinal, List.getLast?_concat, if_pos rfl,
      List.dropLast_concat, hend]

/-- The expression of an assignment is its value without the blanks and the semicolon. -/
theorem isValue_iff {expression : List Char} {others : List (List Char)} :
    IsValue expression (List.intercalate ['='] others) ↔
      expressionOf others = expression ∧ expression ≠ [] := by
  constructor
  · intro hvalue
    exact ⟨hvalue.eq_of_text, hvalue.ne_nil⟩
  · rintro ⟨rfl, hne⟩
    exact ⟨hne, Text.trim_trimEnd_dropFinal rfl _, Text.exists_pieces_of_dropFinal ';' _⟩

/-! ## Chains -/

/-- The segments are target lists, which are trimmed, and behind them those of a value. If
there is an operator in the value, what stands in front of it is no target list. -/
inductive Chain (expression : List Char) : List (List Char) → List (List Char) → Prop
  | value {others : List (List Char)} (hothers : others ≠ [])
      (hmaximal : ∀ first next rest, others = first :: next :: rest → ¬ IsTargets first)
      (hvalue : IsValue expression (List.intercalate ['='] others)) : Chain expression [] others
  | target {list : List Char} {targets pieces : List (List Char)} (hlist : IsTargets list)
      (hrest : Chain expression targets pieces) :
      Chain expression (Text.trim list :: targets) (list :: pieces)

/-- The content can be written for the assignment: the word of its scope, with a blank behind
it, or none, and then its targets, of which there are some, and its value. -/
def Writes (assignment : Assignment) (content : List Char) : Prop :=
  ∃ word pieces, assignment.scope.Spells word ∧
    (word ≠ [] → ∃ piece ∈ pieces.head?, ∃ c ∈ piece.head?, Text.isBlank c = true) ∧
      segments content = pieces.modifyHead (word ++ ·) ∧ assignment.targets ≠ [] ∧
        Chain assignment.expression assignment.targets pieces

theorem isTargets_blank_cons {blank : Char} (hblank : Text.isBlank blank = true) :
    IsTargets (blank :: list) ↔ IsTargets list := by
  have hblanks : ∀ c ∈ [blank], Text.isBlank c = true := by simpa using hblank
  rw [← areTargets_iff, ← areTargets_iff, ← List.singleton_append, areTargets_append_left hblanks]

theorem isTargets_append_blank {blank : Char} (hblank : Text.isBlank blank = true) :
    IsTargets (list ++ [blank]) ↔ IsTargets list := by
  have hblanks : ∀ c ∈ [blank], Text.isBlank c = true := by simpa using hblank
  rw [← areTargets_iff, ← areTargets_iff, areTargets_append_right hblanks]

theorem ne_nil_of_isTargets (hlist : IsTargets list) : list ≠ [] := by
  rintro rfl
  cases areTargets_iff.mpr hlist

/-- A word in front of a target list and a blank is not part of the list. -/
theorem not_isTargets_append {scope : Scope} (hspells : scope.Spells word) (hword : word ≠ [])
    (hblank : ∃ c ∈ list.head?, Text.isBlank c = true) (hlist : IsTargets list) :
    ¬ IsTargets (word ++ list) := by
  intro hboth
  obtain ⟨c, hc, hblank⟩ := hblank
  obtain ⟨rest, rfl⟩ := List.head?_eq_some_iff.mp hc
  have hletters : ',' ∉ word ∧ ∃ c ∈ word, Text.isBlank c = false := by
    cases hspells with
    | «local» | «global» => exact ⟨by decide, _, List.mem_cons_self, rfl⟩
    | none => exact absurd rfl hword
  have hrest := isBlank_of_areTargets hletters.2 hletters.1 hblank (areTargets_iff.mpr hboth)
  have hname := isIdentifier_of_areTargets
    (areTargets_iff.mpr ((isTargets_blank_cons hblank).mp hlist))
  have hnil : Text.trim (rest.takeWhile (· ≠ ',')) = [] := by
    rw [Text.trim, ← List.append_nil (rest.takeWhile _), Text.trimStart_append_of_isBlank hrest]
    rfl
  rw [hnil] at hname
  cases hname

/-! ## Chains are what is cut off -/

section Chain

variable {expression : List Char} {targets pieces : List (List Char)}

theorem chain_cutTargets (hpieces : pieces ≠ [])
    (hvalue : expressionOf (cutTargets pieces).2 ≠ []) :
    Chain (expressionOf (cutTargets pieces).2) (cutTargets pieces).1 pieces := by
  induction pieces with
  | nil => exact absurd rfl hpieces
  | cons segment others ih =>
      by_cases hothers : others = []
      · subst hothers
        exact .value (List.cons_ne_nil _ _) (by simp) (isValue_iff.mpr ⟨rfl, hvalue⟩)
      · rw [cutTargets_cons segment hothers] at hvalue ⊢
        by_cases htargets : areTargets segment = true
        · rw [if_pos htargets] at hvalue ⊢
          exact .target (areTargets_iff.mp htargets) (ih hothers hvalue)
        · rw [if_neg htargets] at hvalue ⊢
          refine .value (List.cons_ne_nil _ _) (fun first next rest heq => ?_)
            (isValue_iff.mpr ⟨rfl, hvalue⟩)
          rw [← (List.cons.inj heq).1, ← areTargets_iff]
          exact htargets

theorem Chain.ne_nil (hchain : Chain expression targets pieces) : pieces ≠ [] := by
  cases hchain with
  | value hothers => exact hothers
  | target => exact List.cons_ne_nil _ _

theorem Chain.cutTargets_eq (hchain : Chain expression targets pieces) :
    (cutTargets pieces).1 = targets ∧ expressionOf (cutTargets pieces).2 = expression ∧
      expression ≠ [] := by
  induction hchain with
  | @value others hothers hmaximal hvalue =>
      have hcut : cutTargets others = ([], others) := by
        obtain ⟨first, rest, rfl⟩ := List.exists_cons_of_ne_nil hothers
        cases rest with
        | nil => rfl
        | cons next rest =>
            have hfirst := hmaximal first next rest rfl
            rw [cutTargets_cons first (List.cons_ne_nil _ _),
              if_neg (areTargets_iff.not.mpr hfirst)]
      rw [hcut]
      exact ⟨rfl, isValue_iff.mp hvalue⟩
  | @target list targets pieces hlist hrest ih =>
      rw [cutTargets_cons list hrest.ne_nil, if_pos (areTargets_iff.mpr hlist)]
      exact ⟨congrArg _ ih.1, ih.2⟩

/-- With a target in front, a chain begins with a list and an operator behind it. -/
theorem Chain.exists_list (hchain : Chain expression targets pieces) (htargets : targets ≠ []) :
    ∃ list back, IsTargets list ∧ pieces.head? = some list ∧
      List.intercalate ['='] pieces = list ++ '=' :: back := by
  cases hchain with
  | value => exact absurd rfl htargets
  | @target list targets pieces hlist hrest =>
      refine ⟨list, List.intercalate ['='] pieces, hlist, rfl, ?_⟩
      rw [List.intercalate_cons_of_ne_nil hrest.ne_nil, List.append_assoc, List.singleton_append]

/-- In front of a chain, another word makes no difference to the operators. -/
theorem Chain.segments_append {front rest : List Char} (hfront : ∀ c ∈ front, isTargetPart c = true)
    (hchain : Chain expression targets (segments rest)) (htargets : targets ≠ []) :
    segments (front ++ rest) = (segments rest).modifyHead (front ++ ·) := by
  obtain ⟨list, back, hlist, -, hrest⟩ := hchain.exists_list htargets
  rw [intercalate_segments] at hrest
  rw [hrest]
  exact segments_append_equals hfront (isTargetPart_of_isTargets hlist) back

end Chain

/-! ## Reading -/

/-- What is read as an assignment is written as one. -/
theorem writes_of_parse? (hparse : parse? content = some assignment) :
    assignment.Writes content := by
  obtain ⟨word, rest, hspells, hblank, rfl, hread⟩ := exists_of_parse? hparse
  obtain ⟨hassignment, htargets, hexpression⟩ := parseTargets?_eq_some_iff.mp hread
  have hcut : assignment.targets = (cutTargets (segments rest)).1 ∧
      assignment.expression = expressionOf (cutTargets (segments rest)).2 := by
    rw [hassignment]
    exact ⟨rfl, rfl⟩
  have hchain : Chain assignment.expression assignment.targets (segments rest) := by
    rw [hcut.1, hcut.2]
    exact chain_cutTargets (segments_ne_nil rest) (hcut.2 ▸ hexpression)
  refine ⟨word, segments rest, hspells, fun hword => ?_,
    hchain.segments_append hspells.isTargetPart htargets, htargets, hchain⟩
  obtain ⟨c, hc, hblank⟩ := hblank hword
  obtain ⟨list, back, hlist, hhead, hrest⟩ := hchain.exists_list htargets
  rw [intercalate_segments] at hrest
  rw [hrest, List.head?_append_of_ne_nil _ (ne_nil_of_isTargets hlist)] at hc
  exact ⟨list, hhead, c, hc, hblank⟩

/-- Text in front of the first piece stands in front of the pieces joined. -/
theorem intercalate_modifyHead {separator front : List Char} {pieces : List (List Char)}
    (hpieces : pieces ≠ []) :
    List.intercalate separator (pieces.modifyHead (front ++ ·)) =
      front ++ List.intercalate separator pieces := by
  obtain ⟨piece, rest, rfl⟩ := List.exists_cons_of_ne_nil hpieces
  by_cases hrest : rest = []
  · subst hrest
    rw [List.modifyHead_cons, List.intercalate_singleton, List.intercalate_singleton]
  · rw [List.modifyHead_cons, List.intercalate_cons_of_ne_nil hrest,
      List.intercalate_cons_of_ne_nil hrest]
    simp only [List.append_assoc]

theorem modifyHead_append_inj {front : List Char} {pieces pieces' : List (List Char)}
    (hsame : pieces.modifyHead (front ++ ·) = pieces'.modifyHead (front ++ ·)) :
    pieces = pieces' := by
  cases pieces <;> cases pieces' <;> simp_all

theorem worded?_append {rest : List Char} (hblank : ∃ c ∈ rest.head?, Text.isBlank c = true) :
    Scope.split.worded? (word ++ rest) word = some rest := by
  obtain ⟨c, hc, hblank⟩ := hblank
  rw [Scope.split.worded?, Text.dropLead?_eq_some_iff.mpr rfl, Option.filter_some,
    if_pos (by rw [Option.mem_def.mp hc]; exact hblank)]

/-- What is written as an assignment is read as one. -/
theorem Writes.isSome_parse? (hwrites : assignment.Writes content) :
    (parse? content).isSome = true := by
  obtain ⟨scope, targets, expression⟩ := assignment
  obtain ⟨word, pieces, hspells, hblank, hsegments, htargets, hchain⟩ := hwrites
  obtain ⟨list, back, hlist, hhead, hrest⟩ := hchain.exists_list htargets
  obtain ⟨rest, hjoin⟩ : ∃ rest, rest = List.intercalate ['='] pieces := ⟨_, rfl⟩
  rw [← hjoin] at hrest
  have hcontent : word ++ rest = content := by
    rw [hjoin, ← intercalate_modifyHead hchain.ne_nil, ← hsegments, intercalate_segments]
  have hpieces : segments rest = pieces := by
    have hword := segments_append_equals hspells.isTargetPart (isTargetPart_of_isTargets hlist) back
    rw [← hrest, hcontent, hsegments] at hword
    exact (modifyHead_append_inj hword).symm
  have hread : parseTargets? scope rest = some ⟨scope, targets, expression⟩ := by
    obtain ⟨hcut, hexpression, hne⟩ := hchain.cutTargets_eq
    rw [parseTargets?_eq_some_iff, hpieces, hcut, hexpression]
    exact ⟨rfl, htargets, hne⟩
  have hworded : word ≠ [] → Scope.split.worded? content word = some rest := by
    intro hword
    obtain ⟨piece, hpiece, c, hc, hblank⟩ := hblank hword
    obtain rfl := Option.some_inj.mp (hhead.symm.trans hpiece)
    rw [← hcontent]
    refine worded?_append ⟨c, ?_, hblank⟩
    rw [hrest, List.head?_append_of_ne_nil _ (ne_nil_of_isTargets hlist)]
    exact hc
  rw [parse?_eq, Option.isSome_or, Option.isSome_or]
  cases hspells with
  | «local» => simp [hworded, hread]
  | «global» => simp [hworded, hread]
  | none => simp [← hcontent, hread]

/-- A word in front of the first list is a word in every reading. -/
theorem word_eq_of_append {scope scope' : Scope} {word word' list list' : List Char}
    (hspells : scope.Spells word) (hspells' : scope'.Spells word')
    (hblank : word ≠ [] → ∃ c ∈ list.head?, Text.isBlank c = true)
    (hblank' : word' ≠ [] → ∃ c ∈ list'.head?, Text.isBlank c = true)
    (hlist : IsTargets list) (hlist' : IsTargets list') (hsame : word ++ list = word' ++ list') :
    word = word' := by
  by_cases hword : word = []
  · by_cases hword' : word' = []
    · rw [hword, hword']
    · have hnot := not_isTargets_append hspells' hword' (hblank' hword') hlist'
      rw [← hsame, hword] at hnot
      exact absurd hlist hnot
  · by_cases hword' : word' = []
    · have hnot := not_isTargets_append hspells hword (hblank hword) hlist
      rw [hsame, hword'] at hnot
      exact absurd hlist' hnot
    · cases hspells <;> cases hspells' <;> simp_all

/-- No two assignments are written alike. -/
theorem Writes.unique (hwrites : assignment.Writes content)
    (hwrites' : assignment'.Writes content) : assignment = assignment' := by
  obtain ⟨scope, targets, expression⟩ := assignment
  obtain ⟨scope', targets', expression'⟩ := assignment'
  obtain ⟨word, pieces, hspells, hblank, hsegments, htargets, hchain⟩ := hwrites
  obtain ⟨word', pieces', hspells', hblank', hsegments', htargets', hchain'⟩ := hwrites'
  obtain ⟨list, -, hlist, hhead, -⟩ := hchain.exists_list htargets
  obtain ⟨list', -, hlist', hhead', -⟩ := hchain'.exists_list htargets'
  rw [hsegments] at hsegments'
  have hword : word = word' := by
    have hheads := congrArg List.head? hsegments'
    rw [List.head?_modifyHead, List.head?_modifyHead, hhead, hhead'] at hheads
    refine word_eq_of_append hspells hspells' (fun hne => ?_) (fun hne => ?_) hlist hlist'
      (Option.some_inj.mp hheads)
    · obtain ⟨piece, hpiece, hc⟩ := hblank hne
      obtain rfl := Option.some_inj.mp (hhead.symm.trans hpiece)
      exact hc
    · obtain ⟨piece, hpiece, hc⟩ := hblank' hne
      obtain rfl := Option.some_inj.mp (hhead'.symm.trans hpiece)
      exact hc
  subst hword
  obtain rfl := modifyHead_append_inj hsegments'
  obtain ⟨hcut, hexpression, -⟩ := hchain.cutTargets_eq
  obtain ⟨hcut', hexpression', -⟩ := hchain'.cutTargets_eq
  have hscope : scope = scope' := hspells.unique hspells'
  have htargets : targets = targets' := hcut.symm.trans hcut'
  have hexpression : expression = expression' := hexpression.symm.trans hexpression'
  rw [hscope, htargets, hexpression]

/-- A statement is read as an assignment exactly when the assignment writes it. -/
theorem parse?_eq_some_iff : parse? content = some assignment ↔ assignment.Writes content := by
  constructor
  · exact writes_of_parse?
  · intro hwrites
    obtain ⟨found, hfound⟩ := Option.isSome_iff_exists.mp hwrites.isSome_parse?
    rw [hfound, (writes_of_parse? hfound).unique hwrites]

/-! ## Writing -/

/-- An assignment that can be written out: there are targets, which are target lists, and an
expression, both without blanks at the edges. The expression does not end in a semicolon, and
what it has in front of its first operator, if there is one, is no target list. -/
structure IsPlain (assignment : Assignment) : Prop where
  targets : assignment.targets ≠ []
  isTargets : ∀ target ∈ assignment.targets, IsTargets target ∧ Text.trim target = target
  expression : assignment.expression ≠ []
  trim : Text.trim assignment.expression = assignment.expression
  semicolon : assignment.expression.getLast? ≠ some ';'
  maximal : ∀ first next rest, segments assignment.expression = first :: next :: rest →
    ¬ IsTargets first

/-- The targets and the value with ` = ` between them. -/
def chainText (targets : List (List Char)) (value : List Char) : List Char :=
  List.intercalate [' ', '=', ' '] (targets ++ [value])

/-- The assignment written out, behind the word of its scope, if that has one, and with
`final` at the end. -/
def source (assignment : Assignment) (word final : List Char) : List Char :=
  word ++ (if word = [] then [] else [' ']) ++
    chainText assignment.targets (assignment.expression ++ final)

theorem Chain.modifyHead {expression : List Char} {targets pieces : List (List Char)}
    (hchain : Chain expression targets pieces) :
    Chain expression targets (pieces.modifyHead (' ' :: ·)) := by
  have hblank : Text.isBlank ' ' = true := rfl
  cases hchain with
  | value hothers hmaximal hvalue =>
      obtain ⟨first, rest, rfl⟩ := List.exists_cons_of_ne_nil hothers
      refine .value (List.cons_ne_nil _ _) (fun first' next rest' heq => ?_) ?_
      · obtain ⟨rfl, hrest⟩ := List.cons.inj heq
        rw [isTargets_blank_cons hblank]
        exact hmaximal first next rest' (by rw [hrest])
      · rw [List.modifyHead_cons, List.intercalate_cons_cons_left]
        exact hvalue.blank_cons hblank
  | @target list targets pieces hlist hrest =>
      have htrim : Text.trim list = Text.trim (' ' :: list) := by
        rw [Text.trim, Text.trim, Text.trimStart_cons_of_isBlank hblank]
      rw [htrim]
      exact .target ((isTargets_blank_cons hblank).mpr hlist) hrest

/-- A semicolon at the end is not in front of an operator. -/
theorem IsPlain.maximal_append (hplain : assignment.IsPlain) {final : List Char}
    (hfinal : final ∈ [[], [';']]) (first next : List Char) (rest : List (List Char))
    (hsegments : segments (assignment.expression ++ final) = first :: next :: rest) :
    ¬ IsTargets first := by
  rcases List.mem_pair.mp hfinal with rfl | rfl
  · rw [List.append_nil] at hsegments
    exact hplain.maximal first next rest hsegments
  · obtain ⟨front, last, hplain', hfinal'⟩ :=
      exists_segments_append_semicolon assignment.expression
    rw [hfinal'] at hsegments
    cases front with
    | nil => cases hsegments
    | cons piece front =>
        obtain ⟨rfl, -⟩ := List.cons.inj hsegments
        have hne : front ++ [last] ≠ [] :=
          List.append_ne_nil_of_right_ne_nil front (List.cons_ne_nil last [])
        obtain ⟨next', rest', hrest⟩ := List.exists_cons_of_ne_nil hne
        exact hplain.maximal piece next' rest' (by rw [hplain', List.cons_append, hrest])

theorem IsPlain.chain_segments (hplain : assignment.IsPlain) {final : List Char}
    (hfinal : final ∈ [[], [';']]) {targets : List (List Char)}
    (htargets : ∀ target ∈ targets, IsTargets target ∧ Text.trim target = target) :
    Chain assignment.expression targets
      (segments (chainText targets (assignment.expression ++ final))) := by
  induction targets with
  | nil =>
      rw [chainText, List.nil_append, List.intercalate_singleton]
      refine .value (segments_ne_nil _) ?_ ?_
      · exact hplain.maximal_append hfinal
      · rw [intercalate_segments]
        refine ⟨hplain.expression, hplain.trim, [], [], final, [], ?_⟩
        simpa [hplain.semicolon] using hfinal
  | cons target targets ih =>
      obtain ⟨⟨htarget, htrim⟩, htargets⟩ := List.forall_mem_cons.mp htargets
      have hblank : Text.isBlank ' ' = true := rfl
      have hlist : IsTargets (target ++ [' ']) := (isTargets_append_blank hblank).mpr htarget
      have htext : chainText (target :: targets) (assignment.expression ++ final) =
          (target ++ [' ']) ++ '=' :: ' ' ::
            chainText targets (assignment.expression ++ final) := by
        rw [chainText, List.cons_append, List.intercalate_cons_of_ne_nil (by simp), chainText]
        simp
      have htrim' : target = Text.trim (target ++ [' ']) := by
        rw [Text.trim, ← Text.trimStart_trimEnd,
          Text.trimEnd_append_of_isBlank (by simpa using hblank), Text.trimStart_trimEnd,
          ← Text.trim, htrim]
      rw [htext, segments_append_operator (isTargetPart_of_isTargets hlist)]
      nth_rewrite 1 [htrim']
      exact .target hlist (ih htargets).modifyHead

theorem IsPlain.writes (hplain : assignment.IsPlain) {word final : List Char}
    (hspells : assignment.scope.Spells word) (hfinal : final ∈ [[], [';']]) :
    assignment.Writes (assignment.source word final) := by
  have hchain := hplain.chain_segments hfinal hplain.isTargets
  by_cases hword : word = []
  · subst hword
    refine ⟨[], _, hspells, fun hne => absurd rfl hne, ?_, hplain.targets, hchain⟩
    rw [modifyHead_nil_append]
    rfl
  · -- The blank behind the word belongs to the first target list.
    have hspace : segments (' ' :: chainText assignment.targets (assignment.expression ++ final)) =
        (segments (chainText assignment.targets (assignment.expression ++ final))).modifyHead
          (' ' :: ·) :=
      hchain.segments_append (List.forall_mem_singleton.mpr rfl) hplain.targets
    have hchain' := hchain.modifyHead
    rw [← hspace] at hchain'
    obtain ⟨list, -, -, hhead, -⟩ := hchain.exists_list hplain.targets
    refine ⟨word, _, hspells, fun _ => ⟨' ' :: list, ?_, ' ', rfl, rfl⟩, ?_, hplain.targets,
      hchain'⟩
    · rw [hspace, List.head?_modifyHead, hhead]
      rfl
    · have hsource : assignment.source word final =
          word ++ ' ' :: chainText assignment.targets (assignment.expression ++ final) := by
        rw [source, if_neg hword, List.append_assoc, List.singleton_append]
      rw [hsource]
      exact hchain'.segments_append hspells.isTargetPart hplain.targets

/-- An assignment that is written out, with or without a semicolon, is read as itself; and a
statement is read as an assignment exactly when the assignment writes it. -/
theorem parse_grammar :
    (∀ (assignment : Assignment) (word final : List Char), assignment.IsPlain →
      assignment.scope.Spells word → final ∈ [[], [';']] →
        parse? (assignment.source word final) = some assignment) ∧
    ∀ (content : List Char) (assignment : Assignment),
      parse? content = some assignment ↔ assignment.Writes content :=
  ⟨fun _ _ _ hplain hspells hfinal => parse?_eq_some_iff.mpr (hplain.writes hspells hfinal),
    fun _ _ => parse?_eq_some_iff⟩

/-- Targets that are named like the words, and a value with operators of several kinds: in
brackets, in a regular expression, longer ones, and one behind a text that is no target list. -/
theorem parse_grammar_local :
    let assignment : Assignment := ⟨.block, ["local".toList, "a , global".toList],
      "f(p = 1) == /=/ ? q = 2 : (c) => c".toList⟩
    let source := "local local = a , global = f(p = 1) == /=/ ? q = 2 : (c) => c;".toList
    assignment.IsPlain ∧ assignment.scope.Spells "local".toList ∧
      parse? source = some assignment ∧ assignment.Writes source := by
  intro assignment source
  have hsegments : segments assignment.expression =
      ["f(p = 1) == /=/ ? q ".toList, " 2 : (c) => c".toList] := by
    decide +kernel
  have htargets : ∀ target ∈ assignment.targets, areTargets target = true ∧
      Text.trim target = target := by
    decide
  have hplain : assignment.IsPlain :=
    { targets := by decide
      isTargets := fun target htarget => (htargets target htarget).imp_left areTargets_iff.mp
      expression := by decide
      trim := by decide
      semicolon := by decide
      maximal := by
        intro first next rest heq
        obtain ⟨rfl, -⟩ := List.cons.inj (hsegments.symm.trans heq)
        rw [← areTargets_iff]
        decide }
  have hsource : assignment.source "local".toList [';'] = source := by decide
  have hparse : parse? source = some assignment :=
    hsource ▸ parse_grammar.1 assignment "local".toList [';'] hplain .local (by simp)
  exact ⟨hplain, .local, hparse, (parse_grammar.2 source assignment).mp hparse⟩

/-- Where no target list follows the word, it is the name of a variable. -/
example : parse? "local = 1".toList = some ⟨.wide, ["local".toList], "1".toList⟩ := by decide

end Assignment

end Offside
