/-
# Which characters are operators

`Assigns` says of one `=` of a statement that it assigns, without going through the statement:
it is code, no bracket is open in front of it, and the characters beside it do not make a longer
operator of it. The brackets in front of it are counted in code only, and one that closes nothing
does not make up for a later one that opens; so none is open if every end of the code in front
closes at least as many as it opens.

The search for operators finds these characters and no others. Its offsets are theirs, in
increasing order, and the segments of a statement are what stands between them.
-/

import Mathlib.Data.List.Induction
import Offside.Proofs.Statement.Nesting
import Offside.Proofs.Text.Offsets

namespace Offside

/-! ## Open brackets -/

/-- The number of opening brackets in a text. -/
def openings (text : List Char) : Nat := text.countP fun c => (closerOf? c).isSome

/-- The number of closing brackets in a text. -/
def closings (text : List Char) : Nat := text.countP isCloser

/-- However much of a piece of code is cut off in front, what is left closes at least as many
brackets as it opens. -/
def ClosesAll (code : List Char) : Prop := ∀ rest, rest <:+ code → openings rest ≤ closings rest

theorem isCloser_of_opener {c : Char} (hopener : (closerOf? c).isSome = true) :
    isCloser c = false := by
  unfold closerOf? at hopener
  split at hopener
  · rfl
  · rfl
  · rfl
  · cases hopener

theorem forall_suffix_concat {code : List Char} {c : Char} {p : List Char → Prop} :
    (∀ rest, rest <:+ code ++ [c] → p rest) ↔ p [] ∧ ∀ rest, rest <:+ code → p (rest ++ [c]) := by
  simp only [List.suffix_concat_iff, or_imp, forall_and, forall_eq, forall_exists_index, and_imp]
  refine and_congr_right fun _ => ⟨fun hall rest => hall _ rest rfl, ?_⟩
  rintro hall _ rest rfl
  exact hall rest

/-- The depth is the most that an end of the code opens without closing it. -/
theorem foldl_depthAfter_le_iff (code : List Char) (bound : Nat) :
    code.foldl depthAfter 0 ≤ bound ↔
      ∀ rest, rest <:+ code → openings rest ≤ closings rest + bound := by
  induction code using List.reverseRecOn generalizing bound with
  | nil => simp [openings]
  | append_singleton code c ih =>
      rw [List.foldl_append, List.foldl_cons, List.foldl_nil, depthAfter, forall_suffix_concat]
      have hempty : openings [] ≤ closings [] + bound := Nat.zero_le _
      rw [and_iff_right hempty]
      simp only [openings, closings, List.countP_append, List.countP_singleton] at ih ⊢
      cases hopener : (closerOf? c).isSome with
      | true =>
          simp only [isCloser_of_opener hopener, if_true, Bool.false_eq_true, if_false]
          cases bound with
          | zero =>
              -- The opening bracket itself is an end of the code.
              refine iff_of_false (Nat.not_succ_le_zero _) fun hall => ?_
              exact absurd (hall [] List.nil_suffix) (by simp)
          | succ bound =>
              rw [Nat.add_le_add_iff_right, ih]
              exact forall₂_congr fun rest _ => by omega
      | false =>
          cases hcloser : isCloser c with
          | true =>
              simp only [if_true, Bool.false_eq_true, if_false]
              rw [Nat.sub_le_iff_le_add, ih]
              exact forall₂_congr fun rest _ => by omega
          | false => simpa using ih bound

theorem foldl_depthAfter_eq_zero_iff {code : List Char} :
    code.foldl depthAfter 0 = 0 ↔ ClosesAll code := by
  rw [← Nat.le_zero, foldl_depthAfter_le_iff]
  rfl

/-! ## Operators -/

/-- The characters of a walk that are code. -/
def codeOf (steps : List WalkStep) : List Char :=
  (steps.filter (·.region == .code)).map (·.char)

/-- The `=` between two parts of a statement assigns. -/
structure Assigns (before after : List Char) : Prop where
  /-- It is code. -/
  code : (walk (before ++ '=' :: after))[before.length]?.map (·.region) = some .code
  /-- It stands in no bracket. -/
  outside : ClosesAll (codeOf ((walk (before ++ '=' :: after)).take before.length))
  /-- No operator ends in it. -/
  behind : ∀ c ∈ before.getLast?, OperatorScan.joinsEquals c = false
  /-- No other operator begins with it. -/
  ahead : after.head? ≠ some '=' ∧ after.head? ≠ some '>'

theorem codeOf_cons (s : WalkStep) (steps : List WalkStep) :
    codeOf (s :: steps) = if s.region = .code then s.char :: codeOf steps else codeOf steps := by
  simp only [codeOf, List.filter_cons, beq_iff_eq]
  split <;> rfl

/-- What the search knows in front of a character is the state of the walk, the brackets of the
code so far, and the character before. -/
theorem exists_getElem?_markOperatorsFrom (scan : OperatorScan) (before : List Char) (c : Char)
    (after : List Char) :
    ∃ state : WalkState,
      let steps := walkFrom scan.walk (before ++ c :: after)
      steps[before.length]?.map (·.region) = some (state.step c after.head?).1 ∧
        (markOperatorsFrom scan (before ++ c :: after))[before.length]? =
          some (c, OperatorScan.isOperator ⟨state,
            (codeOf (steps.take before.length)).foldl depthAfter scan.depth,
            before.getLast?.or scan.previous⟩ c after.head?) := by
  induction before generalizing scan with
  | nil => exact ⟨scan.walk, rfl, rfl⟩
  | cons d before ih =>
      obtain ⟨state, hregion, hmark⟩ := ih (scan.advance d (before ++ c :: after).head?)
      refine ⟨state, hregion, hmark.trans ?_⟩
      have hprevious : (d :: before).getLast?.or scan.previous = before.getLast?.or (some d) := by
        rw [List.getLast?_cons, Option.some_or]
        cases before.getLast? <;> rfl
      have hdepth : (codeOf ((walkFrom scan.walk (d :: before ++ c :: after)).take
          (before.length + 1))).foldl depthAfter scan.depth =
          (codeOf ((walkFrom (scan.advance d (before ++ c :: after).head?).walk
            (before ++ c :: after)).take before.length)).foldl depthAfter
              (scan.advance d (before ++ c :: after).head?).depth := by
        rw [List.cons_append, walkFrom, List.take_succ_cons, codeOf_cons, OperatorScan.advance]
        dsimp only
        split <;> rfl
      rw [List.length_cons, hdepth, hprevious]
      rfl

/-- The search marks the characters that assign. -/
theorem getElem?_markOperators_eq_iff {before after : List Char} :
    (markOperators (before ++ '=' :: after))[before.length]? = some ('=', true) ↔
      Assigns before after := by
  obtain ⟨state, hregion, hmark⟩ := exists_getElem?_markOperatorsFrom {} before '=' after
  have hcode : (walk (before ++ '=' :: after))[before.length]?.map (·.region) = some .code ↔
      (state.step '=' after.head?).1 = .code := by
    rw [walk, hregion, Option.some_inj]
  have hbehind : (∀ c ∈ before.getLast?, OperatorScan.joinsEquals c = false) ↔
      (before.getLast?.map OperatorScan.joinsEquals).getD false = false := by
    cases before.getLast? <;> simp
  rw [markOperators, hmark, Option.some_inj, Prod.mk.injEq, and_iff_right rfl]
  simp only [OperatorScan.isOperator, beq_self_eq_true, Bool.true_and, Bool.and_eq_true, beq_iff_eq,
    bne_iff_ne, Option.or_none, foldl_depthAfter_eq_zero_iff, Bool.not_eq_true', ← hbehind, ← hcode]
  constructor
  · rintro ⟨⟨⟨⟨hcode, houtside⟩, hbehind⟩, hequals⟩, harrow⟩
    exact ⟨hcode, houtside, hbehind, hequals, harrow⟩
  · rintro ⟨hcode, houtside, hbehind, hequals, harrow⟩
    exact ⟨⟨⟨⟨hcode, houtside⟩, hbehind⟩, hequals⟩, harrow⟩

/-- Marks at a character that assigns, with the text in front of it and the text behind it. -/
theorem assigns_iff_marks {before after : List Char} :
    Assigns before after ↔ ∃ front back, markOperators (before ++ '=' :: after) =
      front ++ ('=', true) :: back ∧ front.map Prod.fst = before ∧ back.map Prod.fst = after := by
  have hchars : (markOperators (before ++ '=' :: after)).map Prod.fst = before ++ '=' :: after :=
    map_fst_markOperatorsFrom {} _
  rw [← getElem?_markOperators_eq_iff]
  constructor
  · intro hmark
    obtain ⟨front, rest, hmarks, hfront, hrest⟩ := List.map_eq_append_iff.mp hchars
    obtain ⟨mark, back, rfl, -, hback⟩ := List.map_eq_cons_iff.mp hrest
    have hlength : before.length = front.length := by rw [← hfront, List.length_map]
    rw [hmarks, hlength, List.getElem?_append_right (Nat.le_refl _), Nat.sub_self,
      List.getElem?_cons_zero, Option.some_inj] at hmark
    exact ⟨front, back, hmark ▸ hmarks, hfront, hback⟩
  · rintro ⟨front, back, hmarks, rfl, -⟩
    rw [hmarks, List.length_map, List.getElem?_append_right (Nat.le_refl _), Nat.sub_self]
    rfl

/-! ## Offsets -/

theorem mem_markedOffsets_iff {start offset : Nat} {marks : List (Char × Bool)} :
    offset ∈ markedOffsets start marks ↔ ∃ front c back, marks = front ++ (c, true) :: back ∧
      offset = start + Text.byteLength (front.map Prod.fst) := by
  induction marks generalizing start with
  | nil => simp [markedOffsets]
  | cons mark marks ih =>
      obtain ⟨c, marked⟩ := mark
      have hmem : offset ∈ markedOffsets start ((c, marked) :: marks) ↔
          (marked = true ∧ offset = start) ∨ offset ∈ markedOffsets (start + c.utf8Size) marks := by
        rw [markedOffsets]
        cases marked <;> simp
      rw [hmem, ih]
      constructor
      · rintro (⟨rfl, rfl⟩ | ⟨front, d, back, rfl, rfl⟩)
        · exact ⟨[], c, marks, rfl, rfl⟩
        · exact ⟨(c, marked) :: front, d, back, rfl, Nat.add_assoc ..⟩
      · rintro ⟨front, d, back, hmarks, rfl⟩
        cases front with
        | nil =>
            obtain ⟨hmark, -⟩ := List.cons_eq_cons.mp hmarks
            exact .inl ⟨(Prod.mk.inj hmark).2, rfl⟩
        | cons mark front =>
            obtain ⟨rfl, rfl⟩ := List.cons_eq_cons.mp hmarks
            exact .inr ⟨front, d, back, rfl, (Nat.add_assoc ..).symm⟩

theorem markedOffsets_sublist (start : Nat) (marks : List (Char × Bool)) :
    (markedOffsets start marks).Sublist
      ((Text.charIndicesFrom start (marks.map Prod.fst)).map Prod.fst) := by
  induction marks generalizing start with
  | nil => exact List.Sublist.refl _
  | cons mark marks ih =>
      obtain ⟨c, marked⟩ := mark
      have hrest := ih (start + c.utf8Size)
      cases marked with
      | true => exact hrest.cons_cons start
      | false => exact hrest.cons start

/-- The offsets of the search are those at which a character that assigns begins. -/
theorem mem_operatorOffsets_iff {content : List Char} {offset : Nat} :
    offset ∈ operatorOffsets content ↔ ∃ before after, content = before ++ '=' :: after ∧
      Assigns before after ∧ offset = Text.byteLength before := by
  rw [operatorOffsets, mem_markedOffsets_iff]
  constructor
  · rintro ⟨front, c, back, hmarks, rfl⟩
    have hmem : (c, true) ∈ markOperators content := by simp [hmarks]
    obtain rfl := eq_of_mem_markOperatorsFrom hmem
    have hcontent : content = front.map Prod.fst ++ '=' :: back.map Prod.fst := by
      rw [← map_fst_markOperatorsFrom {} content, ← markOperators, hmarks, List.map_append,
        List.map_cons]
    exact ⟨_, _, hcontent, assigns_iff_marks.mpr ⟨front, back, hcontent ▸ hmarks, rfl, rfl⟩,
      Nat.zero_add _⟩
  · rintro ⟨before, after, rfl, hassigns, rfl⟩
    obtain ⟨front, back, hmarks, hfront, -⟩ := assigns_iff_marks.mp hassigns
    exact ⟨front, '=', back, hmarks, by rw [hfront, Nat.zero_add]⟩

/-- The offsets of the search increase. -/
theorem pairwise_operatorOffsets (content : List Char) :
    (operatorOffsets content).Pairwise (· < ·) := by
  refine List.Pairwise.sublist (markedOffsets_sublist 0 _) ?_
  exact List.pairwise_map.mpr (Text.pairwise_charIndicesFrom 0 _)

/-! ## Segments -/

theorem exists_of_splitOnP_eq_append {α : Type} {p : α → Bool} {text : List α}
    {front back : List (List α)} (hfront : front ≠ []) (hback : back ≠ [])
    (hsplit : text.splitOnP p = front ++ back) :
    ∃ first c second, text = first ++ c :: second ∧ p c = true ∧ first.splitOnP p = front ∧
      second.splitOnP p = back := by
  induction text generalizing front with
  | nil =>
      obtain ⟨rfl, -⟩ | ⟨-, rfl⟩ := List.append_eq_singleton_iff.mp (hsplit.symm.trans
        List.splitOnP_nil)
      · exact absurd rfl hfront
      · exact absurd rfl hback
  | cons c text ih =>
      obtain ⟨piece, front, rfl⟩ := List.exists_cons_of_ne_nil hfront
      rw [List.splitOnP_cons_eq_if_modifyHead] at hsplit
      split at hsplit
      · rename_i hc
        rw [List.cons_append, List.cons_eq_cons] at hsplit
        obtain ⟨rfl, hsplit⟩ := hsplit
        by_cases hnil : front = []
        · subst hnil
          exact ⟨[], c, text, rfl, hc, List.splitOnP_nil, hsplit⟩
        · obtain ⟨first, d, second, rfl, hd, hfirst, hsecond⟩ := ih hnil hsplit
          refine ⟨c :: first, d, second, rfl, hd, ?_, hsecond⟩
          rw [List.splitOnP_cons_eq_if_modifyHead, if_pos hc, hfirst]
      · rename_i hc
        obtain ⟨head, pieces, hpieces⟩ := List.exists_cons_of_ne_nil (List.splitOnP_ne_nil p text)
        rw [hpieces, List.modifyHead_cons, List.cons_append, List.cons_eq_cons] at hsplit
        obtain ⟨rfl, rfl⟩ := hsplit
        obtain ⟨first, d, second, rfl, hd, hfirst, hsecond⟩ :=
          ih (List.cons_ne_nil head front) hpieces
        refine ⟨c :: first, d, second, rfl, hd, ?_, hsecond⟩
        rw [List.splitOnP_cons_eq_if_modifyHead, if_neg hc, hfirst, List.modifyHead_cons]

/-- On both sides of a marked character, the pieces joined with `=` give the text there. -/
theorem intercalate_splitOnP_of_marks {content : List Char} {first second : List (Char × Bool)}
    {mark : Char × Bool} (hmarks : markOperators content = first ++ mark :: second) :
    List.intercalate ['='] ((first.splitOnP Prod.snd).map (·.map Prod.fst)) =
        first.map Prod.fst ∧
      List.intercalate ['='] ((second.splitOnP Prod.snd).map (·.map Prod.fst)) =
        second.map Prod.fst := by
  have hequals : ∀ c, (c, true) ∈ first ++ mark :: second → c = '=' := by
    rw [← hmarks]
    exact fun c => eq_of_mem_markOperatorsFrom
  constructor
  · exact intercalate_splitOnP_snd fun c hc => hequals c (List.mem_append_left _ hc)
  · exact intercalate_splitOnP_snd fun c hc =>
      hequals c (List.mem_append_right _ (List.mem_cons_of_mem mark hc))

/-- A character assigns if and only if a segment ends in front of it and another begins
behind it. -/
theorem assigns_iff_segments {before after : List Char} :
    Assigns before after ↔ ∃ front back, front ≠ [] ∧ back ≠ [] ∧
      segments (before ++ '=' :: after) = front ++ back ∧
        before = List.intercalate ['='] front ∧ after = List.intercalate ['='] back := by
  constructor
  · intro hassigns
    obtain ⟨first, second, hmarks, hfirst, hsecond⟩ := assigns_iff_marks.mp hassigns
    obtain ⟨hbefore, hafter⟩ := intercalate_splitOnP_of_marks hmarks
    rw [hfirst] at hbefore
    rw [hsecond] at hafter
    refine ⟨_, _, by simp, by simp, ?_, hbefore.symm, hafter.symm⟩
    rw [segments, hmarks, List.splitOnP_append_cons first second rfl, List.map_append]
  · rintro ⟨front, back, hne, hne', hsegments, hbefore, hafter⟩
    obtain ⟨front, back, hsplit, rfl, rfl⟩ := List.map_eq_append_iff.mp hsegments
    obtain ⟨first, ⟨c, marked⟩, second, hmarks, rfl, rfl, rfl⟩ := exists_of_splitOnP_eq_append
      (fun hnil => hne (congrArg _ hnil)) (fun hnil => hne' (congrArg _ hnil)) hsplit
    obtain ⟨hfirst, hsecond⟩ := intercalate_splitOnP_of_marks hmarks
    have hmem : (c, true) ∈ markOperators (before ++ '=' :: after) := by simp [hmarks]
    obtain rfl := eq_of_mem_markOperatorsFrom hmem
    exact assigns_iff_marks.mpr ⟨first, second, hmarks, hfirst.symm.trans hbefore.symm,
      hsecond.symm.trans hafter.symm⟩

theorem length_splitOnP_snd (start : Nat) (marks : List (Char × Bool)) :
    (marks.splitOnP Prod.snd).length = (markedOffsets start marks).length + 1 := by
  induction marks generalizing start with
  | nil => rfl
  | cons mark marks ih =>
      rw [List.splitOnP_cons_eq_if_modifyHead, markedOffsets]
      split
      · rw [List.length_cons, List.length_cons, ih]
      · rw [List.length_modifyHead, ih]

/-- There is one segment more than there are operators. -/
theorem length_segments (content : List Char) :
    (segments content).length = (operatorOffsets content).length + 1 := by
  rw [segments, List.length_map, operatorOffsets, length_splitOnP_snd 0]

end Offside
