/-
# Matching a pattern

A match is found from the front of a text to its end, but which one it is depends on what
comes later: of the places at which a part may end, the foremost one counts that the rest
of the pattern does not rule out. `followed?` says so for one part and whatever follows it,
and its equations take a pattern apart from its front.

Most greedy parts never give a character back. That is so if every place within the run is
ruled out once the place behind it is, and then the run can be read with `takeWhile`.
-/

import Offside.Text.Pattern
import Offside.Proofs.Text.Edges

namespace Offside.Text

namespace Spot

/-- A capture holds what was passed since its beginning. -/
@[simp]
theorem upTo_append (taken : List Char) {passed ahead ahead' : List Char}
    {captured captured' : List (Nat × List Char)} :
    upTo ⟨passed, ahead, captured⟩ ⟨taken ++ passed, ahead', captured'⟩ = taken.reverse := by
  simp [upTo]

/-- From the front of a text, everything was passed since. -/
@[simp]
theorem upTo_nil {taken ahead ahead' : List Char} {captured captured' : List (Nat × List Char)} :
    upTo ⟨[], ahead, captured⟩ ⟨taken, ahead', captured'⟩ = taken.reverse := by
  simp [upTo]

@[simp]
theorem isEdge_cons {c : Char} (hc : isWord c = true) {passed ahead : List Char}
    {captured : List (Nat × List Char)} :
    isEdge ⟨c :: passed, ahead, captured⟩ = startsOffWord ahead := by
  cases ahead <;> simp [isEdge, startsOffWord, hc]

end Spot

namespace Pattern

variable {α β : Type} {next : Spot → Option α} {passed ahead : List Char}
  {captured : List (Nat × List Char)} {spot : Spot} {sign : Char}

/-- What the foremost end of a match gives that is not ruled out. -/
def followed? (pattern : Pattern) (next : Spot → Option α) (spot : Spot) : Option α :=
  (pattern.spots spot).findSome? next

theorem head?_spots (pattern : Pattern) (spot : Spot) :
    (pattern.spots spot).head? = pattern.followed? some spot := by
  rw [followed?, ← List.head?_filterMap, List.filterMap_some]

theorem first?_eq_followed? (pattern : Pattern) (text : List Char) :
    pattern.first? text = pattern.followed? some { ahead := text } := head?_spots ..

theorem map_followed? (f : α → β) (pattern : Pattern) :
    (pattern.followed? next spot).map f = pattern.followed? (fun later => (next later).map f) spot :=
  List.map_findSome?

/-! ## One case for each kind of pattern -/

@[simp]
theorem followed?_nothing : nothing.followed? next = next := by
  funext spot
  show [spot].findSome? next = next spot
  rw [List.findSome?_singleton]

@[simp]
theorem followed?_one_nil {accepts : Char → Bool} :
    (one accepts).followed? next ⟨passed, [], captured⟩ = none := rfl

@[simp]
theorem followed?_one_cons {accepts : Char → Bool} {c : Char} :
    (one accepts).followed? next ⟨passed, c :: ahead, captured⟩ =
      if accepts c then next ⟨c :: passed, ahead, captured⟩ else none := by
  show (if accepts c then [⟨c :: passed, ahead, captured⟩] else []).findSome? next = _
  split
  · exact List.findSome?_singleton
  · rfl

@[simp]
theorem followed?_both {first second : Pattern} :
    (both first second).followed? next = first.followed? (second.followed? next) := by
  funext spot
  show ((first.spots spot).flatMap second.spots).findSome? next = _
  rw [← List.head?_filterMap, List.filterMap_flatMap, List.head?_flatMap]
  simp only [List.head?_filterMap]
  rfl

@[simp]
theorem followed?_either {first second : Pattern} :
    (either first second).followed? next spot =
      (first.followed? next spot).or (second.followed? next spot) :=
  List.findSome?_append

@[simp]
theorem followed?_capture {number : Nat} {pattern : Pattern} :
    (capture number pattern).followed? next spot = pattern.followed? (fun later =>
      next { later with captured := (number, spot.upTo later) :: later.captured }) spot :=
  List.findSome?_map ..

@[simp]
theorem followed?_edge : edge.followed? next spot = if spot.isEdge then next spot else none := by
  show (if spot.isEdge then [spot] else []).findSome? next = _
  split
  · exact List.findSome?_singleton
  · rfl

@[simp]
theorem followed?_finish :
    finish.followed? next spot = if spot.ahead.isEmpty then next spot else none := by
  show (if spot.ahead.isEmpty then [spot] else []).findSome? next = _
  split
  · exact List.findSome?_singleton
  · rfl

/-! ## Runs of characters -/

section Runs

variable {accepts : Char → Bool}

theorem followed?_many_nil :
    (many accepts).followed? next ⟨passed, [], captured⟩ = next ⟨passed, [], captured⟩ :=
  List.findSome?_singleton

/-- A greedy run goes on if it can, and stops in front of a character only otherwise. -/
theorem followed?_many_cons {c : Char} :
    (many accepts).followed? next ⟨passed, c :: ahead, captured⟩ =
      (if accepts c then (many accepts).followed? next ⟨c :: passed, ahead, captured⟩
        else none).or (next ⟨passed, c :: ahead, captured⟩) := by
  show (⟨passed, c :: ahead, captured⟩ :: if accepts c then
    Spot.through accepts captured (c :: passed) ahead else []).reverse.findSome? next = _
  rw [List.reverse_cons, List.findSome?_append, List.findSome?_singleton]
  split <;> rfl

theorem followed?_few_nil :
    (few accepts).followed? next ⟨passed, [], captured⟩ = next ⟨passed, [], captured⟩ :=
  List.findSome?_singleton

/-- A lazy run stops in front of a character if it can, and goes on only otherwise. -/
theorem followed?_few_cons {c : Char} :
    (few accepts).followed? next ⟨passed, c :: ahead, captured⟩ =
      (next ⟨passed, c :: ahead, captured⟩).or
        (if accepts c then (few accepts).followed? next ⟨c :: passed, ahead, captured⟩
          else none) := by
  show (⟨passed, c :: ahead, captured⟩ :: if accepts c then
    Spot.through accepts captured (c :: passed) ahead else []).findSome? next = _
  rw [List.findSome?_cons]
  cases next ⟨passed, c :: ahead, captured⟩ with
  | some found => rfl
  | none => cases accepts c <;> rfl

/-- A run can be as short as nothing. -/
theorem eq_none_of_followed?_many
    (hnone : (many accepts).followed? next ⟨passed, ahead, captured⟩ = none) :
    next ⟨passed, ahead, captured⟩ = none := by
  cases ahead with
  | nil => rwa [followed?_many_nil] at hnone
  | cons c ahead =>
      rw [followed?_many_cons, Option.or_eq_none_iff] at hnone
      exact hnone.2

/-- A greedy run takes all it can if a place within it is ruled out once the one behind
it is. -/
theorem followed?_many_of_step (hstep : ∀ passed c after, c :: after <:+ ahead →
      accepts c = true → next ⟨c :: passed, after, captured⟩ = none →
        next ⟨passed, c :: after, captured⟩ = none) :
    (many accepts).followed? next ⟨passed, ahead, captured⟩ =
      next ⟨(ahead.takeWhile accepts).reverse ++ passed, ahead.dropWhile accepts, captured⟩ := by
  induction ahead generalizing passed with
  | nil => exact followed?_many_nil
  | cons c ahead ih =>
      rw [followed?_many_cons]
      cases hc : accepts c with
      | false => simp [hc]
      | true =>
          have hsuffix : ahead <:+ c :: ahead := List.suffix_cons c ahead
          rw [if_pos rfl, List.takeWhile_cons_of_pos hc, List.dropWhile_cons_of_pos hc,
            List.reverse_cons, List.append_assoc, List.singleton_append,
            ← ih fun passed d after hd => hstep passed d after (hd.trans hsuffix)]
          cases hrun : (many accepts).followed? next ⟨c :: passed, ahead, captured⟩ with
          | some found => rfl
          | none =>
              exact hstep passed c ahead (List.suffix_refl _) hc (eq_none_of_followed?_many hrun)

theorem isEmpty_takeWhile (accepts : Char → Bool) (text : List Char) :
    (text.takeWhile accepts).isEmpty = !(text.head?.map accepts).getD false := by
  cases text with
  | nil => rfl
  | cons c text => cases hc : accepts c <;> simp [hc]

/-- One character at least, and then as many as there are. -/
theorem followed?_oneOrMore_of_step (hstep : ∀ passed c after, c :: after <:+ ahead →
      accepts c = true → next ⟨c :: passed, after, captured⟩ = none →
        next ⟨passed, c :: after, captured⟩ = none) :
    (oneOrMore accepts).followed? next ⟨passed, ahead, captured⟩ =
      if (ahead.takeWhile accepts).isEmpty then none
      else next ⟨(ahead.takeWhile accepts).reverse ++ passed, ahead.dropWhile accepts,
        captured⟩ := by
  rw [oneOrMore, followed?_both]
  cases ahead with
  | nil => rfl
  | cons c ahead =>
      rw [followed?_one_cons, followed?_many_of_step fun passed d after hd =>
        hstep passed d after (hd.trans (List.suffix_cons c ahead))]
      cases hc : accepts c <;> simp [hc]

end Runs

/-! ## What a greedy run cannot give back -/

section RulesOut

variable {accepts other : Char → Bool}

/-- Nothing goes on with a character of the class. -/
def RulesOut (accepts : Char → Bool) (captured : List (Nat × List Char))
    (next : Spot → Option α) : Prop :=
  ∀ passed c after, accepts c = true → next ⟨passed, c :: after, captured⟩ = none

theorem followed?_many_of_rulesOut (hnext : RulesOut accepts captured next) :
    (many accepts).followed? next ⟨passed, ahead, captured⟩ =
      next ⟨(ahead.takeWhile accepts).reverse ++ passed, ahead.dropWhile accepts, captured⟩ :=
  followed?_many_of_step fun passed c after _ hc _ => hnext passed c after hc

theorem followed?_oneOrMore_of_rulesOut (hnext : RulesOut accepts captured next) :
    (oneOrMore accepts).followed? next ⟨passed, ahead, captured⟩ =
      if (ahead.takeWhile accepts).isEmpty then none
      else next ⟨(ahead.takeWhile accepts).reverse ++ passed, ahead.dropWhile accepts,
        captured⟩ :=
  followed?_oneOrMore_of_step fun passed c after _ hc _ => hnext passed c after hc

theorem rulesOut_finish : RulesOut accepts captured (finish.followed? next) := by
  intro passed c after _
  simp

theorem rulesOut_one (hother : ∀ c, accepts c = true → other c = false) :
    RulesOut accepts captured ((one other).followed? next) := by
  intro passed c after hc
  rw [followed?_one_cons, hother c hc]
  rfl

theorem rulesOut_word {c : Char} {text : List Char} (hc : accepts c = false) :
    RulesOut accepts captured ((word (c :: text)).followed? next) := by
  have hword : word (c :: text) = both (one (· == c)) (word text) := rfl
  rw [hword, followed?_both]
  apply rulesOut_one
  intro d hd
  rw [beq_eq_false_iff_ne]
  rintro rfl
  rw [hc] at hd
  cases hd

theorem RulesOut.many (hother : ∀ c, accepts c = true → other c = false)
    (hnext : RulesOut accepts captured next) :
    RulesOut accepts captured ((many other).followed? next) := by
  intro passed c after hc
  rw [followed?_many_cons, hother c hc, hnext passed c after hc]
  rfl

theorem RulesOut.oneOrMore (hother : ∀ c, accepts c = true → other c = false) :
    RulesOut accepts captured ((oneOrMore other).followed? next) := by
  rw [Pattern.oneOrMore, followed?_both]
  exact rulesOut_one hother

theorem RulesOut.either {first second : Pattern}
    (hfirst : RulesOut accepts captured (first.followed? next))
    (hsecond : RulesOut accepts captured (second.followed? next)) :
    RulesOut accepts captured ((either first second).followed? next) := by
  intro passed c after hc
  rw [followed?_either, hfirst passed c after hc, hsecond passed c after hc]
  rfl

theorem RulesOut.optional {pattern : Pattern}
    (hpattern : RulesOut accepts captured (pattern.followed? next))
    (hnext : RulesOut accepts captured next) :
    RulesOut accepts captured ((optional pattern).followed? next) := by
  refine hpattern.either ?_
  rwa [followed?_nothing]

theorem RulesOut.capture {number : Nat} {pattern : Pattern}
    (hpattern : ∀ next' : Spot → Option α, RulesOut accepts captured (pattern.followed? next')) :
    RulesOut accepts captured ((capture number pattern).followed? next) := by
  intro passed c after hc
  rw [followed?_capture]
  exact hpattern _ passed c after hc

theorem followed?_capture_many {number : Nat}
    (hnext : ∀ text, RulesOut accepts ((number, text) :: captured) next) :
    (capture number (Pattern.many accepts)).followed? next ⟨passed, ahead, captured⟩ =
      next ⟨(ahead.takeWhile accepts).reverse ++ passed, ahead.dropWhile accepts,
        (number, ahead.takeWhile accepts) :: captured⟩ := by
  have hcapture : RulesOut accepts captured fun later => next { later with
      captured := (number, Spot.upTo ⟨passed, ahead, captured⟩ later) :: later.captured } :=
    fun _ c after hc => hnext _ _ c after hc
  rw [followed?_capture, followed?_many_of_rulesOut hcapture, Spot.upTo_append,
    List.reverse_reverse]

end RulesOut

/-! ## Alternatives -/

/-- Of several patterns the first one counts that is not ruled out. -/
theorem followed?_oneOf (patterns : List Pattern) :
    (oneOf patterns).followed? next spot = patterns.findSome? (·.followed? next spot) := by
  induction patterns with
  | nil =>
      obtain ⟨passed, ahead, captured⟩ := spot
      cases ahead <;> simp [oneOf]
  | cons pattern patterns ih =>
      rw [oneOf, followed?_either, ih, List.findSome?_cons]
      cases pattern.followed? next spot <;> rfl

/-- If no two of several patterns give different results, their order makes no difference. -/
theorem followed?_oneOf_eq {patterns : List Pattern} {result : Option α}
    (hsound : ∀ pattern ∈ patterns, ∀ found, pattern.followed? next spot = some found →
      result = some found)
    (hcomplete : ∀ found, result = some found →
      ∃ pattern ∈ patterns, pattern.followed? next spot = some found) :
    (oneOf patterns).followed? next spot = result := by
  rw [followed?_oneOf]
  cases hfirst : patterns.findSome? (·.followed? next spot) with
  | some found =>
      obtain ⟨pattern, hmem, hfound⟩ := List.exists_of_findSome?_eq_some hfirst
      exact (hsound pattern hmem found hfound).symm
  | none =>
      rw [eq_comm, Option.eq_none_iff_forall_ne_some]
      intro found hresult
      obtain ⟨pattern, hmem, hfound⟩ := hcomplete found hresult
      rw [List.findSome?_eq_none_iff.mp hfirst pattern hmem] at hfound
      cases hfound

/-! ## Words, and the end of a text -/

theorem followed?_word (text : List Char) :
    (word text).followed? next ⟨passed, ahead, captured⟩ =
      (dropLead? text ahead).bind fun rest => next ⟨text.reverse ++ passed, rest, captured⟩ := by
  induction text generalizing passed ahead with
  | nil => exact congrFun followed?_nothing _
  | cons c text ih =>
      have hword : word (c :: text) = both (one (· == c)) (word text) := rfl
      rw [hword, followed?_both]
      cases ahead with
      | nil => rfl
      | cons d ahead =>
          rw [followed?_one_cons, ih, dropLead?, List.reverse_cons, List.append_assoc]
          by_cases hd : d = c
          · simp [hd]
          · simp [hd, Ne.symm hd]

theorem takeWhile_isInLine (hfeed : '\n' ∉ ahead) : ahead.takeWhile isInLine = ahead := by
  rw [List.takeWhile_eq_self_iff]
  intro c hc
  rw [isInLine, bne_iff_ne]
  rintro rfl
  exact hfeed hc

theorem dropWhile_isInLine (hfeed : '\n' ∉ ahead) : ahead.dropWhile isInLine = [] := by
  rw [List.dropWhile_eq_nil_iff, ← List.takeWhile_eq_self_iff]
  exact takeWhile_isInLine hfeed

theorem dropWhile_isInLine_ne_nil (hfeed : '\n' ∈ ahead) : ahead.dropWhile isInLine ≠ [] := by
  rw [Ne, List.dropWhile_eq_nil_iff]
  exact fun hall => absurd (hall _ hfeed) (by decide)

/-- Whatever is left of a text is captured whole if there is no line feed in it. -/
theorem followed?_captureLine {number : Nat} :
    (capture number (many isInLine)).followed? (finish.followed? next) ⟨passed, ahead, captured⟩ =
      if '\n' ∈ ahead then none
      else next ⟨ahead.reverse ++ passed, [], (number, ahead) :: captured⟩ := by
  rw [followed?_capture_many fun _ => rulesOut_finish, followed?_finish]
  by_cases hfeed : '\n' ∈ ahead
  · simp [hfeed, dropWhile_isInLine_ne_nil hfeed]
  · simp [hfeed, takeWhile_isInLine hfeed, dropWhile_isInLine hfeed]

theorem followed?_captureLine_of_ne_nil {number : Nat} :
    (capture number (oneOrMore isInLine)).followed? (finish.followed? next)
        ⟨passed, ahead, captured⟩ =
      if ahead = [] ∨ '\n' ∈ ahead then none
      else next ⟨ahead.reverse ++ passed, [], (number, ahead) :: captured⟩ := by
  rw [followed?_capture, followed?_oneOrMore_of_rulesOut fun _ _ _ _ => by simp, followed?_finish]
  by_cases hfeed : '\n' ∈ ahead
  · simp [hfeed, dropWhile_isInLine_ne_nil hfeed]
  · simp [hfeed, takeWhile_isInLine hfeed, dropWhile_isInLine hfeed]

/-- Blanks up to the end of the text leave no choice. -/
theorem followed?_blankEnd : (many isBlank).followed? (finish.followed? next)
      ⟨passed, ahead, captured⟩ =
    if allBlank ahead then next ⟨ahead.reverse ++ passed, [], captured⟩ else none := by
  rw [followed?_many_of_rulesOut rulesOut_finish, followed?_finish]
  by_cases hblank : allBlank ahead = true
  · have hall : ∀ c ∈ ahead, isBlank c = true := by simpa [allBlank] using hblank
    simp [hblank, List.takeWhile_eq_self_iff.mpr hall, List.dropWhile_eq_nil_iff.mpr hall]
  · have hne : ahead.dropWhile isBlank ≠ [] := by
      rw [Ne, List.dropWhile_eq_nil_iff]
      simpa [allBlank] using hblank
    simp [hblank, hne]

/-- A sign that may come first is taken if it does. -/
theorem followed?_signEnd (hsign : isBlank sign = false) :
    (optional (one (· == sign))).followed? ((many isBlank).followed? (finish.followed? next))
      ⟨passed, ahead, captured⟩ =
    if allBlank ((dropLead? [sign] ahead).getD ahead) then
      next ⟨ahead.reverse ++ passed, [], captured⟩
    else none := by
  rw [optional, followed?_either, followed?_nothing]
  cases ahead with
  | nil =>
      rw [followed?_one_nil, Option.none_or, followed?_blankEnd]
      rfl
  | cons c ahead =>
      rw [followed?_one_cons, followed?_blankEnd, followed?_blankEnd, allBlank_cons]
      by_cases hc : c = sign
      · simp [hc, hsign, dropLead?]
      · simp [hc, Ne.symm hc, dropLead?, allBlank_cons]

/-- The end of a text leaves no choice either. -/
theorem followed?_closing (hsign : isBlank sign = false) :
    (closing sign).followed? next ⟨passed, ahead, captured⟩ =
      if closes sign ahead then next ⟨ahead.reverse ++ passed, [], captured⟩ else none := by
  simp only [closing, seq, followed?_both, followed?_nothing]
  rw [followed?_many_of_step, followed?_signEnd hsign]
  · rw [← List.append_assoc, ← List.reverse_append, List.takeWhile_append_dropWhile]
    rfl
  · -- The second run takes up the blanks that the first gives back.
    rintro passed c ahead - hc hnone
    have hne : sign ≠ c := by
      rintro rfl
      rw [hsign] at hc
      cases hc
    rw [followed?_signEnd hsign] at hnone ⊢
    simp only [dropLead?, if_neg hne, Option.getD_none, allBlank_cons, hc, Bool.true_and]
    cases ahead with
    | nil => simpa [dropLead?, allBlank] using hnone
    | cons d ahead =>
        by_cases hd : sign = d
        · simp [← hd, hsign, allBlank_cons]
        · simpa [dropLead?, hd] using hnone

/-- A lazy run in front of the end of a text ends as soon as no more than blanks and a sign
are left. -/
theorem followed?_few_closing (hsign : isBlank sign = false) (found : Spot → α) {number : Nat}
    {ahead' : List Char} (taken : List Char) :
    (few isInLine).followed? (fun later => (closing sign).followed? (fun last => some (found last))
        { later with captured :=
          (number, Spot.upTo ⟨passed, ahead', captured⟩ later) :: later.captured })
      ⟨taken ++ passed, ahead, captured⟩ =
      if '\n' ∈ withoutSign sign ahead then none
      else some (found ⟨ahead.reverse ++ (taken ++ passed), [],
        (number, taken.reverse ++ withoutSign sign ahead) :: captured⟩) := by
  induction ahead generalizing taken with
  | nil =>
      rw [followed?_few_nil, followed?_closing hsign, closes_of_allBlank rfl, Spot.upTo_append]
      simp [withoutSign, trimEnd, dropFinal]
  | cons c ahead ih =>
      have ih := ih (c :: taken)
      rw [List.cons_append] at ih
      rw [followed?_few_cons, followed?_closing hsign, ih, Spot.upTo_append, withoutSign_cons]
      cases hcloses : closes sign (c :: ahead) with
      | true => simp
      | false =>
          by_cases hc : c = '\n'
          · simp [hc, isInLine]
          · simp [isInLine, hc, Ne.symm hc]

theorem followed?_captureFew_closing (hsign : isBlank sign = false) (found : Spot → α)
    {number : Nat} :
    (capture number (few isInLine)).followed?
        ((closing sign).followed? fun last => some (found last)) ⟨passed, ahead, captured⟩ =
      if '\n' ∈ withoutSign sign ahead then none
      else some (found ⟨ahead.reverse ++ passed, [],
        (number, withoutSign sign ahead) :: captured⟩) := by
  rw [followed?_capture]
  exact followed?_few_closing hsign found []

end Pattern

end Offside.Text
