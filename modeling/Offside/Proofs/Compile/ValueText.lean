/-
# Default values as text

A default value is text in which brackets nest, and commas stand inside brackets only. Unlike a
type it may hold comparisons, and `<` and `>` need not go in pairs.

As far as brackets go, a scan on its way to the end of a parameter passes such a text as it
passes a type. But a `:` outside of brackets, as in `c ? x : y`, puts the scan in type position,
and behind it every `<` of the value counts as an angle bracket. So a value with a conditional
and a comparison may leave an angle bracket open. `openAngles` counts these brackets.
-/

import Offside.Proofs.Compile.TypeText

namespace Offside

/-! ## Values and scans -/

/-- The text of a default value, or of what may stand inside its brackets: no literal, brackets
nest, and commas stand inside brackets only. -/
inductive ValueText : (inside : Bool) → List Char → Prop
  /-- Nothing. -/
  | nil {inside : Bool} : ValueText inside []
  /-- A character that opens and closes nothing. -/
  | char {inside : Bool} {c : Char} {rest : List Char} (hc : isInert c = true)
      (hcomma : c = ',' → inside = true) (hrest : ValueText inside rest) :
      ValueText inside (c :: rest)
  /-- A pair of brackets. -/
  | group {inside : Bool} {opener closer : Char} {inner rest : List Char}
      (hpair : closerOf? opener = some closer) (hinner : ValueText true inner)
      (hrest : ValueText inside rest) : ValueText inside (opener :: inner ++ closer :: rest)

/-- The number of `<` in a value that a scan takes for angle brackets and finds no `>` for. -/
def openAngles (value : List Char) : Nat :=
  (({ previous := some ' ' } : TopLevelScan).run none value).angles

namespace TopLevelScan

/-- The scan is in code, outside of every bracket and angle bracket. -/
structure Outside (scan : TopLevelScan) : Prop where
  clean : scan.walk.Clean
  depth : scan.depth = 0
  angles : scan.angles = 0

/-- The test looks for the end of a parameter, or of all of them. -/
def EndsParameter (stop : Place → Bool) : Prop :=
  ∀ place, stop place = true → place.char = ',' ∨ place.char = ')'

namespace EndsParameter

variable {stop : Place → Bool}

theorem eq_false (hstop : EndsParameter stop) {c : Char} (hcomma : c ≠ ',') (hparen : c ≠ ')')
    (blank : Bool) (ahead : Option Char) : stop ⟨blank, c, ahead⟩ = false := by
  by_contra hstops
  exact (hstop _ (Bool.not_eq_false _ ▸ hstops)).elim hcomma hparen

theorem of_isOfType (hstop : EndsParameter stop) (place : Place) (htype : place.isOfType = true) :
    stop place = false := by
  obtain ⟨blank, c, ahead⟩ := place
  refine hstop.eq_false ?_ ?_ blank ahead
  · rintro rfl
    cases htype
  · rintro rfl
    cases htype

/-- No plain character ends a parameter. -/
theorem notMem (hstop : EndsParameter stop) {text : List Char}
    (htext : ∀ c ∈ text, isTypeChar c = true ∧ c ≠ ':') (place : Place)
    (hplace : stop place = true) : place.char ∉ text := by
  intro hmem
  have htype : place.isOfType = true := by simp [Place.isOfType, (htext _ hmem).1]
  rw [hstop.of_isOfType place htype] at hplace
  cases hplace

end EndsParameter

/-- Two scans in code that count brackets and angle brackets alike from here on. -/
structure SameCount (first second : TopLevelScan) : Prop where
  clean : first.walk.Clean ∧ second.walk.Clean
  depth : first.depth = second.depth
  angles : first.angles = second.angles
  inType : first.inType = second.inType
  previous : first.previous = second.previous

variable {scan : TopLevelScan} {stop : Place → Bool} {c : Char} {ahead next : Option Char}

/-! ## Characters outside of brackets -/

namespace Outside

theorem init : ({} : TopLevelScan).Outside := ⟨WalkState.clean_init, rfl, rfl⟩

theorem atTop (hscan : scan.Outside) : scan.atTop = true := by
  rw [TopLevelScan.atTop, hscan.depth, hscan.angles]
  rfl

/-- A character that is no bracket leaves the scan where it is. -/
theorem advance (hscan : scan.Outside) (hc : BracketScan.isDelimiter c = false)
    (hdepth : (scan.count c ahead).depth = 0) (hangles : (scan.count c ahead).angles = 0) :
    (scan.advance c ahead).Outside := by
  obtain ⟨hdepth', hangles', -⟩ := advance_of_clean hscan.clean hc ahead
  exact ⟨clean_advance hscan.clean hc ahead, hdepth'.trans hdepth, hangles'.trans hangles⟩

theorem advance_idle (hscan : scan.Outside) (hc : BracketScan.isDelimiter c = false)
    (hidle : scan.count c ahead = scan) :
    (scan.advance c ahead).Outside ∧ (scan.advance c ahead).inType = scan.inType := by
  refine ⟨hscan.advance hc (by rw [hidle, hscan.depth]) (by rw [hidle, hscan.angles]), ?_⟩
  rw [(advance_of_clean hscan.clean hc ahead).2.2, hidle]

/-- A character that ends the text of a type, or a value, ends type position. -/
theorem advance_reset (hscan : scan.Outside) (hc : BracketScan.isDelimiter c = false)
    (hcount : scan.count c ahead = { scan with inType := false }) :
    (scan.advance c ahead).Outside ∧ (scan.advance c ahead).inType = false := by
  refine ⟨hscan.advance hc (by rw [hcount, hscan.depth]) (by rw [hcount, hscan.angles]), ?_⟩
  rw [(advance_of_clean hscan.clean hc ahead).2.2, hcount]

theorem advance_comma (hscan : scan.Outside) (ahead : Option Char) :
    (scan.advance ',' ahead).Outside :=
  (hscan.advance_reset rfl (by simp [count, closerOf?, isCloser, hscan.atTop])).1

theorem advance_assignment (hscan : scan.Outside) (hahead : ahead = some ' ') :
    (scan.advance '=' ahead).Outside ∧ (scan.advance '=' ahead).inType = false :=
  hscan.advance_reset rfl (by
    simp [count, closerOf?, isCloser, hscan.atTop, place, Place.isAssignment, hahead])

/-- A colon leads into a type. -/
theorem advance_colon (hscan : scan.Outside) (ahead : Option Char) :
    (scan.advance ':' ahead).InType 0 0 := by
  have hcount : scan.count ':' ahead = { scan with inType := true } := by
    simp [count, closerOf?, isCloser, hscan.atTop]
  obtain ⟨hdepth, hangles, htype⟩ := advance_of_clean hscan.clean (c := ':') rfl ahead
  refine ⟨clean_advance hscan.clean rfl ahead, ?_, ?_, ?_, by simp [TopLevelScan.advance]⟩
  · rw [hdepth, hcount, hscan.depth]
  · rw [hangles, hcount, hscan.angles]
  · rw [htype, hcount]

/-- Plain characters without a colon are passed. -/
theorem passes_plain {text : List Char} (hscan : scan.Outside)
    (htext : ∀ c ∈ text, isTypeChar c = true ∧ c ≠ ':')
    (hstop : ∀ place, stop place = true → place.char ∉ text) (next : Option Char) :
    scan.Passes stop next text ∧ (scan.run next text).Outside ∧
      (scan.run next text).inType = scan.inType := by
  induction text generalizing scan with
  | nil => exact ⟨trivial, hscan, rfl⟩
  | cons c rest ih =>
      rw [List.forall_mem_cons] at htext
      obtain ⟨hbehind, htype⟩ := hscan.advance_idle
        (isDelimiter_of_isInert (isInert_of_isTypeChar htext.1.1))
        (count_of_isTypeChar htext.1.1 (fun h => absurd h htext.1.2) (rest.head?.or next))
      obtain ⟨hrest, houtside, htype'⟩ := ih hbehind htext.2 fun place hplace hmem =>
        hstop place hplace (List.mem_cons_of_mem c hmem)
      refine ⟨⟨stopsAt_eq_false (.inr ?_), hrest⟩, houtside, htype'.trans htype⟩
      by_contra hstops
      exact hstop _ (Bool.not_eq_false _ ▸ hstops) List.mem_cons_self

end Outside

theorem InType.outside (hscan : scan.InType 0 0) : scan.Outside :=
  ⟨hscan.clean, hscan.depth, hscan.angles⟩

/-! ## Two scans side by side -/

theorem SameCount.advance {first second : TopLevelScan} (hsame : first.SameCount second)
    (hc : BracketScan.isDelimiter c = false) {ahead' : Option Char}
    (hahead : (first.place c ahead).isAssignment = (second.place c ahead').isAssignment) :
    (first.advance c ahead).SameCount (second.advance c ahead') := by
  obtain ⟨⟨hclean, hclean'⟩, hdepth, hangles, htype, hprevious⟩ := hsame
  obtain ⟨hdepth₁, hangles₁, htype₁⟩ := advance_of_clean hclean hc ahead
  obtain ⟨hdepth₂, hangles₂, htype₂⟩ := advance_of_clean hclean' hc ahead'
  have htop : first.atTop = second.atTop := by
    rw [TopLevelScan.atTop, hdepth, hangles, TopLevelScan.atTop]
  have hcount : (first.count c ahead).depth = (second.count c ahead').depth ∧
      (first.count c ahead).angles = (second.count c ahead').angles ∧
        (first.count c ahead).inType = (second.count c ahead').inType := by
    simp only [count, hdepth, hangles, htype, hprevious, htop, hahead]
    split_ifs <;> simp [hdepth, hangles, htype]
  refine ⟨⟨clean_advance hclean hc ahead, clean_advance hclean' hc ahead'⟩, ?_, ?_, ?_, rfl⟩
  · rw [hdepth₁, hdepth₂, hcount.1]
  · rw [hangles₁, hangles₂, hcount.2.1]
  · rw [htype₁, htype₂, hcount.2.2]

/-- What follows a text of code counts only if it makes an arrow or an equality of its last
character. -/
theorem SameCount.run {first second : TopLevelScan} {text : List Char}
    (hsame : first.SameCount second) (htext : ∀ c ∈ text, BracketScan.isDelimiter c = false)
    (hnext : next ≠ some '>' ∧ next ≠ some '=') :
    (first.run next text).SameCount (second.run none text) := by
  induction text generalizing first second with
  | nil => exact hsame
  | cons c rest ih =>
      rw [List.forall_mem_cons] at htext
      refine ih (hsame.advance htext.1 ?_) htext.2
      cases rest with
      | nil =>
          have harrow : (next != some '>') = true := bne_iff_ne.mpr hnext.1
          have hequality : (next != some '=') = true := bne_iff_ne.mpr hnext.2
          change (c == '=' && next != some '>' && next != some '=') = (c == '=' && true && true)
          rw [harrow, hequality]
      | cons d rest => rfl

/-! ## Depth -/

theorem depth_count (scan : TopLevelScan) (c : Char) (ahead : Option Char) :
    (scan.count c ahead).depth = depthAfter scan.depth c := by
  unfold count
  split_ifs with hbracket <;> simp_all [depthAfter]

theorem depth_advance (hclean : scan.walk.Clean) (hc : BracketScan.isDelimiter c = false)
    (ahead : Option Char) : (scan.advance c ahead).depth = depthAfter scan.depth c := by
  rw [(advance_of_clean hclean hc ahead).1, depth_count]

/-! ## Behind an open angle bracket -/

theorem angles_advance_pos (hangles : 0 < scan.angles) (hc : c ≠ '>') (ahead : Option Char) :
    0 < (scan.advance c ahead).angles := by
  simp only [advance, count]
  split_ifs <;> simp_all

/-- Only a `>` closes an angle bracket, and while one is open no scan stops. -/
theorem passes_of_angles_pos {text : List Char} (hangles : 0 < scan.angles) (htext : '>' ∉ text)
    (next : Option Char) : scan.Passes stop next text := by
  induction text generalizing scan with
  | nil => trivial
  | cons c rest ih =>
      rw [List.mem_cons, not_or] at htext
      exact ⟨stopsAt_eq_false (.inl (by omega)),
        ih (angles_advance_pos hangles (Ne.symm htext.1) _) htext.2⟩

theorem angles_advance_eq_zero (hangles : scan.angles = 0) (hopens : c = '<' → scan.inType = false)
    (ahead : Option Char) : (scan.advance c ahead).angles = 0 := by
  simp only [advance, count]
  split_ifs <;> simp_all

theorem inType_advance_eq_false (htype : scan.inType = false) (hc : c ≠ ':')
    (ahead : Option Char) : (scan.advance c ahead).inType = false := by
  simp only [advance, count]
  split_ifs <;> simp_all

/-- Angle brackets are opened by a `<` behind a colon only. -/
theorem angles_run_eq_zero {text : List Char} (hangles : scan.angles = 0)
    (htext : '<' ∉ text ∨ scan.inType = false ∧ ':' ∉ text) (next : Option Char) :
    (scan.run next text).angles = 0 := by
  induction text generalizing scan with
  | nil => exact hangles
  | cons c rest ih =>
      rw [List.mem_cons, List.mem_cons, not_or, not_or] at htext
      refine ih (angles_advance_eq_zero hangles ?_ _) ?_
      · rintro rfl
        exact htext.elim (fun hless => absurd rfl hless.1) And.left
      · exact htext.imp And.right fun ⟨htype, hcolon, hrest⟩ =>
          ⟨inType_advance_eq_false htype (Ne.symm hcolon) _, hrest⟩

end TopLevelScan

/-- Without a conditional in it, or without a comparison, a value leaves no angle bracket open. -/
theorem openAngles_eq_zero {value : List Char} (hvalue : ':' ∉ value ∨ '<' ∉ value) :
    openAngles value = 0 :=
  TopLevelScan.angles_run_eq_zero rfl (hvalue.symm.imp_right fun hcolon => ⟨rfl, hcolon⟩) none

theorem isDelimiter_of_closerOf? {opener closer : Char} (hpair : closerOf? opener = some closer) :
    BracketScan.isDelimiter opener = false ∧ BracketScan.isDelimiter closer = false := by
  unfold closerOf? at hpair
  split at hpair <;> cases hpair <;> decide

theorem depthAfter_of_isInert {c : Char} (hc : isInert c = true) (depth : Nat) :
    depthAfter depth c = depth := by
  simp only [isInert, Bool.not_eq_true', Bool.or_eq_false_iff] at hc
  simp [depthAfter, hc]

theorem depthAfter_of_closerOf? {opener closer : Char} (hpair : closerOf? opener = some closer)
    (depth : Nat) :
    depthAfter depth opener = depth + 1 ∧ depthAfter (depth + 1) closer = depth := by
  unfold closerOf? at hpair
  split at hpair <;> cases hpair <;> exact ⟨rfl, rfl⟩

namespace ValueText

open TopLevelScan

variable {inside : Bool} {text : List Char} {scan : TopLevelScan} {stop : Place → Bool}

theorem of_all (hall : text.all (fun c => isInert c && c != ',') = true) :
    ValueText inside text := by
  induction text with
  | nil => exact .nil
  | cons c text ih =>
      rw [List.all_cons, Bool.and_eq_true, Bool.and_eq_true, bne_iff_ne] at hall
      exact .char hall.1.1 (fun hcomma => absurd hcomma hall.1.2) (ih hall.2)

theorem isDelimiter (htext : ValueText inside text) :
    ∀ c ∈ text, BracketScan.isDelimiter c = false := by
  induction htext with
  | nil => simp
  | char hc _ _ ih => exact List.forall_mem_cons.mpr ⟨isDelimiter_of_isInert hc, ih⟩
  | group hpair _ _ ihinner ihrest =>
      obtain ⟨hopener, hcloser⟩ := isDelimiter_of_closerOf? hpair
      rw [List.cons_append, List.forall_mem_cons, List.forall_mem_append, List.forall_mem_cons]
      exact ⟨hopener, ihinner, hcloser, ihrest⟩

/-- On the way to the end of a parameter a scan passes a value, and is as deep in brackets
behind it. -/
theorem passes (htext : ValueText inside text) (hclean : scan.walk.Clean)
    (hinside : inside = true → 0 < scan.depth) (hstop : EndsParameter stop)
    (next : Option Char) :
    scan.Passes stop next text ∧ (scan.run next text).walk.Clean ∧
      (scan.run next text).depth = scan.depth := by
  induction htext generalizing scan next with
  | nil => exact ⟨trivial, hclean, rfl⟩
  | @char inside c rest hc hcomma _ ih =>
      have hdelimiter := isDelimiter_of_isInert hc
      have hdepth := depth_advance hclean hdelimiter (rest.head?.or next)
      rw [depthAfter_of_isInert hc] at hdepth
      obtain ⟨hrest, hclean', hdepth'⟩ :=
        ih (clean_advance hclean hdelimiter _) (fun h => hdepth ▸ hinside h) next
      refine ⟨⟨stopsAt_eq_false ?_, hrest⟩, hclean', hdepth'.trans hdepth⟩
      by_cases hstops : stop (scan.place c (rest.head?.or next)) = true
      · rcases hstop _ hstops with hchar | hchar
        · have hdeep := hinside (hcomma hchar)
          exact .inl (by omega)
        · rw [show c = ')' from hchar] at hc
          cases hc
      · exact .inr (Bool.not_eq_true _ ▸ hstops)
  | @group inside opener closer inner rest hpair _ _ ihinner ihrest =>
      obtain ⟨hopener, hcloser⟩ := isDelimiter_of_closerOf? hpair
      obtain ⟨hin, hout⟩ := depthAfter_of_closerOf? hpair scan.depth
      have hdepth := depth_advance hclean hopener ((inner ++ closer :: rest).head?.or next)
      rw [hin] at hdepth
      have hdeep : 0 < (scan.advance opener ((inner ++ closer :: rest).head?.or next)).depth := by
        omega
      obtain ⟨hinner, hcleanInner, hdepthInner⟩ := ihinner (clean_advance hclean hopener _)
        (fun _ => hdeep) ((closer :: rest).head?.or next)
      rw [hdepth] at hdepthInner
      have hdepthOuter := depth_advance hcleanInner hcloser (rest.head?.or next)
      rw [hdepthInner, hout] at hdepthOuter
      obtain ⟨hrest, hclean', hdepth'⟩ := ihrest (clean_advance hcleanInner hcloser _)
        (fun h => hdepthOuter ▸ hinside h) next
      rw [List.cons_append, passes_cons, passes_append, passes_cons, TopLevelScan.run_cons,
        TopLevelScan.run_append, TopLevelScan.run_cons]
      refine ⟨⟨stopsAt_eq_false (.inr ?_), hinner, stopsAt_eq_false (.inl ?_), hrest⟩, hclean',
        hdepth'.trans hdepthOuter⟩
      · by_contra hstops
        rw [Bool.not_eq_false] at hstops
        rcases hstop _ hstops with hchar | hchar
        · rw [show opener = ',' from hchar] at hpair
          cases hpair
        · rw [show opener = ')' from hchar] at hpair
          cases hpair
      · rw [hdepthInner]
        omega

end ValueText

end Offside
