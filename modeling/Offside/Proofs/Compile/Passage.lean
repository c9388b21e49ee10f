/-
# Texts that a scan passes over

A cut at the top level falls into a text or behind it. Where it falls behind, the text has no
part in it but for the state in which it leaves the scan. So a text whose shape is known can
be read piece by piece: each piece is passed, and the next one is met in a state of which no
more need be known than the open brackets and whether `<` would open another one.

In code, outside of literals, every character moves that state in a simple way, and a cut falls
in front of the first character at the top level that the test accepts.
-/

import Offside.Proofs.Compile.TopLevel
import Offside.Proofs.Delimiter.Nesting

namespace Offside

namespace TopLevelScan

/-- The state behind a text that `next` follows. -/
def run (scan : TopLevelScan) (next : Option Char) : List Char → TopLevelScan
  | [] => scan
  | c :: rest => (scan.advance c (rest.head?.or next)).run next rest

/-- The scan stops at no character of a text that `next` follows. -/
def Passes (scan : TopLevelScan) (stop : Place → Bool) (next : Option Char) : List Char → Prop
  | [] => True
  | c :: rest =>
    scan.stopsAt stop c (rest.head?.or next) = false ∧
      (scan.advance c (rest.head?.or next)).Passes stop next rest

variable {scan : TopLevelScan} {stop : Place → Bool} {next : Option Char}

/-! ## Piece by piece -/

theorem run_cons (scan : TopLevelScan) (next : Option Char) (c : Char) (rest : List Char) :
    scan.run next (c :: rest) = (scan.advance c (rest.head?.or next)).run next rest := rfl

theorem passes_cons {c : Char} {rest : List Char} :
    scan.Passes stop next (c :: rest) ↔
      scan.stopsAt stop c (rest.head?.or next) = false ∧
        (scan.advance c (rest.head?.or next)).Passes stop next rest := Iff.rfl

theorem run_append (scan : TopLevelScan) (next : Option Char) (first second : List Char) :
    scan.run next (first ++ second) =
      (scan.run (second.head?.or next) first).run next second := by
  induction first generalizing scan with
  | nil => rfl
  | cons c first ih =>
      rw [List.cons_append, run_cons, run_cons, ih, List.head?_append, Option.or_assoc]

theorem passes_append {first second : List Char} :
    scan.Passes stop next (first ++ second) ↔
      scan.Passes stop (second.head?.or next) first ∧
        (scan.run (second.head?.or next) first).Passes stop next second := by
  induction first generalizing scan with
  | nil => simp [Passes, run]
  | cons c first ih =>
      rw [List.cons_append, passes_cons, passes_cons, ih, run_cons, List.head?_append,
        Option.or_assoc, and_assoc]

/-- A cut falls behind a text that is passed. -/
theorem Passes.cut?_append {text back : List Char} (hpasses : scan.Passes stop back.head? text) :
    scan.cut? stop (text ++ back) =
      ((scan.run back.head? text).cut? stop back).map fun cut => (text ++ cut.1, cut.2) := by
  induction text generalizing scan with
  | nil => simp [run]
  | cons c text ih =>
      rw [passes_cons] at hpasses
      rw [List.cons_append, cut?, List.head?_append, if_neg (by simp [hpasses.1]),
        ih hpasses.2, run_cons, Option.map_map]
      rfl

/-- There is no cut in a text that is passed. -/
theorem Passes.cut?_eq_none {text : List Char} (hpasses : scan.Passes stop none text) :
    scan.cut? stop text = none := by
  have hcut : scan.cut? stop (text ++ []) = none := Passes.cut?_append hpasses
  rwa [List.append_nil] at hcut

theorem cut?_of_stopsAt {c : Char} {rest : List Char}
    (hstops : scan.stopsAt stop c rest.head? = true) :
    scan.cut? stop (c :: rest) = some ([], c :: rest) := if_pos hstops

/-- A cut falls in front of the character at which the scan stops behind the text. -/
theorem Passes.cut?_cons {text : List Char} {c : Char} {rest : List Char}
    (hpasses : scan.Passes stop (some c) text)
    (hstops : (scan.run (some c) text).stopsAt stop c rest.head? = true) :
    scan.cut? stop (text ++ c :: rest) = some (text, c :: rest) := by
  have hpasses' : scan.Passes stop (c :: rest).head? text := hpasses
  rw [hpasses'.cut?_append, List.head?_cons, cut?_of_stopsAt hstops, Option.map_some,
    List.append_nil]

/-- A scan passes a text, or stops in it. -/
theorem passes_or_stops (scan : TopLevelScan) (stop : Place → Bool) (next : Option Char)
    (text : List Char) :
    scan.Passes stop next text ∨
      ∃ before c rest, text = before ++ c :: rest ∧ scan.Passes stop (some c) before ∧
        (scan.run (some c) before).stopsAt stop c (rest.head?.or next) = true := by
  induction text generalizing scan with
  | nil => exact .inl trivial
  | cons d text ih =>
      by_cases hstops : scan.stopsAt stop d (text.head?.or next) = true
      · exact .inr ⟨[], d, text, rfl, trivial, hstops⟩
      · rw [Bool.not_eq_true] at hstops
        rcases ih (scan.advance d (text.head?.or next)) with
          hpasses | ⟨before, c, rest, rfl, hpasses, hfound⟩
        · exact .inl ⟨hstops, hpasses⟩
        · rw [List.head?_append, List.head?_cons, Option.or_assoc] at hstops hpasses hfound
          exact .inr ⟨d :: before, c, rest, rfl, ⟨hstops, hpasses⟩, hfound⟩

/-- There is a cut in a text unless the whole text is passed. -/
theorem cut?_eq_none_iff {text : List Char} :
    scan.cut? stop text = none ↔ scan.Passes stop none text := by
  refine ⟨fun hcut => ?_, Passes.cut?_eq_none⟩
  rcases scan.passes_or_stops stop none text with
    hpasses | ⟨before, c, rest, rfl, hpasses, hstops⟩
  · exact hpasses
  · rw [Option.or_none] at hstops
    rw [hpasses.cut?_cons hstops] at hcut
    cases hcut

/-- A cut falls in front of the first character at which the scan stops, and nowhere else. -/
theorem cut?_eq_some_iff {text before found : List Char} :
    scan.cut? stop text = some (before, found) ↔
      ∃ c rest, found = c :: rest ∧ text = before ++ c :: rest ∧
        scan.Passes stop (some c) before ∧
        (scan.run (some c) before).stopsAt stop c rest.head? = true := by
  constructor
  · intro hcut
    rcases scan.passes_or_stops stop none text with
      hpasses | ⟨front, c, rest, rfl, hpasses, hstops⟩
    · rw [hpasses.cut?_eq_none] at hcut
      cases hcut
    · rw [Option.or_none] at hstops
      rw [hpasses.cut?_cons hstops] at hcut
      obtain ⟨rfl, rfl⟩ := Prod.mk.inj (Option.some_inj.mp hcut)
      exact ⟨c, rest, rfl, rfl, hpasses, hstops⟩
  · rintro ⟨c, rest, rfl, rfl, hpasses, hstops⟩
    exact hpasses.cut?_cons hstops

/-- Blanks in front of a place are remembered. -/
theorem blankSoFar_run (scan : TopLevelScan) (next : Option Char) (text : List Char) :
    (scan.run next text).blankSoFar = (scan.blankSoFar && Text.allBlank text) := by
  induction text generalizing scan with
  | nil => simp [run, Text.allBlank]
  | cons c text ih =>
      rw [run_cons, ih]
      simp [advance, Text.allBlank, Bool.and_assoc]

/-! ## Tests of one character

A scan knows the character ahead, for the sake of a `/` or of an assignment. Where the test has
no use for it, that character has no say in where the scan stops, only in what comes after.
-/

section OneCharacter

variable (hstop : ∀ blank c ahead, stop ⟨blank, c, ahead⟩ = stop ⟨blank, c, none⟩)

include hstop

theorem stopsAt_ahead (scan : TopLevelScan) (c : Char) (ahead : Option Char) :
    scan.stopsAt stop c ahead = scan.stopsAt stop c none := by
  rw [stopsAt, stopsAt, inLiteral, inLiteral, WalkState.region_step, place, place, hstop]

/-- Whether a text is passed does not depend on what follows it. -/
theorem passes_next {text : List Char} :
    scan.Passes stop next text ↔ scan.Passes stop none text := by
  induction text generalizing scan with
  | nil => exact Iff.rfl
  | cons c text ih =>
      cases text with
      | nil =>
          rw [passes_cons, passes_cons, List.head?_nil, Option.none_or, stopsAt_ahead hstop]
          exact Iff.rfl
      | cons d text => exact and_congr Iff.rfl ih

/-- Whether a cut falls in front of a character is settled by what stands before it. -/
theorem cut?_cons_iff {c : Char} {before rest : List Char} :
    scan.cut? stop (before ++ c :: rest) = some (before, c :: rest) ↔
      scan.Passes stop (some c) before ∧
        (scan.run (some c) before).stopsAt stop c none = true := by
  rw [cut?_eq_some_iff]
  constructor
  · rintro ⟨d, behind, hfound, -, hpasses, hstops⟩
    obtain ⟨rfl, rfl⟩ := List.cons.inj hfound
    rw [stopsAt_ahead hstop] at hstops
    exact ⟨hpasses, hstops⟩
  · rintro ⟨hpasses, hstops⟩
    rw [← stopsAt_ahead hstop _ c rest.head?] at hstops
    exact ⟨c, rest, rfl, rfl, hpasses, hstops⟩

/-- So nothing behind that character has a say in it. -/
theorem cut?_append_iff {c : Char} {before rest : List Char} :
    scan.cut? stop (before ++ c :: rest) = some (before, c :: rest) ↔
      scan.cut? stop (before ++ [c]) = some (before, [c]) :=
  (cut?_cons_iff hstop).trans (cut?_cons_iff hstop).symm

/-- In front of a cut there is none. -/
theorem cut?_before {text before found : List Char}
    (hcut : scan.cut? stop text = some (before, found)) : scan.cut? stop before = none := by
  obtain ⟨c, rest, -, -, hpasses, -⟩ := cut?_eq_some_iff.mp hcut
  exact cut?_eq_none_iff.mpr ((passes_next hstop).mp hpasses)

end OneCharacter

/-! ## In code -/

variable {c : Char}

theorem inLiteral_of_clean (hclean : scan.walk.Clean) (hc : BracketScan.isDelimiter c = false)
    (ahead : Option Char) : scan.inLiteral c ahead = false := by
  simp only [BracketScan.isDelimiter, Bool.or_eq_false_iff, beq_eq_false_iff_ne] at hc
  simp [inLiteral, WalkState.step, hclean.1, hc]

theorem clean_advance (hclean : scan.walk.Clean) (hc : BracketScan.isDelimiter c = false)
    (ahead : Option Char) : (scan.advance c ahead).walk.Clean := by
  simp only [BracketScan.isDelimiter, Bool.or_eq_false_iff, beq_eq_false_iff_ne] at hc
  have hstep : (scan.walk.step c ahead).2 = scan.walk.seeCode c := by
    simp [WalkState.step, hclean.1, hc]
  change (scan.walk.step c ahead).2.Clean
  rw [hstep]
  exact (WalkState.sameLiteral_seeCode _ c).trans hclean

/-- The brackets and the type position behind a character of code. -/
theorem advance_of_clean (hclean : scan.walk.Clean) (hc : BracketScan.isDelimiter c = false)
    (ahead : Option Char) :
    (scan.advance c ahead).depth = (scan.count c ahead).depth ∧
      (scan.advance c ahead).angles = (scan.count c ahead).angles ∧
        (scan.advance c ahead).inType = (scan.count c ahead).inType := by
  simp [advance, inLiteral_of_clean hclean hc]

/-- In code, at the top level, a scan stops where the test accepts. -/
theorem stopsAt_of_clean (hclean : scan.walk.Clean) (hc : BracketScan.isDelimiter c = false)
    (htop : scan.atTop = true) {ahead : Option Char} (hstop : stop (scan.place c ahead) = true) :
    scan.stopsAt stop c ahead = true := by
  simp [stopsAt, inLiteral_of_clean hclean hc, htop, hstop]

end TopLevelScan

end Offside
