/-
# Walking one text after another

A walk looks one character ahead, and only a `/` makes use of it. So a walk through
two texts, one after the other, is the walk through the first followed by the walk
through the second, unless the first ends in a `/`.

What a walk remembers falls in two parts: which literal is open and how, and the
last character of code. The second part matters to a `/` alone. Two walks through a
text without `/` that agree on the first part therefore see the same regions and
open the same literals.
-/

import Mathlib.Data.List.Basic
import Offside.Walk

namespace Offside

namespace WalkState

/-- The two states agree on the literal that is open and on how far it has come. -/
def SameLiteral (first second : WalkState) : Prop :=
  first.openQuote = second.openQuote ∧ first.escaped = second.escaped ∧
    first.inClass = second.inClass

/-- No literal is open, and nothing is left over from one. -/
def Clean (state : WalkState) : Prop := SameLiteral state {}

instance (first second : WalkState) : Decidable (SameLiteral first second) :=
  inferInstanceAs (Decidable (_ ∧ _ ∧ _))

instance (state : WalkState) : Decidable state.Clean :=
  inferInstanceAs (Decidable (SameLiteral state {}))

/-- What every state on a walk satisfies: a literal has one of the four delimiters, and
without a literal nothing is protected and no class is open. -/
structure Sound (state : WalkState) : Prop where
  delimiter : ∀ quote ∈ state.openQuote, isQuote quote = true ∨ quote = '/'
  escaped : state.openQuote = none → state.escaped = false
  inClass : state.openQuote = none → state.inClass = false

theorem clean_init : Clean {} := ⟨rfl, rfl, rfl⟩

theorem Clean.sound {state : WalkState} (hclean : state.Clean) : state.Sound where
  delimiter := by
    intro quote hquote
    rw [hclean.1] at hquote
    cases hquote
  escaped _ := hclean.2.1
  inClass _ := hclean.2.2

theorem Sound.clean {state : WalkState} (hsound : state.Sound) (hopen : state.openQuote = none) :
    state.Clean := ⟨hopen, hsound.escaped hopen, hsound.inClass hopen⟩

theorem SameLiteral.symm {first second : WalkState} (hsame : SameLiteral first second) :
    SameLiteral second first := ⟨hsame.1.symm, hsame.2.1.symm, hsame.2.2.symm⟩

theorem SameLiteral.trans {first second third : WalkState} (hsame : SameLiteral first second)
    (hsame' : SameLiteral second third) : SameLiteral first third :=
  ⟨hsame.1.trans hsame'.1, hsame.2.1.trans hsame'.2.1, hsame.2.2.trans hsame'.2.2⟩

theorem Clean.sameLiteral {first second : WalkState} (hfirst : first.Clean)
    (hsecond : second.Clean) : SameLiteral first second := hfirst.trans hsecond.symm

@[simp]
theorem seeCode_openQuote (state : WalkState) (c : Char) :
    (state.seeCode c).openQuote = state.openQuote := by
  unfold seeCode
  split <;> rfl

@[simp]
theorem seeCode_escaped (state : WalkState) (c : Char) :
    (state.seeCode c).escaped = state.escaped := by
  unfold seeCode
  split <;> rfl

@[simp]
theorem seeCode_inClass (state : WalkState) (c : Char) :
    (state.seeCode c).inClass = state.inClass := by
  unfold seeCode
  split <;> rfl

theorem sameLiteral_seeCode (state : WalkState) (c : Char) :
    SameLiteral (state.seeCode c) state := by
  simp [SameLiteral]

/-- Only a `/` looks ahead. -/
theorem step_of_ne_slash {c : Char} (hc : c ≠ '/') (state : WalkState) (ahead : Option Char) :
    state.step c ahead = state.step c none := by
  simp [step, hc]

/-- What is ahead may decide what a `/` opens, but never whether a character is quoted. -/
theorem region_step (state : WalkState) (c : Char) (ahead : Option Char) :
    (state.step c ahead).1 = (state.step c none).1 := by
  unfold step
  cases state.openQuote with
  | none =>
      simp only
      split_ifs <;> rfl
  | some quote => rfl

/-- Over anything but a `/`, two states that agree on the open literal see the same
region and agree again. -/
theorem SameLiteral.step {first second : WalkState} (hsame : SameLiteral first second) {c : Char}
    (hc : c ≠ '/') (ahead : Option Char) :
    (first.step c ahead).1 = (second.step c ahead).1 ∧
      SameLiteral (first.step c ahead).2 (second.step c ahead).2 := by
  obtain ⟨hquote, hescaped, hclass⟩ := hsame
  unfold WalkState.step
  rw [hquote, hescaped, hclass]
  cases second.openQuote with
  | none =>
      simp only [hc, decide_false, Bool.false_and, Bool.or_false]
      split <;> simp [SameLiteral, hescaped, hclass, hquote]
  | some quote =>
      simp only
      split_ifs <;> simp [SameLiteral, hescaped, hclass, hquote]

/-- A state in which a literal is open is sound if its delimiter is one. -/
theorem sound_of_openQuote {state : WalkState} {quote : Char} (hopen : state.openQuote = some quote)
    (hquote : isQuote quote = true ∨ quote = '/') : state.Sound where
  delimiter := by
    intro delimiter hdelimiter
    rw [hopen, Option.mem_some_iff] at hdelimiter
    rwa [← hdelimiter]
  escaped hnone := by
    rw [hopen] at hnone
    cases hnone
  inClass hnone := by
    rw [hopen] at hnone
    cases hnone

/-- Every step keeps a state sound. -/
theorem Sound.step {state : WalkState} (hsound : state.Sound) (c : Char) (ahead : Option Char) :
    (state.step c ahead).2.Sound := by
  unfold WalkState.step
  cases hopen : state.openQuote with
  | none =>
      simp only
      split_ifs with hopens
      · refine sound_of_openQuote (by rw [seeCode_openQuote]) ?_
        simp only [Bool.or_eq_true, Bool.and_eq_true, decide_eq_true_eq] at hopens
        exact hopens.imp_right And.left
      · have hclean : (state.seeCode c).Clean :=
          (sameLiteral_seeCode state c).trans (hsound.clean hopen)
        exact hclean.sound
  | some quote =>
      have hquote := hsound.delimiter quote hopen
      simp only
      split_ifs with hescaped hbackslash hcloses hclass hclass'
      · exact sound_of_openQuote rfl hquote
      · exact sound_of_openQuote rfl hquote
      · simp only [Bool.and_eq_true, Bool.not_eq_true'] at hcloses
        have hclean : ({ state with openQuote := none }.seeCode c).Clean := by
          refine (sameLiteral_seeCode _ c).trans ⟨rfl, ?_, hcloses.2⟩
          simpa using hescaped
        exact hclean.sound
      · exact sound_of_openQuote rfl hquote
      · exact sound_of_openQuote rfl hquote
      · exact sound_of_openQuote hopen hquote

theorem Sound.run {state : WalkState} (hsound : state.Sound) (text : List Char) :
    (state.run text).Sound := by
  induction text generalizing state with
  | nil => exact hsound
  | cons c text ih => exact ih (hsound.step c text.head?)

end WalkState

theorem walkFrom_cons (state : WalkState) (c : Char) (rest : List Char) :
    walkFrom state (c :: rest) =
      ⟨c, (state.step c rest.head?).1, (state.step c rest.head?).2⟩ ::
        walkFrom (state.step c rest.head?).2 rest := rfl

theorem run_cons (state : WalkState) (c : Char) (rest : List Char) :
    state.run (c :: rest) = (state.step c rest.head?).2.run rest := rfl

/-- A walk goes through the characters in order. -/
theorem map_char_walkFrom (state : WalkState) (text : List Char) :
    (walkFrom state text).map WalkStep.char = text := by
  induction text generalizing state with
  | nil => rfl
  | cons c text ih => rw [walkFrom_cons, List.map_cons, ih]

theorem length_walkFrom (state : WalkState) (text : List Char) :
    (walkFrom state text).length = text.length := by
  rw [← List.length_map, map_char_walkFrom]

/-- Where the first text ends in a `/`, the second begins in such a way that it makes no
difference to what that `/` means. -/
def Seam (first second : List Char) : Prop :=
  first.getLast? = some '/' → ∀ c ∈ second.head?, c ≠ '/' ∧ c ≠ '*'

theorem seam_of_getLast?_ne {first : List Char} (hlast : first.getLast? ≠ some '/')
    (second : List Char) : Seam first second := fun hslash => absurd hslash hlast

theorem seam_cons {c : Char} (hc : c ≠ '/' ∧ c ≠ '*') (first second : List Char) :
    Seam first (c :: second) := by
  rintro - d hd
  rwa [← Option.some_inj.mp hd]

theorem Seam.of_cons {c : Char} {first second : List Char} (hseam : Seam (c :: first) second) :
    Seam first second := by
  intro hlast
  cases first with
  | nil => cases hlast
  | cons d first => exact hseam (by simpa using hlast)

/-- Only a `/` or `*` ahead is worth a look. -/
theorem WalkState.step_of_ahead {ahead : Option Char} (hahead : ∀ d ∈ ahead, d ≠ '/' ∧ d ≠ '*')
    (state : WalkState) (c : Char) : state.step c ahead = state.step c none := by
  have hopens : state.opensRegex ahead = state.opensRegex none := by
    cases ahead with
    | none => rfl
    | some d =>
        obtain ⟨hslash, hstar⟩ := hahead d rfl
        simp [opensRegex, bne, beq_eq_false_iff_ne.mpr hslash, beq_eq_false_iff_ne.mpr hstar]
  simp only [step, hopens]

/-- What a step sees ahead of it, at the seam of two texts: the second text only comes
in view behind the last character of the first. -/
theorem step_head?_append {c : Char} {first second : List Char} (hseam : Seam (c :: first) second)
    (state : WalkState) : state.step c (first ++ second).head? = state.step c first.head? := by
  cases first with
  | nil =>
      by_cases hc : c = '/'
      · exact WalkState.step_of_ahead (hseam (by rw [hc]; rfl)) state c
      · rw [List.nil_append, WalkState.step_of_ne_slash hc]
        rfl
  | cons d first => rfl

theorem walkFrom_append_of_seam {first second : List Char} (hseam : Seam first second)
    (state : WalkState) :
    walkFrom state (first ++ second) =
      walkFrom state first ++ walkFrom (state.run first) second := by
  induction first generalizing state with
  | nil => rfl
  | cons c first ih =>
      rw [List.cons_append, walkFrom_cons, step_head?_append hseam, ih hseam.of_cons,
        walkFrom_cons, run_cons, List.cons_append]

theorem run_append_of_seam {first second : List Char} (hseam : Seam first second)
    (state : WalkState) : state.run (first ++ second) = (state.run first).run second := by
  induction first generalizing state with
  | nil => rfl
  | cons c first ih =>
      rw [List.cons_append, run_cons, step_head?_append hseam, ih hseam.of_cons, run_cons]

/-- A walk through two texts, the first of which does not end in a `/`, is a walk
through the first followed by one through the second. -/
theorem walkFrom_append {first : List Char} (hlast : first.getLast? ≠ some '/') (state : WalkState)
    (second : List Char) :
    walkFrom state (first ++ second) =
      walkFrom state first ++ walkFrom (state.run first) second :=
  walkFrom_append_of_seam (seam_of_getLast?_ne hlast second) state

theorem run_append {first : List Char} (hlast : first.getLast? ≠ some '/') (state : WalkState)
    (second : List Char) : state.run (first ++ second) = (state.run first).run second :=
  run_append_of_seam (seam_of_getLast?_ne hlast second) state

theorem getLast?_ne_slash {text : List Char} (hslash : '/' ∉ text) :
    text.getLast? ≠ some '/' := fun hlast => hslash (List.mem_of_getLast? hlast)

theorem WalkState.SameLiteral.run {first second : WalkState} (hsame : first.SameLiteral second)
    {text : List Char} (hslash : '/' ∉ text) :
    (first.run text).SameLiteral (second.run text) := by
  induction text generalizing first second with
  | nil => exact hsame
  | cons c text ih =>
      simp only [List.mem_cons, not_or] at hslash
      exact ih (hsame.step (Ne.symm hslash.1) _).2 hslash.2

end Offside
