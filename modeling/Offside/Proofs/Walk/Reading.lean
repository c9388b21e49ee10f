/-
# Walks that read alike

What a `/` means depends on the last character of code in front of it, and on nothing else
that a walk remembers outside of literals. So two walks go through the same text side by
side, in the same literals, as long as no `/` comes first where it means something else.
Where it means the same from the start, nothing can come between them.
-/

import Offside.Proofs.Walk.Compose

namespace Offside

namespace WalkState

theorem SameLiteral.sound {first second : WalkState} (hsame : SameLiteral first second)
    (hsound : second.Sound) : first.Sound where
  delimiter := by
    rw [hsame.1]
    exact hsound.delimiter
  escaped hopen := by
    rw [hsame.2.1]
    exact hsound.escaped (hsame.1 ▸ hopen)
  inClass hopen := by
    rw [hsame.2.2]
    exact hsound.inClass (hsame.1 ▸ hopen)

/-- The same literal is open in two states, and a `/` means the same in both if one is. -/
structure Alike (first second : WalkState) : Prop where
  literal : SameLiteral first second
  sound : second.Sound
  operand : second.openQuote ≠ none → first.opensRegex none = second.opensRegex none

theorem alike_init : Alike {} {} :=
  ⟨⟨rfl, rfl, rfl⟩, clean_init.sound, fun hopen => absurd rfl hopen⟩

theorem opensRegex_eq (state : WalkState) (ahead : Option Char) :
    state.opensRegex ahead =
      (state.opensRegex none && (ahead != some '/' && ahead != some '*')) := by
  have hnone : ∀ d : Char, ((none : Option Char) != some d) = true := fun _ => rfl
  simp only [opensRegex, hnone, Bool.and_true, Bool.and_assoc]

theorem seeCode_opensRegex (state : WalkState) (c : Char) :
    (state.seeCode c).opensRegex none =
      if Text.isBlank c then state.opensRegex none else expectsOperand c := by
  unfold seeCode
  split
  · rfl
  · have hnone : ∀ d : Char, ((none : Option Char) != some d) = true := fun _ => rfl
    simp only [opensRegex, hnone, Bool.and_true]

/-- Over a character that means the same in both states they stay alike. -/
theorem Alike.step {first second : WalkState} (halike : Alike first second) {c : Char}
    (hslash : c = '/' → first.opensRegex none = second.opensRegex none) (ahead : Option Char) :
    (first.step c ahead).1 = (second.step c ahead).1 ∧
      Alike (first.step c ahead).2 (second.step c ahead).2 ∧
      (Text.isBlank c = false ∨ first.opensRegex none = second.opensRegex none →
        (first.step c ahead).2.opensRegex none = (second.step c ahead).2.opensRegex none) := by
  obtain ⟨⟨hquote, hescaped, hclass⟩, hsound, hoperand⟩ := halike
  have hsound' := hsound.step c ahead
  have hregex : (c = '/' && first.opensRegex ahead) = (c = '/' && second.opensRegex ahead) := by
    by_cases hc : c = '/'
    · rw [opensRegex_eq first, opensRegex_eq second, hslash hc]
    · simp [hc]
  unfold WalkState.step at hsound' ⊢
  rw [hquote, hescaped, hclass, hregex]
  cases hopen : second.openQuote with
  | none =>
      simp only [hopen] at hsound' ⊢
      split_ifs at hsound' ⊢ with hopens
      · have hblank : Text.isBlank c = false := by
          simp only [isQuote, Bool.or_eq_true, Bool.and_eq_true, beq_iff_eq,
            decide_eq_true_eq] at hopens
          rcases hopens with ((rfl | rfl) | rfl) | ⟨rfl, -⟩ <;> rfl
        refine ⟨rfl, ⟨?_, hsound', fun _ => ?_⟩, fun _ => ?_⟩
        · simp [SameLiteral]
        · simp [seeCode_opensRegex, hblank]
        · simp [seeCode_opensRegex, hblank]
      · refine ⟨rfl, ⟨?_, hsound', fun hne => ?_⟩, fun hcase => ?_⟩
        · simp [SameLiteral, hquote, hopen, hescaped, hclass]
        · simp [hopen] at hne
        · rcases hcase with hblank | hbit
          · simp [seeCode_opensRegex, hblank]
          · simp [seeCode_opensRegex, hbit]
  | some quote =>
      have hbit := hoperand (by simp [hopen])
      simp only [hopen] at hsound' ⊢
      split_ifs at hsound' ⊢
      · exact ⟨rfl, ⟨⟨rfl, rfl, rfl⟩, hsound', fun _ => hbit⟩, fun _ => hbit⟩
      · exact ⟨rfl, ⟨⟨rfl, rfl, rfl⟩, hsound', fun _ => hbit⟩, fun _ => hbit⟩
      · refine ⟨rfl, ⟨?_, hsound', fun hne => ?_⟩, fun _ => ?_⟩
        · simp [SameLiteral]
        · simp at hne
        · rw [seeCode_opensRegex, seeCode_opensRegex]
          exact congrArg (fun bit => if Text.isBlank c then bit else expectsOperand c) hbit
      · exact ⟨rfl, ⟨⟨rfl, rfl, rfl⟩, hsound', fun _ => hbit⟩, fun _ => hbit⟩
      · exact ⟨rfl, ⟨⟨rfl, rfl, rfl⟩, hsound', fun _ => hbit⟩, fun _ => hbit⟩
      · exact ⟨rfl, ⟨⟨hquote, hescaped, hclass⟩, hsound', fun _ => hbit⟩, fun _ => hbit⟩

/-- Two states from which every text is read alike. -/
structure SameReading (first second : WalkState) : Prop where
  alike : Alike first second
  operand : first.opensRegex none = second.opensRegex none

theorem Clean.sameReading {first second : WalkState} (hfirst : first.Clean)
    (hsecond : second.Clean) (hoperand : first.opensRegex none = second.opensRegex none) :
    SameReading first second where
  alike := ⟨hfirst.sameLiteral hsecond, hsecond.sound, fun hopen => absurd hsecond.1 hopen⟩
  operand := hoperand

theorem SameReading.symm {first second : WalkState} (hsame : SameReading first second) :
    SameReading second first where
  alike := ⟨hsame.alike.literal.symm, hsame.alike.literal.sound hsame.alike.sound,
    fun _ => hsame.operand.symm⟩
  operand := hsame.operand.symm

theorem SameReading.step {first second : WalkState} (hsame : SameReading first second) (c : Char)
    (ahead : Option Char) :
    (first.step c ahead).1 = (second.step c ahead).1 ∧
      SameReading (first.step c ahead).2 (second.step c ahead).2 := by
  obtain ⟨hregion, halike, hoperand⟩ := hsame.alike.step (fun _ => hsame.operand) ahead
  exact ⟨hregion, halike, hoperand (.inr hsame.operand)⟩

theorem SameReading.run {first second : WalkState} (hsame : SameReading first second)
    (text : List Char) : SameReading (first.run text) (second.run text) := by
  induction text generalizing first second with
  | nil => exact hsame
  | cons c text ih => exact ih (hsame.step c text.head?).2

theorem SameReading.clean_run {first second : WalkState} (hsame : SameReading first second)
    {text : List Char} (hclean : (first.run text).Clean) : (second.run text).Clean :=
  (hsame.run text).alike.literal.symm.trans hclean

end WalkState

end Offside
