/-
# Which quote closes a literal

A backslash in a literal takes the next character with it, and pairs are counted
from the opening quote. Read from the left, all that matters is one bit: whether
the next character is the second of a pair. This module names that bit, says with
it which quotes are protected, and proves that the cut behind a closing quote is
the cut behind the first quote that is not.

The bit is kept as a parameter throughout. A text behind an opening quote is then
read in the same way as the rest of a text whose beginning has been dealt with.
-/

import Mathlib.Data.List.Basic
import Offside.Token

namespace Offside.Token

/-- Whether the character behind `c` is the second of a pair, when `escaped` says
that of `c` itself. -/
def escapesNext (escaped : Bool) (c : Char) : Bool := c == '\\' && !escaped

/-- Whether the character behind a text is the second of a pair. -/
def pending (escaped : Bool) (text : List Char) : Bool := text.foldl escapesNext escaped

/-- Every `quote` in the text is the second of a pair. -/
def Sealed (escaped : Bool) (quote : Char) (text : List Char) : Prop :=
  ∀ before after, text = before ++ quote :: after → pending escaped before = true

variable {escaped : Bool} {quote : Char}

@[simp]
theorem pending_nil : pending escaped [] = escaped := rfl

@[simp]
theorem pending_cons (c : Char) (text : List Char) :
    pending escaped (c :: text) = pending (escapesNext escaped c) text := rfl

@[simp]
theorem pending_append (first second : List Char) :
    pending escaped (first ++ second) = pending (pending escaped first) second :=
  List.foldl_append

/-- A character other than the backslash leaves nothing pending. -/
theorem escapesNext_of_ne {c : Char} (hc : c ≠ '\\') : escapesNext escaped c = false := by
  simp [escapesNext, hc]

/-- Only a final backslash leaves something pending. -/
theorem getLast?_of_pending {text : List Char} (hne : text ≠ [])
    (hpending : pending escaped text = true) : text.getLast? = some '\\' := by
  obtain ⟨front, last, rfl⟩ := (List.eq_nil_or_concat text).resolve_left hne
  rw [List.concat_eq_append, pending_append, pending_cons, pending_nil] at hpending
  by_cases hlast : last = '\\'
  · simp [hlast]
  · rw [escapesNext_of_ne hlast] at hpending
    cases hpending

theorem sealed_nil : Sealed escaped quote [] := by
  intro before after h
  cases before <;> cases h

theorem sealed_cons_iff {c : Char} {text : List Char} :
    Sealed escaped quote (c :: text) ↔
      (c = quote → escaped = true) ∧ Sealed (escapesNext escaped c) quote text := by
  constructor
  · intro hsealed
    refine ⟨fun hc => hsealed [] text (by rw [hc]; rfl), fun before after htext => ?_⟩
    exact hsealed (c :: before) after (by rw [htext]; rfl)
  · rintro ⟨hhead, htail⟩ before after htext
    cases before with
    | nil =>
        injection htext with hc _
        exact hhead hc
    | cons b before =>
        injection htext with hc htext
        rw [← hc]
        exact htail before after htext

instance instDecidableSealed : (escaped : Bool) → (quote : Char) → (text : List Char) →
    Decidable (Sealed escaped quote text)
  | _, _, [] => .isTrue sealed_nil
  | escaped, quote, c :: text =>
    have := instDecidableSealed (escapesNext escaped c) quote text
    decidable_of_iff _ sealed_cons_iff.symm

theorem sealed_append_iff {first second : List Char} :
    Sealed escaped quote (first ++ second) ↔
      Sealed escaped quote first ∧ Sealed (pending escaped first) quote second := by
  induction first generalizing escaped with
  | nil => simp [sealed_nil]
  | cons c first ih => rw [List.cons_append, sealed_cons_iff, sealed_cons_iff, ih, pending_cons,
      and_assoc]

/-- A text without the quote has nothing to protect. -/
theorem sealed_of_notMem {text : List Char} (hquote : quote ∉ text) :
    Sealed escaped quote text := by
  intro before after htext
  exact absurd (by rw [htext]; simp) hquote

/-- Cut a text behind its first `quote` that is not the second of a pair. -/
def cutFrom (quote : Char) : Bool → List Char → Option (List Char × List Char)
  | _, [] => none
  | escaped, c :: rest =>
    if c = quote ∧ escaped = false then some ([c], rest)
    else (cutFrom quote (escapesNext escaped c) rest).map fun (body, after) => (c :: body, after)

theorem cutFrom_eq_none_iff {text : List Char} :
    cutFrom quote escaped text = none ↔ Sealed escaped quote text := by
  induction text generalizing escaped with
  | nil => simp [cutFrom, sealed_nil]
  | cons c text ih =>
      rw [cutFrom, sealed_cons_iff]
      split
      · rename_i hcut
        simp [hcut.1, hcut.2]
      · rename_i hkept
        rw [Option.map_eq_none_iff, ih]
        simp only [not_and, Bool.not_eq_false] at hkept
        exact (and_iff_right hkept).symm

/-- The cut falls behind a quote that is not protected, and every quote in front
of it is. -/
theorem cutFrom_eq_some_iff {text cut after : List Char} :
    cutFrom quote escaped text = some (cut, after) ↔
      ∃ body, cut = body ++ [quote] ∧ text = body ++ quote :: after ∧
        Sealed escaped quote body ∧ pending escaped body = false := by
  induction text generalizing escaped cut with
  | nil => simp [cutFrom]
  | cons c text ih =>
      rw [cutFrom]
      split
      · rename_i hcut
        obtain ⟨rfl, rfl⟩ := hcut
        simp only [Option.some.injEq, Prod.mk.injEq]
        constructor
        · rintro ⟨rfl, rfl⟩
          exact ⟨[], rfl, rfl, sealed_nil, rfl⟩
        · rintro ⟨body, rfl, htext, hsealed, -⟩
          cases body with
          | nil =>
              injection htext with _ htext
              exact ⟨rfl, htext⟩
          | cons b body =>
              injection htext with hb _
              exact absurd ((sealed_cons_iff.mp hsealed).1 hb.symm) (by simp)
      · rename_i hkept
        rw [Option.map_eq_some_iff]
        constructor
        · rintro ⟨⟨inner, rest⟩, hinner, heq⟩
          obtain ⟨rfl, rfl⟩ := Prod.mk.inj heq
          obtain ⟨body, rfl, rfl, hsealed, hpending⟩ := ih.mp hinner
          refine ⟨c :: body, rfl, rfl, sealed_cons_iff.mpr ⟨fun hc => ?_, hsealed⟩, hpending⟩
          simpa [hc] using hkept
        · rintro ⟨body, rfl, htext, hsealed, hpending⟩
          cases body with
          | nil =>
              injection htext with hc _
              exact absurd ⟨hc, hpending⟩ hkept
          | cons b body =>
              injection htext with hb htext
              subst hb
              exact ⟨(body ++ [quote], after),
                ih.mpr ⟨body, rfl, htext, (sealed_cons_iff.mp hsealed).2, hpending⟩, rfl⟩

/-- Taking backslash pairs two characters at a time is the same as remembering
whether a pair is open. -/
theorem cutAfterQuote_eq_cutFrom (hquote : quote ≠ '\\') (text : List Char) :
    cutAfterQuote quote text = cutFrom quote false text := by
  fun_induction cutAfterQuote quote text with
  | case1 => rfl
  | case2 => simp [cutFrom, hquote.symm]
  | case3 c rest ih =>
      rw [cutFrom, if_neg (by simp [hquote.symm]), cutFrom, if_neg (by simp [escapesNext]), ih,
        Option.map_map]
      simp [escapesNext, Function.comp_def]
  | case4 rest => simp [cutFrom]
  | case5 c rest hlone hpair hne ih =>
      have hplain : c ≠ '\\' := by
        rintro rfl
        cases rest with
        | nil => exact hlone rfl rfl
        | cons d rest => exact hpair d rest rfl rfl
      rw [cutFrom, if_neg (by simp [hne]), escapesNext_of_ne hplain, ih]

end Offside.Token
