/-
# Cuts at the top level

What every use of a cut at the top level relies on: the cut falls in front of a
character that the test accepts, and the parts between separators, joined by them,
are the text again.

The parts come out of a loop that cuts one part off in each round and starts afresh
behind the separator. `Splits` describes such a loop from its first round to its last,
so an induction on it follows the rounds.
-/

import Offside.Compile.TopLevel
import Offside.Proofs.Walk.Compose

namespace Offside

namespace TopLevelScan

variable {scan : TopLevelScan} {stop : Place → Bool}

/-- A cut falls in front of a character that the test accepts. -/
theorem exists_of_cut? {text before found : List Char}
    (hcut : scan.cut? stop text = some (before, found)) :
    ∃ place rest, found = place.char :: rest ∧ stop place = true := by
  induction text generalizing scan before with
  | nil => simp [cut?] at hcut
  | cons c text ih =>
      rw [cut?] at hcut
      split at hcut
      · rename_i hstops
        obtain ⟨-, rfl⟩ := Prod.mk.inj (Option.some_inj.mp hcut)
        simp only [stopsAt, Bool.and_eq_true] at hstops
        exact ⟨scan.place c text.head?, text, rfl, hstops.2⟩
      · obtain ⟨⟨_, _⟩, hrest, heq⟩ := Option.map_eq_some_iff.mp hcut
        obtain ⟨-, rfl⟩ := Prod.mk.inj heq
        exact ih hrest

end TopLevelScan

/-! ## The parts between separators -/

section Parts

variable {separator : Char} {text : List Char} {parts : List (List Char)}

theorem topLevelParts_eq_singleton
    (hcut : cutTopLevel? (·.char == separator) text = none) :
    topLevelParts separator text = [text] := by
  unfold topLevelParts
  split <;> simp_all

theorem topLevelParts_eq_cons {c : Char} {before rest : List Char}
    (hcut : cutTopLevel? (·.char == separator) text = some (before, c :: rest)) :
    topLevelParts separator text = before :: topLevelParts separator rest := by
  conv_lhs => unfold topLevelParts
  split <;> simp_all

/-- A cut at a separator takes off what stands in front of it, and leaves the separator and
what stands behind it. -/
theorem exists_of_cutTopLevel? {before found : List Char}
    (hcut : cutTopLevel? (·.char == separator) text = some (before, found)) :
    ∃ rest, found = separator :: rest ∧ before ++ separator :: rest = text := by
  obtain ⟨place, rest, rfl, hplace⟩ := TopLevelScan.exists_of_cut? hcut
  obtain rfl := eq_of_beq hplace
  exact ⟨rest, rfl, TopLevelScan.append_of_cut? hcut⟩

/-- The rounds in which a text is split. As long as there is a separator at the top level of
what is left, a round takes off the part in front of it and leaves what is behind it. What is
left in the end is the last part. -/
inductive Splits (separator : Char) : List Char → List (List Char) → Prop
  | last {text : List Char} (hcut : cutTopLevel? (·.char == separator) text = none) :
      Splits separator text [text]
  | round {text before rest : List Char} {parts : List (List Char)}
      (hcut : cutTopLevel? (·.char == separator) text = some (before, separator :: rest))
      (hrest : Splits separator rest parts) : Splits separator text (before :: parts)

/-- The rounds come to an end, because each takes off the separator at least. -/
theorem splits_topLevelParts (separator : Char) (text : List Char) :
    Splits separator text (topLevelParts separator text) := by
  induction hlength : text.length using Nat.strongRecOn generalizing text with
  | _ length ih =>
      cases hcut : cutTopLevel? (·.char == separator) text with
      | none =>
          rw [topLevelParts_eq_singleton hcut]
          exact .last hcut
      | some cut =>
          obtain ⟨before, found⟩ := cut
          obtain ⟨rest, rfl, htext⟩ := exists_of_cutTopLevel? hcut
          have hshorter : rest.length < length := by
            rw [← hlength, ← htext, List.length_append, List.length_cons]
            omega
          rw [topLevelParts_eq_cons hcut]
          exact .round hcut (ih rest.length hshorter rest rfl)

/-- They leave no choice. -/
theorem splits_iff : Splits separator text parts ↔ topLevelParts separator text = parts := by
  constructor
  · intro hsplits
    induction hsplits with
    | last hcut => exact topLevelParts_eq_singleton hcut
    | round hcut _ ih => rw [topLevelParts_eq_cons hcut, ih]
  · rintro rfl
    exact splits_topLevelParts separator text

theorem Splits.ne_nil (hsplits : Splits separator text parts) : parts ≠ [] := by
  cases hsplits <;> exact List.cons_ne_nil _ _

theorem Splits.intercalate (hsplits : Splits separator text parts) :
    [separator].intercalate parts = text := by
  induction hsplits with
  | last => exact List.intercalate_singleton
  | round hcut hrest ih =>
      rw [List.intercalate_cons_of_ne_nil hrest.ne_nil, ih, List.append_assoc,
        List.singleton_append, TopLevelScan.append_of_cut? hcut]

/-- Joined by their separator, the parts of a text are the text. -/
theorem intercalate_topLevelParts (separator : Char) (text : List Char) :
    [separator].intercalate (topLevelParts separator text) = text :=
  (splits_topLevelParts separator text).intercalate

end Parts

end Offside
