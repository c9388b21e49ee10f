/-
# Splitting at the top level

A list of parameters is split into its parameters by a scan that starts afresh behind each
separator, with no bracket open, no literal, and outside of types. What such a scan thinks of
a part, with the rest of the text behind it, is what it thinks of the part alone: of what
comes next it sees one character, and too late to stop for it. So no part can be split any
further, even where brackets or literals are left open in it.

Being unsplittable is not enough to tell the parts from others. In `(a,b)` the comma is not at
the top level, and yet neither `(a` nor `b)` can be split. What is missing is that a scan of a
part alone would stop at a separator right behind it. With that the parts are settled, and
nothing needs to be said of the rounds in which they are found.
-/

import Offside.Proofs.Compile.Passage

namespace Offside

section Parts

variable {separator : Char} {text : List Char} {parts : List (List Char)}

/-- Nothing is left to split in a part. -/
theorem Splits.cutTopLevel?_eq_none (hsplits : Splits separator text parts) :
    ∀ part ∈ parts, cutTopLevel? (·.char == separator) part = none := by
  induction hsplits with
  | last hcut => exact List.forall_mem_singleton.mpr hcut
  | round hcut _ ih =>
      have hbefore := TopLevelScan.cut?_before (fun _ _ _ => rfl) hcut
      exact List.forall_mem_cons.mpr ⟨hbefore, ih⟩

/-- Behind each part but the last, a scan of the part alone stops at a separator. -/
theorem Splits.cutTopLevel?_concat (hsplits : Splits separator text parts) :
    ∀ part ∈ parts.dropLast,
      cutTopLevel? (·.char == separator) (part ++ [separator]) = some (part, [separator]) := by
  induction hsplits with
  | last => simp
  | @round text before rest parts hcut hrest ih =>
      rw [← TopLevelScan.append_of_cut? hcut] at hcut
      have hbefore := (TopLevelScan.cut?_append_iff fun _ _ _ => rfl).mp hcut
      rw [List.dropLast_cons_of_ne_nil hrest.ne_nil]
      exact List.forall_mem_cons.mpr ⟨hbefore, ih⟩

/-- What the parts of a text are, without a word on how they are found: joined by the separator
they are the text, none of them can be split, and a scan of any but the last would stop at a
separator right behind it. Only one list is like that. -/
theorem topLevelParts_eq_iff :
    topLevelParts separator text = parts ↔
      parts ≠ [] ∧ [separator].intercalate parts = text ∧
        (∀ part ∈ parts, cutTopLevel? (·.char == separator) part = none) ∧
        ∀ part ∈ parts.dropLast,
          cutTopLevel? (·.char == separator) (part ++ [separator]) = some (part, [separator]) := by
  rw [← splits_iff]
  constructor
  · intro hsplits
    exact ⟨hsplits.ne_nil, hsplits.intercalate, hsplits.cutTopLevel?_eq_none,
      hsplits.cutTopLevel?_concat⟩
  · rintro ⟨hne, rfl, hnone, hstops⟩
    induction parts with
    | nil => exact absurd rfl hne
    | cons part parts ih =>
        rw [List.forall_mem_cons] at hnone
        cases parts with
        | nil =>
            rw [List.intercalate_singleton]
            exact .last hnone.1
        | cons next parts =>
            rw [List.dropLast_cons_cons, List.forall_mem_cons] at hstops
            rw [List.intercalate_cons_cons, List.append_assoc, List.singleton_append]
            exact .round ((TopLevelScan.cut?_append_iff fun _ _ _ => rfl).mpr hstops.1)
              (ih (List.cons_ne_nil _ _) hnone.2 hstops.2)

end Parts

/-- A split at the top level loses nothing and leaves nothing to split. Joined by the separator,
the parts are the text again; there is at least one; in none of them would a scan that starts
afresh stop at a separator, while behind each but the last it would. Each round takes the
separator off at least, so the rounds come to an end, whatever the text, and what they end with
are the parts. -/
theorem topLevelParts_lossless_maximal (separator : Char) (text : List Char) :
    [separator].intercalate (topLevelParts separator text) = text ∧
    topLevelParts separator text ≠ [] ∧
    (∀ part ∈ topLevelParts separator text, cutTopLevel? (·.char == separator) part = none) ∧
    (∀ part ∈ (topLevelParts separator text).dropLast,
      cutTopLevel? (·.char == separator) (part ++ [separator]) = some (part, [separator])) ∧
    (∀ before found, cutTopLevel? (·.char == separator) text = some (before, found) →
      ∃ rest, found = separator :: rest ∧ before ++ separator :: rest = text) ∧
    ∀ parts, Splits separator text parts ↔ parts = topLevelParts separator text := by
  obtain ⟨hne, hjoin, hnone, hstops⟩ :=
    topLevelParts_eq_iff.mp (Eq.refl (topLevelParts separator text))
  refine ⟨hjoin, hne, hnone, hstops, fun before found hcut => exists_of_cutTopLevel? hcut, ?_⟩
  intro parts
  rw [splits_iff, eq_comm]

/-- Open brackets, an angle bracket of a type and a literal keep commas from being separators. -/
example : topLevelParts ',' "a: M<k,v>=x<y,f(b,c,d='),".toList =
    ["a: M<k,v>=x<y".toList, "f(b,c,d='),".toList] := by decide +kernel

end Offside
