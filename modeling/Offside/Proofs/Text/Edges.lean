/-
# The edges of a text

What trims a text drops blanks at one edge and leaves the rest alone, and what drops a
final character comes to nothing but that. So the order in which a text loses its
leading blanks and what it ends in makes no difference.
-/

import Mathlib.Data.List.DropRight
import Mathlib.Data.List.TakeWhile
import Offside.Text.Blank

namespace Offside

theorem exists_trimStart (text : List Char) :
    ∃ blanks, (∀ c ∈ blanks, Text.isBlank c = true) ∧ blanks ++ Text.trimStart text = text :=
  ⟨_, fun _ hc => List.mem_takeWhile_imp hc, Text.takeWhile_append_trimStart text⟩

theorem exists_trimEnd (text : List Char) :
    ∃ blanks, (∀ c ∈ blanks, Text.isBlank c = true) ∧ Text.trimEnd text ++ blanks = text :=
  ⟨_, fun _ hc => List.mem_takeWhile_imp (List.mem_reverse.mp hc), Text.trimEnd_append text⟩

theorem exists_append_dropFinal (last : Char) (text : List Char) :
    ∃ final ∈ [[], [last]], Text.dropFinal last text ++ final = text ∧
      (final = [] → text.getLast? ≠ some last) := by
  unfold Text.dropFinal
  split
  · rename_i hlast
    obtain ⟨front, rfl⟩ := List.getLast?_eq_some_iff.mp hlast
    exact ⟨[last], by simp, by rw [List.dropLast_concat], fun hnil => nomatch hnil⟩
  · rename_i hlast
    exact ⟨[], by simp, List.append_nil text, fun _ => hlast⟩

/-- A text begins with a character of its first part, if that has any. -/
theorem forall_head?_append {p : Char → Prop} {front : List Char} (hne : front ≠ [])
    (hfront : ∀ c ∈ front, p c) (back : List Char) : ∀ c ∈ (front ++ back).head?, p c := by
  intro c hc
  rw [List.head?_append_of_ne_nil _ hne] at hc
  exact hfront c (List.mem_of_mem_head? hc)

namespace Text

theorem trimEnd_cons (c : Char) (text : List Char) :
    trimEnd (c :: text) =
      if trimEnd text = [] ∧ isBlank c = true then [] else c :: trimEnd text := by
  simp only [trimEnd, List.reverse_cons, List.dropWhile_append, List.reverse_eq_nil_iff,
    List.isEmpty_iff]
  by_cases hnil : text.reverse.dropWhile isBlank = []
  · cases hblank : isBlank c <;> simp [hnil, hblank]
  · simp [hnil]

theorem trimEnd_cons_of_not_blank {c : Char} (hc : isBlank c = false) (text : List Char) :
    trimEnd (c :: text) = c :: trimEnd text := by
  rw [trimEnd_cons, if_neg (by simp [hc])]

theorem dropFinal_cons_of_ne_nil {last c : Char} {text : List Char} (htext : text ≠ []) :
    dropFinal last (c :: text) = c :: dropFinal last text := by
  obtain ⟨d, rest, rfl⟩ := List.exists_cons_of_ne_nil htext
  unfold dropFinal
  rw [List.getLast?_cons_cons]
  split <;> rfl

theorem dropFinal_cons_of_ne {last c : Char} (hc : c ≠ last) (text : List Char) :
    dropFinal last (c :: text) = c :: dropFinal last text := by
  cases text with
  | nil => simp [dropFinal, hc]
  | cons d text => exact dropFinal_cons_of_ne_nil (List.cons_ne_nil d text)

theorem length_trimStart_lt_iff (text : List Char) :
    (trimStart text).length < text.length ↔ (text.head?.map isBlank).getD false = true := by
  cases text with
  | nil => simp [trimStart]
  | cons c text =>
      have hle : (trimStart text).length ≤ text.length := (List.dropWhile_suffix isBlank).length_le
      cases hblank : isBlank c with
      | true => simpa [trimStart, hblank] using Nat.lt_succ_of_le hle
      | false => simp [trimStart, hblank]

/-! ## Both edges -/

theorem trimStart_cons_of_isBlank {c : Char} (hc : isBlank c = true) (text : List Char) :
    trimStart (c :: text) = trimStart text := List.dropWhile_cons_of_pos hc

theorem trimStart_cons_of_not_blank {c : Char} (hc : isBlank c = false) (text : List Char) :
    trimStart (c :: text) = c :: text := List.dropWhile_cons_of_neg (by simp [hc])

theorem trimStart_trimStart (text : List Char) : trimStart (trimStart text) = trimStart text :=
  List.dropWhile_idempotent isBlank text

theorem trimEnd_trimEnd (text : List Char) : trimEnd (trimEnd text) = trimEnd text :=
  List.rdropWhile_idempotent isBlank text

/-- The two edges can be trimmed in either order. -/
theorem trimStart_trimEnd (text : List Char) :
    trimStart (trimEnd text) = trimEnd (trimStart text) := by
  induction text with
  | nil => rfl
  | cons c text ih =>
      cases hblank : isBlank c with
      | true =>
          rw [trimStart_cons_of_isBlank hblank, ← ih, trimEnd_cons]
          split
          · rename_i hnil
            rw [hnil.1]
          · rw [trimStart_cons_of_isBlank hblank]
      | false =>
          rw [trimStart_cons_of_not_blank hblank, trimEnd_cons_of_not_blank hblank,
            trimStart_cons_of_not_blank hblank]

/-- What begins with no blank has none to lose in front. -/
theorem trimStart_of_head? {text : List Char} (hhead : ∀ c ∈ text.head?, isBlank c = false) :
    trimStart text = text := by
  cases text with
  | nil => rfl
  | cons c text => exact trimStart_cons_of_not_blank (hhead c rfl) text

/-- What begins with another character does not begin with a given text. -/
theorem dropLead?_of_head?_ne {c : Char} {expected text : List Char} (hhead : text.head? ≠ some c) :
    dropLead? (c :: expected) text = none := by
  cases text with
  | nil => rfl
  | cons d text => exact if_neg fun heq => hhead (congrArg some heq.symm)

theorem trim_trim (text : List Char) : trim (trim text) = trim text := by
  rw [trim, trim, trimStart_trimEnd, trimStart_trimStart, trimEnd_trimEnd]

/-- A final character that is not blank is not one of the leading blanks. -/
theorem trimStart_dropFinal {last : Char} (hlast : isBlank last = false) (text : List Char) :
    trimStart (dropFinal last text) = dropFinal last (trimStart text) := by
  induction text with
  | nil => rfl
  | cons c text ih =>
      cases hblank : isBlank c with
      | true =>
          have hne : c ≠ last := by
            rintro rfl
            rw [hlast] at hblank
            cases hblank
          rw [dropFinal_cons_of_ne hne, trimStart_cons_of_isBlank hblank,
            trimStart_cons_of_isBlank hblank, ih]
      | false =>
          rw [trimStart_cons_of_not_blank hblank]
          cases text with
          | nil =>
              unfold dropFinal
              split
              · rfl
              · exact trimStart_cons_of_not_blank hblank []
          | cons d text =>
              rw [dropFinal_cons_of_ne_nil (List.cons_ne_nil d text),
                trimStart_cons_of_not_blank hblank]

theorem trimStart_append_of_ne_nil {front : List Char} (hfront : trimStart front ≠ [])
    (back : List Char) : trimStart (front ++ back) = trimStart front ++ back :=
  List.dropWhile_append.trans (if_neg fun hnil => hfront (List.isEmpty_iff.mp hnil))

theorem trimStart_append_of_isBlank {blanks : List Char} (hblanks : ∀ c ∈ blanks, isBlank c = true)
    (text : List Char) : trimStart (blanks ++ text) = trimStart text :=
  List.dropWhile_append_of_pos hblanks

theorem trimEnd_append_of_isBlank {blanks : List Char} (hblanks : ∀ c ∈ blanks, isBlank c = true)
    (text : List Char) : trimEnd (text ++ blanks) = trimEnd text := by
  rw [trimEnd, List.reverse_append, List.dropWhile_append_of_pos, trimEnd]
  exact fun c hc => hblanks c (List.mem_reverse.mp hc)

theorem trim_append_of_isBlank {front back : List Char} (hfront : ∀ c ∈ front, isBlank c = true)
    (hback : ∀ c ∈ back, isBlank c = true) (text : List Char) :
    trim (front ++ text ++ back) = trim text := by
  rw [List.append_assoc, trim, trimStart_append_of_isBlank hfront, ← trimStart_trimEnd,
    trimEnd_append_of_isBlank hback, trimStart_trimEnd, trim]

theorem trimStart_of_trim {text : List Char} (htrim : trim text = text) :
    trimStart text = text := by
  rw [← htrim, trim, trimStart_trimEnd, trimStart_trimStart]

theorem trimEnd_of_trim {text : List Char} (htrim : trim text = text) : trimEnd text = text := by
  rw [← htrim, trim, trimEnd_trimEnd]

/-- A text that has no blanks to lose at its end does not end in one. -/
theorem isBlank_eq_false_of_trimEnd {text : List Char} (htrim : trimEnd text = text) {c : Char}
    (hc : [c] <:+ text) : isBlank c = false := by
  obtain ⟨front, rfl⟩ := hc
  simpa using List.rdropWhile_eq_self_iff.mp htrim (by simp)

/-! ## A final character among blanks -/

/-- Without a final character and the blanks around it, a text has no blanks at its edges. -/
theorem trim_trimEnd_dropFinal {last : Char} (hlast : isBlank last = false) (text : List Char) :
    trim (trimEnd (dropFinal last (trim text))) = trimEnd (dropFinal last (trim text)) := by
  rw [trim, trimStart_trimEnd, trimStart_dropFinal hlast, trim, trimStart_trimEnd,
    trimStart_trimStart, trimEnd_trimEnd]

/-- All that a text loses are blanks and one final character, which it then ended in. -/
theorem exists_pieces_of_dropFinal (last : Char) (text : List Char) :
    ∃ blanks blanks' final blanks'', (∀ c ∈ blanks, isBlank c = true) ∧
      (∀ c ∈ blanks', isBlank c = true) ∧ final ∈ [[], [last]] ∧
        (∀ c ∈ blanks'', isBlank c = true) ∧
          (final = [] → (trimEnd (dropFinal last (trim text))).getLast? ≠ some last) ∧
            text = blanks ++ trimEnd (dropFinal last (trim text)) ++ blanks' ++ final ++
              blanks'' := by
  obtain ⟨blanks, hblanks, hstart⟩ := exists_trimStart text
  obtain ⟨blanks'', hblanks'', hend⟩ := exists_trimEnd (trimStart text)
  obtain ⟨final, hfinal, hdrop, hlast⟩ := exists_append_dropFinal last (trim text)
  obtain ⟨blanks', hblanks', htrim⟩ := exists_trimEnd (dropFinal last (trim text))
  refine ⟨blanks, blanks', final, blanks'', hblanks, hblanks', hfinal, hblanks'', ?_, ?_⟩
  · rintro rfl
    rw [List.append_nil] at hdrop
    rw [hdrop, trimEnd_of_trim (trim_trim text)]
    exact hlast rfl
  · calc
      text = blanks ++ (trim text ++ blanks'') := by rw [trim, hend, hstart]
      _ = blanks ++ (trimEnd (dropFinal last (trim text)) ++ blanks' ++ final ++ blanks'') := by
        rw [htrim, hdrop]
      _ = _ := by simp only [List.append_assoc]

/-! ## A sign at the end -/

theorem allBlank_cons (c : Char) (text : List Char) :
    allBlank (c :: text) = (isBlank c && allBlank text) := rfl

/-- The text is blank up to its end but for at most one `sign`. -/
def closes (sign : Char) (text : List Char) : Bool :=
  allBlank ((dropLead? [sign] (trimStart text)).getD (trimStart text))

/-- A text without the blanks at its end, the sign in front of them, and the blanks in front
of that. -/
def withoutSign (sign : Char) (text : List Char) : List Char :=
  trimEnd (dropFinal sign (trimEnd text))

variable {sign : Char}

theorem closes_cons (c : Char) (text : List Char) :
    closes sign (c :: text) =
      if isBlank c then closes sign text else decide (sign = c) && allBlank text := by
  unfold closes
  cases hc : isBlank c with
  | true => simp [trimStart_cons_of_isBlank hc]
  | false =>
      rw [trimStart_cons_of_not_blank hc, dropLead?]
      by_cases hsign : sign = c
      · simp [hsign, dropLead?]
      · simp [hsign, allBlank_cons, hc]

theorem trimEnd_eq_nil_iff (text : List Char) : trimEnd text = [] ↔ allBlank text = true := by
  simp [trimEnd, allBlank]

theorem closes_of_allBlank {text : List Char} (hblank : allBlank text = true) :
    closes sign text = true := by
  have hnil : trimStart text = [] := by
    rw [trimStart, List.dropWhile_eq_nil_iff]
    simpa [allBlank] using hblank
  rw [closes, hnil]
  rfl

theorem withoutSign_cons_of_iff {c : Char} {text : List Char}
    (hiff : closes sign text = true ↔ withoutSign sign text = []) :
    withoutSign sign (c :: text) =
      if closes sign (c :: text) then [] else c :: withoutSign sign text := by
  rw [closes_cons]
  by_cases hblank : allBlank text = true
  · have hnil : withoutSign sign text = [] := hiff.mp (closes_of_allBlank hblank)
    rw [hnil, withoutSign, trimEnd_cons, (trimEnd_eq_nil_iff text).mpr hblank]
    cases hc : isBlank c with
    | true => simp [dropFinal, closes_of_allBlank hblank]; rfl
    | false => 
      by_cases hsign : c = sign
      · simp [dropFinal, hsign, hblank]; rfl
      · simp [dropFinal, hsign, Ne.symm hsign, trimEnd_cons, hc]; rfl
  · have hne : trimEnd text ≠ [] := fun hnil => hblank ((trimEnd_eq_nil_iff text).mp hnil)
    rw [withoutSign, trimEnd_cons, if_neg fun hnil => hne hnil.1, dropFinal_cons_of_ne_nil hne,
      trimEnd_cons, ← withoutSign]
    cases hc : isBlank c <;> simp [hiff, hblank]

/-- Nothing but blanks and a sign is left of a text if it loses all of its characters. -/
theorem closes_iff (text : List Char) : closes sign text = true ↔ withoutSign sign text = [] := by
  induction text with
  | nil => exact ⟨fun _ => rfl, fun _ => rfl⟩
  | cons c text ih =>
      rw [withoutSign_cons_of_iff ih]
      split <;> simp [*]

theorem withoutSign_cons (c : Char) (text : List Char) :
    withoutSign sign (c :: text) =
      if closes sign (c :: text) then [] else c :: withoutSign sign text :=
  withoutSign_cons_of_iff (closes_iff text)

theorem closes_eq_false_of_mem {c : Char} {text : List Char} (hc : c ∈ withoutSign sign text) :
    closes sign text = false := by
  rw [Bool.eq_false_iff, Ne, closes_iff]
  exact List.ne_nil_of_mem hc

theorem closes_trimStart (text : List Char) :
    closes sign (trimStart text) = closes sign text := by
  rw [closes, trimStart_trimStart, ← closes]

end Text

end Offside
