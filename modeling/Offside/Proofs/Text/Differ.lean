/-
# Texts that differ in a literal

Two texts differ in a literal when they are the same around it. What trims, drops or cuts
something at an edge of a text keeps them that way, because it stops at a quote at the
latest: no blank and no word has one. So what happens in front of a literal, or behind
it, happens whatever the literal holds.
-/

import Mathlib.Data.List.Basic
import Offside.Text.Blank

namespace Offside

/-! ## Reading up to a quote -/

section Stop

variable {stop : Char}

theorem Text.dropLead?_append_cons {expected : List Char} (hstop : stop ∉ expected)
    (front back : List Char) :
    dropLead? expected (front ++ stop :: back) =
      (dropLead? expected front).map (· ++ stop :: back) := by
  fun_induction dropLead? expected front with
  | case1 front => rfl
  | case2 e expected =>
      have hne : e ≠ stop := fun heq => hstop (heq ▸ List.mem_cons_self)
      simp [dropLead?, hne]
  | case3 expected c front ih =>
      rw [List.cons_append, dropLead?, if_pos rfl]
      exact ih fun hmem => hstop (List.mem_cons_of_mem _ hmem)
  | case4 e expected c front hne => simp [dropLead?, hne]

theorem takeWhile_append_cons {p : Char → Bool} (hstop : p stop = false) (front back : List Char) :
    (front ++ stop :: back).takeWhile p = front.takeWhile p := by
  induction front with
  | nil => simp [hstop]
  | cons c front ih => rw [List.cons_append, List.takeWhile_cons, ih, List.takeWhile_cons]

theorem dropWhile_append_cons {p : Char → Bool} (hstop : p stop = false) (front back : List Char) :
    (front ++ stop :: back).dropWhile p = front.dropWhile p ++ stop :: back := by
  induction front with
  | nil => simp [hstop]
  | cons c front ih =>
      rw [List.cons_append, List.dropWhile_cons, ih, List.dropWhile_cons]
      split <;> rfl

/-- The part of a text in front of a character is found if that is not in it. -/
theorem takeWhile_ne_append_cons {front : List Char} (hfront : stop ∉ front) (back : List Char) :
    (front ++ stop :: back).takeWhile (· ≠ stop) = front := by
  have hall : ∀ c ∈ front, decide (c ≠ stop) = true := fun c hc =>
    decide_eq_true fun heq => hfront (heq ▸ hc)
  rw [List.takeWhile_append_of_pos hall, List.takeWhile_cons_of_neg (by simp), List.append_nil]

theorem dropWhile_ne_append_cons {front : List Char} (hfront : stop ∉ front) (back : List Char) :
    (front ++ stop :: back).dropWhile (· ≠ stop) = stop :: back := by
  have hall : ∀ c ∈ front, decide (c ≠ stop) = true := fun c hc =>
    decide_eq_true fun heq => hfront (heq ▸ hc)
  rw [List.dropWhile_append_of_pos hall, List.dropWhile_cons_of_neg (by simp)]

/-- What stands behind the characters up to a stop begins with that stop. -/
theorem eq_of_dropWhile_ne {text rest : List Char} {c : Char}
    (hdrop : text.dropWhile (· ≠ stop) = c :: rest) :
    c = stop ∧ text.takeWhile (· ≠ stop) ++ stop :: rest = text := by
  have hstop : c = stop := by
    have hhead := List.head?_dropWhile_not (· ≠ stop) text
    rw [hdrop] at hhead
    simpa using hhead
  refine ⟨hstop, ?_⟩
  rw [← hstop, ← hdrop, hstop, List.takeWhile_append_dropWhile]

theorem Text.startsBlank_append_cons (hstop : isBlank stop = false) (front back : List Char) :
    ((front ++ stop :: back).head?.map isBlank).getD false =
      (front.head?.map isBlank).getD false := by
  cases front with
  | nil => exact hstop
  | cons c front => rfl

theorem Text.trimStart_append_cons (hstop : isBlank stop = false) (front back : List Char) :
    trimStart (front ++ stop :: back) = trimStart front ++ stop :: back :=
  dropWhile_append_cons hstop front back

theorem Text.trimEnd_append_cons (hstop : isBlank stop = false) (front back : List Char) :
    trimEnd (front ++ stop :: back) = front ++ stop :: trimEnd back := by
  rw [trimEnd, List.reverse_append, List.reverse_cons, List.append_assoc, List.singleton_append,
    dropWhile_append_cons hstop, trimEnd]
  simp

theorem Text.dropFinal_append_cons {last : Char} (hstop : stop ≠ last) (front back : List Char) :
    dropFinal last (front ++ stop :: back) = front ++ stop :: dropFinal last back := by
  cases back with
  | nil => simp [dropFinal, hstop]
  | cons c back =>
      unfold dropFinal
      rw [List.getLast?_append, List.getLast?_cons_cons, List.getLast?_cons, Option.some_or]
      split
      · rw [List.dropLast_append_of_ne_nil (List.cons_ne_nil _ _), List.dropLast_cons_cons]
      · rfl

end Stop

/-- Split one text after the other: the last piece of the first and the first piece of the
second become one. -/
theorem splitOnP_append {α : Type} {p : α → Bool} {first second last head : List α}
    {pieces later : List (List α)} (hfirst : first.splitOnP p = pieces ++ [last])
    (hsecond : second.splitOnP p = head :: later) :
    (first ++ second).splitOnP p = pieces ++ (last ++ head) :: later := by
  induction first generalizing pieces last with
  | nil =>
      have hnil : pieces ++ [last] = [] ++ [[]] := hfirst.symm.trans List.splitOnP_nil
      obtain ⟨rfl, rfl⟩ := List.append_singleton_inj.mp hnil
      exact hsecond
  | cons c first ih =>
      obtain ⟨inner, final, hinner⟩ :=
        (List.eq_nil_or_concat' (first.splitOnP p)).resolve_left (List.splitOnP_ne_nil p first)
      have hrest := ih hinner
      rw [List.splitOnP_cons_eq_if_modifyHead, hinner] at hfirst
      rw [List.cons_append, List.splitOnP_cons_eq_if_modifyHead, hrest]
      split_ifs at hfirst ⊢
      · have hpieces : pieces ++ [last] = ([] :: inner) ++ [final] := hfirst.symm
        obtain ⟨rfl, rfl⟩ := List.append_singleton_inj.mp hpieces
        rfl
      · cases inner with
        | nil =>
            have hpieces : pieces ++ [last] = [] ++ [c :: final] := hfirst.symm
            obtain ⟨rfl, rfl⟩ := List.append_singleton_inj.mp hpieces
            rfl
        | cons piece inner =>
            have hpieces : pieces ++ [last] = ((c :: piece) :: inner) ++ [final] := hfirst.symm
            obtain ⟨rfl, rfl⟩ := List.append_singleton_inj.mp hpieces
            rfl

/-! ## Texts that differ in a literal -/

/-- A literal between quotes, on one line. -/
structure IsLiteral (quote : Char) (literal : List Char) : Prop where
  exists_body : ∃ body, literal = quote :: body ++ [quote]
  lineFeed : '\n' ∉ literal

/-- Two literals between the same quotes. -/
structure LiteralPair (quote : Char) (literal literal' : List Char) : Prop where
  isQuote : quote = '"' ∨ quote = '\''
  first : IsLiteral quote literal
  second : IsLiteral quote literal'

/-- The texts are the same, but for the literal that stands at one place. -/
def Differ (literal literal' text text' : List Char) : Prop :=
  ∃ front back, text = front ++ literal ++ back ∧ text' = front ++ literal' ++ back

/-- The texts are the same, or they are but for the literal. -/
def SameAround (literal literal' text text' : List Char) : Prop :=
  text' = text ∨ Differ literal literal' text text'

variable {quote : Char} {literal literal' text text' : List Char}

theorem LiteralPair.isBlank (hpair : LiteralPair quote literal literal') :
    Text.isBlank quote = false := by
  rcases hpair.isQuote with rfl | rfl <;> rfl

theorem LiteralPair.ne (hpair : LiteralPair quote literal literal') {c : Char}
    (hc : '"' ≠ c ∧ '\'' ≠ c) : quote ≠ c := by
  rcases hpair.isQuote with rfl | rfl
  · exact hc.1
  · exact hc.2

theorem LiteralPair.notMem (hpair : LiteralPair quote literal literal') {word : List Char}
    (hword : '"' ∉ word ∧ '\'' ∉ word) : quote ∉ word := by
  rcases hpair.isQuote with rfl | rfl
  · exact hword.1
  · exact hword.2

/-- A literal in a text, seen from the left. -/
theorem IsLiteral.append_left (hliteral : IsLiteral quote literal) (front back : List Char) :
    ∃ rest, front ++ literal ++ back = front ++ quote :: rest ∧
      literal ++ back = quote :: rest := by
  obtain ⟨body, rfl⟩ := hliteral.exists_body
  exact ⟨body ++ quote :: back, by simp, by simp⟩

/-- A literal in a text, seen from the right. -/
theorem IsLiteral.append_right (hliteral : IsLiteral quote literal) (front back : List Char) :
    ∃ rest, front ++ literal ++ back = rest ++ quote :: back ∧
      front ++ literal = rest ++ [quote] := by
  obtain ⟨body, rfl⟩ := hliteral.exists_body
  exact ⟨front ++ quote :: body, by simp, by simp⟩

theorem SameAround.symm (hsame : SameAround literal literal' text text') :
    SameAround literal' literal text' text := by
  rcases hsame with rfl | ⟨front, back, htext, htext'⟩
  · exact .inl rfl
  · exact .inr ⟨front, back, htext', htext⟩

namespace Differ

theorem append (hdiffer : Differ literal literal' text text') (before after : List Char) :
    Differ literal literal' (before ++ text ++ after) (before ++ text' ++ after) := by
  obtain ⟨front, back, rfl, rfl⟩ := hdiffer
  exact ⟨before ++ front, back ++ after, by simp, by simp⟩

/-- In a text with a literal, a quote stands behind the same front. -/
theorem exists_quote (hpair : LiteralPair quote literal literal')
    (hdiffer : Differ literal literal' text text') :
    ∃ front rest rest', text = front ++ quote :: rest ∧ text' = front ++ quote :: rest' ∧
      ∀ left, Differ literal literal' (left ++ quote :: rest) (left ++ quote :: rest') := by
  obtain ⟨front, back, rfl, rfl⟩ := hdiffer
  obtain ⟨rest, htext, hrest⟩ := hpair.first.append_left front back
  obtain ⟨rest', htext', hrest'⟩ := hpair.second.append_left front back
  refine ⟨front, rest, rest', htext, htext', fun left => ⟨left, back, ?_, ?_⟩⟩
  · rw [← hrest, List.append_assoc]
  · rw [← hrest', List.append_assoc]

/-- What drops something in front of a quote keeps the literal. -/
theorem dropFront (hpair : LiteralPair quote literal literal') {drop : List Char → List Char}
    (hdrop : ∀ front back, drop (front ++ quote :: back) = drop front ++ quote :: back)
    (hdiffer : Differ literal literal' text text') :
    Differ literal literal' (drop text) (drop text') := by
  obtain ⟨front, rest, rest', rfl, rfl, hleft⟩ := hdiffer.exists_quote hpair
  rw [hdrop, hdrop]
  exact hleft (drop front)

/-- What drops something behind a quote keeps the literal. -/
theorem dropBack (hpair : LiteralPair quote literal literal') {drop : List Char → List Char}
    (hdrop : ∀ front back, drop (front ++ quote :: back) = front ++ quote :: drop back)
    (hdiffer : Differ literal literal' text text') :
    Differ literal literal' (drop text) (drop text') := by
  obtain ⟨front, back, rfl, rfl⟩ := hdiffer
  obtain ⟨rest, htext, hrest⟩ := hpair.first.append_right front back
  obtain ⟨rest', htext', hrest'⟩ := hpair.second.append_right front back
  refine ⟨front, drop back, ?_, ?_⟩
  · rw [htext, hdrop, hrest, List.append_assoc, List.singleton_append]
  · rw [htext', hdrop, hrest', List.append_assoc, List.singleton_append]

theorem trimStart (hpair : LiteralPair quote literal literal')
    (hdiffer : Differ literal literal' text text') :
    Differ literal literal' (Text.trimStart text) (Text.trimStart text') :=
  hdiffer.dropFront hpair (Text.trimStart_append_cons hpair.isBlank)

theorem trimEnd (hpair : LiteralPair quote literal literal')
    (hdiffer : Differ literal literal' text text') :
    Differ literal literal' (Text.trimEnd text) (Text.trimEnd text') :=
  hdiffer.dropBack hpair (Text.trimEnd_append_cons hpair.isBlank)

theorem trim (hpair : LiteralPair quote literal literal')
    (hdiffer : Differ literal literal' text text') :
    Differ literal literal' (Text.trim text) (Text.trim text') :=
  (hdiffer.trimStart hpair).trimEnd hpair

theorem dropFinal (hpair : LiteralPair quote literal literal') {last : Char}
    (hlast : quote ≠ last) (hdiffer : Differ literal literal' text text') :
    Differ literal literal' (Text.dropFinal last text) (Text.dropFinal last text') :=
  hdiffer.dropBack hpair (Text.dropFinal_append_cons hlast)

theorem isEmpty (hpair : LiteralPair quote literal literal')
    (hdiffer : Differ literal literal' text text') :
    text.isEmpty = false ∧ text'.isEmpty = false := by
  obtain ⟨front, rest, rest', rfl, rfl, -⟩ := hdiffer.exists_quote hpair
  simp

theorem ne_singleton (hpair : LiteralPair quote literal literal') {c : Char} (hc : quote ≠ c)
    (hdiffer : Differ literal literal' text text') : text ≠ [c] ∧ text' ≠ [c] := by
  obtain ⟨front, rest, rest', rfl, rfl, -⟩ := hdiffer.exists_quote hpair
  have hlone : ∀ later : List Char, front ++ quote :: later ≠ [c] := fun later heq =>
    hc (List.mem_singleton.mp (heq ▸ List.mem_append_right _ List.mem_cons_self))
  exact ⟨hlone rest, hlone rest'⟩

theorem head? (hpair : LiteralPair quote literal literal')
    (hdiffer : Differ literal literal' text text') : text'.head? = text.head? := by
  obtain ⟨front, rest, rest', rfl, rfl, -⟩ := hdiffer.exists_quote hpair
  cases front <;> rfl

theorem contains_lineFeed (hpair : LiteralPair quote literal literal')
    (hdiffer : Differ literal literal' text text') : text'.contains '\n' = text.contains '\n' := by
  obtain ⟨front, back, rfl, rfl⟩ := hdiffer
  have hfirst := hpair.first.lineFeed
  have hsecond := hpair.second.lineFeed
  rw [Bool.eq_iff_iff]
  simp [hfirst, hsecond]

end Differ

end Offside
