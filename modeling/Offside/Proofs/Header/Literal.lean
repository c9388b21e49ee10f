/-
# Headers do not depend on literals

Whether a line is a header, and which, is decided in front of the first quote. The
arguments may hold a literal; they are the same around it, and so is the header in target
syntax.
-/

import Offside.Header
import Offside.Proofs.Text.Differ

namespace Offside

variable {quote : Char} {literal literal' text text' : List Char}

theorem findSome?_congr {α β : Type} {f g : α → Option β} {items : List α}
    (hsame : ∀ item ∈ items, f item = g item) : items.findSome? f = items.findSome? g := by
  induction items with
  | nil => rfl
  | cons item items ih =>
      rw [List.forall_mem_cons] at hsame
      rw [List.findSome?_cons, List.findSome?_cons, hsame.1, ih hsame.2]

namespace Keyword

variable (hpair : LiteralPair quote literal literal')
include hpair

theorem cutFunction?_append_cons (front back : List Char) :
    cutFunction? (front ++ quote :: back) =
      (cutFunction? front).map fun cut => (cut.1, cut.2 ++ quote :: back) := by
  have hword : quote ∉ functionWord := hpair.notMem (by decide)
  have hstar : quote ≠ '*' := hpair.ne (by decide)
  rw [cutFunction?, Text.dropLead?_append_cons hword, Option.map_map, cutFunction?, Option.map_map]
  congr 1
  funext rest
  cases rest with
  | nil => simp [hstar]
  | cons c rest =>
      by_cases hc : c = '*'
      · subst hc
        rfl
      · simp [hc]

theorem cutAsyncFunction?_append_cons (front back : List Char) :
    cutAsyncFunction? (front ++ quote :: back) =
      (cutAsyncFunction? front).map fun cut => (cut.1, cut.2 ++ quote :: back) := by
  have hword : quote ∉ ['a', 's', 'y', 'n', 'c'] := hpair.notMem (by decide)
  rw [cutAsyncFunction?, Text.dropLead?_append_cons hword, cutAsyncFunction?]
  cases Text.dropLead? ['a', 's', 'y', 'n', 'c'] front with
  | none => rfl
  | some rest =>
      simp only [Option.map_some, Option.bind_eq_bind, Option.bind_some,
        takeWhile_append_cons hpair.isBlank, dropWhile_append_cons hpair.isBlank]
      split
      · rfl
      · rw [cutFunction?_append_cons hpair]
        cases cutFunction? (rest.dropWhile Text.isBlank) <;> rfl

/-- A keyword is found in front of a quote or not at all. -/
theorem cut?_append_cons (front back : List Char) :
    cut? (front ++ quote :: back) =
      (cut? front).map fun cut => (cut.1, cut.2.1, cut.2.2 ++ quote :: back) := by
  rw [cut?, cutAsyncFunction?_append_cons hpair, cutFunction?_append_cons hpair, cut?]
  cases cutAsyncFunction? front with
  | some cut => rfl
  | none =>
      cases cutFunction? front with
      | some cut => rfl
      | none =>
          have hspelling : ∀ spelling ∈ spellings, quote ∉ spelling.1 := by
            rcases hpair.isQuote with rfl | rfl <;> decide
          rw [List.map_findSome?]
          refine findSome?_congr fun spelling hmem => ?_
          simp [Text.dropLead?_append_cons (hspelling spelling hmem), Function.comp_def]

end Keyword

namespace Header

/-- Two headers with the same keyword, whose arguments differ in a literal. -/
structure DifferIn (literal literal' : List Char) (header header' : Header) : Prop where
  keyword : header'.keyword = header.keyword
  written : header'.written = header.written
  args : ∃ args args', header.args = some args ∧ header'.args = some args' ∧
    Differ literal literal' args args'

theorem args?_differ (hpair : LiteralPair quote literal literal')
    (hdiffer : Differ literal literal' text text') :
    Option.Rel (fun found found' => ∃ args args', found = some args ∧ found' = some args' ∧
      Differ literal literal' args args') (args? text) (args? text') := by
  have htrailing := hdiffer.trimEnd hpair
  have hcolon : quote ≠ ':' := hpair.ne (by decide)
  have hargs := (htrailing.dropFinal hpair hcolon).trim hpair
  obtain ⟨hempty, hempty'⟩ := hargs.isEmpty hpair
  obtain ⟨hnone, hnone'⟩ := htrailing.isEmpty hpair
  obtain ⟨hlone, hlone'⟩ := htrailing.ne_singleton hpair hcolon
  unfold args?
  simp only [hdiffer.head? hpair, hempty, hempty', hnone, hnone', hlone, hlone',
    hargs.contains_lineFeed hpair, decide_false, Bool.or_self, Bool.false_eq_true, if_false]
  split_ifs
  · exact .none
  · exact .some ⟨_, _, rfl, rfl, hargs⟩
  · exact .none

theorem ofContent?_differ (hpair : LiteralPair quote literal literal')
    (hdiffer : Differ literal literal' text text') :
    Option.Rel (DifferIn literal literal') (ofContent? text) (ofContent? text') := by
  obtain ⟨front, rest, rest', rfl, rfl, hleft⟩ := hdiffer.exists_quote hpair
  simp only [ofContent?, Keyword.cut?_append_cons hpair]
  cases Keyword.cut? front with
  | none => exact .none
  | some cut =>
      obtain ⟨keyword, written, left⟩ := cut
      have hargs := args?_differ hpair (hleft left)
      simp only [Option.map_some, Option.bind_eq_bind, Option.bind_some]
      generalize args? (left ++ quote :: rest) = found at hargs ⊢
      generalize args? (left ++ quote :: rest') = found' at hargs ⊢
      cases hargs with
      | none => exact .none
      | some hargs =>
          obtain ⟨args, args', rfl, rfl, hdiffer⟩ := hargs
          exact .some ⟨rfl, rfl, args, args', rfl, rfl, hdiffer⟩

theorem elseIf?_differ (hpair : LiteralPair quote literal literal')
    (hdiffer : Differ literal literal' text text') :
    Option.Rel (Differ literal literal') (elseIf? text) (elseIf? text') := by
  have hword : quote ∉ ['i', 'f'] := hpair.notMem (by decide)
  obtain ⟨front, rest, rest', rfl, rfl, hleft⟩ := hdiffer.exists_quote hpair
  simp only [elseIf?, Text.dropLead?_append_cons hword]
  cases Text.dropLead? ['i', 'f'] front with
  | none => exact .none
  | some left =>
      have hcondition := (hleft left).trimStart hpair
      obtain ⟨hempty, hempty'⟩ := hcondition.isEmpty hpair
      have hfeed := hcondition.contains_lineFeed hpair
      have hshorter : ∀ later : List Char,
          (Text.trimStart (left ++ quote :: later)).length < (left ++ quote :: later).length ↔
            (Text.trimStart left).length < left.length := by
        intro later
        rw [Text.trimStart_append_cons hpair.isBlank, List.length_append, List.length_append]
        omega
      simp only [Option.map_some, Option.bind_eq_bind, Option.bind_some, hempty, hempty', hfeed,
        hshorter]
      split_ifs
      · exact .some hcondition
      · exact .none

theorem DifferIn.render (hpair : LiteralPair quote literal literal') {header header' : Header}
    (hdiffer : header.DifferIn literal literal' header') :
    Differ literal literal' header.render header'.render := by
  obtain ⟨first, written, args⟩ := header
  obtain ⟨key, word, args'⟩ := header'
  obtain ⟨rfl, rfl, text, text', rfl, rfl, hargs⟩ := hdiffer
  have hplain := hargs.append (word ++ [' ']) []
  have hparenthesized := hargs.append (word ++ [' ', '(']) [')']
  cases key with
  | «else» =>
      have helseIf := elseIf?_differ hpair hargs
      simp only [Header.render]
      generalize elseIf? text = found at helseIf ⊢
      generalize elseIf? text' = found' at helseIf ⊢
      cases helseIf with
      | none => simpa [Header.render] using hplain
      | some hcondition =>
          simpa [parenthesized] using hcondition.append (word ++ [' ', 'i', 'f', ' ', '(']) [')']
  | function | «class» | «try» => simpa [Header.render, Keyword.style] using hplain
  | «if» | «switch» | «catch» | «finally» | «do» | «while» | «for» =>
      simpa [Header.render, Keyword.style, parenthesized] using hparenthesized

end Header

end Offside
