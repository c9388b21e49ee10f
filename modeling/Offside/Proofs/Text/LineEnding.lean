/-
# Lines with carriage returns

A source may end a line in a line feed, or in a carriage return and a line feed.
`AddsReturns` compares two sources that differ in nothing else. The rest of this module
compares a line of one with the line of the other, after scrubbing.

There a carriage return is left at two places only: at the end of a line, and inside a string
literal, where the line feed behind it has become an escape. The first is a blank at an edge,
where blanks do not count. The second stands behind a quote, in the middle of a line, and in
front of a backslash, so that no word, no blank and no operator of the line touches it on the
side that matters.

`WithReturns` is the relation of two such texts. It carries one bit from left to right,
whether a quote or a `#` has been read, and only behind one may a carriage return stand in the
middle. Trimming a text, dropping its last character or a word in front keeps the relation.
-/

import Offside.Proofs.Text.Edges
import Offside.Token

namespace Offside

/-! ## Answers that agree

Two readers answer alike when both find nothing, or both find something and the two are
related. What is read next, and from what was found, is then read alike too.
-/

section Rel

variable {α α' β β' : Type} {R : α → α' → Prop} {S : β → β' → Prop}

theorem bind_rel {found : Option α} {found' : Option α'} {next : α → Option β}
    {next' : α' → Option β'} (hfound : Option.Rel R found found')
    (hnext : ∀ value ∈ found, ∀ value' ∈ found', R value value' →
      Option.Rel S (next value) (next' value')) :
    Option.Rel S (found.bind next) (found'.bind next') := by
  cases hfound with
  | none => exact .none
  | some hvalues => exact hnext _ rfl _ rfl hvalues

theorem map_rel {found : Option α} {found' : Option α'} {f : α → β} {f' : α' → β'}
    (hfound : Option.Rel R found found') (hvalues : ∀ value value', R value value' →
      S (f value) (f' value')) : Option.Rel S (found.map f) (found'.map f') := by
  cases hfound with
  | none => exact .none
  | some hfound => exact .some (hvalues _ _ hfound)

theorem or_rel {first second : Option α} {first' second' : Option α'}
    (hfirst : Option.Rel R first first') (hsecond : Option.Rel R second second') :
    Option.Rel R (first.or second) (first'.or second') := by
  cases hfirst with
  | some hvalues => exact .some hvalues
  | none => exact hsecond

theorem filter_rel {found : Option α} {found' : Option α'} {p : α → Bool} {p' : α' → Bool}
    (hfound : Option.Rel R found found') (hsame : ∀ value value', R value value' →
      p' value' = p value) : Option.Rel R (found.filter p) (found'.filter p') := by
  cases hfound with
  | none => exact .none
  | some hvalues =>
      rw [Option.filter_some, Option.filter_some, hsame _ _ hvalues]
      split
      · exact .some hvalues
      · exact .none

theorem findSome?_rel {ι : Type} {f : ι → Option α} {f' : ι → Option α'} {items : List ι}
    (hitems : ∀ item ∈ items, Option.Rel R (f item) (f' item)) :
    Option.Rel R (items.findSome? f) (items.findSome? f') := by
  induction items with
  | nil => exact .none
  | cons item items ih =>
      rw [List.forall_mem_cons] at hitems
      have hcons : ∀ {γ : Type} (g : ι → Option γ),
          (item :: items).findSome? g = (g item).or (items.findSome? g) := by
        intro γ g
        rw [List.findSome?_cons]
        cases g item <;> rfl
      rw [hcons, hcons]
      exact or_rel hitems.1 (ih hitems.2)

end Rel

namespace Text

/-- The text with a carriage return in front of every line feed. -/
def addReturns (text : List Char) : List Char :=
  text.flatMap fun c => if c = '\n' then ['\r', '\n'] else [c]

/-- The text without its carriage returns. -/
def dropReturns (text : List Char) : List Char := text.filter (· ≠ '\r')

@[simp]
theorem dropReturns_append (first second : List Char) :
    dropReturns (first ++ second) = dropReturns first ++ dropReturns second :=
  List.filter_append first second

theorem dropReturns_cons_of_ne {c : Char} (hc : c ≠ '\r') (text : List Char) :
    dropReturns (c :: text) = c :: dropReturns text :=
  List.filter_cons_of_pos (by simpa using hc)

theorem dropReturns_of_notMem {text : List Char} (htext : '\r' ∉ text) :
    dropReturns text = text :=
  List.filter_eq_self.mpr fun c hc => by
    have hne : c ≠ '\r' := fun heq => htext (heq ▸ hc)
    simpa using hne

/-! ## Both line endings in one source -/

/-- The second text is the first with carriage returns in front of some of its line feeds. -/
inductive AddsReturns : List Char → List Char → Prop
  /-- Both texts end. -/
  | nil : AddsReturns [] []
  /-- Both go on with the same character. -/
  | keep {c : Char} {text text' : List Char} (hreturn : c ≠ '\r')
      (hrest : AddsReturns text text') : AddsReturns (c :: text) (c :: text')
  /-- The line ends in a line feed, and in a carriage return and a line feed. -/
  | lineEnd {text text' : List Char} (hrest : AddsReturns text text') :
      AddsReturns ('\n' :: text) ('\r' :: '\n' :: text')

theorem addsReturns_addReturns {text : List Char} (hreturn : '\r' ∉ text) :
    AddsReturns text (addReturns text) := by
  induction text with
  | nil => exact .nil
  | cons c text ih =>
      rw [List.mem_cons, not_or] at hreturn
      by_cases hfeed : c = '\n'
      · subst hfeed
        exact .lineEnd (ih hreturn.2)
      · simpa [addReturns, hfeed] using AddsReturns.keep (Ne.symm hreturn.1) (ih hreturn.2)

namespace AddsReturns

variable {text text' : List Char}

theorem dropReturns_eq (hadds : AddsReturns text text') : dropReturns text' = text := by
  induction hadds with
  | nil => rfl
  | keep hreturn _ ih => rw [dropReturns_cons_of_ne hreturn, ih]
  | @lineEnd _ text' _ ih =>
      calc
        dropReturns ('\r' :: '\n' :: text') = '\n' :: dropReturns text' := by simp [dropReturns]
        _ = _ := by rw [ih]

theorem mem_or (hadds : AddsReturns text text') {c : Char} (hc : c ∈ text') :
    c ∈ text ∨ c = '\r' := by
  by_cases hreturn : c = '\r'
  · exact .inr hreturn
  · rw [← hadds.dropReturns_eq, dropReturns, List.mem_filter]
    exact .inl ⟨hc, by simpa using hreturn⟩

theorem eq_of_notMem (hadds : AddsReturns text text') (hfeed : '\n' ∉ text) : text' = text := by
  induction hadds with
  | nil => rfl
  | keep _ _ ih =>
      rw [List.mem_cons, not_or] at hfeed
      rw [ih hfeed.2]
  | lineEnd => exact absurd List.mem_cons_self hfeed

theorem append {back back' : List Char} (hadds : AddsReturns text text')
    (hback : AddsReturns back back') : AddsReturns (text ++ back) (text' ++ back') := by
  induction hadds with
  | nil => exact hback
  | keep hreturn _ ih => exact .keep hreturn ih
  | lineEnd _ ih => exact .lineEnd ih

/-- Every part of a text gets carriage returns of its own. -/
theorem exists_append {front back : List Char} (hadds : AddsReturns (front ++ back) text') :
    ∃ front' back', text' = front' ++ back' ∧ AddsReturns front front' ∧
      AddsReturns back back' := by
  induction front generalizing text' with
  | nil => exact ⟨[], text', rfl, .nil, hadds⟩
  | cons c front ih =>
      cases hadds with
      | keep hreturn hrest =>
          obtain ⟨front', back', rfl, hfront, hback⟩ := ih hrest
          exact ⟨c :: front', back', rfl, .keep hreturn hfront, hback⟩
      | lineEnd hrest =>
          obtain ⟨front', back', rfl, hfront, hback⟩ := ih hrest
          exact ⟨'\r' :: '\n' :: front', back', rfl, .lineEnd hfront, hback⟩

end AddsReturns

/-! ## Characters of a class -/

theorem ne_of_class {p : Char → Bool} {c d : Char} (hc : p c = true) (hd : p d = false) :
    c ≠ d := by
  rintro rfl
  rw [hd] at hc
  cases hc

/-- Characters of a class without quotes and `#` are plain. -/
theorem isPlain_of_class {p : Char → Bool} {c : Char} (hc : p c = true) (hdouble : p '"' = false)
    (hsingle : p '\'' = false) (hsign : p '#' = false) : Token.isPlain c = true := by
  simp [Token.isPlain, ne_of_class hc hdouble, ne_of_class hc hsingle, ne_of_class hc hsign]

theorem isPlain_of_isBlank {c : Char} (hc : isBlank c = true) : Token.isPlain c = true :=
  isPlain_of_class hc rfl rfl rfl

end Text

/-- The second text is the first with carriage returns added: at its end, if `ends` allows
that, and in front of escaped line feeds, once a quote or a `#` has been read, which `behind`
says has happened. -/
inductive WithReturns (ends : Bool) : Bool → List Char → List Char → Prop
  /-- Both texts end. -/
  | nil {behind : Bool} : WithReturns ends behind [] []
  /-- The second text ends in a carriage return. -/
  | last {behind : Bool} (hends : ends = true) : WithReturns ends behind [] ['\r']
  /-- Both go on with the same character. -/
  | keep {behind : Bool} {c : Char} {text text' : List Char} (hreturn : c ≠ '\r')
      (hfeed : c ≠ '\n') (hrest : WithReturns ends (behind || !Token.isPlain c) text text') :
      WithReturns ends behind (c :: text) (c :: text')
  /-- The second text has a carriage return in front of an escaped line feed. -/
  | feed {behind : Bool} {text text' : List Char} (hbehind : behind = true)
      (hrest : WithReturns ends behind text text') :
      WithReturns ends behind ('\\' :: 'n' :: text) ('\r' :: '\\' :: 'n' :: text')

namespace WithReturns

variable {ends behind : Bool} {text text' : List Char}

theorem mono_behind (htexts : WithReturns ends behind text text') :
    WithReturns ends true text text' := by
  induction htexts with
  | nil => exact .nil
  | last hends => exact .last hends
  | keep hreturn hfeed _ ih => exact .keep hreturn hfeed ih
  | feed _ _ ih => exact .feed rfl ih

/-- Without its carriage returns the second text is the first. -/
theorem dropReturns_eq (htexts : WithReturns ends behind text text') :
    Text.dropReturns text' = text := by
  induction htexts with
  | nil => rfl
  | last => rfl
  | keep hreturn _ _ ih => rw [Text.dropReturns_cons_of_ne hreturn, ih]
  | @feed _ text text' _ _ ih =>
      calc
        Text.dropReturns ('\r' :: '\\' :: 'n' :: text') =
            '\\' :: 'n' :: Text.dropReturns text' := by simp [Text.dropReturns]
        _ = '\\' :: 'n' :: text := by rw [ih]

/-- The first text has no carriage return, and neither has a line feed. -/
theorem notMem (htexts : WithReturns ends behind text text') :
    '\r' ∉ text ∧ '\n' ∉ text ∧ '\n' ∉ text' := by
  induction htexts with
  | nil => simp
  | last => simp
  | keep hreturn hfeed _ ih => simp [ih, hreturn.symm, hfeed.symm]
  | feed _ _ ih => simp [ih]

theorem contains_lineFeed (htexts : WithReturns ends behind text text') :
    text.contains '\n' = false ∧ text'.contains '\n' = false := by
  simpa using htexts.notMem.2

/-- The texts begin alike, as far as anything but a backslash is concerned. -/
theorem head?_eq_some_iff (htexts : WithReturns ends behind text text') {d : Char} (hd : d ≠ '\\')
    (hd' : d ≠ '\r') : text'.head? = some d ↔ text.head? = some d := by
  cases htexts with
  | nil => rfl
  | last => simp [hd'.symm]
  | keep => rfl
  | feed => simp [hd.symm, hd'.symm]

/-- In front of the first quote, the texts begin alike unless only the carriage return at the
end is left. -/
theorem head?_eq (htexts : WithReturns ends false text text') :
    text'.head? = text.head? ∨ ends = true ∧ text = [] ∧ text' = ['\r'] := by
  cases htexts with
  | nil => exact .inl rfl
  | last hends => exact .inr ⟨hends, rfl, rfl⟩
  | keep => exact .inl rfl
  | feed hbehind => cases hbehind

theorem eq_nil_iff (htexts : WithReturns false behind text text') : text' = [] ↔ text = [] := by
  cases htexts with
  | nil => rfl
  | last hends => cases hends
  | keep => simp
  | feed => simp

theorem isEmpty_eq (htexts : WithReturns false behind text text') :
    text'.isEmpty = text.isEmpty := by
  rw [Bool.eq_iff_iff, List.isEmpty_iff, List.isEmpty_iff, htexts.eq_nil_iff]

theorem eq_singleton_iff (htexts : WithReturns false behind text text') {c : Char}
    (hc : c ≠ '\r') : text' = [c] ↔ text = [c] := by
  cases htexts with
  | nil => rfl
  | last hends => cases hends
  | keep _ _ hrest => simp [hrest.eq_nil_iff]
  | feed => simp [hc.symm]

/-- Where no carriage return ends the text, there is one only in front of a backslash. -/
theorem eq_or_mem (htexts : WithReturns false behind text text') :
    text' = text ∨ '\\' ∈ text ∧ '\\' ∈ text' := by
  induction htexts with
  | nil => exact .inl rfl
  | last hends => cases hends
  | keep _ _ _ ih =>
      rcases ih with rfl | ⟨hmem, hmem'⟩
      · exact .inl rfl
      · exact .inr ⟨List.mem_cons_of_mem _ hmem, List.mem_cons_of_mem _ hmem'⟩
  | feed => simp

theorem append {back back' : List Char} (htexts : WithReturns false true text text')
    (hback : WithReturns ends true back back') :
    WithReturns ends true (text ++ back) (text' ++ back') := by
  generalize htrue : true = behind at htexts
  induction htexts with
  | nil =>
      subst htrue
      exact hback
  | last hends => cases hends
  | keep hreturn hfeed _ ih =>
      subst htrue
      exact .keep hreturn hfeed (ih rfl)
  | feed _ _ ih =>
      subst htrue
      exact .feed rfl (ih rfl)

/-! ## Edges -/

theorem trimStart (htexts : WithReturns ends behind text text') :
    WithReturns ends behind (Text.trimStart text) (Text.trimStart text') := by
  induction htexts with
  | nil => exact .nil
  | last => exact .nil
  | @keep behind c text text' hreturn hfeed hrest ih =>
      cases hblank : Text.isBlank c with
      | true =>
          rw [Text.isPlain_of_isBlank hblank] at ih
          simpa [Text.trimStart, hblank] using ih
      | false => simpa [Text.trimStart, hblank] using WithReturns.keep hreturn hfeed hrest
  | @feed behind text text' hbehind hrest _ =>
      subst hbehind
      exact .keep (by decide) (by decide) (.keep (by decide) (by decide) hrest)

theorem trimEnd (htexts : WithReturns ends behind text text') :
    WithReturns false behind (Text.trimEnd text) (Text.trimEnd text') := by
  induction htexts with
  | nil => exact .nil
  | last => exact .nil
  | keep hreturn hfeed _ ih =>
      simp only [Text.trimEnd_cons, ih.eq_nil_iff]
      split
      · exact .nil
      · exact .keep hreturn hfeed ih
  | feed hbehind _ ih =>
      have hescape : ∀ rest,
          Text.trimEnd ('\\' :: 'n' :: rest) = '\\' :: 'n' :: Text.trimEnd rest := fun rest => by
        rw [Text.trimEnd_cons_of_not_blank rfl, Text.trimEnd_cons_of_not_blank rfl]
      rw [Text.trimEnd_cons '\r', hescape, hescape, if_neg (by simp)]
      exact .feed hbehind ih

theorem trim (htexts : WithReturns ends behind text text') :
    WithReturns false behind (Text.trim text) (Text.trim text') := htexts.trimStart.trimEnd

/-- Where no carriage return ends the text, the last characters are the same. -/
theorem dropFinal (htexts : WithReturns false behind text text') {last : Char} (hn : 'n' ≠ last)
    (hbackslash : '\\' ≠ last) (hreturn : '\r' ≠ last) :
    WithReturns false behind (Text.dropFinal last text) (Text.dropFinal last text') := by
  induction htexts with
  | nil => exact .nil
  | last hends => cases hends
  | @keep behind c text text' hc hfeed hrest ih =>
      by_cases hlast : c = last ∧ text = []
      · obtain ⟨rfl, rfl⟩ := hlast
        obtain rfl := hrest.eq_nil_iff.mpr rfl
        simpa [Text.dropFinal] using WithReturns.nil
      · have hcons : ∀ rest, (rest = [] ↔ text = []) →
            Text.dropFinal last (c :: rest) = c :: Text.dropFinal last rest := by
          intro rest hrest
          by_cases hne : c = last
          · exact Text.dropFinal_cons_of_ne_nil fun hnil => hlast ⟨hne, hrest.mp hnil⟩
          · exact Text.dropFinal_cons_of_ne hne rest
        rw [hcons text Iff.rfl, hcons text' hrest.eq_nil_iff]
        exact .keep hc hfeed ih
  | feed hbehind _ ih =>
      rw [Text.dropFinal_cons_of_ne hbackslash, Text.dropFinal_cons_of_ne hn,
        Text.dropFinal_cons_of_ne hreturn, Text.dropFinal_cons_of_ne hbackslash,
        Text.dropFinal_cons_of_ne hn]
      exact .feed hbehind ih

/-- A word of letters stands in front of both texts or of neither. -/
theorem dropLead? (htexts : WithReturns ends behind text text') {word : List Char}
    (hletters : word.all Char.isAlpha = true) :
    Option.Rel (WithReturns ends behind) (Text.dropLead? word text)
      (Text.dropLead? word text') := by
  induction word generalizing text text' with
  | nil => exact .some htexts
  | cons e word ih =>
      rw [List.all_cons, Bool.and_eq_true] at hletters
      obtain ⟨hletter, hletters⟩ := hletters
      have hplain : Token.isPlain e = true := Text.isPlain_of_class hletter rfl rfl rfl
      have hreturn : e ≠ '\r' := Text.ne_of_class hletter rfl
      have hbackslash : e ≠ '\\' := Text.ne_of_class hletter rfl
      cases htexts with
      | nil => exact .none
      | last =>
          rw [Text.dropLead?, Text.dropLead?, if_neg hreturn]
          exact .none
      | keep _ _ hrest =>
          simp only [Text.dropLead?]
          split
          · rename_i heq
            rw [← heq, hplain, Bool.not_true, Bool.or_false] at hrest
            exact ih hrest hletters
          · exact .none
      | feed _ _ =>
          rw [Text.dropLead?, Text.dropLead?, if_neg hreturn, if_neg hbackslash]
          exact .none

/-- In front of the first quote, the blanks at the front are the same, unless there is nothing
behind them. -/
theorem takeWhile_isBlank (htexts : WithReturns ends behind text text') (hbehind : behind = false)
    (hne : Text.trimStart text ≠ []) :
    text'.takeWhile Text.isBlank = text.takeWhile Text.isBlank := by
  induction htexts with
  | nil => rfl
  | last => exact absurd rfl hne
  | @keep behind c text text' _ _ _ ih =>
      cases hblank : Text.isBlank c with
      | true =>
          rw [Text.trimStart, List.dropWhile_cons_of_pos hblank] at hne
          rw [Text.isPlain_of_isBlank hblank] at ih
          rw [List.takeWhile_cons_of_pos hblank, List.takeWhile_cons_of_pos hblank,
            ih (by simpa using hbehind) hne]
      | false => simp [hblank]
  | feed htrue => rw [hbehind] at htrue; cases htrue

end WithReturns

end Offside
