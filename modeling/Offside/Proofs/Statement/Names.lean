/-
# Where the names of an import end

The names of an import and the word `from` behind them are words that single blanks separate.
The first word is part of the names whatever it is. The names end at the first later word that
begins with `from` and goes on with no word character, and nothing asks whether that word is
itself a name, as `from` and `from$` are.
-/

import Offside.Proofs.Statement.Import
import Offside.Proofs.Text.Edges

namespace Offside

namespace Import

/-- The word `from`. -/
def fromWord : List Char := ['f', 'r', 'o', 'm']

/-- A word behind which the names of an import may end: it begins with `from`, and no word
character follows. -/
def readsAsFrom (word : List Char) : Bool :=
  (Text.dropLead? fromWord word).any Text.startsOffWord

/-- Words, each with a blank in front. -/
def spaced (words : List (List Char)) : List Char := words.flatMap (' ' :: ·)

/-- A word has characters, and none of them is blank. -/
structure IsWord (word : List Char) : Prop where
  ne_nil : word ≠ []
  isBlank : ∀ c ∈ word, Text.isBlank c = false

variable {word text rest : List Char}

theorem IsWord.isBlank_head? (hword : IsWord word) (rest : List Char) :
    ∀ c ∈ (word ++ rest).head?, Text.isBlank c = false :=
  forall_head?_append hword.ne_nil hword.isBlank rest

theorem isWord_fromWord : IsWord fromWord where
  ne_nil := List.cons_ne_nil _ _
  isBlank c hc := by
    simp only [fromWord, List.mem_cons, List.not_mem_nil, or_false] at hc
    rcases hc with rfl | rfl | rfl | rfl <;> rfl

theorem IsWord.trimEnd_append (hword : IsWord word) (front : List Char) :
    Text.trimEnd (front ++ word) = front ++ word := by
  obtain ⟨init, last, rfl⟩ := (List.eq_nil_or_concat word).resolve_left hword.ne_nil
  have hlast := hword.isBlank last (by simp)
  rw [List.concat_eq_append, ← List.append_assoc, Text.trimEnd_append_cons hlast]
  rfl

theorem IsWord.trim_append (hword : IsWord word) {last : List Char} (hlast : IsWord last)
    (middle : List Char) : Text.trim (word ++ (middle ++ last)) = word ++ (middle ++ last) := by
  rw [Text.trim, Text.trimStart_of_head? (hword.isBlank_head? _), ← List.append_assoc,
    hlast.trimEnd_append]

theorem IsWord.trim (hword : IsWord word) : Text.trim word = word := by
  have hhead := hword.isBlank_head? []
  rw [List.append_nil] at hhead
  rw [Text.trim, Text.trimStart_of_head? hhead]
  exact hword.trimEnd_append []

theorem IsWord.lineFeed_notMem (hword : IsWord word) : '\n' ∉ word := by
  intro hmem
  have hblank := hword.isBlank _ hmem
  cases hblank

theorem lineFeed_notMem_spaced {words : List (List Char)} (hwords : ∀ word ∈ words, IsWord word) :
    '\n' ∉ spaced words := by
  intro hmem
  obtain ⟨word, hword, hmem⟩ := List.mem_flatMap.mp hmem
  rcases List.mem_cons.mp hmem with heq | hmem
  · exact absurd heq (by decide)
  · exact (hwords word hword).lineFeed_notMem hmem

/-- Behind a word comes a blank, whether other words follow or not. -/
theorem exists_spaced_append {words : List (List Char)} (hwords : ∀ word ∈ words, IsWord word)
    (hrest : '\n' ∉ rest) :
    ∃ later, spaced words ++ ' ' :: rest = ' ' :: later ∧ '\n' ∉ later := by
  have hfeed : '\n' ∉ spaced words ++ ' ' :: rest := by
    simp only [List.mem_append, List.mem_cons, not_or]
    exact ⟨lineFeed_notMem_spaced hwords, by decide, hrest⟩
  cases words with
  | nil => exact ⟨rest, rfl, hrest⟩
  | cons word words =>
      have hline : spaced (word :: words) ++ ' ' :: rest =
          ' ' :: (word ++ (spaced words ++ ' ' :: rest)) := by simp [spaced]
      rw [hline, List.mem_cons, not_or] at hfeed
      exact ⟨_, hline, hfeed.2⟩

/-! ## One word -/

/-- The search for `from` begins at a blank only. -/
theorem behindFrom?_eq_none (hhead : ∀ c ∈ text.head?, Text.isBlank c = false) :
    behindFrom? text = none := by
  cases text with
  | nil => rfl
  | cons c rest => simp [behindFrom?, hhead c rfl]

theorem behindFrom?_blank_cons (hword : IsWord word) (hrest : '\n' ∉ rest) :
    behindFrom? (' ' :: (word ++ ' ' :: rest)) =
      ((Text.dropLead? fromWord word).filter Text.startsOffWord).map (· ++ ' ' :: rest) := by
  have htrim : Text.trimStart (' ' :: (word ++ ' ' :: rest)) = word ++ ' ' :: rest := by
    rw [Text.trimStart_cons_of_isBlank rfl, Text.trimStart_of_head? (hword.isBlank_head? _)]
  have hblank : ' ' ∉ fromWord := by decide
  have hdrop : Text.dropLead? ['f', 'r', 'o', 'm'] (word ++ ' ' :: rest) =
      (Text.dropLead? fromWord word).map (· ++ ' ' :: rest) :=
    Text.dropLead?_append_cons hblank word rest
  rw [behindFrom?, htrim, hdrop]
  cases hlead : Text.dropLead? fromWord word with
  | none => rfl
  | some tail =>
      have hstarts : Text.startsOffWord (tail ++ ' ' :: rest) = Text.startsOffWord tail := by
        cases tail <;> rfl
      have hfeed : (tail ++ ' ' :: rest).contains '\n' = false := by
        have hword' := hword.lineFeed_notMem
        rw [Text.dropLead?_eq_some_iff.mp hlead, List.mem_append, not_or] at hword'
        simp [hword'.2, hrest]
      have hspace : Text.isBlank ' ' = true := rfl
      simp only [Option.map_some, Option.bind_eq_bind, Option.bind_some, hstarts, hfeed]
      cases hoff : Text.startsOffWord tail <;> simp [hoff, hspace, Option.filter]

theorem behindFrom?_of_not_readsAsFrom (hword : IsWord word) (hreads : readsAsFrom word = false)
    (hrest : '\n' ∉ rest) : behindFrom? (' ' :: (word ++ ' ' :: rest)) = none := by
  rw [behindFrom?_blank_cons hword hrest]
  unfold readsAsFrom at hreads
  cases hlead : Text.dropLead? fromWord word with
  | none => rfl
  | some tail =>
      rw [hlead, Option.any_some] at hreads
      simp [hreads]

/-- The names end behind a word, or the search goes on with the next one. -/
theorem cutNames?_blank (hword : IsWord word)
    (hrest : ∀ c ∈ rest.head?, Text.isBlank c = false) :
    cutNames? (word ++ ' ' :: rest) =
      match behindFrom? (' ' :: rest) with
      | some behind => some (word, behind)
      | none => (cutNames? rest).map fun cut => (word ++ ' ' :: cut.1, cut.2) := by
  obtain ⟨hne, hblank⟩ := hword
  induction word with
  | nil => exact absurd rfl hne
  | cons c word ih =>
      rw [List.forall_mem_cons] at hblank
      have hfeed : '\n' ≠ c := by
        rintro rfl
        cases hblank.1
      rw [List.cons_append, cutNames?_cons hfeed]
      cases word with
      | nil =>
          rw [List.nil_append, cutNames?_cons (by decide), behindFrom?_eq_none hrest]
          cases behindFrom? (' ' :: rest) <;> simp [Function.comp_def]
      | cons d word =>
          have hnone : behindFrom? (d :: word ++ ' ' :: rest) = none :=
            behindFrom?_eq_none fun e he => by
              obtain rfl := Option.some_inj.mp he
              exact hblank.2 _ List.mem_cons_self
          rw [hnone, ih (List.cons_ne_nil _ _) hblank.2]
          cases behindFrom? (' ' :: rest) <;> simp [Function.comp_def]

/-! ## All words -/

theorem readsAsFrom_iff : readsAsFrom word = true ↔
    ∃ tail, word = fromWord ++ tail ∧ Text.startsOffWord tail = true := by
  rw [readsAsFrom, Option.any_eq_true]
  simp only [Text.dropLead?_eq_some_iff]

/-- A comma behind a word does not matter. -/
theorem readsAsFrom_append_comma (word : List Char) :
    readsAsFrom (word ++ [',']) = readsAsFrom word := by
  have hcomma : ',' ∉ fromWord := by decide
  rw [readsAsFrom, readsAsFrom, Text.dropLead?_append_cons hcomma, Option.any_map]
  congr 1
  funext tail
  cases tail <;> rfl

/-- The names end in front of the first later word that reads as `from`. -/
theorem cutNames?_spaced {before after : List (List Char)} {tail : List Char} (hword : IsWord word)
    (hbefore : ∀ word ∈ before, IsWord word ∧ readsAsFrom word = false)
    (hfrom : IsWord (fromWord ++ tail)) (htail : Text.startsOffWord tail = true)
    (hafter : ∀ word ∈ after, IsWord word) (hrest : '\n' ∉ rest) :
    cutNames? (word ++ (spaced (before ++ (fromWord ++ tail) :: after) ++ ' ' :: rest)) =
      some (word ++ spaced before, tail ++ (spaced after ++ ' ' :: rest)) := by
  induction before generalizing word with
  | nil =>
      obtain ⟨later, hlater, hfeed⟩ := exists_spaced_append hafter hrest
      have hdrop : Text.dropLead? fromWord (fromWord ++ tail) = some tail :=
        Text.dropLead?_eq_some_iff.mpr rfl
      have hline : spaced ([] ++ (fromWord ++ tail) :: after) ++ ' ' :: rest =
          ' ' :: (fromWord ++ tail ++ (spaced after ++ ' ' :: rest)) := by
        simp [spaced]
      rw [hline, cutNames?_blank hword (hfrom.isBlank_head? _), hlater,
        behindFrom?_blank_cons hfrom hfeed, hdrop, Option.filter_some, if_pos htail]
      simp [spaced]
  | cons next before ih =>
      rw [List.forall_mem_cons] at hbefore
      obtain ⟨⟨hnext, hreads⟩, hbefore⟩ := hbefore
      have hwords : ∀ word ∈ before ++ (fromWord ++ tail) :: after, IsWord word := by
        rw [List.forall_mem_append, List.forall_mem_cons]
        exact ⟨fun word hmem => (hbefore word hmem).1, hfrom, hafter⟩
      obtain ⟨later, hlater, hfeed⟩ := exists_spaced_append hwords hrest
      have hline : spaced (next :: before ++ (fromWord ++ tail) :: after) ++ ' ' :: rest =
          ' ' :: (next ++ (spaced (before ++ (fromWord ++ tail) :: after) ++ ' ' :: rest)) := by
        simp [spaced]
      rw [hline, cutNames?_blank hword (hnext.isBlank_head? _), ih hnext hbefore, hlater,
        behindFrom?_of_not_readsAsFrom hnext hreads hfeed]
      simp [spaced]

end Import

end Offside
