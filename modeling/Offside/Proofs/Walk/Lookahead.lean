/-
# What a walk knows, and when

Whoever walks through code relies on a few things without a second look: that the flags of a
state speak of the literal that is open, that a character is quoted if it lies inside a literal
and not if it delimits one, and that a report, once made, is not revised by what comes later,
so that the walk may stop early or the text be cut behind it.

The first two are facts about single steps, and every state of a walk is behind some number of
steps. The third needs the one place where a step looks past its own character: a `/` opens no
literal in front of `/` or `*`. So the state behind a character depends on the next one, and on
nothing further.
-/

import Offside.Proofs.Text.Offsets
import Offside.Proofs.Walk.Compose

namespace Offside

/-- The states of a walk through `text` that begins in `state`: the one in front of each
character, and the one behind the last. -/
def statesFrom (state : WalkState) (text : List Char) : List WalkState :=
  state :: (walkFrom state text).map WalkStep.after

/-- The states of a walk through a whole text. -/
def walkStates (text : List Char) : List WalkState := statesFrom {} text

/-- What a walk through a whole text reports: its steps, each with the byte at which its
character begins. -/
def walkItems (text : List Char) : List (Nat × WalkStep) :=
  ((Text.charIndices text).map Prod.fst).zip (walk text)

/-! ## One step -/

namespace WalkState

variable {state : WalkState}

/-- A class of characters is open only in a regular expression. -/
def ClassInRegex (state : WalkState) : Prop := state.inClass = true → state.openQuote = some '/'

theorem ClassInRegex.step (hclass : state.ClassInRegex) (c : Char) (ahead : Option Char) :
    (state.step c ahead).2.ClassInRegex := by
  unfold ClassInRegex at hclass ⊢
  unfold WalkState.step
  cases hopen : state.openQuote with
  | none =>
      have hout : state.inClass = false := by simpa [hopen] using hclass
      simp only
      split_ifs <;> simp [hout]
  | some quote =>
      rw [hopen] at hclass
      simp only
      split_ifs with hescaped hbackslash hcloses hopens hcloses'
      · simpa [hopen] using hclass
      · simpa [hopen] using hclass
      · simp only [Bool.and_eq_true, Bool.not_eq_true'] at hcloses
        simp [hcloses.2]
      · simp only [Bool.and_eq_true, decide_eq_true_eq] at hopens
        simp [hopens.1]
      · simp
      · simpa [hopen] using hclass

/-- A character is quoted exactly if a literal is open in front of it and behind it. -/
theorem region_step_eq_quoted_iff (state : WalkState) (c : Char) (ahead : Option Char) :
    (state.step c ahead).1 = .quoted ↔
      state.openQuote ≠ none ∧ (state.step c ahead).2.openQuote ≠ none := by
  unfold WalkState.step
  cases hopen : state.openQuote with
  | none =>
      simp only
      split_ifs <;> simp
  | some quote =>
      simp only
      split_ifs <;> simp [hopen]

end WalkState

/-! ## The run -/

/-- What every step preserves holds of every state of a walk. -/
theorem forall_mem_statesFrom {P : WalkState → Prop}
    (hstep : ∀ state c ahead, P state → P (state.step c ahead).2) {state : WalkState}
    (hstate : P state) (text : List Char) : ∀ later ∈ statesFrom state text, P later := by
  induction text generalizing state with
  | nil => exact List.forall_mem_singleton.mpr hstate
  | cons c text ih =>
      exact List.forall_mem_cons.mpr ⟨hstate, ih (hstep state c text.head? hstate)⟩

/-- Each step of a walk is taken in the state in front of its character. -/
theorem exists_of_mem_zip_statesFrom {state before : WalkState} {text : List Char} {s : WalkStep}
    (hmem : (before, s) ∈ (statesFrom state text).zip (walkFrom state text)) :
    ∃ ahead, before.step s.char ahead = (s.region, s.after) := by
  induction text generalizing state with
  | nil => simp [walkFrom] at hmem
  | cons c text ih =>
      rcases List.mem_cons.mp hmem with heq | hlater
      · obtain ⟨rfl, rfl⟩ := Prod.mk.inj heq
        exact ⟨text.head?, rfl⟩
      · exact ih hlater

/-- Texts that agree on one character more lead a walk through the same steps. -/
theorem take_walkFrom_eq {first second : List Char} {n : Nat}
    (hagree : first.take (n + 1) = second.take (n + 1)) (state : WalkState) :
    (walkFrom state first).take n = (walkFrom state second).take n := by
  induction n generalizing first second state with
  | zero => rfl
  | succ n ih =>
      cases first with
      | nil =>
          cases second with
          | nil => rfl
          | cons d second => simp at hagree
      | cons c first =>
          cases second with
          | nil => simp at hagree
          | cons d second =>
              rw [List.take_succ_cons, List.take_succ_cons] at hagree
              obtain ⟨rfl, hrest⟩ := List.cons.inj hagree
              -- Of what is left, at least one character is the same, which is all `c` sees.
              have hahead : first.head? = second.head? := by
                simpa [List.head?_take] using congrArg List.head? hrest
              rw [walkFrom_cons, walkFrom_cons, hahead, List.take_succ_cons, List.take_succ_cons,
                ih hrest]

/-- Without the character ahead the state behind a `/` is not settled. -/
example : (walk ['/', 'a']).take 1 ≠ (walk ['/', '/']).take 1 := by decide

/-! ## The report -/

theorem length_charIndices_eq (text : List Char) :
    ((Text.charIndices text).map Prod.fst).length = (walk text).length := by
  rw [List.length_map, Text.charIndices, Text.length_charIndicesFrom, walk, length_walkFrom]

theorem map_fst_walkItems (text : List Char) :
    (walkItems text).map Prod.fst = (Text.charIndices text).map Prod.fst :=
  List.map_fst_zip (Nat.le_of_eq (length_charIndices_eq text))

theorem map_snd_walkItems (text : List Char) : (walkItems text).map Prod.snd = walk text :=
  List.map_snd_zip (Nat.le_of_eq (length_charIndices_eq text).symm)

theorem take_walkItems_eq {first second : List Char} {n : Nat}
    (hagree : first.take (n + 1) = second.take (n + 1)) :
    (walkItems first).take n = (walkItems second).take n := by
  have hsteps : (walk first).take n = (walk second).take n := take_walkFrom_eq hagree {}
  have htexts : first.take n = second.take n := by
    have hboth := congrArg (List.take n) hagree
    rwa [List.take_take, List.take_take, Nat.min_eq_left (Nat.le_succ n)] at hboth
  have hplaces : (Text.charIndices first).take n = (Text.charIndices second).take n := by
    rw [Text.charIndices, Text.charIndices, Text.take_charIndicesFrom, htexts,
      Text.take_charIndicesFrom]
  rw [walkItems, walkItems, List.zip_eq_zipWith, List.zip_eq_zipWith, List.take_zipWith,
    List.take_zipWith, ← List.map_take, ← List.map_take, hplaces, hsteps]

/-- What a walk may be relied on for. In all of its states a class of characters is open only in
a regular expression, and a character is protected only in a literal. A character is quoted
exactly if a literal is open in front of it and behind it. There is one item for each
character, in order, at the offset of the character's first byte, and the offsets increase
strictly. And the first items, with the states behind them, are the same for all texts that
agree so far and on one character more. -/
theorem walk_sound_causal (text : List Char) :
    (∀ state ∈ walkStates text,
      (state.inClass = true → state.openQuote = some '/') ∧
        (state.escaped = true → state.openQuote ≠ none)) ∧
    (∀ before s, (before, s) ∈ (walkStates text).zip (walk text) →
      (s.region = .quoted ↔ before.openQuote ≠ none ∧ s.after.openQuote ≠ none)) ∧
    (walkItems text).map (fun item => item.2.char) = text ∧
    ((walkItems text).map Prod.fst).Pairwise (· < ·) ∧
    (∀ i offset s, (walkItems text)[i]? = some (offset, s) →
      offset = Text.byteLength (text.take i)) ∧
    ∀ n other, text.take (n + 1) = other.take (n + 1) →
      (walkItems text).take n = (walkItems other).take n := by
  refine ⟨fun state hstate => ?_, fun before s hmem => ?_, ?_, ?_, fun i offset s hitem => ?_,
    fun n other hagree => take_walkItems_eq hagree⟩
  · have hstep : ∀ (state : WalkState) (c : Char) (ahead : Option Char),
        state.Sound ∧ state.ClassInRegex →
          (state.step c ahead).2.Sound ∧ (state.step c ahead).2.ClassInRegex := by
      rintro state c ahead ⟨hsound, hclass⟩
      exact ⟨hsound.step c ahead, hclass.step c ahead⟩
    have hinit : ({} : WalkState).Sound ∧ ({} : WalkState).ClassInRegex :=
      ⟨WalkState.clean_init.sound, nofun⟩
    have hinvariant := forall_mem_statesFrom hstep hinit text state hstate
    refine ⟨hinvariant.2, fun hescaped hopen => ?_⟩
    rw [hinvariant.1.escaped hopen] at hescaped
    cases hescaped
  · obtain ⟨ahead, hstep⟩ := exists_of_mem_zip_statesFrom hmem
    have hregion := before.region_step_eq_quoted_iff s.char ahead
    rwa [hstep] at hregion
  · calc (walkItems text).map (fun item => item.2.char)
        = ((walkItems text).map Prod.snd).map WalkStep.char := (List.map_map ..).symm
      _ = text := by rw [map_snd_walkItems, walk, map_char_walkFrom]
  · rw [map_fst_walkItems, List.pairwise_map]
    exact Text.pairwise_charIndicesFrom 0 text
  · have hplace := congrArg (fun offsets => offsets[i]?) (map_fst_walkItems text)
    simp only [List.getElem?_map, hitem, Text.charIndices, Text.getElem?_charIndicesFrom,
      Option.map_some, Option.map_map] at hplace
    obtain ⟨c, -, hoffset⟩ := Option.map_eq_some_iff.mp hplace.symm
    rw [← hoffset]
    exact Nat.zero_add _

end Offside
