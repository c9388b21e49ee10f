/-
# Walking past a literal

A quote that a walk meets in code opens a literal, and the next quote of the same kind that no
backslash protects closes it. Up to there everything is quoted, whatever it is. Behind the
literal the walk remembers its last quote and nothing else, so it cannot tell which literal it
has passed.

`HasLiteral` says of a text that a walk takes a stretch of it for a literal. Whether it does is
up to what stands in front of the literal and to the literal itself; what follows has no say.
-/

import Offside.Proofs.Token.Escape
import Offside.Proofs.Walk.Compose

namespace Offside

open Token (Sealed escapesNext pending sealed_cons_iff)

/-- What may stand between two quotes: each quote of that kind is protected by a backslash, and
no backslash is left over to protect the closing one. -/
structure IsBody (quote : Char) (body : List Char) : Prop where
  isSealed : Sealed false quote body
  closes : pending false body = false

instance (quote : Char) (body : List Char) : Decidable (IsBody quote body) :=
  decidable_of_iff (Sealed false quote body ∧ pending false body = false)
    ⟨fun hbody => ⟨hbody.1, hbody.2⟩, fun hbody => ⟨hbody.isSealed, hbody.closes⟩⟩

/-- A body ends at the first quote that closes it. -/
theorem IsBody.eq_of_append {quote : Char} {body body' back back' : List Char}
    (hbody : IsBody quote body) (hbody' : IsBody quote body')
    (heq : body ++ quote :: back = body' ++ quote :: back') : body = body' := by
  -- A longer body would have the closing quote of the shorter one in it, and protect it.
  have hlonger : ∀ {shorter longer more rest rest' : List Char}, IsBody quote shorter →
      IsBody quote longer → longer = shorter ++ more → quote :: rest = more ++ quote :: rest' →
      shorter = longer := by
    rintro shorter longer more rest rest' hshorter hlonger rfl hrest
    cases more with
    | nil => simp
    | cons c more =>
        obtain ⟨rfl, -⟩ := List.cons.inj hrest
        have hpending := hlonger.isSealed shorter more rfl
        rw [hshorter.closes] at hpending
        cases hpending
  rcases List.append_eq_append_iff.mp heq with ⟨more, hmore, hrest⟩ | ⟨more, hmore, hrest⟩
  · exact hlonger hbody hbody' hmore hrest
  · exact (hlonger hbody' hbody hmore hrest).symm

/-- A walk takes what stands between the two quotes for the body of a literal: it opens the
literal at the first quote and closes it at the second. -/
def HasLiteral (front : List Char) (quote : Char) (body back : List Char) : Prop :=
  ∃ before opening inside closing after,
    walk (front ++ (quote :: body ++ [quote]) ++ back) =
        before ++ opening :: inside ++ closing :: after ∧
      before.length = front.length ∧ inside.length = body.length ∧
      opening.region = .code ∧ opening.after.openQuote = some quote ∧
      (∀ s ∈ inside, s.region = .quoted) ∧ closing.region = .code

namespace WalkState

variable {state : WalkState} {quote c : Char} {body : List Char}

/-- Outside of literals, behind this character of code. -/
def behind (c : Char) : WalkState := { lastCode := some c }

theorem clean_behind (c : Char) : (behind c).Clean := ⟨rfl, rfl, rfl⟩

/-! ## Quotes -/

section Quote

variable (hquote : isQuote quote = true)

include hquote

theorem eq_of_isQuote : quote = '"' ∨ quote = '\'' ∨ quote = '\x60' := by
  simpa [isQuote, or_assoc] using hquote

theorem ne_of_isQuote (hc : isQuote c = false) : quote ≠ c := by
  rintro rfl
  rw [hquote] at hc
  cases hc

theorem isBlank_of_isQuote : Text.isBlank quote = false := by
  rcases eq_of_isQuote hquote with rfl | rfl | rfl <;> rfl

/-- In front of a quote a `/` means what it means in front of nothing. -/
theorem seam_quote (front back : List Char) : Seam front (quote :: back) :=
  seam_cons ⟨ne_of_isQuote hquote rfl, ne_of_isQuote hquote rfl⟩ front back

theorem seam_literal (body back : List Char) : Seam (quote :: body ++ [quote]) back := by
  refine seam_of_getLast?_ne ?_ back
  rw [List.getLast?_concat, ne_eq, Option.some_inj]
  exact ne_of_isQuote hquote rfl

/-! ## Inside a literal -/

/-- In a literal, a character that does not close it is quoted, whatever comes next. -/
theorem step_of_sealed (hopen : state.openQuote = some quote) (hclass : state.inClass = false)
    (hc : c = quote → state.escaped = true) (ahead : Option Char) :
    state.step c ahead = (.quoted, { state with escaped := escapesNext state.escaped c }) := by
  obtain ⟨openQuote, escaped, inClass, lastCode⟩ := state
  obtain rfl : openQuote = some quote := hopen
  have hslash : quote ≠ '/' := ne_of_isQuote hquote rfl
  cases escaped with
  | true => simp [step, escapesNext]
  | false =>
      have hne : c ≠ quote := fun heq => Bool.noConfusion (hc heq)
      by_cases hbackslash : c = '\\'
      · simp [step, escapesNext, hbackslash]
      · simp [step, escapesNext, hbackslash, hne, hslash]

/-- So is a text in which every quote of the literal's own is protected. -/
theorem run_of_sealed (hopen : state.openQuote = some quote) (hclass : state.inClass = false)
    (hsealed : Sealed state.escaped quote body) :
    state.run body = { state with escaped := pending state.escaped body } := by
  induction body generalizing state with
  | nil => rfl
  | cons c body ih =>
      obtain ⟨hhead, htail⟩ := sealed_cons_iff.mp hsealed
      rw [run_cons, step_of_sealed hquote hopen hclass hhead]
      exact ih hopen hclass htail

theorem map_region_of_sealed (hopen : state.openQuote = some quote)
    (hclass : state.inClass = false) (hsealed : Sealed state.escaped quote body) :
    (walkFrom state body).map WalkStep.region = List.replicate body.length .quoted := by
  induction body generalizing state with
  | nil => rfl
  | cons c body ih =>
      obtain ⟨hhead, htail⟩ := sealed_cons_iff.mp hsealed
      have hrest := @ih { state with escaped := escapesNext state.escaped c } hopen hclass htail
      rw [walkFrom_cons, step_of_sealed hquote hopen hclass hhead, List.map_cons, hrest]
      rfl

/-- What goes through a walk and passes over quoted characters, line feeds apart, passes over
the inside of a literal. -/
theorem foldlM_of_sealed {m : Type → Type} [Monad m] [LawfulMonad m] {α : Type}
    {read : α → WalkStep → m α}
    (hskips : ∀ a s, s.region = .quoted → s.char ≠ '\n' → read a s = pure a)
    (hopen : state.openQuote = some quote) (hclass : state.inClass = false)
    (hsealed : Sealed state.escaped quote body) (hfeed : '\n' ∉ body) (a : α) :
    (walkFrom state body).foldlM read a = pure a := by
  induction body generalizing state with
  | nil => rfl
  | cons c body ih =>
      obtain ⟨hhead, htail⟩ := sealed_cons_iff.mp hsealed
      rw [List.mem_cons, not_or] at hfeed
      have hrest := @ih { state with escaped := escapesNext state.escaped c } hopen hclass htail
        hfeed.2
      rw [walkFrom_cons, step_of_sealed hquote hopen hclass hhead, List.foldlM_cons,
        hskips _ _ rfl (Ne.symm hfeed.1), pure_bind]
      exact hrest

/-! ## The two ends of a literal -/

/-- A quote outside of literals opens one. -/
theorem step_of_clean (hclean : state.Clean) (ahead : Option Char) :
    state.step quote ahead = (.code, ⟨some quote, false, false, some quote⟩) := by
  obtain ⟨openQuote, escaped, inClass, lastCode⟩ := state
  obtain ⟨rfl, rfl, rfl⟩ := hclean
  simp [step, hquote, seeCode, isBlank_of_isQuote hquote]

/-- A quote that is not protected closes its literal. -/
theorem step_of_closes (hopen : state.openQuote = some quote) (hescaped : state.escaped = false)
    (hclass : state.inClass = false) (ahead : Option Char) :
    state.step quote ahead = (.code, behind quote) := by
  obtain ⟨openQuote, escaped, inClass, lastCode⟩ := state
  obtain rfl : openQuote = some quote := hopen
  obtain rfl : escaped = false := hescaped
  obtain rfl : inClass = false := hclass
  have hbackslash : quote ≠ '\\' := ne_of_isQuote hquote rfl
  simp [step, hbackslash, seeCode, isBlank_of_isQuote hquote, behind]

/-- A text that is quoted throughout closes nothing. -/
theorem sealed_of_quoted (hopen : state.openQuote = some quote) (hclass : state.inClass = false)
    (hquoted : ∀ s ∈ walkFrom state body, s.region = .quoted) :
    Sealed state.escaped quote body := by
  induction body generalizing state with
  | nil => exact Token.sealed_nil
  | cons c body ih =>
      rw [walkFrom_cons, List.forall_mem_cons] at hquoted
      obtain ⟨hregion, hrest⟩ := hquoted
      have hhead : c = quote → state.escaped = true := by
        rintro rfl
        by_contra hescaped
        rw [step_of_closes hquote hopen (Bool.not_eq_true _ ▸ hescaped) hclass] at hregion
        cases hregion
      rw [step_of_sealed hquote hopen hclass hhead] at hrest
      exact sealed_cons_iff.mpr
        ⟨hhead, @ih { state with escaped := escapesNext state.escaped c } hopen hclass hrest⟩

/-! ## Past a literal -/

/-- The steps of a walk past a literal in code. -/
theorem Clean.walkFrom_literal (hclean : state.Clean) (hbody : IsBody quote body) :
    walkFrom state (quote :: body ++ [quote]) =
      ⟨quote, .code, ⟨some quote, false, false, some quote⟩⟩ ::
        walkFrom ⟨some quote, false, false, some quote⟩ body ++ [⟨quote, .code, behind quote⟩] := by
  have hrun : (⟨some quote, false, false, some quote⟩ : WalkState).run body =
      ⟨some quote, pending false body, false, some quote⟩ :=
    run_of_sealed hquote rfl rfl hbody.isSealed
  rw [List.cons_append, walkFrom_cons, step_of_clean hquote hclean,
    walkFrom_append_of_seam (seam_quote hquote body []), hrun, walkFrom_cons,
    step_of_closes hquote rfl hbody.closes rfl]
  rfl

theorem Clean.run_literal (hclean : state.Clean) (hbody : IsBody quote body) :
    state.run (quote :: body ++ [quote]) = behind quote := by
  have hrun : (⟨some quote, false, false, some quote⟩ : WalkState).run body =
      ⟨some quote, pending false body, false, some quote⟩ :=
    run_of_sealed hquote rfl rfl hbody.isSealed
  rw [List.cons_append, run_cons, step_of_clean hquote hclean,
    run_append_of_seam (seam_quote hquote body []), hrun, run_cons,
    step_of_closes hquote rfl hbody.closes rfl]
  rfl

end Quote

/-- Only in code can a step leave a literal open behind a character of code. -/
theorem openQuote_of_opens {ahead : Option Char} (hregion : (state.step c ahead).1 = .code)
    (hopens : (state.step c ahead).2.openQuote = some quote) : state.openQuote = none := by
  cases hopen : state.openQuote with
  | none => rfl
  | some delimiter =>
      simp only [step, hopen] at hregion hopens
      split_ifs at hregion hopens
      simp at hopens

end WalkState

open WalkState

variable {front body body' back : List Char} {quote : Char}

/-- A walk through a text with a literal, in three parts. -/
theorem walk_literal (hquote : isQuote quote = true) (hclean : (WalkState.run {} front).Clean)
    (hbody : IsBody quote body) (back : List Char) :
    walk (front ++ (quote :: body ++ [quote]) ++ back) =
      walkFrom {} front ++ ⟨quote, .code, ⟨some quote, false, false, some quote⟩⟩ ::
        walkFrom ⟨some quote, false, false, some quote⟩ body ++
          ⟨quote, .code, behind quote⟩ :: walkFrom (behind quote) back := by
  have hseam : Seam front (quote :: body ++ [quote] ++ back) := seam_quote hquote _ _
  rw [walk, List.append_assoc, walkFrom_append_of_seam hseam,
    walkFrom_append_of_seam (seam_literal hquote body back), hclean.run_literal hquote hbody,
    hclean.walkFrom_literal hquote hbody]
  simp

theorem endOfWalk_literal (hquote : isQuote quote = true) (hclean : (WalkState.run {} front).Clean)
    (hbody : IsBody quote body) (back : List Char) :
    endOfWalk (front ++ (quote :: body ++ [quote]) ++ back) = (behind quote).run back := by
  have hseam : Seam front (quote :: body ++ [quote] ++ back) := seam_quote hquote _ _
  rw [endOfWalk, List.append_assoc, run_append_of_seam hseam,
    run_append_of_seam (seam_literal hquote body back), hclean.run_literal hquote hbody]

/-- A walk takes a stretch for a literal exactly if it comes to it outside of literals and the
stretch is one. -/
theorem hasLiteral_iff (hquote : isQuote quote = true) :
    HasLiteral front quote body back ↔ (WalkState.run {} front).Clean ∧ IsBody quote body := by
  constructor
  · rintro ⟨before, opening, inside, closing, after, hwalk, hbefore, hinside, hcode, hopens,
      hquoted, hcloses⟩
    have htext : front ++ (quote :: body ++ [quote]) ++ back =
        front ++ quote :: (body ++ quote :: back) := by simp
    rw [htext, walk, walkFrom_append_of_seam (seam_quote hquote front _), walkFrom_cons,
      List.append_assoc, List.cons_append] at hwalk
    obtain ⟨-, hrest⟩ := List.append_inj hwalk (by rw [length_walkFrom, hbefore])
    obtain ⟨rfl, hbehind⟩ := List.cons.inj hrest
    have hclean : (WalkState.run {} front).Clean :=
      (clean_init.sound.run front).clean (openQuote_of_opens hcode hopens)
    rw [step_of_clean hquote hclean, walkFrom_append_of_seam (seam_quote hquote body back)]
      at hbehind
    obtain ⟨rfl, hback⟩ := List.append_inj hbehind (by rw [length_walkFrom, hinside])
    have hsealed : Sealed false quote body :=
      @sealed_of_quoted ⟨some quote, false, false, some quote⟩ _ _ hquote rfl rfl hquoted
    have hrun : (⟨some quote, false, false, some quote⟩ : WalkState).run body =
        ⟨some quote, pending false body, false, some quote⟩ :=
      run_of_sealed hquote rfl rfl hsealed
    refine ⟨hclean, hsealed, ?_⟩
    by_contra hpending
    rw [Bool.not_eq_false] at hpending
    rw [walkFrom_cons, hrun, hpending, step_of_sealed hquote rfl rfl fun _ => rfl] at hback
    obtain ⟨rfl, -⟩ := List.cons.inj hback
    cases hcloses
  · rintro ⟨hclean, hbody⟩
    refine ⟨_, _, _, _, _, walk_literal hquote hclean hbody back, length_walkFrom _ _,
      length_walkFrom _ _, rfl, rfl, ?_, rfl⟩
    intro s hs
    have hregions := @map_region_of_sealed ⟨some quote, false, false, some quote⟩ _ _ hquote rfl
      rfl hbody.isSealed
    exact List.eq_of_mem_replicate (hregions ▸ List.mem_map_of_mem hs)

end Offside
