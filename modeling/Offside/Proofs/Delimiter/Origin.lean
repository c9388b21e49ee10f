/-
# Texts of two origins

A text that has been written around another one has characters of two origins: those
that are copied and those that are added. Its brackets pair off when none of them closes
one of the other origin. Then the brackets that are copied balance by themselves, as far
as they are brackets in both texts.

Whether they are is a matter of the literals. So two walks go side by side, one through
the original and one through what was written. Over a text that is copied they stay
alike; over texts that neither open nor close a literal, and that need not be the same
in both, they keep the literal that is open.
-/

import Offside.Proofs.Delimiter.Grammar
import Offside.Proofs.Walk.Reading

namespace Offside

/-- Where a character of a written text comes from. -/
inductive Origin
  /-- It is copied from the original. -/
  | copied
  /-- It is added. -/
  | added
  deriving DecidableEq, Repr

/-- A text whose characters have their origins with them. -/
abbrev TaggedText := List (Char × Origin)

namespace TaggedText

/-- A text that is copied. -/
def copied (text : List Char) : TaggedText := text.map (·, .copied)

/-- A text that is added. -/
def added (text : List Char) : TaggedText := text.map (·, .added)

/-- The characters alone. -/
def text (tagged : TaggedText) : List Char := tagged.map Prod.fst

@[simp]
theorem text_nil : text [] = [] := rfl

@[simp]
theorem text_cons (c : Char) (origin : Origin) (tagged : TaggedText) :
    text ((c, origin) :: tagged) = c :: text tagged := rfl

@[simp]
theorem text_append (first second : TaggedText) :
    text (first ++ second) = text first ++ text second := List.map_append

@[simp]
theorem text_copied (chars : List Char) : text (copied chars) = chars := by
  simp [text, copied, Function.comp_def]

@[simp]
theorem text_added (chars : List Char) : text (added chars) = chars := by
  simp [text, added, Function.comp_def]

/-- The characters that are copied. -/
def original (tagged : TaggedText) : List Char :=
  (tagged.filter (·.2 = .copied)).map Prod.fst

@[simp]
theorem original_cons_copied (c : Char) (tagged : TaggedText) :
    original ((c, .copied) :: tagged) = c :: original tagged := rfl

@[simp]
theorem original_cons_added (c : Char) (tagged : TaggedText) :
    original ((c, .added) :: tagged) = original tagged := rfl

end TaggedText

/-- The open brackets with their origins, innermost first, after one more character; none
where the check of delimiters stops or a bracket closes one of the other origin. -/
def pairBracket (opened : TaggedText) (s : WalkStep × Origin) : Option TaggedText :=
  if s.1.breaksLiteral then none
  else if !s.1.isBracket then some opened
  else if (closerOf? s.1.char).isSome then some ((s.1.char, s.2) :: opened)
  else
    match opened with
    | [] => none
    | (opener, origin) :: outer =>
      if (closerOf? opener).all (· = s.1.char) ∧ origin = s.2 then some outer else none

/-- The steps of a walk through a text, with the origins of its characters. -/
def taggedSteps (state : WalkState) (tagged : TaggedText) : List (WalkStep × Origin) :=
  (walkFrom state tagged.text).zip (tagged.map Prod.snd)

/-- As far as the check of delimiters gets, every bracket closes one of its own origin,
and the check gets to the end. -/
def PairsOff (tagged : TaggedText) : Prop :=
  ((taggedSteps {} tagged).foldlM pairBracket []).isSome

instance (tagged : TaggedText) : Decidable (PairsOff tagged) :=
  inferInstanceAs (Decidable (_ = true))

/-! ## One step -/

theorem nestBracket_eq (opened : List Char) (s : WalkStep) :
    nestBracket opened s =
      if s.breaksLiteral then none
      else if !s.isBracket then some opened
      else takeBracket opened s.char := by
  unfold nestBracket
  by_cases hfeed : s.char = '\n'
  · have hbracket : s.isBracket = false := by
      simp [WalkStep.isBracket, hfeed, closerOf?, isCloser]
    simp [WalkStep.breaksLiteral, hfeed, hbracket]
  · have hbreaks : s.breaksLiteral = false := by simp [WalkStep.breaksLiteral, hfeed]
    cases hregion : s.region with
    | quoted => simp [hfeed, hbreaks, WalkStep.isBracket, hregion]
    | code =>
        by_cases hdelimiter : BracketScan.isDelimiter s.char = true
        · have hbracket : s.isBracket = false := WalkStep.isBracket_of_isDelimiter hdelimiter
          simp [hfeed, hbreaks, hbracket, hdelimiter]
        · simp only [hfeed, hbreaks, WalkStep.isBracket, hregion, hdelimiter, takeBracket]
          by_cases hopener : (closerOf? s.char).isSome = true
          · simp [hopener]
          · by_cases hcloser : isCloser s.char = true <;> simp [hopener, hcloser]

/-- Without the origins, the open brackets are those of the check. -/
theorem nestBracket_of_pairBracket {opened opened' : TaggedText} {s : WalkStep × Origin}
    (hpair : pairBracket opened s = some opened') :
    nestBracket opened.text s.1 = some opened'.text := by
  rw [nestBracket_eq]
  unfold pairBracket at hpair
  split_ifs at hpair ⊢ with hbreaks hbracket hopener
  · obtain rfl := Option.some_inj.mp hpair
    rfl
  · obtain rfl := Option.some_inj.mp hpair
    simp [takeBracket, hopener]
  · split at hpair
    · cases hpair
    · rw [Option.ite_none_right_eq_some, Option.some_inj] at hpair
      obtain ⟨⟨hpartner, -⟩, rfl⟩ := hpair
      simp [takeBracket, hopener, closeBracket, hpartner]

/-- A copied character does to the copied brackets what it does in the original. -/
theorem nestBracket_original {opened opened' : TaggedText} {s s' : WalkStep}
    (hpair : pairBracket opened (s, .copied) = some opened') (hchar : s'.char = s.char)
    (hregion : s'.region = s.region) (hquote : s'.after.openQuote = s.after.openQuote) :
    nestBracket opened.original s' = some opened'.original := by
  have hbreaks : s'.breaksLiteral = s.breaksLiteral := by
    simp only [WalkStep.breaksLiteral, hchar, hquote]
  have hbracket : s'.isBracket = s.isBracket := by
    simp only [WalkStep.isBracket, hchar, hregion]
  rw [nestBracket_eq, hbreaks, hbracket, hchar]
  unfold pairBracket at hpair
  split_ifs at hpair ⊢ with hbreaks hbracket hopener
  · obtain rfl := Option.some_inj.mp hpair
    rfl
  · obtain rfl := Option.some_inj.mp hpair
    simp [takeBracket, hopener]
  · split at hpair
    · cases hpair
    · rw [Option.ite_none_right_eq_some, Option.some_inj] at hpair
      obtain ⟨⟨hpartner, rfl⟩, rfl⟩ := hpair
      simp [takeBracket, hopener, closeBracket, hpartner]

/-- An added character leaves the copied brackets as they are. -/
theorem original_of_pairBracket_added {opened opened' : TaggedText} {s : WalkStep}
    (hpair : pairBracket opened (s, .added) = some opened') :
    opened'.original = opened.original := by
  unfold pairBracket at hpair
  split_ifs at hpair
  · obtain rfl := Option.some_inj.mp hpair
    rfl
  · obtain rfl := Option.some_inj.mp hpair
    rfl
  · split at hpair
    · cases hpair
    · rw [Option.ite_none_right_eq_some, Option.some_inj] at hpair
      obtain ⟨⟨-, rfl⟩, rfl⟩ := hpair
      rfl

theorem breaksLiteral_of_pairBracket {opened opened' : TaggedText} {s : WalkStep × Origin}
    (hpair : pairBracket opened s = some opened') : s.1.breaksLiteral = false := by
  unfold pairBracket at hpair
  split_ifs at hpair with hbreaks <;> exact Bool.not_eq_true _ ▸ hbreaks

theorem original_of_pairBracket_of_not_isBracket {opened opened' : TaggedText}
    {s : WalkStep × Origin} (hpair : pairBracket opened s = some opened')
    (hbracket : s.1.isBracket = false) : opened'.original = opened.original := by
  have hbreaks := breaksLiteral_of_pairBracket hpair
  simp only [pairBracket, hbreaks, hbracket, Bool.false_eq_true, if_false, Bool.not_false,
    if_true, Option.some_inj] at hpair
  rw [hpair]

/-! ## Many steps -/

theorem taggedSteps_cons (state : WalkState) (c : Char) (origin : Origin) (tagged : TaggedText) :
    taggedSteps state ((c, origin) :: tagged) =
      (⟨c, (state.step c tagged.text.head?).1, (state.step c tagged.text.head?).2⟩, origin) ::
        taggedSteps (state.step c tagged.text.head?).2 tagged := rfl

theorem taggedSteps_append {first second : TaggedText} (hseam : Seam first.text second.text)
    (state : WalkState) :
    taggedSteps state (first ++ second) =
      taggedSteps state first ++ taggedSteps (state.run first.text) second := by
  unfold taggedSteps
  rw [TaggedText.text_append, walkFrom_append_of_seam hseam, List.map_append, List.zip_append]
  rw [length_walkFrom, TaggedText.text, List.length_map, List.length_map]

theorem foldlM_nestBracket_of_pairBracket {steps : List (WalkStep × Origin)}
    {opened opened' : TaggedText} (hpair : steps.foldlM pairBracket opened = some opened') :
    (steps.map Prod.fst).foldlM nestBracket opened.text = some opened'.text := by
  induction steps generalizing opened with
  | nil =>
      obtain rfl : opened = opened' := by simpa using hpair
      rfl
  | cons s steps ih =>
      rw [List.foldlM_cons, Option.bind_eq_bind, Option.bind_eq_some_iff] at hpair
      obtain ⟨middle, hstep, hrest⟩ := hpair
      rw [List.map_cons, List.foldlM_cons, nestBracket_of_pairBracket hstep]
      exact ih hrest

/-! ## Texts that keep the open literal -/

namespace WalkState

/-- A character that neither opens nor closes a literal nor protects the next one. -/
def isSettled (c : Char) : Bool := !BracketScan.isDelimiter c && c != '\\'

/-- The literal that is open in one state is open in the other, and nothing has been
seen inside it. -/
structure KeepsLiteral (before after : WalkState) : Prop where
  openQuote : after.openQuote = before.openQuote
  inClass : after.inClass = before.inClass
  lastCode : before.openQuote ≠ none → after.lastCode = before.lastCode

theorem keepsLiteral_refl (state : WalkState) : KeepsLiteral state state :=
  ⟨rfl, rfl, fun _ => rfl⟩

theorem KeepsLiteral.trans {first second third : WalkState} (hfirst : KeepsLiteral first second)
    (hsecond : KeepsLiteral second third) : KeepsLiteral first third where
  openQuote := hsecond.openQuote.trans hfirst.openQuote
  inClass := hsecond.inClass.trans hfirst.inClass
  lastCode hopen := by
    rw [← hfirst.lastCode hopen]
    exact hsecond.lastCode (by rwa [hfirst.openQuote])

theorem isSettled_of_all {text : List Char} (hall : text.all isSettled = true) :
    ∀ c ∈ text, isSettled c = true := List.all_eq_true.mp hall

theorem isQuote_of_isSettled {c : Char} (hc : isSettled c = true) : isQuote c = false := by
  simp only [isSettled, BracketScan.isDelimiter, Bool.and_eq_true, Bool.not_eq_true',
    Bool.or_eq_false_iff] at hc
  exact hc.1.1

theorem ne_of_isSettled {c : Char} (hc : isSettled c = true) : c ≠ '/' ∧ c ≠ '\\' := by
  constructor <;> rintro rfl <;> exact absurd hc (by decide)

/-- In a regular expression, square brackets are more than characters. -/
def FreeOfClasses (state : WalkState) (text : List Char) : Prop :=
  state.openQuote = some '/' → '[' ∉ text ∧ ']' ∉ text

theorem step_of_isSettled_of_none {state : WalkState} (hopen : state.openQuote = none) {c : Char}
    (hc : isSettled c = true) (ahead : Option Char) :
    state.step c ahead = (.code, state.seeCode c) := by
  simp [step, hopen, isQuote_of_isSettled hc, (ne_of_isSettled hc).1]

/-- A settled character is quoted in a literal and code outside, keeps the literal, and
leaves nothing protected. -/
theorem step_of_isSettled {state : WalkState} (hsound : state.Sound) {c : Char}
    (hc : isSettled c = true) (hclasses : state.FreeOfClasses [c]) (ahead : Option Char) :
    KeepsLiteral state (state.step c ahead).2 ∧ (state.step c ahead).2.escaped = false ∧
      ((state.step c ahead).1 = .code ↔ state.openQuote = none) := by
  obtain ⟨hslash, hbackslash⟩ := ne_of_isSettled hc
  have hnoQuote := isQuote_of_isSettled hc
  cases hopen : state.openQuote with
  | none =>
      rw [step_of_isSettled_of_none hopen hc]
      refine ⟨⟨seeCode_openQuote _ _, seeCode_inClass _ _, fun hne => absurd hopen hne⟩, ?_, ?_⟩
      · rw [seeCode_escaped, hsound.escaped hopen]
      · simp
  | some quote =>
      have hquote : c ≠ quote := by
        rintro rfl
        rcases hsound.delimiter c hopen with hdelimiter | hdelimiter
        · rw [hnoQuote] at hdelimiter
          cases hdelimiter
        · exact hslash hdelimiter
      have hstep : state.step c ahead = (.quoted, { state with escaped := false }) := by
        have hsquare : quote = '/' → c ≠ '[' ∧ c ≠ ']' := by
          rintro rfl
          have hfree := hclasses hopen
          simp only [List.mem_singleton] at hfree
          exact ⟨Ne.symm hfree.1, Ne.symm hfree.2⟩
        obtain ⟨openQuote, escaped, inClass, lastCode⟩ := state
        cases hopen
        cases escaped with
        | true => simp [step]
        | false =>
            simp only [step, hbackslash, hquote]
            by_cases hregex : quote = '/'
            · simp [hsquare hregex]
            · simp [hregex]
      rw [hstep]
      exact ⟨⟨rfl, rfl, fun _ => rfl⟩, rfl, by simp⟩

theorem FreeOfClasses.of_cons {state : WalkState} {c : Char} {text : List Char}
    (hclasses : state.FreeOfClasses (c :: text)) :
    state.FreeOfClasses [c] ∧ state.FreeOfClasses text := by
  constructor <;> intro hopen <;> have hfree := hclasses hopen <;>
    simp only [List.mem_cons, not_or] at hfree
  · simp [hfree]
  · exact ⟨hfree.1.2, hfree.2.2⟩

theorem run_of_isSettled {state : WalkState} (hsound : state.Sound) {text : List Char}
    (hsettled : ∀ c ∈ text, isSettled c = true) (hclasses : state.FreeOfClasses text) :
    KeepsLiteral state (state.run text) ∧
      (text ≠ [] ∨ state.escaped = false → (state.run text).escaped = false) := by
  induction text generalizing state with
  | nil => exact ⟨keepsLiteral_refl state, fun hcase => hcase.resolve_left (absurd rfl)⟩
  | cons c text ih =>
      rw [List.forall_mem_cons] at hsettled
      obtain ⟨hclasses, hclasses'⟩ := hclasses.of_cons
      obtain ⟨hkeeps, hescaped, -⟩ := step_of_isSettled hsound hsettled.1 hclasses text.head?
      have hclasses'' : (state.step c text.head?).2.FreeOfClasses text := by
        intro hopen
        exact hclasses' (hkeeps.openQuote ▸ hopen)
      obtain ⟨hrest, hescaped'⟩ := ih (hsound.step c text.head?) hsettled.2 hclasses''
      exact ⟨hkeeps.trans hrest, fun _ => hescaped' (.inr hescaped)⟩

/-- A settled character that is no bracket either. -/
def isIdle (c : Char) : Bool := isInert c && c != '\\'

theorem isSettled_of_isIdle {c : Char} (hc : isIdle c = true) : isSettled c = true := by
  simp only [isIdle, isInert, Bool.and_eq_true, Bool.not_eq_true', Bool.or_eq_false_iff] at hc
  simp only [isSettled, Bool.and_eq_true, Bool.not_eq_true']
  exact ⟨hc.1.1.1, hc.2⟩

theorem isInert_of_isIdle {c : Char} (hc : isIdle c = true) : isInert c = true :=
  (Bool.and_eq_true_iff.mp hc).1

theorem isIdle_of_all {text : List Char} (hall : text.all isIdle = true) :
    ∀ c ∈ text, isIdle c = true := List.all_eq_true.mp hall

theorem isIdle_of_isBlank {c : Char} (hblank : Text.isBlank c = true) : isIdle c = true := by
  have hbackslash : c ≠ '\\' := by
    rintro rfl
    exact absurd hblank (by decide)
  simp [isIdle, isInert_of_isBlank hblank, hbackslash]

theorem isBracket_of_isIdle {c : Char} (hc : isIdle c = true) (region : Region)
    (after : WalkState) : (⟨c, region, after⟩ : WalkStep).isBracket = false := by
  simp only [isIdle, isInert, Bool.and_eq_true, Bool.not_eq_true', Bool.or_eq_false_iff] at hc
  simp [WalkStep.isBracket, hc.1.1.2, hc.1.2]

theorem freeOfClasses_of_isIdle {text : List Char} (hidle : ∀ c ∈ text, isIdle c = true)
    (state : WalkState) : state.FreeOfClasses text := by
  intro _
  constructor <;> intro hmem <;> exact absurd (hidle _ hmem) (by decide)

/-- A text of idle characters changes no bracket, and passes if it has no line feed in a
literal that has to close on its line. -/
theorem foldlM_nestBracket_of_isIdle {state : WalkState} (hsound : state.Sound)
    {text : List Char} (hidle : ∀ c ∈ text, isIdle c = true)
    (hfeed : '\n' ∈ text → BracketScan.staysOnLine state.openQuote = false)
    (opened : List Char) : (walkFrom state text).foldlM nestBracket opened = some opened := by
  induction text generalizing state with
  | nil => rfl
  | cons c text ih =>
      rw [List.forall_mem_cons] at hidle
      have hfirst : ∀ d ∈ [c], isIdle d = true := by simpa using hidle.1
      obtain ⟨hkeeps, -, -⟩ := step_of_isSettled hsound (isSettled_of_isIdle hidle.1)
        (freeOfClasses_of_isIdle hfirst state) text.head?
      have hstep : nestBracket opened
          ⟨c, (state.step c text.head?).1, (state.step c text.head?).2⟩ = some opened := by
        have hbreaks : (⟨c, (state.step c text.head?).1, (state.step c text.head?).2⟩ :
            WalkStep).breaksLiteral = false := by
          by_cases hc : c = '\n'
          · simp [WalkStep.breaksLiteral, hkeeps.openQuote, hfeed (by simp [hc])]
          · simp [WalkStep.breaksLiteral, hc]
        rw [nestBracket_eq, isBracket_of_isIdle hidle.1, hbreaks]
        rfl
      rw [walkFrom_cons, List.foldlM_cons, hstep]
      refine ih (hsound.step c text.head?) hidle.2 fun hmem => ?_
      rw [hkeeps.openQuote]
      exact hfeed (List.mem_cons_of_mem _ hmem)

/-- A text with characters that are idle and, among the added ones, brackets. -/
def Quiet (tagged : TaggedText) : Prop :=
  ∀ p ∈ tagged, isIdle p.1 = true ∨ p.2 = .added ∧ isSettled p.1 = true

theorem Quiet.isSettled {tagged : TaggedText} (hquiet : Quiet tagged) :
    ∀ c ∈ tagged.text, isSettled c = true := by
  intro c hc
  obtain ⟨p, hp, rfl⟩ := List.mem_map.mp hc
  exact (hquiet p hp).elim isSettled_of_isIdle And.right

theorem quiet_copied {text : List Char} (hidle : ∀ c ∈ text, isIdle c = true) :
    Quiet (.copied text) := by
  intro p hp
  obtain ⟨c, hc, rfl⟩ := List.mem_map.mp hp
  exact .inl (hidle c hc)

theorem quiet_added {text : List Char} (hsettled : ∀ c ∈ text, isSettled c = true) :
    Quiet (.added text) := by
  intro p hp
  obtain ⟨c, hc, rfl⟩ := List.mem_map.mp hp
  exact .inr ⟨rfl, hsettled c hc⟩

theorem Quiet.append {first second : TaggedText} (hfirst : Quiet first) (hsecond : Quiet second) :
    Quiet (first ++ second) := by
  intro p hp
  exact (List.mem_append.mp hp).elim (hfirst p) (hsecond p)

theorem isIdle_lineFeed : ∀ c ∈ ['\n'], isIdle c = true := isIdle_of_all rfl

/-- A quiet text changes no bracket that is copied. -/
theorem original_of_quiet {state : WalkState} (hsound : state.Sound) {tagged : TaggedText}
    (hquiet : Quiet tagged) (hclasses : state.FreeOfClasses tagged.text)
    {opened opened' : TaggedText}
    (hpair : (taggedSteps state tagged).foldlM pairBracket opened = some opened') :
    opened'.original = opened.original ∧
      ('\n' ∈ tagged.text → BracketScan.staysOnLine state.openQuote = false) := by
  induction tagged generalizing state opened with
  | nil =>
      obtain rfl : opened = opened' := by simpa [taggedSteps, walkFrom] using hpair
      exact ⟨rfl, by simp⟩
  | cons p tagged ih =>
      obtain ⟨c, origin⟩ := p
      obtain ⟨hfirst, hquiet⟩ := List.forall_mem_cons.mp hquiet
      rw [TaggedText.text_cons] at hclasses
      obtain ⟨hclasses, hclasses'⟩ := hclasses.of_cons
      have hsettled : isSettled c = true := hfirst.elim isSettled_of_isIdle And.right
      obtain ⟨hkeeps, -, -⟩ :=
        step_of_isSettled hsound hsettled hclasses (TaggedText.text tagged).head?
      rw [taggedSteps_cons, List.foldlM_cons, Option.bind_eq_bind, Option.bind_eq_some_iff] at hpair
      obtain ⟨middle, hstep, hrest⟩ := hpair
      have hmiddle : middle.original = opened.original := by
        rcases hfirst with hidle | ⟨rfl, -⟩
        · exact original_of_pairBracket_of_not_isBracket hstep (isBracket_of_isIdle hidle _ _)
        · exact original_of_pairBracket_added hstep
      obtain ⟨hopened, hfeed⟩ := ih (hsound.step c _) hquiet
        (fun hopen => hclasses' (hkeeps.openQuote ▸ hopen)) hrest
      rw [hkeeps.openQuote] at hfeed
      refine ⟨hopened.trans hmiddle, fun hmem => ?_⟩
      rcases List.mem_cons.mp hmem with rfl | hmem
      · have hbreaks := breaksLiteral_of_pairBracket hstep
        simpa [WalkStep.breaksLiteral, hkeeps.openQuote] using hbreaks
      · exact hfeed hmem

/-! ## Walks that go side by side -/

/-- Over a text that does not begin with a `/`, or begins where a `/` means the same, they
stay alike, and its brackets are open in both. -/
theorem Alike.copied {first second : WalkState} (halike : Alike first second)
    {text : List Char}
    (hslash : (Text.trimStart text).head? = some '/' →
      first.opensRegex none = second.opensRegex none) {opened opened' : TaggedText}
    (hpair : (taggedSteps second (TaggedText.copied text)).foldlM pairBracket opened =
      some opened') :
    (walkFrom first text).foldlM nestBracket opened.original = some opened'.original ∧
      Alike (first.run text) (second.run text) := by
  induction text generalizing first second opened with
  | nil =>
      obtain rfl : opened = opened' := by simpa [taggedSteps, walkFrom] using hpair
      exact ⟨rfl, halike⟩
  | cons c text ih =>
      have hcons : TaggedText.copied (c :: text) = (c, .copied) :: TaggedText.copied text := rfl
      rw [hcons, taggedSteps_cons, TaggedText.text_copied, List.foldlM_cons, Option.bind_eq_bind,
        Option.bind_eq_some_iff] at hpair
      obtain ⟨middle, hstep, hrest⟩ := hpair
      have hslash' : c = '/' → first.opensRegex none = second.opensRegex none := by
        rintro rfl
        exact hslash rfl
      obtain ⟨hregion, hafter, hoperand⟩ := halike.step hslash' text.head?
      have hnest : nestBracket opened.original
          ⟨c, (first.step c text.head?).1, (first.step c text.head?).2⟩ = some middle.original :=
        nestBracket_original hstep rfl hregion hafter.literal.1
      have hslash'' : (Text.trimStart text).head? = some '/' →
          (first.step c text.head?).2.opensRegex none =
            (second.step c text.head?).2.opensRegex none := by
        intro hhead
        cases hblank : Text.isBlank c with
        | false => exact hoperand (.inl hblank)
        | true => exact hoperand (.inr (hslash (by simpa [Text.trimStart, hblank] using hhead)))
      rw [walkFrom_cons, List.foldlM_cons, hnest]
      exact ih hafter hslash'' hrest

theorem KeepsLiteral.opensRegex {before after : WalkState} (hkeeps : KeepsLiteral before after)
    (hopen : before.openQuote ≠ none) : after.opensRegex none = before.opensRegex none := by
  simp only [WalkState.opensRegex, hkeeps.lastCode hopen]

/-- What a `/` means behind two texts, outside of literals, is the same. -/
def SameOperand (text text' : List Char) : Prop :=
  ∀ first second : WalkState, first.openQuote = none → second.openQuote = none →
    (first.run text).opensRegex none = (second.run text').opensRegex none

/-- In the place of an idle text, a quiet one keeps two walks alike, if nothing is
protected in front or neither text is empty. -/
theorem Alike.replaced {first second : WalkState} (halike : Alike first second)
    {text : List Char} {tagged : TaggedText} (hidle : ∀ c ∈ text, isIdle c = true)
    (hquiet : Quiet tagged) (hclasses : second.FreeOfClasses tagged.text)
    (hescaped : text ≠ [] ∧ tagged.text ≠ [] ∨ second.escaped = false)
    (hfeed : '\n' ∈ text → '\n' ∈ tagged.text) {opened opened' : TaggedText}
    (hpair : (taggedSteps second tagged).foldlM pairBracket opened = some opened') :
    (walkFrom first text).foldlM nestBracket opened.original = some opened'.original ∧
      Alike (first.run text) (second.run tagged.text) ∧
      (SameOperand text tagged.text →
        (first.run text).opensRegex none = (second.run tagged.text).opensRegex none) := by
  have hsound := halike.literal.sound halike.sound
  obtain ⟨hopened, hline⟩ := original_of_quiet halike.sound hquiet hclasses hpair
  obtain ⟨hkeeps, hfirst⟩ := run_of_isSettled hsound (fun c hc => isSettled_of_isIdle (hidle c hc))
    (freeOfClasses_of_isIdle hidle first)
  obtain ⟨hkeeps', hsecond⟩ := run_of_isSettled halike.sound hquiet.isSettled hclasses
  have hescaped' := hsecond (hescaped.imp_left And.right)
  have hescaped := hfirst (hescaped.imp And.left fun hnone => halike.literal.2.1.trans hnone)
  have hoperand : second.openQuote ≠ none →
      (first.run text).opensRegex none = (second.run tagged.text).opensRegex none := by
    intro hopen
    rw [hkeeps.opensRegex (by rwa [halike.literal.1]), hkeeps'.opensRegex hopen]
    exact halike.operand hopen
  refine ⟨?_, ⟨⟨?_, ?_, ?_⟩, halike.sound.run _, fun hopen => ?_⟩, fun hsame => ?_⟩
  · rw [hopened]
    refine foldlM_nestBracket_of_isIdle hsound hidle (fun hmem => ?_) _
    rw [halike.literal.1]
    exact hline (hfeed hmem)
  · rw [hkeeps.openQuote, hkeeps'.openQuote, halike.literal.1]
  · rw [hescaped, hescaped']
  · rw [hkeeps.inClass, hkeeps'.inClass, halike.literal.2.2]
  · exact hoperand (hkeeps'.openQuote ▸ hopen)
  · by_cases hopen : second.openQuote = none
    · exact hsame first second (halike.literal.1.trans hopen) hopen
    · exact hoperand hopen

theorem opensRegex_run_of_isBlank {state : WalkState} (hopen : state.openQuote = none)
    {blanks : List Char} (hblanks : ∀ c ∈ blanks, Text.isBlank c = true) :
    (state.run blanks).opensRegex none = state.opensRegex none := by
  induction blanks with
  | nil => rfl
  | cons c blanks ih =>
      rw [List.forall_mem_cons] at hblanks
      have hc : isSettled c = true := isSettled_of_isIdle (isIdle_of_isBlank hblanks.1)
      have hsee : state.seeCode c = state := if_pos hblanks.1
      rw [run_cons, step_of_isSettled_of_none hopen hc, hsee]
      exact ih hblanks.2

/-- Outside of literals, what a `/` behind a settled text means depends on the last
character that is not blank. -/
theorem opensRegex_run {state : WalkState} (hopen : state.openQuote = none)
    {front blanks : List Char} {c : Char} (hfront : ∀ d ∈ front, isSettled d = true)
    (hc : isSettled c = true) (hblank : Text.isBlank c = false)
    (hblanks : ∀ d ∈ blanks, Text.isBlank d = true) :
    (state.run (front ++ c :: blanks)).opensRegex none = expectsOperand c := by
  induction front generalizing state with
  | nil =>
      have hsee : (state.seeCode c).openQuote = none := by rw [seeCode_openQuote, hopen]
      rw [List.nil_append, run_cons, step_of_isSettled_of_none hopen hc,
        opensRegex_run_of_isBlank hsee hblanks, seeCode_opensRegex, if_neg (by simp [hblank])]
  | cons d front ih =>
      rw [List.forall_mem_cons] at hfront
      have hsee : (state.seeCode d).openQuote = none := by rw [seeCode_openQuote, hopen]
      rw [List.cons_append, run_cons, step_of_isSettled_of_none hopen hfront.1]
      exact ih hsee hfront.2

/-- All of the text is settled, and `c` is its last character that is not blank. -/
def LastCode (c : Char) (text : List Char) : Prop :=
  ∃ front blanks, text = front ++ c :: blanks ∧ (∀ d ∈ front, isSettled d = true) ∧
    isSettled c = true ∧ Text.isBlank c = false ∧ ∀ d ∈ blanks, Text.isBlank d = true

theorem LastCode.sameOperand {c c' : Char} {text text' : List Char} (hlast : LastCode c text)
    (hlast' : LastCode c' text') (hsame : expectsOperand c = expectsOperand c') :
    SameOperand text text' := by
  obtain ⟨front, blanks, rfl, hfront, hc, hblank, hblanks⟩ := hlast
  obtain ⟨front', blanks', rfl, hfront', hc', hblank', hblanks'⟩ := hlast'
  intro first second hfirst hsecond
  rw [opensRegex_run hfirst hfront hc hblank hblanks,
    opensRegex_run hsecond hfront' hc' hblank' hblanks', hsame]

/-- Two states at the beginning of a line. -/
structure Fresh (first second : WalkState) : Prop where
  alike : Alike first second
  escaped : second.escaped = false
  line : BracketScan.staysOnLine second.openQuote = false

theorem fresh_init : Fresh {} {} := ⟨alike_init, rfl, rfl⟩

/-- Behind a line feed that passes, a line begins. -/
theorem Alike.fresh {first second : WalkState} {tagged : TaggedText} {origin : Origin}
    (halike : Alike first (second.run (TaggedText.text (tagged ++ [('\n', origin)]))))
    (hsound : second.Sound) {opened opened' : TaggedText}
    (hpair : (taggedSteps second (tagged ++ [('\n', origin)])).foldlM pairBracket opened =
      some opened') :
    Fresh first (second.run (TaggedText.text (tagged ++ [('\n', origin)]))) := by
  have hseam : Seam (TaggedText.text tagged) (TaggedText.text [('\n', origin)]) := by
    intro _
    simp
  have hrun : second.run (TaggedText.text (tagged ++ [('\n', origin)])) =
      ((second.run (TaggedText.text tagged)).step '\n' none).2 := by
    rw [TaggedText.text_append, run_append_of_seam hseam]
    rfl
  obtain ⟨-, hescaped, -⟩ := step_of_isSettled (hsound.run (TaggedText.text tagged))
    (show isSettled '\n' = true from rfl) (fun _ => by decide) none
  rw [taggedSteps_append hseam, List.foldlM_append, Option.bind_eq_bind, Option.bind_eq_some_iff]
    at hpair
  obtain ⟨middle, -, hlast⟩ := hpair
  rw [taggedSteps_cons, List.foldlM_cons, Option.bind_eq_bind, Option.bind_eq_some_iff] at hlast
  obtain ⟨last, hstep, -⟩ := hlast
  refine ⟨halike, by rw [hrun, hescaped], ?_⟩
  rw [hrun]
  simpa [WalkStep.breaksLiteral] using breaksLiteral_of_pairBracket hstep

end WalkState

/-! ## Texts written around others -/

open WalkState

/-- Between beginnings of lines, what is written around a text does to the copied brackets
what the text does to its own. -/
def Tracks (text : List Char) (written : TaggedText) : Prop :=
  ∀ first second : WalkState, Fresh first second → ∀ opened opened' : TaggedText,
    (taggedSteps second written).foldlM pairBracket opened = some opened' →
      (walkFrom first text).foldlM nestBracket opened.original = some opened'.original ∧
        Fresh (first.run text) (second.run written.text)

theorem tracks_nil : Tracks [] [] := by
  intro first second hfresh opened opened' hpair
  obtain rfl : opened = opened' := by simpa [taggedSteps, walkFrom] using hpair
  exact ⟨rfl, hfresh⟩

theorem Tracks.append {text text' : List Char} {written written' : TaggedText}
    (htracks : Tracks text written) (htracks' : Tracks text' written')
    (htext : text.getLast? ≠ some '/') (hwritten : written.text.getLast? ≠ some '/') :
    Tracks (text ++ text') (written ++ written') := by
  intro first second hfresh opened opened' hpair
  have hseam := seam_of_getLast?_ne hwritten written'.text
  rw [taggedSteps_append hseam, List.foldlM_append, Option.bind_eq_bind,
    Option.bind_eq_some_iff] at hpair
  obtain ⟨middle, hpair, hpair'⟩ := hpair
  obtain ⟨hnest, hmiddle⟩ := htracks first second hfresh opened middle hpair
  obtain ⟨hnest', hend⟩ := htracks' _ _ hmiddle middle opened' hpair'
  rw [walkFrom_append htext, run_append htext, TaggedText.text_append, run_append hwritten,
    List.foldlM_append, hnest]
  exact ⟨hnest', hend⟩

theorem seam_of_isSettled {first : List Char} (hsettled : ∀ c ∈ first, isSettled c = true)
    (second : List Char) : Seam first second := by
  refine seam_of_getLast?_ne (getLast?_ne_slash fun hmem => ?_) second
  exact absurd (hsettled '/' hmem) (by decide)

theorem seam_of_head?_ne (first : List Char) {second : List Char}
    (hsettled : ∀ c ∈ second, isSettled c = true) (hne : second ≠ [])
    (hhead : ∀ c ∈ second.head?, c ≠ '*') (third : List Char) : Seam first (second ++ third) := by
  intro _ c hc
  rw [List.head?_append_of_ne_nil _ hne] at hc
  exact ⟨(ne_of_isSettled (hsettled c (List.mem_of_mem_head? hc))).1, hhead c hc⟩

/-- A line that is copied. -/
theorem tracks_copied {raw : List Char} (hslash : (Text.trimStart raw).head? ≠ some '/') :
    Tracks (raw ++ ['\n']) (.copied (raw ++ ['\n'])) := by
  intro first second hfresh opened opened' hpair
  have hslash' : (Text.trimStart (raw ++ ['\n'])).head? = some '/' →
      first.opensRegex none = second.opensRegex none := by
    intro hhead
    rw [Text.trimStart, List.dropWhile_append] at hhead
    split at hhead
    · cases hhead
    · rename_i hne
      rw [List.head?_append_of_ne_nil _ (by simpa using hne)] at hhead
      exact absurd hhead hslash
  obtain ⟨hnest, hend⟩ := hfresh.alike.copied hslash' hpair
  have hconcat : TaggedText.copied (raw ++ ['\n']) =
      TaggedText.copied raw ++ [('\n', Origin.copied)] := List.map_append
  have htext :
      TaggedText.text (TaggedText.copied raw ++ [('\n', Origin.copied)]) = raw ++ ['\n'] := by
    simp
  rw [TaggedText.text_copied]
  rw [hconcat] at hpair
  rw [← htext] at hend ⊢
  exact ⟨by rwa [htext], hend.fresh hfresh.alike.sound hpair⟩

/-- A line that is rewritten: an idle text in front becomes a quiet one, and so does one
behind a middle that is copied. -/
theorem tracks_rewritten {front middle back behind : List Char} {opening closing : TaggedText}
    (hfront : ∀ c ∈ front, isIdle c = true) (hopening : Quiet opening)
    (hmiddle : (Text.trimStart middle).head? = some '/' → SameOperand front opening.text)
    (hback : ∀ c ∈ back, isIdle c = true) (hclosing : Quiet closing)
    (hhead : ∀ c ∈ back.head?, c ≠ '*') (hhead' : ∀ c ∈ closing.text.head?, c ≠ '*')
    (hne : back ≠ []) (hne' : closing.text ≠ [])
    (hclasses : '[' ∉ closing.text ∧ ']' ∉ closing.text)
    (hfeed : '\n' ∉ front) (hfeed' : '\n' ∈ back → '\n' ∈ closing.text)
    (hbehind : (Text.trimStart behind).head? = some '/' → SameOperand back closing.text)
    {front' : TaggedText} {origin : Origin}
    (hend : opening ++ (.copied middle ++ (closing ++ .copied behind)) =
      front' ++ [('\n', origin)]) :
    Tracks (front ++ (middle ++ (back ++ behind)))
      (opening ++ (.copied middle ++ (closing ++ .copied behind))) := by
  intro first second hfresh opened opened' hpair
  -- The four pieces, one after the other, in both texts.
  have hwhole := hpair
  have hseam := seam_of_isSettled hopening.isSettled
    (TaggedText.text (.copied middle ++ (closing ++ .copied behind)))
  have hseam' : Seam (TaggedText.text (.copied middle))
      (TaggedText.text (closing ++ .copied behind)) := by
    rw [TaggedText.text_append]
    exact seam_of_head?_ne _ hclosing.isSettled hne' hhead' _
  have hseam'' := seam_of_isSettled hclosing.isSettled (TaggedText.text (.copied behind))
  rw [taggedSteps_append hseam, taggedSteps_append hseam', taggedSteps_append hseam''] at hpair
  simp only [List.foldlM_append, Option.bind_eq_bind, Option.bind_eq_some_iff,
    TaggedText.text_copied] at hpair
  obtain ⟨opened₁, hpair₁, opened₂, hpair₂, opened₃, hpair₃, hpair₄⟩ := hpair
  have hsettled : ∀ c ∈ front, isSettled c = true := fun c hc => isSettled_of_isIdle (hfront c hc)
  have hsettled' : ∀ c ∈ back, isSettled c = true := fun c hc => isSettled_of_isIdle (hback c hc)
  have hfree : second.FreeOfClasses opening.text := by
    intro hopen
    have hline := hfresh.line
    rw [hopen] at hline
    cases hline
  obtain ⟨hnest₁, halike₁, hoperand₁⟩ := hfresh.alike.replaced hfront hopening hfree
    (.inr hfresh.escaped) (fun hmem => absurd hmem hfeed) hpair₁
  obtain ⟨hnest₂, halike₂⟩ := halike₁.copied (fun hhead => hoperand₁ (hmiddle hhead)) hpair₂
  obtain ⟨hnest₃, halike₃, hoperand₃⟩ := halike₂.replaced hback hclosing (fun _ => hclasses)
    (.inl ⟨hne, hne'⟩) hfeed' hpair₃
  obtain ⟨hnest₄, halike₄⟩ := halike₃.copied (fun hhead => hoperand₃ (hbehind hhead)) hpair₄
  have hrun : first.run (front ++ (middle ++ (back ++ behind))) =
      (((first.run front).run middle).run back).run behind := by
    rw [run_append_of_seam (seam_of_isSettled hsettled _),
      run_append_of_seam (seam_of_head?_ne _ hsettled' hne hhead _),
      run_append_of_seam (seam_of_isSettled hsettled' _)]
  have hrun' : second.run (TaggedText.text
      (opening ++ (.copied middle ++ (closing ++ .copied behind)))) =
      (((second.run opening.text).run middle).run closing.text).run behind := by
    rw [TaggedText.text_append, run_append_of_seam hseam, TaggedText.text_append,
      run_append_of_seam hseam', TaggedText.text_append, run_append_of_seam hseam'']
    simp only [TaggedText.text_copied]
  constructor
  · rw [walkFrom_append_of_seam (seam_of_isSettled hsettled _),
      walkFrom_append_of_seam (seam_of_head?_ne _ hsettled' hne hhead _),
      walkFrom_append_of_seam (seam_of_isSettled hsettled' _)]
    simp only [List.foldlM_append, hnest₁, hnest₂, hnest₃, Option.bind_eq_bind, Option.bind_some]
    exact hnest₄
  · rw [← hrun, ← hrun'] at halike₄
    rw [hend] at halike₄ hwhole ⊢
    exact halike₄.fresh hfresh.alike.sound hwhole

/-- If what is written around a text passes the check of delimiters and its brackets pair
off, the text passes. -/
theorem Tracks.validateDelimiters {text : List Char} {written : TaggedText}
    (htracks : Tracks text written) (hpairs : PairsOff written)
    (hvalid : validateDelimiters written.text = .ok ()) : validateDelimiters text = .ok () := by
  rw [validateDelimiters_eq_ok_iff] at hvalid ⊢
  obtain ⟨hbrackets, hopen⟩ := hvalid
  obtain ⟨opened, hpair⟩ := Option.isSome_iff_exists.mp hpairs
  have hsteps : (taggedSteps {} written).map Prod.fst = walk written.text := by
    refine List.map_fst_zip ?_
    rw [length_walkFrom, TaggedText.text, List.length_map, List.length_map]
  have hclosed := foldlM_nestBracket_of_pairBracket hpair
  rw [hsteps, TaggedText.text_nil, hbrackets, Option.some_inj] at hclosed
  obtain rfl : opened = [] := List.map_eq_nil_iff.mp hclosed.symm
  obtain ⟨hnest, hend⟩ := htracks {} {} fresh_init [] [] hpair
  exact ⟨hnest, hend.alike.literal.1.trans hopen⟩

/-- A line feed at the end makes no difference to the check. -/
theorem validateDelimiters_of_lineFeed {text : List Char}
    (hvalid : validateDelimiters (text ++ ['\n']) = .ok ()) :
    validateDelimiters text = .ok () := by
  rw [validateDelimiters_eq_ok_iff] at hvalid ⊢
  obtain ⟨hbrackets, hopen⟩ := hvalid
  have hseam : Seam text ['\n'] := fun _ => by simp
  have hsound : (endOfWalk text).Sound := clean_init.sound.run text
  obtain ⟨hkeeps, -⟩ := run_of_isSettled hsound
    (fun c hc => isSettled_of_isIdle (isIdle_lineFeed c hc))
    (freeOfClasses_of_isIdle isIdle_lineFeed _)
  have hquote : (endOfWalk text).openQuote = none := by
    rw [endOfWalk, run_append_of_seam hseam] at hopen
    rw [← hkeeps.openQuote]
    exact hopen
  have hfeed := foldlM_nestBracket_of_isIdle hsound isIdle_lineFeed fun _ => by
    rw [hquote]
    rfl
  rw [walk, walkFrom_append_of_seam hseam, List.foldlM_append, Option.bind_eq_bind,
    Option.bind_eq_some_iff] at hbrackets
  obtain ⟨opened, hopened, hlast⟩ := hbrackets
  obtain rfl := Option.some_inj.mp ((hfeed opened).symm.trans hlast)
  exact ⟨hopened, hquote⟩

end Offside
