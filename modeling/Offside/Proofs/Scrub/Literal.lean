/-
# How a walk meets the literals of a scrubbed line

Whoever looks at a scrubbed source one line at a time begins a walk anew on each line,
and decides from the line alone which characters stand in literals. The tokens of the
source have decided that already, from the whole of it. The two can differ at a quote
that nothing closes: the walk takes all that follows on the line to be quoted.

Nothing comes of it for a string literal. Where the walk does not have a quote open, it
takes the literal as the tokens do. Where it has one open, that quote is of the other
kind, the literal keeps it open, and the walk sees no code in the literal at all. So in
front of a literal a walk is in one of two situations, `Between`, and either way it gets
past the literal without looking into it, `Skips`.

Only a `/` or a grave accent in front of the literal could open something else.
-/

import Offside.Proofs.Scrub.Rescan
import Offside.Proofs.Walk.Literal

namespace Offside

open Token

theorem Token.eq_of_quote? {kind : TokenKind} {quote : Char} (hquote : quote? kind = some quote) :
    quote = '"' ∨ quote = '\'' := by
  cases kind with
  | doubleQuoted => exact .inl (Option.some_inj.mp hquote).symm
  | singleQuoted => exact .inr (Option.some_inj.mp hquote).symm
  | comment | text => cases hquote

theorem Token.isPlain_of_quote? {kind : TokenKind} {quote : Char}
    (hquote : quote? kind = some quote) : isPlain quote = false := by
  rcases eq_of_quote? hquote with rfl | rfl <;> rfl

namespace WalkState

/-! ## Strings -/

variable {state : WalkState} {kind : TokenKind} {quote : Char}

theorem isQuote_of_quote? (hquote : quote? kind = some quote) : isQuote quote = true := by
  rcases eq_of_quote? hquote with rfl | rfl <;> rfl

/-- Text without quotes and without a `/` opens nothing. -/
theorem Clean.run (hclean : state.Clean) {text : List Char}
    (htext : ∀ c ∈ text, isQuote c = false ∧ c ≠ '/') : (state.run text).Clean := by
  induction text generalizing state with
  | nil => exact hclean
  | cons c text ih =>
      rw [List.forall_mem_cons] at htext
      have hstep : state.step c text.head? = (.code, state.seeCode c) := by
        simp [step, hclean.1, htext.1]
      rw [run_cons, hstep]
      exact ih ((sameLiteral_seeCode state c).trans hclean) htext.2

/-! ## Between two tokens -/

/-- Where a walk may be in front of a rest of the source: outside of literals, or in a
string whose quote the rest leaves open. -/
def Between (state : WalkState) (rest : List Char) : Prop :=
  state.Clean ∨ ∃ kind quote escaped, quote? kind = some quote ∧ state.openQuote = some quote ∧
    state.inClass = false ∧ Sealed escaped quote rest

/-- A walk gets past a literal without looking into it: it takes the literal as one, or
has a string open that the literal does not close. -/
def Skips (state : WalkState) (quote : Char) (literal : List Char) : Prop :=
  (state.Clean ∧ ∃ body, literal = quote :: body ++ [quote] ∧ Sealed false quote body ∧
      pending false body = false) ∨
    ∃ kind delimiter, quote? kind = some delimiter ∧ state.openQuote = some delimiter ∧
      state.inClass = false ∧ Sealed state.escaped delimiter literal

theorem Skips.congr {first second : WalkState} {literal : List Char}
    (hskips : Skips first quote literal) (hsame : SameLiteral first second) :
    Skips second quote literal := by
  obtain ⟨hquote, hescaped, hclass⟩ := hsame
  rcases hskips with ⟨hclean, hliteral⟩ | ⟨kind, delimiter, hdelimiter, hopen, hnone, hsealed⟩
  · exact .inl ⟨SameLiteral.trans ⟨hquote.symm, hescaped.symm, hclass.symm⟩ hclean, hliteral⟩
  · exact .inr ⟨kind, delimiter, hdelimiter, hquote ▸ hopen, hclass ▸ hnone, hescaped ▸ hsealed⟩

theorem isQuote_of_isPlain {c : Char} (hplain : isPlain c = true) (hgrave : c ≠ '\x60')
    (hslash : c ≠ '/') : isQuote c = false ∧ c ≠ '/' := by
  simp only [isPlain, Bool.and_eq_true, decide_eq_true_eq] at hplain
  exact ⟨by simp [isQuote, hplain, hgrave], hslash⟩

/-- What is left of a literal has its quotes still, and no other that closes it. -/
theorem exists_scrubbed_literal (hquote : quote? kind = some quote) {body : List Char}
    (hbody : Sealed false quote body) (hclose : pending false body = false) :
    ∃ body', scrubbed ⟨kind, quote :: body ++ [quote]⟩ = quote :: body' ++ [quote] ∧
      Sealed false quote body' ∧ pending false body' = false := by
  refine ⟨body.flatMap escapeLineFeed, ?_, (sealed_flatMap_escapeLineFeed_iff hquote _ _).mpr hbody,
    by rw [pending_flatMap_escapeLineFeed, hclose]⟩
  rw [scrubbed_of_isString (isString_of_quote? hquote _)]
  simp [escapeLineFeed_quote hquote]

/-- Past one token, a walk is between tokens again. -/
theorem Between.run_token {token : Token} {after : List Char} (hleads : Leads token after)
    (hslash : '/' ∉ token.scrubbed) (hgrave : '\x60' ∉ token.scrubbed)
    (hbetween : Between state (token.text ++ after)) :
    Between (state.run token.scrubbed) after := by
  rcases hbetween with hclean | ⟨kind, quote, escaped, hquote, hopen, hclass, hsealed⟩
  · cases hleads with
    | literal hquote hbody hclose =>
        left
        obtain ⟨body, hscrubbed, hbody, hclose⟩ := exists_scrubbed_literal hquote hbody hclose
        rw [hscrubbed, hclean.run_literal (isQuote_of_quote? hquote) ⟨hbody, hclose⟩]
        exact ⟨rfl, rfl, rfl⟩
    | @loneQuote kind quote _ hquote hopen =>
        right
        rw [scrubbed, run_cons, step_of_clean (isQuote_of_quote? hquote) hclean]
        exact ⟨kind, quote, false, hquote, rfl, rfl, hopen⟩
    | blockComment | lineComment => exact .inl hclean
    | run _ hrun _ =>
        refine .inl (hclean.run fun c hc => ?_)
        exact isQuote_of_isPlain (hrun c hc) (fun heq => hgrave (heq ▸ hc))
          fun heq => hslash (heq ▸ hc)
  · rw [sealed_append_iff] at hsealed
    obtain ⟨htoken, hafter⟩ := hsealed
    -- A token that keeps the string open leaves the question to the rest.
    have hpass : Sealed state.escaped quote token.scrubbed →
        Between (state.run token.scrubbed) after := by
      intro hscrubbed
      rw [run_of_sealed (isQuote_of_quote? hquote) hopen hclass hscrubbed]
      exact .inr ⟨kind, quote, _, hquote, hopen, hclass, hafter⟩
    cases hleads with
    | literal hdelimiter _ hclose =>
        apply hpass
        rw [scrubbed_of_isString (isString_of_quote? hdelimiter _)]
        exact sealed_scrubbed_literal hquote hdelimiter hclose htoken state.escaped
    | @loneQuote _ delimiter _ _ _ =>
        by_cases hcloses : delimiter = quote ∧ state.escaped = false
        · obtain ⟨rfl, hescaped⟩ := hcloses
          left
          rw [scrubbed, run_cons, step_of_closes (isQuote_of_quote? hquote) hopen hescaped hclass]
          exact ⟨rfl, rfl, rfl⟩
        · apply hpass
          refine sealed_cons_iff.mpr ⟨fun heq => ?_, sealed_nil⟩
          simpa [heq] using hcloses
    | blockComment | lineComment => exact hpass sealed_nil
    | run _ hrun _ => exact hpass (sealed_run hquote hrun state.escaped)

/-! ## From the beginning of a line -/

theorem exists_after_of_tokenize_eq_cons {source : List Char} {token : Token} {tokens : List Token}
    (htokens : tokenize source = token :: tokens) :
    ∃ after, source = token.text ++ after ∧ Leads token after ∧ tokenize after = tokens := by
  cases source with
  | nil =>
      rw [tokenize] at htokens
      cases htokens
  | cons c rest =>
      rw [tokenize] at htokens
      obtain ⟨rfl, rfl⟩ := List.cons.inj htokens
      exact ⟨_, (next_append c rest).symm, next_leads c rest, rfl⟩

/-- Past many tokens as well. -/
theorem Between.run_tokens {front back : List Token} {source : List Char}
    (htokens : tokenize source = front ++ back) (hslash : '/' ∉ front.flatMap scrubbed)
    (hgrave : '\x60' ∉ front.flatMap scrubbed) (hbetween : Between state source) :
    ∃ rest, tokenize rest = back ∧ Between (state.run (front.flatMap scrubbed)) rest := by
  induction front generalizing source state with
  | nil => exact ⟨source, htokens, hbetween⟩
  | cons token front ih =>
      obtain ⟨after, rfl, hleads, hrest⟩ := exists_after_of_tokenize_eq_cons htokens
      rw [List.flatMap_cons, List.mem_append, not_or] at hslash hgrave
      rw [List.flatMap_cons, run_append (getLast?_ne_slash hslash.1)]
      exact ih hrest hslash.2 hgrave.2 (hbetween.run_token hleads hslash.1 hgrave.1)

/-- Only a run of other text has a line feed left in it. -/
theorem isPlain_of_lineFeed_mem {token : Token} {after : List Char} (hleads : Leads token after)
    (hfeed : '\n' ∈ token.scrubbed) : ∀ c ∈ token.scrubbed, isPlain c = true := by
  cases hleads with
  | literal hquote _ _ =>
      rw [scrubbed_of_isString (isString_of_quote? hquote _)] at hfeed
      exact absurd hfeed (notMem_flatMap_escapeLineFeed _)
  | @loneQuote kind quote _ hquote _ =>
      obtain rfl : '\n' = quote := List.mem_singleton.mp hfeed
      exact absurd (eq_of_quote? hquote) (by decide)
  | blockComment | lineComment => cases hfeed
  | run _ hrun _ => exact hrun

/-- A walk that begins with a line of the scrubbed source is between tokens where the
tokens of the line end. -/
theorem exists_between {front back : List Token} {source : List Char}
    (htokens : tokenize source = front ++ back) {before line : List Char}
    (hsplit : front.flatMap scrubbed = before ++ line)
    (hstart : ∀ c ∈ before.getLast?, c = '\n') (hslash : '/' ∉ line) (hgrave : '\x60' ∉ line) :
    ∃ rest, tokenize rest = back ∧ Between (WalkState.run {} line) rest := by
  induction front generalizing source before with
  | nil =>
      obtain ⟨-, rfl⟩ := List.append_eq_nil_iff.mp hsplit.symm
      exact ⟨source, htokens, .inl clean_init⟩
  | cons token front ih =>
      obtain ⟨after, rfl, hleads, hrest⟩ := exists_after_of_tokenize_eq_cons htokens
      rw [List.flatMap_cons, List.append_eq_append_iff] at hsplit
      rcases hsplit with ⟨behind, rfl, hlater⟩ | ⟨part, htoken, rfl⟩
      · -- The line begins behind the token.
        refine ih hrest hlater fun c hc => hstart c ?_
        rw [List.getLast?_append, Option.mem_def.mp hc]
        rfl
      · -- The line begins with the token, or in it.
        rw [List.mem_append, not_or] at hslash hgrave
        have hpart : Between (WalkState.run {} part) after := by
          cases hbefore : before.getLast? with
          | none =>
              obtain rfl := List.getLast?_eq_none_iff.mp hbefore
              obtain rfl : token.scrubbed = part := htoken
              exact Between.run_token hleads hslash.1 hgrave.1 (.inl clean_init)
          | some last =>
              obtain rfl := hstart last hbefore
              have hfeed : '\n' ∈ token.scrubbed :=
                htoken ▸ List.mem_append_left _ (List.mem_of_getLast? hbefore)
              have hplain := isPlain_of_lineFeed_mem hleads hfeed
              refine .inl (clean_init.run fun c hc => ?_)
              exact isQuote_of_isPlain (hplain c (htoken ▸ List.mem_append_right _ hc))
                (fun heq => hgrave.1 (heq ▸ hc)) fun heq => hslash.1 (heq ▸ hc)
        rw [run_append (getLast?_ne_slash hslash.1)]
        exact hpart.run_tokens hrest hslash.2 hgrave.2

/-- In front of a literal, a walk is about to get past it. -/
theorem Between.skips {token : Token} {after : List Char} (hleads : Leads token after)
    (hquote : quote? token.kind = some quote) (hbetween : Between state (token.text ++ after)) :
    state.Skips quote token.scrubbed := by
  cases hleads with
  | @literal kind quote' body _ hquote' hbody hclose =>
      obtain rfl : quote' = quote := Option.some_inj.mp (hquote'.symm.trans hquote)
      rcases hbetween with hclean | ⟨kind', delimiter, escaped, hdelimiter, hopen, hclass, hsealed⟩
      · exact .inl ⟨hclean, exists_scrubbed_literal hquote' hbody hclose⟩
      · refine .inr ⟨kind', delimiter, hdelimiter, hopen, hclass, ?_⟩
        rw [scrubbed_of_isString (isString_of_quote? hquote' _)]
        exact sealed_scrubbed_literal hdelimiter hquote' hclose (sealed_append_iff.mp hsealed).1 _
  | loneQuote | blockComment | lineComment | run => cases hquote

end WalkState

end Offside
