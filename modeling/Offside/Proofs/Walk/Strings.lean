/-
# Tokens and walks agree on strings

Two readers decide where a string ends. The tokens take backslash pairs two characters at a
time; a walk remembers a bit between two characters. They are compared here on the texts in
which both speak of strings only: no `/` and no grave accent, which open literals for a walk
alone, and neither a comment nor a quote that nothing closes, which a walk does not know.

What the tokens say is spelled out character by character in `Token.regions`: a string is
code at its two ends and quoted between them, and everything else is code. A walk that is
outside of literals in front of a token reports just that, and is outside of literals again
behind it. So it is for the whole text, one token at a time.
-/

import Offside.Proofs.Scrub.Meaning

namespace Offside

/-- The tokens of the text are string literals and text without quotes. -/
structure Matched (text : List Char) : Prop where
  comment : ∀ token ∈ tokenize text, token.kind ≠ .comment
  doubleQuote : ⟨.text, ['"']⟩ ∉ tokenize text
  singleQuote : ⟨.text, ['\'']⟩ ∉ tokenize text

/-- Where the characters of a token stand: those of a string between its quotes are quoted,
its quotes and all other text are code. -/
def Token.regions (token : Token) : List Region :=
  if token.isString then
    .code :: List.replicate (token.text.length - 2) .quoted ++ [.code]
  else List.replicate token.text.length .code

/-- The character at index `i` lies strictly between the quotes of a string token. -/
def InsideString (text : List Char) (i : Nat) : Prop :=
  ∃ front token back, tokenize text = front ++ token :: back ∧ token.isString = true ∧
    (front.flatMap Token.text).length < i ∧
      i + 1 < (front.flatMap Token.text).length + token.text.length

open Token

/-! ## One token -/

namespace WalkState

variable {state : WalkState} {kind : TokenKind} {quote : Char}

/-- A literal in code is code at its two ends and quoted between them. -/
theorem Clean.map_region_literal (hclean : state.Clean) (hquote : quote? kind = some quote)
    {body : List Char} (hbody : IsBody quote body) :
    (walkFrom state (quote :: body ++ [quote])).map WalkStep.region =
      regions ⟨kind, quote :: body ++ [quote]⟩ := by
  have hinside : (walkFrom ⟨some quote, false, false, some quote⟩ body).map WalkStep.region =
      List.replicate body.length .quoted :=
    map_region_of_sealed (isQuote_of_quote? hquote) rfl rfl hbody.isSealed
  have hlength : (quote :: body ++ [quote]).length - 2 = body.length := by simp
  rw [regions, if_pos (isString_of_quote? hquote _), hlength,
    hclean.walkFrom_literal (isQuote_of_quote? hquote) hbody, List.map_append, List.map_cons,
    hinside]
  rfl

/-- Text that opens nothing is code. -/
theorem Clean.map_region_run (hclean : state.Clean) {text : List Char}
    (htext : ∀ c ∈ text, isQuote c = false ∧ c ≠ '/') :
    (walkFrom state text).map WalkStep.region = List.replicate text.length .code := by
  induction text generalizing state with
  | nil => rfl
  | cons c text ih =>
      rw [List.forall_mem_cons] at htext
      have hstep : state.step c text.head? = (.code, state.seeCode c) := by
        simp [step, hclean.1, htext.1]
      rw [walkFrom_cons, hstep, List.map_cons,
        ih ((sameLiteral_seeCode state c).trans hclean) htext.2]
      rfl

/-- From outside of literals, a walk reports a token as the token says, and is outside of
literals behind it. -/
theorem Clean.walk_token (hclean : state.Clean) {token : Token} {after : List Char}
    (hleads : Leads token after) (hmatched : Matched (token.text ++ after))
    (hslash : '/' ∉ token.text) (hgrave : '\x60' ∉ token.text) :
    (walkFrom state token.text).map WalkStep.region = token.regions ∧
      (state.run token.text).Clean := by
  have hmem : token ∈ tokenize (token.text ++ after) := by
    rw [hleads.tokenize_append]
    exact List.mem_cons_self
  cases hleads with
  | literal hquote hbody hclose =>
      refine ⟨hclean.map_region_literal hquote ⟨hbody, hclose⟩, ?_⟩
      rw [hclean.run_literal (isQuote_of_quote? hquote) ⟨hbody, hclose⟩]
      exact clean_behind _
  | loneQuote hquote _ =>
      rcases eq_of_quote? hquote with rfl | rfl
      · exact absurd hmem hmatched.doubleQuote
      · exact absurd hmem hmatched.singleQuote
  | blockComment | lineComment => exact absurd rfl (hmatched.comment _ hmem)
  | @run text _ _ hrun _ =>
      have hplain : ∀ c ∈ text, isQuote c = false ∧ c ≠ '/' := fun c hc =>
        isQuote_of_isPlain (hrun c hc) (fun heq => hgrave (heq ▸ hc)) fun heq => hslash (heq ▸ hc)
      exact ⟨hclean.map_region_run hplain, hclean.run hplain⟩

end WalkState

/-! ## All tokens -/

theorem Matched.of_append {token : Token} {after : List Char} (hleads : Leads token after)
    (hmatched : Matched (token.text ++ after)) : Matched after := by
  obtain ⟨hcomment, hdouble, hsingle⟩ := hmatched
  rw [hleads.tokenize_append] at hcomment hdouble hsingle
  exact ⟨fun other hmem => hcomment other (List.mem_cons_of_mem _ hmem),
    fun hmem => hdouble (List.mem_cons_of_mem _ hmem),
    fun hmem => hsingle (List.mem_cons_of_mem _ hmem)⟩

/-- A walk reports every token as the token says. -/
theorem WalkState.Clean.map_region {text : List Char} (hmatched : Matched text)
    (hslash : '/' ∉ text) (hgrave : '\x60' ∉ text) {state : WalkState} (hclean : state.Clean) :
    (walkFrom state text).map WalkStep.region = (tokenize text).flatMap regions := by
  induction text using leadsInduction generalizing state with
  | nil => rw [tokenize]; rfl
  | cons token after hleads ih =>
      rw [List.mem_append, not_or] at hslash hgrave
      obtain ⟨htoken, hbehind⟩ := hclean.walk_token hleads hmatched hslash.1 hgrave.1
      rw [hleads.tokenize_append, List.flatMap_cons, walkFrom_append (getLast?_ne_slash hslash.1),
        List.map_append, htoken, ih (hmatched.of_append hleads) hslash.2 hgrave.2 hbehind]

/-- At each boundary between tokens a walk is outside of literals. -/
theorem WalkState.Clean.run_tokens {text : List Char} (hmatched : Matched text)
    (hslash : '/' ∉ text) (hgrave : '\x60' ∉ text) {front back : List Token}
    (htokens : tokenize text = front ++ back) {state : WalkState} (hclean : state.Clean) :
    (state.run (front.flatMap Token.text)).Clean := by
  induction front generalizing text state with
  | nil => exact hclean
  | cons token front ih =>
      obtain ⟨after, rfl, hleads, hrest⟩ := exists_after_of_tokenize_eq_cons htokens
      rw [List.mem_append, not_or] at hslash hgrave
      obtain ⟨-, hbehind⟩ := hclean.walk_token hleads hmatched hslash.1 hgrave.1
      rw [List.flatMap_cons, run_append (getLast?_ne_slash hslash.1)]
      exact ih (hmatched.of_append hleads) hslash.2 hgrave.2 hrest hbehind

/-! ## Places in the text -/

/-- The last step of a walk leaves the state in which the walk ends. -/
theorem after_of_getLast?_walkFrom {state : WalkState} {text : List Char} :
    ∀ step ∈ (walkFrom state text).getLast?, step.after = state.run text := by
  induction text generalizing state with
  | nil =>
      intro step hstep
      cases hstep
  | cons c text ih =>
      intro step hstep
      rw [walkFrom_cons] at hstep
      cases text with
      | nil =>
          obtain rfl := Option.some_inj.mp hstep
          rfl
      | cons d text =>
          rw [walkFrom_cons, List.getLast?_cons_cons, ← walkFrom_cons] at hstep
          exact ih step hstep

theorem Token.length_regions {token : Token} (hlength : token.isString = true →
    2 ≤ token.text.length) : token.regions.length = token.text.length := by
  unfold regions
  split
  · rename_i hstring
    have htwo := hlength hstring
    simp
    omega
  · exact List.length_replicate

theorem Token.getElem?_regions_eq_quoted_iff {token : Token} {i : Nat} :
    token.regions[i]? = some .quoted ↔
      token.isString = true ∧ 0 < i ∧ i + 1 < token.text.length := by
  unfold regions
  split
  · rename_i hstring
    cases i with
    | zero => simp
    | succ i =>
        rw [List.cons_append, List.getElem?_cons_succ, List.getElem?_append,
          List.length_replicate]
        split
        · rename_i hlt
          simp only [List.getElem?_replicate, hlt, if_true, hstring, true_and, true_iff]
          omega
        · rename_i hge
          have hlast : ([Region.code][i - (token.text.length - 2)]? = some .quoted) ↔ False := by
            cases i - (token.text.length - 2) <;> simp
          rw [hlast, false_iff]
          omega
  · rename_i hother
    simp [List.getElem?_replicate, hother]

/-- The quoted characters of a sequence of tokens are those strictly between the quotes of a
string. -/
theorem getElem?_flatMap_regions_eq_quoted_iff {tokens : List Token}
    (hlength : ∀ token ∈ tokens, token.isString = true → 2 ≤ token.text.length) {i : Nat} :
    (tokens.flatMap regions)[i]? = some .quoted ↔
      ∃ front token back, tokens = front ++ token :: back ∧ token.isString = true ∧
        (front.flatMap Token.text).length < i ∧
          i + 1 < (front.flatMap Token.text).length + token.text.length := by
  induction tokens generalizing i with
  | nil => simp
  | cons first tokens ih =>
      rw [List.forall_mem_cons] at hlength
      rw [List.flatMap_cons, List.getElem?_append, length_regions hlength.1]
      split
      · rename_i hlt
        rw [getElem?_regions_eq_quoted_iff]
        constructor
        · rintro ⟨hstring, hpos, hlast⟩
          exact ⟨[], first, tokens, rfl, hstring, hpos, by simpa using hlast⟩
        · rintro ⟨front, token, back, htokens, hstring, hstart, hstop⟩
          cases front with
          | nil =>
              obtain ⟨rfl, rfl⟩ := List.cons.inj htokens
              exact ⟨hstring, hstart, by simpa using hstop⟩
          | cons other front =>
              obtain ⟨rfl, -⟩ := List.cons.inj htokens
              rw [List.flatMap_cons, List.length_append] at hstart
              omega
      · rename_i hge
        rw [ih hlength.2]
        constructor
        · rintro ⟨front, token, back, rfl, hstring, hstart, hstop⟩
          refine ⟨first :: front, token, back, rfl, hstring, ?_, ?_⟩ <;>
            rw [List.flatMap_cons, List.length_append] <;> omega
        · rintro ⟨front, token, back, htokens, hstring, hstart, hstop⟩
          cases front with
          | nil =>
              obtain ⟨rfl, rfl⟩ := List.cons.inj htokens
              rw [List.flatMap_nil, List.length_nil] at hstop
              omega
          | cons other front =>
              obtain ⟨rfl, hrest⟩ := List.cons.inj htokens
              rw [List.flatMap_cons, List.length_append] at hstart hstop
              exact ⟨front, token, back, hrest, hstring, by omega, by omega⟩

/-- A string token has two quotes at least. -/
theorem two_le_length_of_mem_tokenize {text : List Char} :
    ∀ token ∈ tokenize text, token.isString = true → 2 ≤ token.text.length := by
  intro token hmem hstring
  obtain ⟨front, back, htokens⟩ := List.append_of_mem hmem
  obtain ⟨after, hleads⟩ := exists_leads_of_tokenize htokens
  obtain ⟨quote, body, -, htext⟩ := hleads.exists_body hstring
  simp [htext]

/-- Tokens and walks agree on strings. In a text without `/` and grave accent, whose tokens
are string literals and text without quotes, a walk reports the characters in order, each
string as code at its quotes and quoted between them and all else as code; so a character is
quoted exactly if it lies strictly between the quotes of a string token; and at every
boundary between tokens no literal is open. -/
theorem walk_agrees_with_tokens {text : List Char} (hslash : '/' ∉ text) (hgrave : '\x60' ∉ text)
    (hmatched : Matched text) :
    (walk text).map WalkStep.char = text ∧
    (walk text).map WalkStep.region = (tokenize text).flatMap Token.regions ∧
    (∀ i step, (walk text)[i]? = some step → (step.region = .quoted ↔ InsideString text i)) ∧
    ∀ front back, tokenize text = front ++ back →
      ∀ step ∈ ((walk text).take (front.flatMap Token.text).length).getLast?,
        step.after.openQuote = none := by
  have hregions : (walk text).map WalkStep.region = (tokenize text).flatMap Token.regions :=
    WalkState.clean_init.map_region hmatched hslash hgrave
  refine ⟨map_char_walkFrom {} text, hregions, fun i step hstep => ?_, fun front back htokens => ?_⟩
  · have hregion : ((tokenize text).flatMap Token.regions)[i]? = some step.region := by
      rw [← hregions, List.getElem?_map, hstep, Option.map_some]
    rw [InsideString, ← getElem?_flatMap_regions_eq_quoted_iff two_le_length_of_mem_tokenize,
      hregion, Option.some_inj]
  · have htext : text = front.flatMap Token.text ++ back.flatMap Token.text := by
      rw [← List.flatMap_append, ← htokens, flatMap_text_tokenize]
    have hfront : '/' ∉ front.flatMap Token.text := fun hmem =>
      hslash (htext ▸ List.mem_append_left _ hmem)
    have htake : (walk text).take (front.flatMap Token.text).length =
        walkFrom {} (front.flatMap Token.text) := by
      rw [walk, htext, walkFrom_append (getLast?_ne_slash hfront)]
      exact List.take_left' (length_walkFrom _ _)
    have hclean := WalkState.clean_init.run_tokens hmatched hslash hgrave htokens
    intro step hstep
    rw [htake] at hstep
    rw [after_of_getLast?_walkFrom step hstep]
    exact hclean.1

/-- A string that holds the other quote and ends in an escaped backslash, in front of one
that holds an escaped quote. -/
theorem walk_agrees_with_tokens_sample :
    let text := "a '\"\\\\' = \"\\\"\"".toList
    '/' ∉ text ∧ '\x60' ∉ text ∧ Matched text ∧
      (walk text).map WalkStep.region = (tokenize text).flatMap Token.regions ∧
      (tokenize text).length = 4 := by
  intro text
  have hslash : '/' ∉ text := by decide +kernel
  have hgrave : '\x60' ∉ text := by decide +kernel
  have hmatched : Matched text :=
    ⟨by decide +kernel, by decide +kernel, by decide +kernel⟩
  exact ⟨hslash, hgrave, hmatched, (walk_agrees_with_tokens hslash hgrave hmatched).2.1,
    by decide +kernel⟩

end Offside
