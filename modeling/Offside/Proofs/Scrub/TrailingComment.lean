/-
# Comments at the end of a line

A comment may be added at the end of any line that ends in code: scrubbing leaves the same
text as without it, and so the generated code is the same.

What has to be shown is that no earlier token changes. Three kinds of tokens look ahead over
the place of the new comment. A quote that nothing closes looks for a quote like it, and
counts backslash pairs on its way; the comment holds no quote, and behind the line feed after
it nothing is pending, whatever the comment ends in. A `###` that nothing closes looks for
another one; the new sign has no neighbour like it on either side. And text that has no quote
and no comment now ends at the new sign, which makes no difference to what is left of it.

`EndsLine` describes the place without byte offsets, as what the induction needs: behind whole
tokens, of which none is a comment that ends right there, and then behind plain characters.
-/

import Offside.Proofs.Scrub.Literal
import Offside.Transpile

namespace Offside

namespace Token

variable {token : Token} {before after comment : List Char}

/-! ## A sign alone is no part of a fence -/

theorem fence_prefix_append_cons_iff {c : Char} (hc : c ≠ '#') (front back : List Char) :
    fence <+: front ++ c :: back ↔ fence <+: front := by
  match front with
  | [] => simp [fence, hc.symm]
  | [_] => simp [fence, hc.symm]
  | [_, _] => simp [fence, hc.symm]
  | _ :: _ :: _ :: _ => simp [fence]

/-- A fence lies on one side of any other character. -/
theorem fence_infix_append_cons_iff {c : Char} (hc : c ≠ '#') (front back : List Char) :
    fence <:+: front ++ c :: back ↔ fence <:+: front ∨ fence <:+: back := by
  induction front with
  | nil =>
      have hbegin : ¬ fence <+: c :: back := by simp [fence, hc.symm]
      have hnil : ¬ fence <:+: [] := by simp [fence]
      rw [List.nil_append, List.infix_cons_iff, or_iff_right hbegin, or_iff_right hnil]
  | cons d front ih =>
      rw [List.cons_append, List.infix_cons_iff, List.infix_cons_iff, ih, ← List.cons_append,
        fence_prefix_append_cons_iff hc, or_assoc]

theorem fence_infix_append_of_notMem {front : List Char} (hfront : '#' ∉ front)
    {back : List Char} (hfence : fence <:+: front ++ back) : fence <:+: back := by
  induction front with
  | nil => exact hfence
  | cons c front ih =>
      rw [List.mem_cons, not_or] at hfront
      rcases (fence_infix_append_cons_iff (Ne.symm hfront.1) [] _).mp hfence with hnil | hrest
      · simp [fence] at hnil
      · exact ih hfront.2 hrest

/-- Behind the sign of the new comment stands no other one. -/
theorem head?_append_ne_hash (hcomment : '#' ∉ comment) (hafter : ∀ c ∈ after.head?, c = '\n') :
    (comment ++ after).head? ≠ some '#' := by
  intro hhead
  cases comment with
  | nil => exact absurd (hafter '#' hhead) (by decide)
  | cons c comment =>
      obtain rfl := Option.some_inj.mp hhead
      exact hcomment List.mem_cons_self

/-- The new comment brings no fence, whatever stands in front of it and behind. -/
theorem fence_infix_of_trailing {front : List Char} (hfront : front.getLast? ≠ some '#')
    (hcomment : '#' ∉ comment) (hafter : ∀ c ∈ after.head?, c = '\n')
    (hfence : fence <:+: front ++ ('#' :: comment ++ after)) : fence <:+: front ++ after := by
  have hbehind : fence <:+: '#' :: (comment ++ after) → fence <:+: after := by
    have hhead := head?_append_ne_hash hcomment hafter
    intro hfence
    refine fence_infix_append_of_notMem hcomment ?_
    cases hrest : comment ++ after with
    | nil => simp [hrest, fence, List.infix_cons_iff] at hfence
    | cons c rest =>
        rw [hrest] at hfence hhead
        have hc : c ≠ '#' := fun heq => hhead (by rw [heq]; rfl)
        have hsign : ¬ fence <:+: ['#'] := fun hinfix => by simpa [fence] using hinfix.length_le
        exact List.infix_cons
          (((fence_infix_append_cons_iff hc ['#'] rest).mp hfence).resolve_left hsign)
  rcases List.eq_nil_or_concat front with rfl | ⟨front, c, rfl⟩
  · exact hbehind hfence
  · rw [List.concat_eq_append, List.getLast?_concat] at hfront
    have hc : c ≠ '#' := fun heq => hfront (by rw [heq])
    rw [List.concat_eq_append, List.append_assoc, List.singleton_append,
      fence_infix_append_cons_iff hc] at hfence ⊢
    exact hfence.imp_right hbehind

theorem OpensBlock.of_trailing {front : List Char} (hfront : front.getLast? ≠ some '#')
    (hcomment : '#' ∉ comment) (hafter : ∀ c ∈ after.head?, c = '\n')
    (hopens : OpensBlock (front ++ ('#' :: comment ++ after))) : OpensBlock (front ++ after) := by
  obtain ⟨rest, htext, hfence⟩ := hopens
  match front with
  | [] =>
      injection htext with _ htext
      have hhead : (comment ++ after).head? = some '#' := congrArg List.head? htext
      exact absurd hhead (head?_append_ne_hash hcomment hafter)
  | [c] =>
      injection htext with hc _
      exact absurd (by rw [hc]; rfl) hfront
  | c :: d :: front =>
      injection htext with hc htext
      injection htext with hd htext
      subst hc hd htext
      refine ⟨front ++ after, rfl, fence_infix_of_trailing (fun hlast => hfront ?_) hcomment hafter
        hfence⟩
      rw [List.getLast?_cons_cons, List.getLast?_cons, hlast]
      rfl

/-! ## The tokens in front stay -/

/-- A quote that nothing closes stays open: behind a line feed nothing is pending. -/
theorem Sealed.of_trailing {kind : TokenKind} {quote : Char} (hquote : quote? kind = some quote)
    (hcomment : ∀ c ∈ comment, isPlain c = true) (hafter : ∀ c ∈ after.head?, c = '\n')
    {front : List Char} {escaped : Bool} (hsealed : Sealed escaped quote (front ++ after)) :
    Sealed escaped quote (front ++ ('#' :: comment ++ after)) := by
  rw [sealed_append_iff] at hsealed ⊢
  have hsign : Sealed (pending escaped front) quote ('#' :: comment) := by
    refine sealed_cons_iff.mpr ⟨fun heq => ?_, sealed_run hquote hcomment _⟩
    rcases eq_of_quote? hquote with rfl | rfl <;> cases heq
  refine ⟨hsealed.1, sealed_append_iff.mpr ⟨hsign, ?_⟩⟩
  cases after with
  | nil => exact sealed_nil
  | cons c after =>
      obtain rfl := hafter c rfl
      have hclear : ∀ escaped, escapesNext escaped '\n' = false :=
        fun _ => escapesNext_of_ne (by decide)
      have hbehind := (sealed_cons_iff.mp hsealed.2).2
      rw [hclear] at hbehind
      rw [sealed_cons_iff, hclear]
      refine ⟨fun heq => ?_, hbehind⟩
      rcases eq_of_quote? hquote with rfl | rfl <;> cases heq

/-- What a token is does not depend on a comment at the end of a later line. -/
theorem Leads.of_trailing {front : List Char} (hleads : Leads token (front ++ after))
    (hfront : front.getLast? ≠ some '#') (hend : front = [] → token.kind ≠ .comment)
    (hcomment : ∀ c ∈ comment, isPlain c = true) (hafter : ∀ c ∈ after.head?, c = '\n') :
    Leads token (front ++ ('#' :: comment ++ after)) := by
  have hsign : '#' ∉ comment := fun hmem => nomatch hcomment '#' hmem
  have hhead : front ≠ [] → ∀ rest, (front ++ rest).head? = front.head? :=
    fun hne rest => List.head?_append_of_ne_nil _ hne
  cases hleads with
  | literal hquote hbody hclose => exact .literal hquote hbody hclose
  | loneQuote hquote hopen => exact .loneQuote hquote (hopen.of_trailing hquote hcomment hafter)
  | blockComment hfirst => exact .blockComment hfirst
  | @lineComment body _ hblock hbody hfeed =>
      have hne : front ≠ [] := fun hnil => hend hnil rfl
      rw [hhead hne] at hfeed
      refine .lineComment (fun hopens => hblock ?_) hbody (by rwa [hhead hne])
      rw [← List.append_assoc] at hopens ⊢
      refine hopens.of_trailing (fun hlast => hfront ?_) hsign hafter
      rwa [List.getLast?_append_of_ne_nil _ hne] at hlast
  | run hne hrun hstop =>
      refine .run hne hrun fun c hc => ?_
      by_cases hnil : front = []
      · subst hnil
        obtain rfl := Option.some_inj.mp hc
        rfl
      · rw [hhead hnil] at hstop hc
        exact hstop c hc

/-! ## Where a line ends in code -/

/-- In front of `after` stand whole tokens, the last of them no comment, and then plain
characters. -/
inductive EndsLine (after : List Char) : List Char → Prop
  /-- Plain characters only. -/
  | plain {before : List Char} (hplain : ∀ c ∈ before, isPlain c = true) : EndsLine after before
  /-- A token comes first. -/
  | token {token : Token} {before : List Char} (hleads : Leads token (before ++ after))
      (hend : before = [] → token.kind ≠ .comment) (hrest : EndsLine after before) :
      EndsLine after (token.text ++ before)

theorem Leads.getLast?_ne_hash {behind : List Char} (hleads : Leads token behind)
    (hkind : token.kind ≠ .comment) : token.text.getLast? ≠ some '#' := by
  intro hlast
  cases hleads with
  | literal hquote =>
      rw [List.getLast?_concat] at hlast
      rcases eq_of_quote? hquote with rfl | rfl <;> cases hlast
  | loneQuote hquote => rcases eq_of_quote? hquote with rfl | rfl <;> cases hlast
  | blockComment | lineComment => exact hkind rfl
  | run _ hrun _ => exact nomatch hrun '#' (List.mem_of_getLast? hlast)

theorem EndsLine.getLast?_ne_hash (hends : EndsLine after before) :
    before.getLast? ≠ some '#' := by
  induction hends with
  | plain hplain => exact fun hlast => nomatch hplain '#' (List.mem_of_getLast? hlast)
  | @token token before hleads hend _ ih =>
      by_cases hnil : before = []
      · subst hnil
        rw [List.append_nil]
        exact hleads.getLast?_ne_hash (hend rfl)
      · rwa [List.getLast?_append_of_ne_nil _ hnil]

/-- The new comment is one, and goes without a trace. -/
theorem scrub_comment_append (hcomment : ∀ c ∈ comment, isPlain c = true) (hfeed : '\n' ∉ comment)
    (hafter : ∀ c ∈ after.head?, c = '\n') : scrub ('#' :: comment ++ after) = scrub after := by
  have hsign : '#' ∉ comment := fun hmem => nomatch hcomment '#' hmem
  have hleads : Leads ⟨.comment, '#' :: comment⟩ after := by
    refine .lineComment ?_ hfeed hafter
    rintro ⟨rest, htext, -⟩
    exact head?_append_ne_hash hsign hafter (by rw [htext]; rfl)
  exact hleads.scrub_append

theorem EndsLine.scrub_insert (hends : EndsLine after before)
    (hcomment : ∀ c ∈ comment, isPlain c = true) (hfeed : '\n' ∉ comment)
    (hafter : ∀ c ∈ after.head?, c = '\n') :
    scrub (before ++ ('#' :: comment ++ after)) = scrub (before ++ after) := by
  induction hends with
  | plain hplain =>
      rw [scrub_append_of_isPlain hplain, scrub_append_of_isPlain hplain,
        scrub_comment_append hcomment hfeed hafter]
  | token hleads hend hrest ih =>
      have hstays := hleads.of_trailing hrest.getLast?_ne_hash hend hcomment hafter
      rw [List.append_assoc, List.append_assoc, hstays.scrub_append, hleads.scrub_append, ih]

/-! ## The same place by byte offsets -/

/-- At this position a comment may begin: no literal and no comment has it inside, and no
comment ends there. -/
def TakesComment (spans : List (Token × Nat × Nat)) (position : Nat) : Prop :=
  ∀ token start stop, (token, start, stop) ∈ spans →
    (start < position → position < stop → token.kind = .text) ∧
      (stop = position → token.kind ≠ .comment)

instance (spans : List (Token × Nat × Nat)) (position : Nat) :
    Decidable (TakesComment spans position) :=
  decidable_of_iff (∀ span ∈ spans,
      (span.2.1 < position → position < span.2.2 → span.1.kind = .text) ∧
        (span.2.2 = position → span.1.kind ≠ .comment))
    ⟨fun hall token start stop => hall (token, start, stop), fun hall _ => hall _ _ _⟩

/-- A place inside a text token has plain characters in front. -/
theorem Leads.isPlain_of_split {behind rest : List Char} (hleads : Leads token behind)
    (hkind : token.kind = .text) (htext : token.text = before ++ rest) (hbefore : before ≠ [])
    (hrest : rest ≠ []) : ∀ c ∈ before, isPlain c = true := by
  cases hleads with
  | literal hquote => cases hkind; cases hquote
  | loneQuote =>
      have hone := congrArg List.length htext
      have hpos := List.length_pos_iff.mpr hbefore
      have hpos' := List.length_pos_iff.mpr hrest
      simp only [List.length_append, List.length_singleton] at hone
      omega
  | blockComment | lineComment => cases hkind
  | run _ hrun _ =>
      intro c hc
      have hmem : c ∈ before ++ rest := List.mem_append_left _ hc
      rw [← htext] at hmem
      exact hrun c hmem

theorem TakesComment.endsLine {source : List Char} (hsource : source = before ++ after)
    {base : Nat} (htakes : TakesComment (spansFrom base (tokenize source))
      (base + Text.byteLength before)) : EndsLine after before := by
  induction source using leadsInduction generalizing before base with
  | nil =>
      obtain ⟨rfl, -⟩ := List.append_eq_nil_iff.mp hsource.symm
      exact .plain (by simp)
  | cons token later hleads ih =>
      rw [hleads.tokenize_append, spansFrom] at htakes
      obtain ⟨hinside, hbehind⟩ := htakes token _ _ List.mem_cons_self
      have hlater : TakesComment (spansFrom (base + Text.byteLength token.text) (tokenize later))
          (base + Text.byteLength before) :=
        fun other start stop hmem => htakes other start stop (List.mem_cons_of_mem _ hmem)
      rcases List.append_eq_append_iff.mp hsource with ⟨front, rfl, rfl⟩ | ⟨rest, htext, rfl⟩
      · -- The token ends in front of the place, or right at it.
        rw [Text.byteLength_append, ← Nat.add_assoc] at hlater
        refine .token hleads ?_ (ih rfl hlater)
        rintro rfl
        exact hbehind (by simp)
      · by_cases hrest : rest = []
        · obtain rfl : token.text = before := by rw [htext, hrest, List.append_nil]
          have hends : EndsLine later (token.text ++ []) :=
            .token hleads (fun _ => hbehind rfl) (.plain (by simp))
          rwa [List.append_nil, ← List.nil_append later, ← hrest] at hends
        · by_cases hbefore : before = []
          · exact .plain (by simp [hbefore])
          · have hpos := Text.byteLength_pos hbefore
            have hpos' := Text.byteLength_pos hrest
            simp only [htext, Text.byteLength_append] at hinside
            exact .plain (hleads.isPlain_of_split (hinside (by omega) (by omega)) htext hbefore
              hrest)

end Token

/-- Comments at the end of a line are invisible. Where no literal and no comment is open, and
no comment has just ended, a `#` and any text without quotes and another `#` can be put in
front of a line feed or of the end of the source: scrubbing leaves the same, so the generated
code is the same under all options. -/
theorem scrub_trailingComment {before after comment : List Char}
    (hafter : ∀ c ∈ after.head?, c = '\n')
    (hplace : Token.TakesComment (tokenSpans (before ++ after)) (Text.byteLength before))
    (hcomment : ∀ c ∈ comment, Token.isPlain c = true) (hfeed : '\n' ∉ comment) :
    scrub (before ++ '#' :: comment ++ after) = scrub (before ++ after) ∧
      ∀ options, transpile options (before ++ '#' :: comment ++ after) =
        transpile options (before ++ after) := by
  rw [← Nat.zero_add (Text.byteLength before)] at hplace
  have hends : Token.EndsLine after before := Token.TakesComment.endsLine rfl hplace
  have hscrub : scrub (before ++ '#' :: comment ++ after) = scrub (before ++ after) := by
    rw [List.append_assoc]
    exact hends.scrub_insert hcomment hfeed hafter
  exact ⟨hscrub, fun options => by rw [transpile, hscrub, transpile]⟩

/-- A comment that ends in a backslash, behind a `###` and a quote that nothing closes: the
text in front of it ends in the first half of a backslash pair, and behind the line feed the
second half of another pair protects a quote like the open one. -/
theorem scrub_trailingComment_backslash :
    let before := "### open\nit's a + \"b\" \\".toList
    let after := "\n\\'".toList
    let comment := " {c} \\".toList
    (∀ c ∈ after.head?, c = '\n') ∧
      Token.TakesComment (tokenSpans (before ++ after)) (Text.byteLength before) ∧
      (∀ c ∈ comment, Token.isPlain c = true) ∧ '\n' ∉ comment ∧
      scrub (before ++ '#' :: comment ++ after) = scrub (before ++ after) ∧
      ∀ options, transpile options (before ++ '#' :: comment ++ after) =
        transpile options (before ++ after) := by
  intro before after comment
  have hafter : ∀ c ∈ after.head?, c = '\n' := by
    have hhead : after.head? = some '\n' := by decide +kernel
    rw [hhead]
    exact fun c hc => (Option.some_inj.mp hc).symm
  have hplace : Token.TakesComment (tokenSpans (before ++ after)) (Text.byteLength before) := by
    decide +kernel
  have hcomment : ∀ c ∈ comment, Token.isPlain c = true :=
    List.all_eq_true.mp (by decide +kernel)
  have hfeed : '\n' ∉ comment := by decide +kernel
  exact ⟨hafter, hplace, hcomment, hfeed, scrub_trailingComment hafter hplace hcomment hfeed⟩

end Offside
