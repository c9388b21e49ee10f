/-
# Scrubbing a scrubbed source

Scrubbing looks as if a second pass could find nothing left to do, and it almost
is so. A literal keeps its quotes and its backslash pairs, so it is read again as
the same literal, and it holds no line feed any more. Comments are gone for good:
`kind_ne_comment_of_mem_tokenize_scrub`.

What can change is a quote that nothing closes. It stays open because every later
quote like it is the second of a backslash pair, and a pair may reach into a
comment: when the comment goes, the backslash in front of it pairs with a backslash
behind it, and a quote further on is protected no longer. The two quotes then
delimit a literal of the scrubbed text, and a line feed between them is one that a
second pass escapes.

The main result states that this is the only obstacle. A second pass changes nothing
exactly if the literals of the scrubbed text hold no line feed; that is so whenever
no comment has a backslash on either side; and a third pass never changes anything.

The proof follows two readers at once: one through the source, behind an open
quote, and one through the scrubbed text. Each keeps one bit, whether the next
character is the second of a pair. The bits may differ behind a comment; they agree
again at the next character that is not a backslash.
-/

import Offside.Proofs.Token.Tiling
import Offside.Scrub

namespace Offside

namespace Token

/-- A comment of which, once all comments are gone, a backslash stands on either
side. -/
def CommentBetweenBackslashes (tokens : List Token) : Prop :=
  ∃ before comment after, tokens = before ++ comment :: after ∧ comment.kind = .comment ∧
    (before.flatMap scrubbed).getLast? = some '\\' ∧ (after.flatMap scrubbed).head? = some '\\'

/-! ## Reading by tokens -/

/-- The tokens of a text that begins with a given one. -/
theorem Leads.tokenize_append {token : Token} {after : List Char} (hleads : Leads token after) :
    tokenize (token.text ++ after) = token :: tokenize after := by
  obtain ⟨c, rest, hcons⟩ := List.exists_cons_of_ne_nil
    (List.append_ne_nil_of_left_ne_nil hleads.text_ne_nil after)
  rw [hcons, tokenize, hleads.next_eq hcons]

theorem Leads.scrub_append {token : Token} {after : List Char} (hleads : Leads token after) :
    scrub (token.text ++ after) = token.scrubbed ++ scrub after := by
  rw [scrub, hleads.tokenize_append, List.flatMap_cons, scrub]

theorem scrub_nil : scrub [] = [] := by
  rw [scrub, tokenize, List.flatMap_nil]

/-- A character that begins neither a literal nor a comment comes through, and what follows
it is scrubbed as it would be alone. -/
theorem scrub_cons_of_isPlain {c : Char} (hc : isPlain c = true) (rest : List Char) :
    scrub (c :: rest) = c :: scrub rest := by
  have hcons : scrub (c :: rest) =
      c :: (rest.takeWhile isPlain ++ scrub (rest.dropWhile isPlain)) := by
    rw [scrub, tokenize, next_of_isPlain hc]
    rfl
  rw [hcons]
  cases rest with
  | nil => rfl
  | cons d rest =>
      by_cases hd : isPlain d
      · rw [List.takeWhile_cons_of_pos hd, List.dropWhile_cons_of_pos hd, scrub, scrub, tokenize,
          next_of_isPlain hd]
        rfl
      · rw [List.takeWhile_cons_of_neg hd, List.dropWhile_cons_of_neg hd, List.nil_append]

theorem scrub_append_of_isPlain {run : List Char} (hrun : ∀ c ∈ run, isPlain c = true)
    (rest : List Char) : scrub (run ++ rest) = run ++ scrub rest := by
  induction run with
  | nil => rfl
  | cons c run ih =>
      rw [List.forall_mem_cons] at hrun
      rw [List.cons_append, scrub_cons_of_isPlain hrun.1, ih hrun.2, List.cons_append]

/-- Induction over a source, one token at a time. -/
@[elab_as_elim]
theorem leadsInduction {motive : List Char → Prop} (nil : motive [])
    (cons : ∀ token after, Leads token after → motive after → motive (token.text ++ after))
    (source : List Char) : motive source := by
  fun_induction tokenize source with
  | case1 => exact nil
  | case2 c rest ih =>
      have hcons := cons _ _ (next_leads c rest) ih
      rwa [next_append] at hcons

theorem tokenize_injective : Function.Injective tokenize := by
  intro first second heq
  rw [← flatMap_text_tokenize first, heq, flatMap_text_tokenize]

/-- Induction over a source with the claim at hand for every rest of it that begins at
a token. -/
@[elab_as_elim]
theorem restInduction {motive : List Char → Prop} (nil : motive [])
    (cons : ∀ token after, Leads token after →
      (∀ front rest, tokenize after = front ++ tokenize rest → motive rest) →
      motive (token.text ++ after))
    (source : List Char) : motive source := by
  have hrests : ∀ front rest, tokenize source = front ++ tokenize rest → motive rest := by
    induction source using leadsInduction with
    | nil =>
        intro front rest htokens
        have hnone : tokenize rest = tokenize [] := by
          rw [tokenize] at htokens ⊢
          exact (List.append_eq_nil_iff.mp htokens.symm).2
        rw [tokenize_injective hnone]
        exact nil
    | cons token after hleads ih =>
        intro front rest htokens
        cases front with
        | nil =>
            rw [← tokenize_injective htokens]
            exact cons token after hleads ih
        | cons first front =>
            rw [hleads.tokenize_append] at htokens
            injection htokens with _ htokens
            exact ih front rest htokens
  exact hrests [] source rfl

theorem isString_of_quote? {kind : TokenKind} {quote : Char} (hquote : quote? kind = some quote)
    (text : List Char) : (⟨kind, text⟩ : Token).isString = true := by
  cases kind <;> simp [quote?] at hquote <;> rfl

theorem scrubbed_of_isString {token : Token} (hstring : token.isString = true) :
    token.scrubbed = token.text.flatMap escapeLineFeed := by
  obtain ⟨kind, text⟩ := token
  cases kind with
  | doubleQuoted | singleQuoted => rfl
  | comment | text => cases hstring

/-! ## Escaping line feeds keeps pairs and quotes -/

theorem pending_escapeLineFeed (escaped : Bool) (c : Char) :
    pending escaped (escapeLineFeed c) = escapesNext escaped c := by
  rw [escapeLineFeed]
  split
  · rename_i hfeed
    subst hfeed
    cases escaped <;> rfl
  · rfl

theorem pending_flatMap_escapeLineFeed (escaped : Bool) (text : List Char) :
    pending escaped (text.flatMap escapeLineFeed) = pending escaped text := by
  induction text generalizing escaped with
  | nil => rfl
  | cons c text ih =>
      rw [List.flatMap_cons, pending_append, pending_escapeLineFeed, ih, pending_cons]

theorem escapeLineFeed_quote {kind : TokenKind} {quote : Char}
    (hquote : quote? kind = some quote) : escapeLineFeed quote = [quote] := by
  cases kind <;> simp [quote?] at hquote <;> subst hquote <;> rfl

theorem sealed_escapeLineFeed_iff {kind : TokenKind} {quote : Char}
    (hquote : quote? kind = some quote) (escaped : Bool) (c : Char) :
    Sealed escaped quote (escapeLineFeed c) ↔ (c = quote → escaped = true) := by
  by_cases hfeed : c = '\n'
  · have hne : c ≠ quote := by
      rintro rfl
      cases kind <;> simp [quote?, hfeed] at hquote
    have hnotMem : quote ∉ ['\\', 'n'] := by
      cases kind <;> simp [quote?] at hquote <;> subst hquote <;> decide
    rw [escapeLineFeed, if_pos hfeed]
    exact iff_of_true (sealed_of_notMem hnotMem) fun heq => absurd heq hne
  · rw [escapeLineFeed, if_neg hfeed, sealed_cons_iff]
    exact and_iff_left sealed_nil

theorem sealed_flatMap_escapeLineFeed_iff {kind : TokenKind} {quote : Char}
    (hquote : quote? kind = some quote) (escaped : Bool) (text : List Char) :
    Sealed escaped quote (text.flatMap escapeLineFeed) ↔ Sealed escaped quote text := by
  induction text generalizing escaped with
  | nil => rfl
  | cons c text ih =>
      rw [List.flatMap_cons, sealed_append_iff, sealed_escapeLineFeed_iff hquote,
        pending_escapeLineFeed, ih, sealed_cons_iff]

theorem notMem_flatMap_escapeLineFeed (text : List Char) :
    '\n' ∉ text.flatMap escapeLineFeed := by
  intro hmem
  obtain ⟨c, -, hc⟩ := List.mem_flatMap.mp hmem
  rw [escapeLineFeed] at hc
  split at hc
  · simp at hc
  · rename_i hne
    exact hne (List.mem_singleton.mp hc).symm

/-- A scrubbed literal is a literal again. -/
theorem leads_scrubbed_literal {kind : TokenKind} {quote : Char} {body : List Char}
    (hquote : quote? kind = some quote) (hbody : Sealed false quote body)
    (hclose : pending false body = false) (after : List Char) :
    Leads ⟨kind, (quote :: body ++ [quote]).flatMap escapeLineFeed⟩ after := by
  have htext : (quote :: body ++ [quote]).flatMap escapeLineFeed =
      quote :: body.flatMap escapeLineFeed ++ [quote] := by
    simp [escapeLineFeed_quote hquote]
  rw [htext]
  refine .literal hquote ((sealed_flatMap_escapeLineFeed_iff hquote _ _).mpr hbody) ?_
  rw [pending_flatMap_escapeLineFeed, hclose]

/-! ## Behind a quote that nothing closes

Below, `escaped` is the bit of the reader of the source and `escaped'` that of the
reader of the scrubbed text.
-/

variable {kind : TokenKind} {quote : Char}

theorem pending_concat_of_ne {c : Char} (hc : c ≠ '\\') (escaped : Bool) (text : List Char) :
    pending escaped (text ++ [c]) = false := by
  rw [pending_append, pending_cons, escapesNext_of_ne hc, pending_nil]

/-- Reading a character other than the backslash makes the two bits agree. -/
theorem pending_eq_of_head?_ne {text : List Char} (hne : text ≠ [])
    (hhead : text.head? ≠ some '\\') (escaped escaped' : Bool) :
    pending escaped text = pending escaped' text := by
  cases text with
  | nil => exact absurd rfl hne
  | cons c text =>
      have hc : c ≠ '\\' := fun heq => hhead (by rw [heq]; rfl)
      rw [pending_cons, pending_cons, escapesNext_of_ne hc, escapesNext_of_ne hc]

/-- Behind a literal of either quote nothing is pending, in the source and in what is
left of it. -/
theorem pending_literal (hquote : quote? kind = some quote) (escaped : Bool) (body : List Char) :
    pending escaped (quote :: body ++ [quote]) = false ∧
      pending escaped ((quote :: body ++ [quote]).flatMap escapeLineFeed) = false := by
  have hlast := pending_concat_of_ne (quote_ne_backslash hquote) escaped (quote :: body)
  exact ⟨hlast, by rw [pending_flatMap_escapeLineFeed, hlast]⟩

/-- A literal in a text that keeps a quote open is a literal of the other quote, and
its scrubbed form keeps the quote open from any state. -/
theorem sealed_scrubbed_literal {kind' : TokenKind} {delimiter : Char} {body : List Char}
    {escaped : Bool} (hquote : quote? kind = some quote)
    (hdelimiter : quote? kind' = some delimiter) (hclose : pending false body = false)
    (hsealed : Sealed escaped quote (delimiter :: body ++ [delimiter])) (escaped' : Bool) :
    Sealed escaped' quote ((delimiter :: body ++ [delimiter]).flatMap escapeLineFeed) := by
  have hplain := @escapesNext_of_ne escaped delimiter (quote_ne_backslash hdelimiter)
  rw [List.cons_append, sealed_cons_iff, hplain, sealed_append_iff, sealed_cons_iff, hclose]
    at hsealed
  obtain ⟨-, hbody, hlast, -⟩ := hsealed
  have hother : delimiter ≠ quote := fun heq => Bool.noConfusion (hlast heq)
  rw [sealed_flatMap_escapeLineFeed_iff hquote, List.cons_append, sealed_cons_iff,
    escapesNext_of_ne (quote_ne_backslash hdelimiter), sealed_append_iff, sealed_cons_iff]
  exact ⟨fun heq => absurd heq hother, hbody, fun heq => absurd heq hother, sealed_nil⟩

/-- Text without quotes keeps every quote open. -/
theorem sealed_run {text : List Char} (hquote : quote? kind = some quote)
    (hrun : ∀ c ∈ text, isPlain c = true) (escaped : Bool) : Sealed escaped quote text := by
  apply sealed_of_notMem
  intro hmem
  have hplain := hrun quote hmem
  cases kind <;> simp [quote?] at hquote <;> subst hquote <;> cases hplain

theorem cutFrom_append_of_sealed {escaped : Bool} {front : List Char}
    (hsealed : Sealed escaped quote front) (rest : List Char) :
    cutFrom quote escaped (front ++ rest) =
      (cutFrom quote (pending escaped front) rest).map fun (cut, after) =>
        (front ++ cut, after) := by
  induction front generalizing escaped with
  | nil => simp
  | cons c front ih =>
      obtain ⟨hhead, htail⟩ := sealed_cons_iff.mp hsealed
      have hkept : ¬ (c = quote ∧ escaped = false) := by
        rintro ⟨hc, hescaped⟩
        rw [hhead hc] at hescaped
        cases hescaped
      rw [List.cons_append, cutFrom, if_neg hkept, ih htail, pending_cons, Option.map_map]
      rfl

/-- Where a quote that the source leaves open is closed after scrubbing, what follows
the closing quote is itself the scrubbed form of a rest of the source that begins at a
token. -/
theorem exists_rest_of_cutFrom_scrub (hquote : quote? kind = some quote) (source : List Char) :
    ∀ escaped escaped' cut after, Sealed escaped quote source →
      cutFrom quote escaped' (scrub source) = some (cut, after) →
      ∃ front rest, tokenize source = front ++ tokenize rest ∧ after = scrub rest := by
  induction source using leadsInduction with
  | nil =>
      intro escaped escaped' cut after _ hcut
      rw [scrub_nil] at hcut
      cases hcut
  | cons token later hleads ih =>
      intro escaped escaped' cut after hsealed hcut
      rw [sealed_append_iff] at hsealed
      obtain ⟨htoken, hlater⟩ := hsealed
      rw [hleads.scrub_append] at hcut
      -- A token that keeps the quote open as well leaves the question to the rest.
      have hpass : Sealed escaped' quote token.scrubbed →
          ∃ front rest, tokenize (token.text ++ later) = front ++ tokenize rest ∧
            after = scrub rest := by
        intro hscrubbed
        rw [cutFrom_append_of_sealed hscrubbed, Option.map_eq_some_iff] at hcut
        obtain ⟨⟨inner, behind⟩, hinner, heq⟩ := hcut
        obtain ⟨-, rfl⟩ := Prod.mk.inj heq
        obtain ⟨front, rest, htokens, hafter⟩ := ih _ _ inner _ hlater hinner
        exact ⟨token :: front, rest, by rw [hleads.tokenize_append, htokens]; rfl, hafter⟩
      cases hleads with
      | literal hdelimiter _ hclose =>
          apply hpass
          rw [scrubbed_of_isString (isString_of_quote? hdelimiter _)]
          exact sealed_scrubbed_literal hquote hdelimiter hclose htoken escaped'
      | @loneQuote _ delimiter _ hdelimiter hopen =>
          by_cases hcloses : delimiter = quote ∧ escaped' = false
          · obtain ⟨rfl, rfl⟩ := hcloses
            refine ⟨[⟨.text, [delimiter]⟩], later, ?_, ?_⟩
            · exact (Leads.loneQuote hdelimiter hopen).tokenize_append
            · have hafter : cut = [delimiter] ∧ after = scrub later := by
                simpa [scrubbed, cutFrom, eq_comm] using hcut
              exact hafter.2
          · apply hpass
            refine sealed_cons_iff.mpr ⟨fun heq => ?_, sealed_nil⟩
            simpa [heq] using hcloses
      | blockComment | lineComment => exact hpass sealed_nil
      | run _ hrun _ => exact hpass (sealed_run hquote hrun escaped')

/-- A comment at which the reader of the scrubbed text, in front of whose tokens it
stands with the bit `escaped'`, meets a pair that the source does not have. -/
def Joins (escaped' : Bool) (tokens : List Token) : Prop :=
  ∃ before comment after, tokens = before ++ comment :: after ∧ comment.kind = .comment ∧
    pending escaped' (before.flatMap scrubbed) = true ∧
      (after.flatMap scrubbed).head? = some '\\'

theorem joins_cons {escaped' : Bool} {token : Token} {tokens : List Token}
    (hjoins : Joins (pending escaped' token.scrubbed) tokens) :
    Joins escaped' (token :: tokens) := by
  obtain ⟨before, comment, after, rfl, hkind, hpending, hhead⟩ := hjoins
  exact ⟨token :: before, comment, after, rfl, hkind,
    by rwa [List.flatMap_cons, pending_append], hhead⟩

theorem commentBetweenBackslashes_of_joins {tokens : List Token} (hjoins : Joins false tokens) :
    CommentBetweenBackslashes tokens := by
  obtain ⟨before, comment, after, htokens, hkind, hpending, hhead⟩ := hjoins
  refine ⟨before, comment, after, htokens, hkind, getLast?_of_pending ?_ hpending, hhead⟩
  rintro hnil
  rw [hnil] at hpending
  cases hpending

/-- A comment between backslashes stays one when tokens are put in front. -/
theorem CommentBetweenBackslashes.append {tokens : List Token}
    (hbetween : CommentBetweenBackslashes tokens) (front : List Token) :
    CommentBetweenBackslashes (front ++ tokens) := by
  obtain ⟨before, comment, after, rfl, hkind, hlast, hhead⟩ := hbetween
  refine ⟨front ++ before, comment, after, by simp, hkind, ?_, hhead⟩
  rw [List.flatMap_append, List.getLast?_append, hlast]
  rfl

/-- How the two bits are related in front of a rest of the source: they are equal, or
the source's bit is clear and no backslash comes next, or a line feed comes next. -/
def Agree (escaped escaped' : Bool) (source : List Char) : Prop :=
  escaped = escaped' ∨ (escaped = false ∧ (scrub source).head? ≠ some '\\') ∨
    ∀ c ∈ source.head?, c = '\n'

/-- One token keeps the two bits related, unless it is a comment that joins a pair. -/
theorem agree_of_leads {escaped escaped' : Bool} {token : Token} {later : List Char}
    (hleads : Leads token later) (hjoins : ¬ Joins escaped' (token :: tokenize later))
    (hagree : Agree escaped escaped' (token.text ++ later)) :
    Agree (pending escaped token.text) (pending escaped' token.scrubbed) later := by
  rw [Agree, hleads.scrub_append] at hagree
  cases hleads with
  | @literal kind delimiter body _ hdelimiter _ _ =>
      left
      rw [scrubbed_of_isString (isString_of_quote? hdelimiter _)]
      exact (pending_literal hdelimiter escaped body).1.trans
        (pending_literal hdelimiter escaped' body).2.symm
  | @loneQuote _ delimiter _ hdelimiter _ =>
      left
      exact pending_eq_of_head?_ne (by simp) (by simp [quote_ne_backslash hdelimiter]) _ _
  | @blockComment body _ _ =>
      have hclear : pending escaped (fence ++ body ++ fence) = false := by
        rw [pending_append]
        exact pending_concat_of_ne (by decide) _ ['#', '#']
      cases hescaped' : escaped' with
      | false => exact .inl hclear
      | true =>
          refine .inr (.inl ⟨hclear, fun hhead => hjoins ?_⟩)
          exact ⟨[], _, tokenize later, rfl, rfl, hescaped', hhead⟩
  | lineComment _ _ hend => exact .inr (.inr hend)
  | @run text _ hne _ _ =>
      left
      have hfront : ∀ rest, (text ++ rest).head? = text.head? := fun rest => by
        rw [List.head?_append_of_ne_nil _ hne]
      rcases hagree with hequal | ⟨-, hhead⟩ | hfeed
      · rw [hequal]
        rfl
      · exact pending_eq_of_head?_ne hne (by rwa [scrubbed, hfront] at hhead) _ _
      · refine pending_eq_of_head?_ne hne (fun hhead => ?_) _ _
        exact absurd (hfeed '\\' (by rw [hfront, hhead]; rfl)) (by decide)

/-- Where the bits are related, a token that keeps a quote open in the source also
keeps it open after scrubbing. -/
theorem sealed_scrubbed_of_agree {escaped escaped' : Bool} {token : Token} {later : List Char}
    (hquote : quote? kind = some quote) (hleads : Leads token later)
    (hagree : Agree escaped escaped' (token.text ++ later))
    (hsealed : Sealed escaped quote token.text) : Sealed escaped' quote token.scrubbed := by
  cases hleads with
  | literal hdelimiter _ hclose =>
      rw [scrubbed_of_isString (isString_of_quote? hdelimiter _)]
      exact sealed_scrubbed_literal hquote hdelimiter hclose hsealed escaped'
  | @loneQuote _ delimiter _ hdelimiter _ =>
      refine sealed_cons_iff.mpr ⟨fun heq => ?_, sealed_nil⟩
      have hescaped := (sealed_cons_iff.mp hsealed).1 heq
      rcases hagree with hequal | ⟨hclear, -⟩ | hfeed
      · rw [← hequal, hescaped]
      · rw [hescaped] at hclear
        cases hclear
      · have hdelimiter' := hfeed delimiter rfl
        cases kind <;> simp [quote?, ← heq, hdelimiter'] at hquote
  | blockComment | lineComment => exact sealed_nil
  | run _ hrun _ => exact sealed_run hquote hrun escaped'

/-- As long as removing comments joins no pair, a quote that the source leaves open
stays open. -/
theorem sealed_scrub (hquote : quote? kind = some quote) (source : List Char) :
    ∀ escaped escaped', ¬ Joins escaped' (tokenize source) → Agree escaped escaped' source →
      Sealed escaped quote source → Sealed escaped' quote (scrub source) := by
  induction source using leadsInduction with
  | nil =>
      intro escaped escaped' _ _ _
      rw [scrub_nil]
      exact sealed_nil
  | cons token later hleads ih =>
      intro escaped escaped' hjoins hagree hsealed
      rw [hleads.tokenize_append] at hjoins
      rw [sealed_append_iff] at hsealed
      rw [hleads.scrub_append, sealed_append_iff]
      refine ⟨sealed_scrubbed_of_agree hquote hleads hagree hsealed.1, ?_⟩
      exact ih _ _ (fun hlater => hjoins (joins_cons hlater))
        (agree_of_leads hleads hjoins hagree) hsealed.2

/-! ## The tokens of a scrubbed source -/

theorem mem_tokenize_of_mem_dropWhile {text : List Char} {token : Token}
    (hmem : token ∈ tokenize (text.dropWhile isPlain)) : token ∈ tokenize text := by
  cases text with
  | nil => exact hmem
  | cons c text =>
      by_cases hplain : isPlain c
      · rw [List.dropWhile_cons_of_pos hplain] at hmem
        rw [tokenize, next_of_isPlain hplain]
        exact List.mem_cons_of_mem _ hmem
      · rwa [List.dropWhile_cons_of_neg hplain] at hmem

/-- Text without quotes and comments, put in front of a text, merges with the text
that it begins with and leaves all later tokens as they are. -/
theorem mem_tokenize_run_append {run text : List Char} {token : Token}
    (hrun : ∀ c ∈ run, isPlain c = true) (hmem : token ∈ tokenize (run ++ text)) :
    token.kind = .text ∨ token ∈ tokenize text := by
  cases run with
  | nil => exact .inr hmem
  | cons c run =>
      rw [List.cons_append, tokenize, next_of_isPlain (hrun c List.mem_cons_self)] at hmem
      rcases List.mem_cons.mp hmem with rfl | hlater
      · exact .inl rfl
      · rw [List.dropWhile_append_of_pos fun d hd => hrun d (List.mem_cons_of_mem _ hd)] at hlater
        exact .inr (mem_tokenize_of_mem_dropWhile hlater)

/-- What may be said of a token of a scrubbed source, when `tokens` are those of the
source: it is text, or a literal without a line feed, or a literal that came about
because a comment stood between backslashes. -/
def Rescanned (tokens : List Token) (token : Token) : Prop :=
  token.kind = .text ∨
    token.isString = true ∧ ('\n' ∉ token.text ∨ CommentBetweenBackslashes tokens)

theorem Rescanned.append {tokens : List Token} {token : Token} (h : Rescanned tokens token)
    (front : List Token) : Rescanned (front ++ tokens) token := by
  rcases h with htext | ⟨hstring, hfeed | hbetween⟩
  · exact .inl htext
  · exact .inr ⟨hstring, .inl hfeed⟩
  · exact .inr ⟨hstring, .inr (hbetween.append front)⟩

/-- Where a quote that the source leaves open is closed after scrubbing, a comment has
joined a pair. -/
theorem commentBetweenBackslashes_of_cutFrom {kind : TokenKind} {quote : Char}
    (hquote : quote? kind = some quote) {later : List Char} {cut : List Char × List Char}
    (hopen : Sealed false quote later) (hcut : cutFrom quote false (scrub later) = some cut) :
    CommentBetweenBackslashes (tokenize later) := by
  apply commentBetweenBackslashes_of_joins
  by_contra hnone
  have hsealed := sealed_scrub hquote later false false hnone (.inl rfl) hopen
  rw [cutFrom_eq_none_iff.mpr hsealed] at hcut
  cases hcut

/-- The tokens of a scrubbed source are text and literals. A literal holds no line
feed, unless a comment of the source stood between backslashes. -/
theorem rescanned_of_mem_tokenize_scrub (source : List Char) :
    ∀ token ∈ tokenize (scrub source), Rescanned (tokenize source) token := by
  induction source using restInduction with
  | nil =>
      intro token hmem
      simp [scrub_nil, tokenize] at hmem
  | cons first later hleads ih =>
      intro token hmem
      have hlater : token ∈ tokenize (scrub later) →
          Rescanned (tokenize (first.text ++ later)) token := fun hmem => by
        rw [hleads.tokenize_append]
        exact (ih [] later rfl token hmem).append [first]
      rw [hleads.scrub_append] at hmem
      cases hleads with
      | @literal kind quote body _ hquote hbody hclose =>
          have hstring := isString_of_quote? hquote (quote :: body ++ [quote])
          rw [scrubbed_of_isString hstring,
            (leads_scrubbed_literal hquote hbody hclose _).tokenize_append] at hmem
          rcases List.mem_cons.mp hmem with rfl | hmem
          · exact .inr ⟨isString_of_quote? hquote _, .inl (notMem_flatMap_escapeLineFeed _)⟩
          · exact hlater hmem
      | @loneQuote kind quote _ hquote hopen =>
          have htokens := (Leads.loneQuote hquote hopen).tokenize_append
          cases hcut : cutFrom quote false (scrub later) with
          | none =>
              have hstill := Leads.loneQuote hquote (cutFrom_eq_none_iff.mp hcut)
              rw [scrubbed, hstill.tokenize_append] at hmem
              rcases List.mem_cons.mp hmem with rfl | hmem
              · exact .inl rfl
              · exact hlater hmem
          | some cut =>
              -- The quote is closed now, so a comment has joined a pair behind it.
              obtain ⟨text, after⟩ := cut
              obtain ⟨front, rest, hrest, rfl⟩ :=
                exists_rest_of_cutFrom_scrub hquote later false false text after hopen hcut
              obtain ⟨body, rfl, hscrub, hbody, hclose⟩ := cutFrom_eq_some_iff.mp hcut
              have hbetween := commentBetweenBackslashes_of_cutFrom hquote hopen hcut
              have hliteral := @Leads.literal kind quote body (scrub rest) hquote hbody hclose
              have hsplit : [quote] ++ scrub later = quote :: body ++ [quote] ++ scrub rest := by
                simp [hscrub]
              rw [scrubbed, hsplit, hliteral.tokenize_append] at hmem
              rw [htokens]
              rcases List.mem_cons.mp hmem with rfl | hmem
              · exact .inr ⟨isString_of_quote? hquote _, .inr (hbetween.append [_])⟩
              · have hmember := ih front rest hrest token hmem
                rw [hrest]
                exact hmember.append (⟨.text, [quote]⟩ :: front)
      | blockComment | lineComment => exact hlater hmem
      | run _ hrun _ =>
          rcases mem_tokenize_run_append hrun hmem with htext | hmem
          · exact .inl htext
          · exact hlater hmem

/-- No comment survives: whatever a second reading makes of a scrubbed source, it finds
no comment in it. -/
theorem kind_ne_comment_of_mem_tokenize_scrub (source : List Char) :
    ∀ token ∈ tokenize (scrub source), token.kind ≠ .comment := by
  intro token hmem hcomment
  rcases rescanned_of_mem_tokenize_scrub source token hmem with htext | ⟨hstring, -⟩
  · rw [hcomment] at htext
    cases htext
  · rw [isString, hcomment] at hstring
    cases hstring

/-- Text that is neither a literal nor a comment holds no `#`. -/
theorem hash_notMem_of_mem_tokenize (source : List Char) :
    ∀ token ∈ tokenize source, token.kind = .text → '#' ∉ token.text := by
  induction source using leadsInduction with
  | nil =>
      intro token hmem
      simp [tokenize] at hmem
  | cons first later hleads ih =>
      intro token hmem hkind
      rw [hleads.tokenize_append] at hmem
      rcases List.mem_cons.mp hmem with rfl | hmem
      · cases hleads with
        | literal hquote => cases hkind; cases hquote
        | @loneQuote kind quote _ hquote _ =>
            intro hhash
            cases kind <;> simp [quote?, ← List.mem_singleton.mp hhash] at hquote
        | blockComment | lineComment => cases hkind
        | run _ hrun _ =>
            intro hhash
            have hplain := hrun '#' hhash
            cases hplain
      · exact ih token hmem hkind

/-- A character of the joined tokens is a character of one of them. -/
theorem exists_token_of_flatMap_text {tokens : List Token} {c : Char} {before after : List Char}
    (htext : tokens.flatMap text = before ++ c :: after) :
    ∃ front token behind opened closed, tokens = front ++ token :: behind ∧
      token.text = opened ++ c :: closed ∧ before = front.flatMap text ++ opened ∧
      after = closed ++ behind.flatMap text := by
  induction tokens generalizing before with
  | nil => simp at htext
  | cons token tokens ih =>
      rw [List.flatMap_cons, List.append_eq_append_iff] at htext
      rcases htext with ⟨later, rfl, hlater⟩ | ⟨rest, htoken, hrest⟩
      · obtain ⟨front, found, behind, opened, closed, rfl, hfound, rfl, rfl⟩ := ih hlater
        exact ⟨token :: front, found, behind, opened, closed, rfl, hfound, by simp, rfl⟩
      · cases rest with
        | nil =>
            have hnext : tokens.flatMap text = [] ++ c :: after := hrest.symm
            obtain ⟨front, found, behind, opened, closed, rfl, hfound, hnil, rfl⟩ := ih hnext
            refine ⟨token :: front, found, behind, opened, closed, rfl, hfound, ?_, rfl⟩
            rw [List.flatMap_cons, List.append_assoc, ← hnil, htoken, List.append_nil,
              List.append_nil]
        | cons d rest =>
            injection hrest with hd hrest
            subst hd
            exact ⟨[], token, tokens, before, rest, rfl, htoken, rfl, hrest⟩

/-- Unless a comment stands between backslashes, the literals of the scrubbed source
hold no line feed. -/
theorem notMem_of_not_commentBetweenBackslashes {source : List Char}
    (hbetween : ¬ CommentBetweenBackslashes (tokenize source)) :
    ∀ token ∈ tokenize (scrub source), token.isString = true → '\n' ∉ token.text := by
  intro token hmem hstring
  rcases rescanned_of_mem_tokenize_scrub source token hmem with htext | ⟨-, hfeed | hfound⟩
  · rw [isString, htext] at hstring
    cases hstring
  · exact hfeed
  · exact absurd hfound hbetween

/-! ## Line feeds -/

theorem count_scrubbed_le (token : Token) : token.scrubbed.count '\n' ≤ token.text.count '\n' := by
  obtain ⟨kind, text⟩ := token
  cases kind with
  | comment => exact Nat.zero_le _
  | text => exact Nat.le_refl _
  | doubleQuoted | singleQuoted =>
      have hnone : (text.flatMap escapeLineFeed).count '\n' = 0 :=
        List.count_eq_zero.mpr (notMem_flatMap_escapeLineFeed text)
      simp [scrubbed, hnone]

theorem count_flatMap_scrubbed_le (tokens : List Token) :
    (tokens.flatMap scrubbed).count '\n' ≤ (tokens.flatMap text).count '\n' := by
  induction tokens with
  | nil => exact Nat.le_refl _
  | cons token tokens ih =>
      have htoken := count_scrubbed_le token
      simp only [List.flatMap_cons, List.count_append]
      omega

/-- If scrubbing keeps the number of line feeds, no literal holds one. -/
theorem notMem_of_count_eq {tokens : List Token}
    (hcount : (tokens.flatMap scrubbed).count '\n' = (tokens.flatMap text).count '\n') :
    ∀ token ∈ tokens, token.isString = true → '\n' ∉ token.text := by
  induction tokens with
  | nil =>
      intro token hmem
      cases hmem
  | cons first tokens ih =>
      intro token hmem hstring
      have hfirst := count_scrubbed_le first
      have hlater := count_flatMap_scrubbed_le tokens
      simp only [List.flatMap_cons, List.count_append] at hcount
      rcases List.mem_cons.mp hmem with rfl | hmem
      · have hnone : token.scrubbed.count '\n' = 0 := by
          rw [scrubbed_of_isString hstring]
          exact List.count_eq_zero.mpr (notMem_flatMap_escapeLineFeed _)
        exact List.count_eq_zero.mp (by omega)
      · exact ih (by omega) token hmem hstring

theorem flatMap_escapeLineFeed_of_notMem {text : List Char} (hfeed : '\n' ∉ text) :
    text.flatMap escapeLineFeed = text := by
  induction text with
  | nil => rfl
  | cons c text ih =>
      simp only [List.mem_cons, not_or] at hfeed
      rw [List.flatMap_cons, ih hfeed.2, escapeLineFeed, if_neg (Ne.symm hfeed.1)]
      rfl

/-- Scrubbing leaves a text without comments as it is exactly if no literal of it
holds a line feed. -/
theorem scrub_eq_self_iff {source : List Char}
    (hcomment : ∀ token ∈ tokenize source, token.kind ≠ .comment) :
    scrub source = source ↔
      ∀ token ∈ tokenize source, token.isString = true → '\n' ∉ token.text := by
  constructor
  · intro heq
    apply notMem_of_count_eq
    rw [flatMap_text_tokenize, ← scrub, heq]
  · intro hfeed
    have hsame : ∀ token ∈ tokenize source, token.scrubbed = token.text := by
      intro token hmem
      have hkind := hcomment token hmem
      have hstring := hfeed token hmem
      obtain ⟨kind, text⟩ := token
      cases kind with
      | comment => exact absurd rfl hkind
      | text => rfl
      | doubleQuoted | singleQuoted => exact flatMap_escapeLineFeed_of_notMem (hstring rfl)
    calc
      scrub source = (tokenize source).flatMap text := List.flatMap_congr hsame
      _ = source := flatMap_text_tokenize source

end Token

/-- Comments are gone for good. The tokens of a scrubbed source are literals and text,
whatever its quotes have become, and each `#` that is left in it stands in a literal. -/
theorem hash_in_literal_of_scrub (source : List Char) :
    (∀ token ∈ tokenize (scrub source), token.kind ≠ .comment) ∧
      ∀ before after, scrub source = before ++ '#' :: after →
        ∃ front literal behind opened closed,
          tokenize (scrub source) = front ++ literal :: behind ∧ literal.isString = true ∧
          literal.text = opened ++ '#' :: closed ∧
          before = front.flatMap Token.text ++ opened ∧
          after = closed ++ behind.flatMap Token.text := by
  have hcomment := Token.kind_ne_comment_of_mem_tokenize_scrub source
  refine ⟨hcomment, fun before after hscrub => ?_⟩
  rw [← flatMap_text_tokenize (scrub source)] at hscrub
  obtain ⟨front, token, behind, opened, closed, htokens, htext, hbefore, hafter⟩ :=
    Token.exists_token_of_flatMap_text hscrub
  refine ⟨front, token, behind, opened, closed, htokens, ?_, htext, hbefore, hafter⟩
  have hmem : token ∈ tokenize (scrub source) := by
    rw [htokens]
    exact List.mem_append_right _ List.mem_cons_self
  have hplain := Token.hash_notMem_of_mem_tokenize (scrub source) token hmem
  have hnone := hcomment token hmem
  cases hkind : token.kind with
  | doubleQuoted | singleQuoted => rw [Token.isString, hkind]
  | comment => exact absurd hkind hnone
  | text => exact absurd (by rw [htext]; simp) (hplain hkind)

/-- A second pass of scrubbing. It changes nothing exactly if no literal of the scrubbed
source holds a line feed; that is so for every source in which no comment stands between
backslashes; and from the second pass on nothing ever changes. -/
theorem scrub_scrub_eq_iff (source : List Char) :
    (scrub (scrub source) = scrub source ↔
      ∀ token ∈ tokenize (scrub source), token.isString = true → '\n' ∉ token.text) ∧
    (¬ Token.CommentBetweenBackslashes (tokenize source) →
      scrub (scrub source) = scrub source) ∧
    scrub (scrub (scrub source)) = scrub (scrub source) := by
  have hcomment := Token.kind_ne_comment_of_mem_tokenize_scrub
  have hstable : ∀ text, ¬ Token.CommentBetweenBackslashes (tokenize text) →
      scrub (scrub text) = scrub text := fun text hbetween =>
    (Token.scrub_eq_self_iff (hcomment text)).mpr
      (Token.notMem_of_not_commentBetweenBackslashes hbetween)
  refine ⟨Token.scrub_eq_self_iff (hcomment source), hstable source, hstable (scrub source) ?_⟩
  rintro ⟨before, comment, after, htokens, hkind, -, -⟩
  exact hcomment source comment (by rw [htokens]; simp) hkind

/-- A source that a second pass does change: a quote and a line feed, then a block
comment with a backslash on either side, then a quote like the first. Without the
comment the backslashes pair with each other and the second quote closes the first. -/
theorem scrub_scrub_ne :
    scrub (scrub ['\'', '\n', '\\', '#', '#', '#', '#', '#', '#', '\\', '\'']) ≠
      scrub ['\'', '\n', '\\', '#', '#', '#', '#', '#', '#', '\\', '\''] := by
  decide +kernel

end Offside
