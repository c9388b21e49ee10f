/-
# Tokens tile the source

What a token is depends on the character it begins with and on what follows it,
never on what came before. `Leads` states that rule without mentioning the reader:
which texts may stand as one token in front of a given rest. The reader follows it
in both directions, `leads_iff_next`, so the rule leaves no choice anywhere.

From there the main result: the spans of a source begin at zero,
none is empty, each begins where the one before it ends, the last one ends with the
source, every boundary lies between two characters, and every token is the only one
that the rule allows at its place.
-/

import Mathlib.Data.List.TakeWhile
import Offside.Proofs.Token.Escape

namespace Offside

namespace Token

/-- The sign that opens and closes a block comment. -/
def fence : List Char := ['#', '#', '#']

/-- A `#` in front of this text opens a block comment: two more signs follow, and
another fence somewhere behind them. -/
def OpensBlock (text : List Char) : Prop := ∃ rest, text = '#' :: '#' :: rest ∧ fence <:+: rest

/-- The quote that delimits literals of a kind. -/
def quote? : TokenKind → Option Char
  | .doubleQuoted => some '"'
  | .singleQuoted => some '\''
  | .comment | .text => none

/-- The token is what its first character dictates when `after` follows it. -/
inductive Leads : Token → List Char → Prop
  /-- A literal runs through the first quote of its own that is not the second of a
  backslash pair counted from the opener. -/
  | literal {kind : TokenKind} {quote : Char} {body after : List Char}
      (hquote : quote? kind = some quote) (hbody : Sealed false quote body)
      (hclose : pending false body = false) : Leads ⟨kind, quote :: body ++ [quote]⟩ after
  /-- A quote stands alone when every later one like it is protected. -/
  | loneQuote {kind : TokenKind} {quote : Char} {after : List Char}
      (hquote : quote? kind = some quote) (hopen : Sealed false quote after) :
      Leads ⟨.text, [quote]⟩ after
  /-- A block comment runs through the first fence behind its opening one. -/
  | blockComment {body after : List Char} (hfirst : ¬ fence <:+: body ++ ['#', '#']) :
      Leads ⟨.comment, fence ++ body ++ fence⟩ after
  /-- Any other comment runs up to the next line feed. -/
  | lineComment {body after : List Char} (hblock : ¬ OpensBlock (body ++ after))
      (hbody : '\n' ∉ body) (hend : ∀ c ∈ after.head?, c = '\n') :
      Leads ⟨.comment, '#' :: body⟩ after
  /-- Other text runs as far as there is neither a quote nor a `#`. -/
  | run {text after : List Char} (hne : text ≠ []) (hrun : ∀ c ∈ text, isPlain c = true)
      (hend : ∀ c ∈ after.head?, isPlain c = false) : Leads ⟨.text, text⟩ after

/-! ## Cutting a comment -/

theorem cutAfterFence_eq_none_iff {text : List Char} :
    cutAfterFence text = none ↔ ¬ fence <:+: text := by
  fun_induction cutAfterFence text with
  | case1 => simp [fence]
  | case2 rest =>
      simp only [reduceCtorEq, false_iff, not_not]
      exact ⟨[], rest, rfl⟩
  | case3 c rest hfence ih =>
      rw [Option.map_eq_none_iff, ih, List.infix_cons_iff, not_or]
      refine (and_iff_right ?_).symm
      rintro ⟨after, heq⟩
      injection heq with hc hrest
      exact hfence after hc.symm hrest.symm

/-- A fence in front of a text that goes on with a fence begins inside the part in
front, or at its end. -/
theorem fence_prefix_of_append {body after : List Char} (hne : body ≠ [])
    (hbegin : fence <+: body ++ fence ++ after) : fence <+: body ++ ['#', '#'] := by
  refine List.prefix_of_prefix_length_le hbegin ⟨'#' :: after, by simp [fence]⟩ ?_
  have hpos := List.length_pos_iff.mpr hne
  simp only [fence, List.length_append, List.length_cons, List.length_nil]
  omega

/-- The cut falls behind the first fence. -/
theorem cutAfterFence_eq_some_iff {text cut after : List Char} :
    cutAfterFence text = some (cut, after) ↔
      ∃ body, cut = body ++ fence ∧ text = body ++ fence ++ after ∧
        ¬ fence <:+: body ++ ['#', '#'] := by
  fun_induction cutAfterFence text generalizing cut with
  | case1 => simp [fence]
  | case2 rest =>
      simp only [Option.some.injEq, Prod.mk.injEq]
      constructor
      · rintro ⟨rfl, rfl⟩
        exact ⟨[], rfl, rfl, fun hinfix => by simpa [fence] using hinfix.length_le⟩
      · rintro ⟨body, rfl, htext, hfirst⟩
        cases body with
        | nil => exact ⟨rfl, by simpa [fence] using htext⟩
        | cons b body =>
            have hbegin : fence <+: b :: body ++ fence ++ after := htext ▸ ⟨rest, rfl⟩
            exact absurd (fence_prefix_of_append (by simp) hbegin).isInfix hfirst
  | case3 c rest hfence ih =>
      rw [Option.map_eq_some_iff]
      constructor
      · rintro ⟨⟨inner, behind⟩, hinner, heq⟩
        obtain ⟨rfl, rfl⟩ := Prod.mk.inj heq
        obtain ⟨body, rfl, rfl, hfirst⟩ := ih.mp hinner
        refine ⟨c :: body, rfl, rfl, ?_⟩
        rw [List.cons_append, List.infix_cons_iff, not_or]
        refine ⟨?_, hfirst⟩
        rintro ⟨later, heq⟩
        injection heq with hc hlater
        refine hfence (later ++ '#' :: behind) hc.symm ?_
        calc
          body ++ fence ++ behind = body ++ ['#', '#'] ++ '#' :: behind := by simp [fence]
          _ = '#' :: '#' :: (later ++ '#' :: behind) := by
            rw [← hlater]
            rfl
      · rintro ⟨body, rfl, htext, hfirst⟩
        cases body with
        | nil =>
            injection htext with hc hrest
            exact absurd hrest (hfence _ hc)
        | cons b body =>
            injection htext with hb hrest
            subst hb
            refine ⟨(body ++ fence, after), ih.mpr ⟨body, rfl, hrest, fun hinfix => ?_⟩, rfl⟩
            exact hfirst (List.infix_cons hinfix)

/-- Text in front of which a `#` opens a block comment is cut behind the next fence. -/
theorem cutComment_of_fence {rest body after : List Char}
    (hcut : cutAfterFence rest = some (body, after)) :
    cutComment ('#' :: '#' :: rest) = ('#' :: '#' :: body, after) := by
  rw [cutComment, hcut]

/-- Any other text is cut in front of its first line feed. -/
theorem cutComment_of_not_opensBlock {text : List Char} (hblock : ¬ OpensBlock text) :
    cutComment text = (text.takeWhile (· ≠ '\n'), text.dropWhile (· ≠ '\n')) := by
  unfold cutComment
  split
  · rename_i rest
    have hnone : cutAfterFence rest = none :=
      cutAfterFence_eq_none_iff.mpr fun hfence => hblock ⟨rest, rfl, hfence⟩
    rw [hnone]
    rfl
  · rfl

/-- A leading part that satisfies `p`, in front of something that does not, is all
that `takeWhile` takes. -/
theorem takeWhile_append_of_stop {p : Char → Bool} {front after : List Char}
    (hfront : ∀ c ∈ front, p c = true) (hstop : ∀ c ∈ after.head?, p c = false) :
    (front ++ after).takeWhile p = front ∧ (front ++ after).dropWhile p = after := by
  have hnone : after.takeWhile p = [] ∧ after.dropWhile p = after := by
    cases after with
    | nil => exact ⟨rfl, rfl⟩
    | cons c after => simp [hstop c rfl]
  rw [List.takeWhile_append_of_pos hfront, List.dropWhile_append_of_pos hfront, hnone.1, hnone.2]
  exact ⟨List.append_nil _, rfl⟩

theorem head?_dropWhile_eq_false {p : Char → Bool} (text : List Char) :
    ∀ c ∈ (text.dropWhile p).head?, p c = false := by
  intro c hc
  have hhead := List.head?_dropWhile_not p text
  rw [Option.mem_def.mp hc] at hhead
  simpa using hhead

/-! ## The reader follows the rule -/

theorem quote_ne_backslash {kind : TokenKind} {quote : Char} (hquote : quote? kind = some quote) :
    quote ≠ '\\' := by
  cases kind <;> simp [quote?] at hquote <;> subst hquote <;> decide

/-- Behind a quote, the reader looks for a quote like it. -/
theorem next_eq_quoted {kind : TokenKind} {quote : Char} (hquote : quote? kind = some quote)
    (rest : List Char) : next quote rest = quoted kind quote rest := by
  cases kind <;> simp [quote?] at hquote <;> subst hquote <;> rfl

theorem next_hash (rest : List Char) :
    next '#' rest = (⟨.comment, '#' :: (cutComment rest).1⟩, (cutComment rest).2) := rfl

theorem next_of_isPlain {c : Char} (hc : isPlain c = true) (rest : List Char) :
    next c rest = (⟨.text, c :: rest.takeWhile isPlain⟩, rest.dropWhile isPlain) := by
  simp only [isPlain, Bool.and_eq_true, decide_eq_true_eq] at hc
  rw [next, if_neg hc.1.1, if_neg hc.1.2, if_neg hc.2]

theorem quoted_leads {kind : TokenKind} {quote : Char} (hquote : quote? kind = some quote)
    (rest : List Char) : Leads (quoted kind quote rest).1 (quoted kind quote rest).2 := by
  unfold quoted
  rw [cutAfterQuote_eq_cutFrom (quote_ne_backslash hquote)]
  cases hcut : cutFrom quote false rest with
  | none => exact .loneQuote hquote (cutFrom_eq_none_iff.mp hcut)
  | some cut =>
      obtain ⟨text, after⟩ := cut
      obtain ⟨body, rfl, -, hsealed, hpending⟩ := cutFrom_eq_some_iff.mp hcut
      exact .literal hquote hsealed hpending

theorem comment_leads (rest : List Char) :
    Leads ⟨.comment, '#' :: (cutComment rest).1⟩ (cutComment rest).2 := by
  by_cases hblock : OpensBlock rest
  · obtain ⟨inner, rfl, hfence⟩ := hblock
    cases hcut : cutAfterFence inner with
    | none => exact absurd hfence (cutAfterFence_eq_none_iff.mp hcut)
    | some cut =>
        obtain ⟨text, after⟩ := cut
        obtain ⟨body, rfl, -, hfirst⟩ := cutAfterFence_eq_some_iff.mp hcut
        rw [cutComment_of_fence hcut]
        exact .blockComment hfirst
  · rw [cutComment_of_not_opensBlock hblock]
    refine .lineComment ?_ ?_ fun c hc => ?_
    · rwa [List.takeWhile_append_dropWhile]
    · intro hmem
      simpa using List.mem_takeWhile_imp hmem
    · simpa using head?_dropWhile_eq_false rest c hc

/-- The reader takes what the first character dictates. -/
theorem next_leads (c : Char) (rest : List Char) : Leads (next c rest).1 (next c rest).2 := by
  by_cases hplain : isPlain c
  · rw [next_of_isPlain hplain]
    refine .run (by simp) (fun d hd => ?_) (head?_dropWhile_eq_false rest)
    rcases List.mem_cons.mp hd with rfl | hd
    · exact hplain
    · exact List.mem_takeWhile_imp hd
  · have hcases : c = '"' ∨ c = '\'' ∨ c = '#' := by
      simp only [isPlain, Bool.and_eq_true, decide_eq_true_eq, not_and_or, not_not] at hplain
      tauto
    rcases hcases with rfl | rfl | rfl
    · rw [@next_eq_quoted .doubleQuoted _ rfl]
      exact quoted_leads rfl rest
    · rw [@next_eq_quoted .singleQuoted _ rfl]
      exact quoted_leads rfl rest
    · exact comment_leads rest

/-- Whatever the rule allows in front of `after` is what the reader takes. -/
theorem Leads.next_eq {token : Token} {after : List Char} (hleads : Leads token after)
    {c : Char} {rest : List Char} (htext : token.text ++ after = c :: rest) :
    next c rest = (token, after) := by
  cases hleads with
  | @literal kind quote body _ hquote hbody hclose =>
      injection htext with hc hrest
      subst hc
      have hcut : cutFrom quote false rest = some (body ++ [quote], after) :=
        cutFrom_eq_some_iff.mpr ⟨body, rfl, by simp [← hrest], hbody, hclose⟩
      rw [next_eq_quoted hquote, quoted, cutAfterQuote_eq_cutFrom (quote_ne_backslash hquote), hcut]
      rfl
  | @loneQuote kind quote _ hquote hopen =>
      injection htext with hc hrest
      subst hc hrest
      have hcut : cutFrom quote false after = none := cutFrom_eq_none_iff.mpr hopen
      rw [next_eq_quoted hquote, quoted, cutAfterQuote_eq_cutFrom (quote_ne_backslash hquote)]
      simp [hcut]
  | @blockComment body _ hfirst =>
      injection htext with hc hrest
      subst hc
      have hcut : cutAfterFence (body ++ fence ++ after) = some (body ++ fence, after) :=
        cutAfterFence_eq_some_iff.mpr ⟨body, rfl, rfl, hfirst⟩
      have hrest : rest = '#' :: '#' :: (body ++ fence ++ after) := by
        rw [← hrest]
        simp
      rw [hrest, next_hash, cutComment_of_fence hcut]
      rfl
  | @lineComment body _ hblock hbody hend =>
      simp only [List.cons_append, List.cons.injEq] at htext
      obtain ⟨rfl, rfl⟩ := htext
      have hfront : ∀ c ∈ body, decide (c ≠ '\n') = true := by
        intro c hc
        have hne : c ≠ '\n' := fun heq => hbody (heq ▸ hc)
        simpa using hne
      obtain ⟨htake, hdrop⟩ := takeWhile_append_of_stop hfront fun c hc => by simpa using hend c hc
      rw [next_hash, cutComment_of_not_opensBlock hblock, htake, hdrop]
  | @run text _ hne hrun hend =>
      cases text with
      | nil => exact absurd rfl hne
      | cons d text =>
          simp only [List.cons_append, List.cons.injEq] at htext
          obtain ⟨rfl, rfl⟩ := htext
          obtain ⟨htake, hdrop⟩ := takeWhile_append_of_stop
            (fun c hc => hrun c (List.mem_cons_of_mem _ hc)) hend
          rw [next_of_isPlain (hrun _ List.mem_cons_self), htake, hdrop]

/-- The rule and the reader agree: a token may stand in front of a rest exactly if
the reader takes it there. -/
theorem leads_iff_next {token : Token} {after : List Char} {c : Char} {rest : List Char}
    (htext : token.text ++ after = c :: rest) :
    Leads token after ↔ next c rest = (token, after) := by
  constructor
  · intro hleads
    exact hleads.next_eq htext
  · intro hnext
    have hleads := next_leads c rest
    rwa [hnext] at hleads

theorem Leads.text_ne_nil {token : Token} {after : List Char} (hleads : Leads token after) :
    token.text ≠ [] := by
  cases hleads with
  | run hne _ _ => exact hne
  | literal | loneQuote | blockComment | lineComment => simp [fence]

/-- At each place of a source the rule allows one token only. -/
theorem Leads.unique {first second : Token} {after behind : List Char}
    (hfirst : Leads first after) (hsecond : Leads second behind)
    (htext : first.text ++ after = second.text ++ behind) : first = second := by
  obtain ⟨c, rest, hcons⟩ := List.exists_cons_of_ne_nil
    (List.append_ne_nil_of_left_ne_nil hfirst.text_ne_nil after)
  have hone := hfirst.next_eq hcons
  have htwo := hsecond.next_eq (htext ▸ hcons)
  exact congrArg Prod.fst (hone.symm.trans htwo)

end Token

/-! ## Spans -/

/-- The spans lead from `start` to `stop` without a gap or an overlap, and none of
them is empty. -/
def Tiles (start stop : Nat) : List (Nat × Nat) → Prop
  | [] => start = stop
  | (first, last) :: rest => first = start ∧ first < last ∧ Tiles last stop rest

theorem tiles_spansFrom (source : List Char) (start : Nat) :
    Tiles start (start + Text.byteLength source)
      ((Token.spansFrom start (tokenize source)).map Prod.snd) := by
  fun_induction tokenize source generalizing start with
  | case1 => rfl
  | case2 c rest ih =>
      have hlength := congrArg Text.byteLength (Token.next_append c rest)
      rw [Text.byteLength_append] at hlength
      have hpos := Text.byteLength_pos (Token.next_text_ne_nil c rest)
      have hrest := ih (start + Text.byteLength (Token.next c rest).1.text)
      rw [Nat.add_assoc, hlength] at hrest
      exact ⟨rfl, Nat.lt_add_of_pos_right hpos, hrest⟩

/-- A token of a source stands in it at its span, and the rule allows it there. -/
theorem exists_append_of_mem_spansFrom {source : List Char} {base start stop : Nat} {token : Token}
    (hmem : (token, start, stop) ∈ Token.spansFrom base (tokenize source)) :
    ∃ before after, source = before ++ token.text ++ after ∧
      start = base + Text.byteLength before ∧
      stop = base + Text.byteLength (before ++ token.text) ∧ token.Leads after := by
  fun_induction tokenize source generalizing base with
  | case1 => cases hmem
  | case2 c rest ih =>
      have htext := Token.next_append c rest
      rcases List.mem_cons.mp hmem with heq | hlater
      · simp only [Prod.mk.injEq] at heq
        obtain ⟨rfl, rfl, rfl⟩ := heq
        exact ⟨[], (Token.next c rest).2, htext.symm, rfl, rfl, Token.next_leads c rest⟩
      · obtain ⟨before, after, hrest, hstart, hstop, hleads⟩ := ih hlater
        refine ⟨(Token.next c rest).1.text ++ before, after, ?_, ?_, ?_, hleads⟩
        · rw [← htext, hrest]
          simp
        · rw [hstart, Text.byteLength_append, Nat.add_assoc]
        · rw [hstop, List.append_assoc, Text.byteLength_append (Token.next c rest).1.text,
            Nat.add_assoc]

/-- Reading a source is an exact tiling. For every source the spans lead from zero to
its length without gap, overlap or empty span; every span begins and ends between two
characters; and the token in it is the one, and the only one, that the rule allows in
front of what follows. -/
theorem tokenSpans_tile (source : List Char) :
    Tiles 0 (Text.byteLength source) ((tokenSpans source).map Prod.snd) ∧
      ∀ token start stop, (token, start, stop) ∈ tokenSpans source →
        ∃ before after, source = before ++ token.text ++ after ∧
          start = Text.byteLength before ∧ stop = Text.byteLength (before ++ token.text) ∧
          token.Leads after ∧
          ∀ other behind, other.text ++ behind = token.text ++ after →
            Token.Leads other behind → other = token := by
  constructor
  · have htiles := tiles_spansFrom source 0
    rwa [Nat.zero_add] at htiles
  · intro token start stop hmem
    obtain ⟨before, after, hsource, hstart, hstop, hleads⟩ := exists_append_of_mem_spansFrom hmem
    rw [Nat.zero_add] at hstart hstop
    exact ⟨before, after, hsource, hstart, hstop, hleads,
      fun other behind htext hother => hother.unique hleads htext⟩

end Offside
