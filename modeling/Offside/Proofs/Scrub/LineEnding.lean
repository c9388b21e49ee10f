/-
# Scrubbing lines with carriage returns

A source may have carriage returns in front of its line feeds. Its tokens are the same but
for those: a literal has them inside, a line comment takes the one at its end, and other
text keeps them. A backslash in front of a line end pairs with the carriage return instead
of the line feed, but either way nothing is pending behind the line feed, and no quote is
protected that was not.

So what scrubbing leaves of the two sources has the same lines, up to carriage returns at
their ends and in their literals: `LinesWithReturns` for the two texts, `WithReturns` for
each line.
-/

import Offside.Proofs.Scrub.Literal
import Offside.Proofs.Text.LineEnding

namespace Offside

open Text (AddsReturns)

/-- The second text has the lines of the first, some with carriage returns added. The bit
says of the first line whether a quote or a `#` stands in front of it. -/
inductive LinesWithReturns : Bool → List Char → List Char → Prop
  /-- Both texts end. -/
  | nil {behind : Bool} : LinesWithReturns behind [] []
  /-- Both go on with the same character. -/
  | keep {behind : Bool} {c : Char} {text text' : List Char} (hreturn : c ≠ '\r')
      (hfeed : c ≠ '\n') (hrest : LinesWithReturns (behind || !Token.isPlain c) text text') :
      LinesWithReturns behind (c :: text) (c :: text')
  /-- The second text has a carriage return in front of an escaped line feed. -/
  | feed {behind : Bool} {text text' : List Char} (hbehind : behind = true)
      (hrest : LinesWithReturns behind text text') :
      LinesWithReturns behind ('\\' :: 'n' :: text) ('\r' :: '\\' :: 'n' :: text')
  /-- A line ends in a line feed. -/
  | lineFeed {behind : Bool} {text text' : List Char} (hrest : LinesWithReturns false text text') :
      LinesWithReturns behind ('\n' :: text) ('\n' :: text')
  /-- A line ends in a line feed, and in a carriage return and a line feed. -/
  | lineEnd {behind : Bool} {text text' : List Char} (hrest : LinesWithReturns false text text') :
      LinesWithReturns behind ('\n' :: text) ('\r' :: '\n' :: text')

namespace LinesWithReturns

variable {behind : Bool} {text text' : List Char}

theorem mono_true (hlines : LinesWithReturns behind text text') :
    LinesWithReturns true text text' := by
  induction hlines with
  | nil => exact .nil
  | keep hreturn hfeed _ ih => exact .keep hreturn hfeed ih
  | feed _ _ ih => exact .feed rfl ih
  | lineFeed hrest _ => exact .lineFeed hrest
  | lineEnd hrest _ => exact .lineEnd hrest

theorem mono (hlines : LinesWithReturns false text text') :
    LinesWithReturns behind text text' := by
  cases behind with
  | false => exact hlines
  | true => exact hlines.mono_true

/-- The two texts have the same lines, up to carriage returns. -/
theorem exists_splitLines (hlines : LinesWithReturns behind text text') :
    ∃ first later first' later', Text.splitLines text = first :: later ∧
      Text.splitLines text' = first' :: later' ∧ WithReturns true behind first first' ∧
      List.Forall₂ (WithReturns true false) later later' := by
  unfold Text.splitLines
  induction hlines with
  | nil => exact ⟨[], [], [], [], rfl, rfl, .nil, .nil⟩
  | @keep _ c _ _ hreturn hfeed _ ih =>
      obtain ⟨first, later, first', later', hsplit, hsplit', hfirst, hlater⟩ := ih
      refine ⟨c :: first, later, c :: first', later', ?_, ?_, .keep hreturn hfeed hfirst, hlater⟩
      · simp [List.splitOn_cons_eq_if_modifyHead, hfeed, hsplit]
      · simp [List.splitOn_cons_eq_if_modifyHead, hfeed, hsplit']
  | feed hbehind _ ih =>
      obtain ⟨first, later, first', later', hsplit, hsplit', hfirst, hlater⟩ := ih
      refine ⟨'\\' :: 'n' :: first, later, '\r' :: '\\' :: 'n' :: first', later', ?_, ?_,
        .feed hbehind hfirst, hlater⟩
      · simp [List.splitOn_cons_eq_if_modifyHead, hsplit]
      · simp [List.splitOn_cons_eq_if_modifyHead, hsplit']
  | lineFeed _ ih =>
      obtain ⟨first, later, first', later', hsplit, hsplit', hfirst, hlater⟩ := ih
      refine ⟨[], first :: later, [], first' :: later', ?_, ?_, .nil, .cons hfirst hlater⟩
      · simp [List.splitOn_cons_eq_if_modifyHead, hsplit]
      · simp [List.splitOn_cons_eq_if_modifyHead, hsplit']
  | lineEnd _ ih =>
      obtain ⟨first, later, first', later', hsplit, hsplit', hfirst, hlater⟩ := ih
      refine ⟨[], first :: later, ['\r'], first' :: later', ?_, ?_, .last rfl, .cons hfirst hlater⟩
      · simp [List.splitOn_cons_eq_if_modifyHead, hsplit]
      · simp [List.splitOn_cons_eq_if_modifyHead, hsplit']

theorem forall₂_splitLines (hlines : LinesWithReturns false text text') :
    List.Forall₂ (WithReturns true false) (Text.splitLines text) (Text.splitLines text') := by
  obtain ⟨first, later, first', later', hsplit, hsplit', hfirst, hlater⟩ :=
    hlines.exists_splitLines
  rw [hsplit, hsplit']
  exact .cons hfirst hlater

end LinesWithReturns

namespace Token

variable {text text' : List Char} {quote : Char}

/-! ## Literals -/

theorem ne_lineEnd_of_quote? {kind : TokenKind} (hquote : quote? kind = some quote) :
    '\r' ≠ quote ∧ '\n' ≠ quote := by
  rcases eq_of_quote? hquote with rfl | rfl <;> decide

/-- Behind the line feed nothing is pending, whatever stands in front of it. -/
theorem pending_of_addsReturns (hadds : AddsReturns text text') (escaped : Bool) :
    pending escaped text' = pending escaped text := by
  induction hadds generalizing escaped with
  | nil => rfl
  | keep _ _ ih => exact ih _
  | lineEnd _ ih =>
      simp only [pending_cons, escapesNext_of_ne (show '\n' ≠ '\\' by decide)]
      exact ih false

theorem Sealed.of_addsReturns (hadds : AddsReturns text text') (hreturn : '\r' ≠ quote)
    (hfeed : '\n' ≠ quote) {escaped : Bool} (hsealed : Sealed escaped quote text) :
    Sealed escaped quote text' := by
  induction hadds generalizing escaped with
  | nil => exact sealed_nil
  | keep _ _ ih =>
      obtain ⟨hhead, htail⟩ := sealed_cons_iff.mp hsealed
      exact sealed_cons_iff.mpr ⟨hhead, ih htail⟩
  | lineEnd _ ih =>
      have htail := (sealed_cons_iff.mp hsealed).2
      rw [escapesNext_of_ne (by decide)] at htail
      refine sealed_cons_iff.mpr ⟨fun heq => absurd heq hreturn, sealed_cons_iff.mpr
        ⟨fun heq => absurd heq hfeed, ?_⟩⟩
      rw [escapesNext_of_ne (by decide)]
      exact ih htail

/-- In a literal each line feed is escaped, and a carriage return in front of it stays. -/
theorem linesWithReturns_literal (hadds : AddsReturns text text') {rest rest' : List Char}
    (hrest : LinesWithReturns true rest rest') :
    LinesWithReturns true (text.flatMap escapeLineFeed ++ rest)
      (text'.flatMap escapeLineFeed ++ rest') := by
  induction hadds with
  | nil => exact hrest
  | @keep c _ _ hreturn _ ih =>
      by_cases hfeed : c = '\n'
      · subst hfeed
        exact .keep (by decide) (by decide) (.keep (by decide) (by decide) ih)
      · rw [List.flatMap_cons, List.flatMap_cons, escapeLineFeed, if_neg hfeed]
        exact .keep hreturn hfeed ih
  | lineEnd _ ih => exact .feed rfl ih

/-! ## Comments and other text -/

/-- A fence has no line ends in it. -/
theorem fence_infix_of_addsReturns (hadds : AddsReturns text text') (hfence : fence <:+: text') :
    fence <:+: text := by
  have hfilter : Text.dropReturns fence <:+: Text.dropReturns text' := hfence.filter _
  rwa [hadds.dropReturns_eq] at hfilter

theorem OpensBlock.of_addsReturns (hadds : AddsReturns text text') (hopens : OpensBlock text') :
    OpensBlock text := by
  obtain ⟨rest', rfl, hfence⟩ := hopens
  cases hadds with
  | keep _ hadds =>
      cases hadds with
      | keep _ hadds => exact ⟨_, rfl, fence_infix_of_addsReturns hadds hfence⟩

theorem linesWithReturns_run (hadds : AddsReturns text text') {behind : Bool}
    (hrun : ∀ c ∈ text, isPlain c = true) {rest rest' : List Char}
    (hrest : LinesWithReturns false rest rest') :
    LinesWithReturns behind (text ++ rest) (text' ++ rest') := by
  induction hadds generalizing behind with
  | nil => exact hrest.mono
  | @keep c _ _ hreturn _ ih =>
      rw [List.forall_mem_cons] at hrun
      by_cases hfeed : c = '\n'
      · subst hfeed
        exact .lineFeed (ih hrun.2)
      · exact .keep hreturn hfeed (ih hrun.2)
  | lineEnd _ ih =>
      rw [List.forall_mem_cons] at hrun
      exact .lineEnd (ih hrun.2)

/-! ## Tokens -/

/-- With carriage returns, `token'` is read in front of `after'` where `token` is read in front
of `after`, and the two leave the same lines. -/
structure Counterpart (token token' : Token) (after after' : List Char) : Prop where
  leads : Leads token' after'
  after : AddsReturns after after'
  scrubbed : ∀ {rest rest'}, LinesWithReturns false rest rest' →
    LinesWithReturns false (token.scrubbed ++ rest) (token'.scrubbed ++ rest')

variable {kind : TokenKind} {body after after' : List Char}

theorem scrubbed_literal_append (hquote : quote? kind = some quote) (body rest : List Char) :
    scrubbed ⟨kind, quote :: body ++ [quote]⟩ ++ rest =
      quote :: (body.flatMap escapeLineFeed ++ quote :: rest) := by
  rw [scrubbed_of_isString (isString_of_quote? hquote _)]
  simp [escapeLineFeed_quote hquote]

/-- A literal keeps its quotes. -/
theorem exists_counterpart_literal (hquote : quote? kind = some quote)
    (hbody : Sealed false quote body) (hclose : pending false body = false)
    (htext : AddsReturns (quote :: body ++ [quote]) text') (hafter : AddsReturns after after') :
    ∃ token', text' = token'.text ∧
      Counterpart ⟨kind, quote :: body ++ [quote]⟩ token' after after' := by
  obtain ⟨hreturn, hfeed⟩ := ne_lineEnd_of_quote? hquote
  obtain ⟨front', back', rfl, hfront, hback⟩ := htext.exists_append
  obtain ⟨quote', body', rfl, hopener, hinner⟩ :=
    (show AddsReturns ([quote] ++ body) front' from hfront).exists_append
  obtain rfl := hopener.eq_of_notMem (by simpa using hfeed)
  obtain rfl := hback.eq_of_notMem (by simpa using hfeed)
  refine ⟨⟨kind, quote :: body' ++ [quote]⟩, rfl,
    .literal hquote (hbody.of_addsReturns hinner hreturn hfeed) ?_, hafter, fun hrest => ?_⟩
  · rw [pending_of_addsReturns hinner, hclose]
  · rw [scrubbed_literal_append hquote, scrubbed_literal_append hquote]
    refine .keep hreturn.symm hfeed.symm ?_
    rw [isPlain_of_quote? hquote]
    exact linesWithReturns_literal hinner (.keep hreturn.symm hfeed.symm hrest.mono)

/-- A block comment has the same fences. -/
theorem exists_counterpart_blockComment (hfirst : ¬ fence <:+: body ++ ['#', '#'])
    (htext : AddsReturns (fence ++ body ++ fence) text') (hafter : AddsReturns after after') :
    ∃ token', text' = token'.text ∧
      Counterpart ⟨.comment, fence ++ body ++ fence⟩ token' after after' := by
  have hsigns : AddsReturns ['#', '#'] ['#', '#'] :=
    Text.addsReturns_addReturns (show '\r' ∉ ['#', '#'] by decide)
  obtain ⟨front', back', rfl, hfront, hback⟩ := htext.exists_append
  obtain ⟨opener', body', rfl, hopener, hinner⟩ := hfront.exists_append
  obtain rfl := hopener.eq_of_notMem (by decide)
  obtain rfl := hback.eq_of_notMem (by decide)
  refine ⟨⟨.comment, fence ++ body' ++ fence⟩, rfl, .blockComment fun hfence => ?_, hafter, id⟩
  exact hfirst (fence_infix_of_addsReturns (hinner.append hsigns) hfence)

/-- A line comment takes the carriage return in front of its line feed. -/
theorem exists_counterpart_lineComment (hblock : ¬ OpensBlock (body ++ after))
    (hbody : '\n' ∉ body) (hend : ∀ c ∈ after.head?, c = '\n')
    (hbodies : AddsReturns body body) (hafter : AddsReturns after after') :
    ∃ token' rest', '#' :: body ++ after' = token'.text ++ rest' ∧
      Counterpart ⟨.comment, '#' :: body⟩ token' after rest' := by
  cases hafter with
  | nil => exact ⟨_, [], rfl, .lineComment hblock hbody hend, .nil, id⟩
  | @keep c _ later hreturn hrest =>
      obtain rfl := hend c rfl
      refine ⟨⟨.comment, '#' :: body⟩, '\n' :: later, rfl,
        .lineComment (fun hopens => hblock ?_) hbody (by simp), .keep hreturn hrest, id⟩
      exact hopens.of_addsReturns (hbodies.append (.keep hreturn hrest))
  | @lineEnd _ later hrest =>
      refine ⟨⟨.comment, '#' :: (body ++ ['\r'])⟩, '\n' :: later, by simp,
        .lineComment (fun hopens => hblock ?_) (by simpa using hbody) (by simp),
        .keep (by decide) hrest, id⟩
      rw [List.append_assoc, List.singleton_append] at hopens
      exact hopens.of_addsReturns (hbodies.append (.lineEnd hrest))

/-- Other text ends where it did. -/
theorem counterpart_run (hne : text ≠ []) (hrun : ∀ c ∈ text, isPlain c = true)
    (hend : ∀ c ∈ after.head?, isPlain c = false) (htext : AddsReturns text text')
    (hafter : AddsReturns after after') :
    Counterpart ⟨.text, text⟩ ⟨.text, text'⟩ after after' where
  leads := by
    refine .run ?_ (fun c hc => ?_) fun c hc => ?_
    · rintro rfl
      cases htext
      exact hne rfl
    · rcases htext.mem_or hc with hc | rfl
      · exact hrun c hc
      · rfl
    · cases hafter with
      | nil => cases hc
      | keep => exact hend c hc
      | lineEnd => exact absurd (hend '\n' rfl) (by decide)
  after := hafter
  scrubbed := linesWithReturns_run htext hrun

/-- Every token of a source has a counterpart where some line feeds have carriage returns in
front. -/
theorem Leads.exists_counterpart {token : Token} {source' : List Char}
    (hleads : Leads token after) (hadds : AddsReturns (token.text ++ after) source') :
    ∃ token' after', source' = token'.text ++ after' ∧
      Counterpart token token' after after' := by
  obtain ⟨text', after', rfl, htext, hafter⟩ := hadds.exists_append
  cases hleads with
  | literal hquote hbody hclose =>
      obtain ⟨token', rfl, hcounterpart⟩ :=
        exists_counterpart_literal hquote hbody hclose htext hafter
      exact ⟨token', after', rfl, hcounterpart⟩
  | @loneQuote kind quote _ hquote hopen =>
      obtain ⟨hreturn, hfeed⟩ := ne_lineEnd_of_quote? hquote
      obtain rfl := htext.eq_of_notMem (by simpa using hfeed)
      exact ⟨⟨.text, [quote]⟩, after', rfl,
        .loneQuote hquote (hopen.of_addsReturns hafter hreturn hfeed), hafter,
        fun hrest => .keep hreturn.symm hfeed.symm hrest.mono⟩
  | blockComment hfirst =>
      obtain ⟨token', rfl, hcounterpart⟩ := exists_counterpart_blockComment hfirst htext hafter
      exact ⟨token', after', rfl, hcounterpart⟩
  | @lineComment body _ hblock hbody hend =>
      have hsign : '\n' ∉ '#' :: body := by simpa using hbody
      obtain rfl := htext.eq_of_notMem hsign
      cases htext with
      | keep _ hbodies => exact exists_counterpart_lineComment hblock hbody hend hbodies hafter
  | @run text _ hne hrun hend =>
      exact ⟨⟨.text, text'⟩, after', rfl, counterpart_run hne hrun hend htext hafter⟩

end Token

/-- Scrubbed sources have the same lines, up to carriage returns, if the sources have. -/
theorem linesWithReturns_scrub {source source' : List Char} (hadds : AddsReturns source source') :
    LinesWithReturns false (scrub source) (scrub source') := by
  induction source using Token.leadsInduction generalizing source' with
  | nil =>
      cases hadds
      rw [Token.scrub_nil]
      exact .nil
  | cons token after hleads ih =>
      obtain ⟨token', after', rfl, hcounterpart⟩ := hleads.exists_counterpart hadds
      rw [hleads.scrub_append, hcounterpart.leads.scrub_append]
      exact hcounterpart.scrubbed (ih hcounterpart.after)

end Offside
