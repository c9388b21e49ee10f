/-
# Scrubbing indented lines

A source that is scrubbed already stays so when its lines are indented further. It has no
comments and no literal that runs over a line end, so the new blanks only ever stand in text
that is copied, and all they could change is what a quote that nothing closes sees ahead. That
quote counts backslash pairs across line ends, but behind a line feed nothing is pending, with
or without blanks there.

Which lines are indented is decided by whole lines, which the tokens do not know. So the
comparison forgets it: in `AddsBlanks` the blanks may be added behind any line feeds.
-/

import Offside.Compile
import Offside.Proofs.Scrub.LineEnding

namespace Offside

namespace Text

/-- The line behind an indentation; a line of blanks stays as it is. -/
def indentLine (indentation raw : List Char) : List Char :=
  if allBlank raw then raw else indentation ++ raw

/-- The text with an indentation in front of each line that is not blank. -/
def indentLines (indentation text : List Char) : List Char :=
  perLine (indentLine indentation) text

variable {indentation text text' : List Char}

theorem indentLine_of_mem {c : Char} {raw : List Char} (hmem : c ∈ raw) (hc : isBlank c = false) :
    indentLine indentation raw = indentation ++ raw := by
  refine if_neg fun hblank => ?_
  rw [List.all_eq_true.mp hblank c hmem] at hc
  cases hc

/-- The second text is the first with an indentation added behind some of its line feeds. -/
inductive AddsBlanks (indentation : List Char) : List Char → List Char → Prop
  /-- Both texts end. -/
  | nil : AddsBlanks indentation [] []
  /-- Both go on with the same character. -/
  | keep {c : Char} {text text' : List Char} (hrest : AddsBlanks indentation text text') :
      AddsBlanks indentation (c :: text) (c :: text')
  /-- A line of the second text is indented. -/
  | lineStart {text text' : List Char} (hrest : AddsBlanks indentation text text') :
      AddsBlanks indentation ('\n' :: text) ('\n' :: (indentation ++ text'))

namespace AddsBlanks

theorem append_left (hadds : AddsBlanks indentation text text') (front : List Char) :
    AddsBlanks indentation (front ++ text) (front ++ text') := by
  induction front with
  | nil => exact hadds
  | cons c front ih => exact .keep ih

theorem eq_of_notMem (hadds : AddsBlanks indentation text text') (hfeed : '\n' ∉ text) :
    text' = text := by
  induction hadds with
  | nil => rfl
  | keep _ ih =>
      rw [List.mem_cons, not_or] at hfeed
      rw [ih hfeed.2]
  | lineStart => exact absurd List.mem_cons_self hfeed

theorem mem_or (hadds : AddsBlanks indentation text text') {c : Char} (hc : c ∈ text') :
    c ∈ text ∨ c ∈ indentation := by
  induction hadds with
  | nil => exact .inl hc
  | keep _ ih =>
      rcases List.mem_cons.mp hc with rfl | hc
      · exact .inl List.mem_cons_self
      · exact (ih hc).imp_left (List.mem_cons_of_mem _)
  | lineStart _ ih =>
      rcases List.mem_cons.mp hc with rfl | hc
      · exact .inl List.mem_cons_self
      · rcases List.mem_append.mp hc with hc | hc
        · exact .inr hc
        · exact (ih hc).imp_left (List.mem_cons_of_mem _)

/-- Every part of a text is indented for itself. -/
theorem exists_append {front back : List Char}
    (hadds : AddsBlanks indentation (front ++ back) text') :
    ∃ front' back', text' = front' ++ back' ∧ AddsBlanks indentation front front' ∧
      AddsBlanks indentation back back' := by
  induction front generalizing text' with
  | nil => exact ⟨[], text', rfl, .nil, hadds⟩
  | cons c front ih =>
      cases hadds with
      | keep hrest =>
          obtain ⟨front', back', rfl, hfront, hback⟩ := ih hrest
          exact ⟨c :: front', back', rfl, .keep hfront, hback⟩
      | lineStart hrest =>
          obtain ⟨front', back', rfl, hfront, hback⟩ := ih hrest
          exact ⟨'\n' :: (indentation ++ front'), back', by simp, .lineStart hfront, hback⟩

end AddsBlanks

/-- In front of the first line the indentation stands behind no line feed. -/
theorem exists_addsBlanks_intercalate (indentation : List Char) {lines : List (List Char)}
    (hne : lines ≠ []) :
    ∃ lead ∈ [[], indentation], ∃ text',
      List.intercalate ['\n'] (lines.map (indentLine indentation)) = lead ++ text' ∧
        AddsBlanks indentation (List.intercalate ['\n'] lines) text' := by
  have hline : ∀ raw, ∃ lead ∈ [[], indentation], indentLine indentation raw = lead ++ raw := by
    intro raw
    unfold indentLine
    split
    · exact ⟨[], by simp, rfl⟩
    · exact ⟨indentation, by simp, rfl⟩
  have hself : ∀ raw, AddsBlanks indentation raw raw := fun raw => by
    simpa using AddsBlanks.nil.append_left raw
  induction lines with
  | nil => exact absurd rfl hne
  | cons raw lines ih =>
      obtain ⟨lead, hlead, hraw⟩ := hline raw
      refine ⟨lead, hlead, ?_⟩
      cases lines with
      | nil => exact ⟨raw, by simp [hraw], by simpa using hself raw⟩
      | cons next lines =>
          obtain ⟨later, hlater, text', hjoin, hadds⟩ := ih (List.cons_ne_nil _ _)
          refine ⟨raw ++ '\n' :: (later ++ text'), ?_, ?_⟩
          · rw [List.map_cons, List.map_cons, List.intercalate_cons_cons, ← List.map_cons, hjoin,
              hraw]
            simp
          · rw [List.intercalate_cons_cons, List.append_assoc, List.singleton_append]
            refine AddsBlanks.append_left ?_ raw
            rcases List.mem_pair.mp hlater with rfl | rfl
            · exact .keep hadds
            · exact .lineStart hadds

end Text

open Text (AddsBlanks)

namespace Token

variable {indentation text text' : List Char}

/-- Blanks hold no backslash. -/
theorem pending_of_isBlank (hblank : ∀ c ∈ indentation, Text.isBlank c = true) :
    pending false indentation = false := by
  by_contra hpending
  rw [Bool.not_eq_false] at hpending
  have hne : indentation ≠ [] := by
    rintro rfl
    cases hpending
  exact nomatch hblank '\\' (List.mem_of_getLast? (getLast?_of_pending hne hpending))

/-- A quote that nothing closes stays open: behind a line feed nothing is pending. -/
theorem Sealed.of_addsBlanks {kind : TokenKind} {quote : Char} (hquote : quote? kind = some quote)
    (hblank : ∀ c ∈ indentation, Text.isBlank c = true)
    (hadds : AddsBlanks indentation text text') {escaped : Bool}
    (hsealed : Sealed escaped quote text) : Sealed escaped quote text' := by
  induction hadds generalizing escaped with
  | nil => exact sealed_nil
  | keep _ ih =>
      obtain ⟨hhead, htail⟩ := sealed_cons_iff.mp hsealed
      exact sealed_cons_iff.mpr ⟨hhead, ih htail⟩
  | lineStart _ ih =>
      obtain ⟨hhead, htail⟩ := sealed_cons_iff.mp hsealed
      rw [escapesNext_of_ne (by decide)] at htail
      refine sealed_cons_iff.mpr ⟨hhead, sealed_append_iff.mpr ⟨?_, ?_⟩⟩
      · exact sealed_run hquote (fun c hc => Text.isPlain_of_isBlank (hblank c hc)) _
      · rw [escapesNext_of_ne (by decide), pending_of_isBlank hblank]
        exact ih htail

/-- Where a text has no comments and no line feed in a literal, nothing is left to scrub, however
its lines are indented. -/
theorem scrub_eq_self_of_addsBlanks (hblank : ∀ c ∈ indentation, Text.isBlank c = true)
    (hcomment : ∀ token ∈ tokenize text, token.kind ≠ .comment)
    (hfeed : ∀ token ∈ tokenize text, token.isString = true → '\n' ∉ token.text)
    (hadds : AddsBlanks indentation text text') : scrub text' = text' := by
  induction text using leadsInduction generalizing text' with
  | nil =>
      cases hadds
      exact scrub_nil
  | cons token after hleads ih =>
      rw [hleads.tokenize_append, List.forall_mem_cons] at hcomment hfeed
      obtain ⟨front', after', rfl, hfront, hafter⟩ := hadds.exists_append
      have hlater := ih hcomment.2 hfeed.2 hafter
      cases hleads with
      | literal hquote hbody hclose =>
          have hstring := isString_of_quote? hquote
          have hnone := hfeed.1 (hstring _)
          obtain rfl := hfront.eq_of_notMem hnone
          have hliteral : Leads ⟨_, _⟩ after' := .literal hquote hbody hclose
          rw [hliteral.scrub_append, hlater, scrubbed_of_isString (hstring _),
            flatMap_escapeLineFeed_of_notMem hnone]
      | loneQuote hquote hopen =>
          obtain ⟨-, hne⟩ := ne_lineEnd_of_quote? hquote
          obtain rfl := hfront.eq_of_notMem (by simpa using hne)
          have hstill := Leads.loneQuote hquote (hopen.of_addsBlanks hquote hblank hafter)
          exact hstill.scrub_append.trans (congrArg _ hlater)
      | blockComment | lineComment => exact absurd rfl hcomment.1
      | run _ hrun _ =>
          refine (scrub_append_of_isPlain (fun c hc => ?_) after').trans (congrArg _ hlater)
          rcases hfront.mem_or hc with hc | hc
          · exact hrun c hc
          · exact Text.isPlain_of_isBlank (hblank c hc)

end Token

/-- A scrubbed source with its lines indented is a scrubbed source. -/
theorem scrub_indentLines {indentation source : List Char}
    (hblank : ∀ c ∈ indentation, Text.isBlank c = true) (hscrub : scrub source = source) :
    scrub (Text.indentLines indentation source) = Text.indentLines indentation source := by
  have hcomment := Token.kind_ne_comment_of_mem_tokenize_scrub source
  rw [hscrub] at hcomment
  have hfeed := (Token.scrub_eq_self_iff hcomment).mp hscrub
  obtain ⟨lead, hlead, text', hlines, hadds⟩ :=
    Text.exists_addsBlanks_intercalate indentation (List.splitOn_ne_nil '\n' source)
  rw [show List.intercalate ['\n'] (source.splitOn '\n') = source from
    List.intercalate_splitOn '\n'] at hadds
  have hplain : ∀ c ∈ lead, Token.isPlain c = true := by
    rcases List.mem_pair.mp hlead with rfl | rfl
    · simp
    · exact fun c hc => Text.isPlain_of_isBlank (hblank c hc)
  have htext : Text.indentLines indentation source = lead ++ text' := hlines
  rw [htext, Token.scrub_append_of_isPlain hplain,
    Token.scrub_eq_self_of_addsBlanks hblank hcomment hfeed hadds]

end Offside
