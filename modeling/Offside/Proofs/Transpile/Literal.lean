/-
# The contents of a literal do not steer the transformer

Two sources with the same tokens, but for the contents of one string literal, become the
same generated code, but for the literal: the same lines are headers, imports and
assignments, and the same characters are added around them.

The one exception is an import whose `from` stands in the literal. Then the names end in
the middle of it, and a brace is added there, as `import 'a from b'` shows.

The literal stands on one line of the scrubbed source. That line is of the same kind and
becomes the same text around the literal; all the others are the same, and so are the
blocks that they open and close.
-/

import Offside.Proofs.Header.Literal
import Offside.Proofs.Statement.Import
import Offside.Proofs.Statement.Literal
import Offside.Proofs.Transpile.Balance

namespace Offside

variable {quote : Char} {literal literal' : List Char}

/-! ## The line of a literal -/

/-- The line that a text ends with. -/
def lastLine (text : List Char) : List Char := (Text.splitLines text).getLastD []

/-- The line that a text begins with. -/
def firstLine (text : List Char) : List Char := (Text.splitLines text).headD []

theorem splitLines_eq_concat (text : List Char) :
    ∃ lines, Text.splitLines text = lines ++ [lastLine text] := by
  have hne : Text.splitLines text ≠ [] := List.splitOn_ne_nil '\n' text
  obtain ⟨lines, last, hlines⟩ := (List.eq_nil_or_concat' _).resolve_left hne
  exact ⟨lines, by rw [lastLine, hlines, List.getLastD_concat]⟩

theorem splitLines_eq_cons (text : List Char) :
    ∃ lines, Text.splitLines text = firstLine text :: lines := by
  have hne : Text.splitLines text ≠ [] := List.splitOn_ne_nil '\n' text
  obtain ⟨first, lines, hlines⟩ := List.exists_cons_of_ne_nil hne
  exact ⟨lines, by rw [firstLine, hlines, List.headD_cons]⟩

theorem lineFeed_notMem_lastLine (text : List Char) : '\n' ∉ lastLine text := by
  obtain ⟨lines, hlines⟩ := splitLines_eq_concat text
  have hmem : lastLine text ∈ Text.splitLines text := by simp [hlines]
  exact Text.separator_notMem_of_mem_splitOn hmem

theorem lineFeed_notMem_firstLine (text : List Char) : '\n' ∉ firstLine text := by
  obtain ⟨lines, hlines⟩ := splitLines_eq_cons text
  have hmem : firstLine text ∈ Text.splitLines text := by simp [hlines]
  exact Text.separator_notMem_of_mem_splitOn hmem

/-- The last line begins the text or stands behind a line feed. -/
theorem exists_append_lastLine (text : List Char) :
    ∃ before, text = before ++ lastLine text ∧ ∀ c ∈ before.getLast?, c = '\n' := by
  obtain ⟨lines, hlines⟩ := splitLines_eq_concat text
  have hjoin : List.intercalate ['\n'] (Text.splitLines text) = text :=
    List.intercalate_splitOn '\n'
  rw [hlines, intercalate_append_of_ne_nil lines (List.cons_ne_nil _ _),
    List.intercalate_singleton] at hjoin
  refine ⟨_, hjoin.symm, fun c hc => ?_⟩
  obtain rfl | ⟨init, last, rfl⟩ := List.eq_nil_or_concat' lines
  · cases hc
  · simpa [eq_comm] using hc

/-- A text without a line feed, put between two others, extends the last line of the first
by the first line of the second. -/
theorem exists_splitLines_append (front back : List Char) :
    ∃ lines later, ∀ text, '\n' ∉ text →
      Text.splitLines (front ++ text ++ back) =
        lines ++ (lastLine front ++ text ++ firstLine back) :: later := by
  obtain ⟨lines, hlines⟩ := splitLines_eq_concat front
  obtain ⟨later, hlater⟩ := splitLines_eq_cons back
  refine ⟨lines, later, fun text hfeed => ?_⟩
  rw [Text.splitLines, List.splitOn_eq_splitOnP] at hlines hlater ⊢
  have hsingle : text.splitOnP (· == '\n') = [] ++ [text] := by
    refine List.splitOnP_eq_singleton fun c hc => ?_
    rw [beq_eq_false_iff_ne]
    rintro rfl
    exact hfeed hc
  have hmiddle := splitOnP_append hsingle hlater
  rw [List.nil_append] at hmiddle
  rw [List.append_assoc, splitOnP_append hlines hmiddle, List.append_assoc]

namespace Line

variable {before after : List Char}

/-- A line is of the same kind, whatever the literal. -/
theorem kind_differ (hpair : LiteralPair quote literal literal') (before after : List Char) :
    (∃ header header', (ofChars (before ++ literal ++ after)).kind = .opener header ∧
      (ofChars (before ++ literal' ++ after)).kind = .opener header' ∧
        header.DifferIn literal literal' header') ∨
    ((ofChars (before ++ literal ++ after)).kind = .statement ∧
      (ofChars (before ++ literal' ++ after)).kind = .statement) := by
  have hcontent : Differ literal literal'
      (before.dropWhile Text.isBlank ++ literal ++ after)
      (before.dropWhile Text.isBlank ++ literal' ++ after) := ⟨_, after, rfl, rfl⟩
  obtain ⟨hblank, hblank'⟩ := (hcontent.trimEnd hpair).isEmpty hpair
  have hheaders := Header.ofContent?_differ hpair hcontent
  rw [ofChars_literal hpair hpair.first, ofChars_literal hpair hpair.second]
  simp only [kind, isBlank, hblank, hblank']
  generalize Header.ofContent? (before.dropWhile Text.isBlank ++ literal ++ after) = found
    at hheaders ⊢
  generalize Header.ofContent? (before.dropWhile Text.isBlank ++ literal' ++ after) = found'
    at hheaders ⊢
  cases hheaders with
  | none => exact .inr ⟨rfl, rfl⟩
  | some hheader => exact .inl ⟨_, _, rfl, rfl, hheader⟩

/-- A statement is the same in target syntax, but for the literal. -/
theorem inTarget_differ {kind : TokenKind} (hquote : Token.quote? kind = some quote)
    (hpair : LiteralPair quote literal literal') (hslash : '/' ∉ before)
    (hskips : (WalkState.run {} before).Skips quote literal)
    (hskips' : (WalkState.run {} before).Skips quote literal')
    (hfeed : '\n' ∉ before) (hfeed' : '\n' ∉ after)
    (himport : Import.endsIn before literal after = false)
    (himport' : Import.endsIn before literal' after = false) (helper : List Char) :
    Differ literal literal' ((ofChars (before ++ literal ++ after)).inTarget helper)
      ((ofChars (before ++ literal' ++ after)).inTarget helper) := by
  have hblanks : ∀ c ∈ before.takeWhile Text.isBlank, WalkState.isQuote c = false ∧ c ≠ '/' :=
    fun c hc =>
      have hinert := isInert_of_isBlank (List.mem_takeWhile_imp hc)
      ⟨isQuote_of_isInert hinert, ne_slash_of_isInert hinert⟩
  have hsplit : before.takeWhile Text.isBlank ++ before.dropWhile Text.isBlank = before :=
    List.takeWhile_append_dropWhile
  have hslash' : '/' ∉ before.dropWhile Text.isBlank := fun hmem =>
    hslash (List.dropWhile_subset _ hmem)
  have hassignment := Assignment.parse?_differ hquote hpair hslash'
    ((hsplit ▸ hskips).of_append hblanks hslash') ((hsplit ▸ hskips').of_append hblanks hslash')
    after
  have himports := withNamedImport?_differ hpair hfeed hfeed' himport himport'
  unfold inTarget
  generalize (ofChars (before ++ literal ++ after)).withNamedImport? = found at himports ⊢
  generalize (ofChars (before ++ literal' ++ after)).withNamedImport? = found' at himports ⊢
  cases himports with
  | some htext => exact htext
  | none =>
      simp only [withDeclaration?, raw_ofChars]
      rw [ofChars_literal hpair hpair.first, ofChars_literal hpair hpair.second]
      simp only
      generalize Assignment.parse? (before.dropWhile Text.isBlank ++ literal ++ after) = found
        at hassignment ⊢
      generalize Assignment.parse? (before.dropWhile Text.isBlank ++ literal' ++ after) = found'
        at hassignment ⊢
      cases hassignment with
      | some hdiffer => exact hdiffer.render _ helper
      | none => exact ⟨before, after, rfl, rfl⟩

end Line

/-! ## Emission -/

theorem finishLines_append (first second : List (List Char)) :
    finishLines (first ++ second) = finishLines first ++ finishLines second :=
  List.flatMap_append

theorem finishLines_cons (line : List Char) (lines : List (List Char)) :
    finishLines (line :: lines) = line ++ '\n' :: finishLines lines := by
  simp [finishLines]

/-- A line is written in front of what follows it, and some blocks are open behind it. -/
theorem exists_emitLines_cons (options : TranspileOptions) (stack : BlockStack) (raw : List Char) :
    ∃ written stack', ∀ rest,
      emitLines options stack (raw :: rest) = written ++ emitLines options stack' rest := by
  cases hkind : (Line.ofChars raw).kind with
  | blank => exact ⟨[raw], stack, fun rest => by simp [emitLines, hkind]⟩
  | opener header =>
      refine ⟨(stack.closedBy (Line.ofChars raw).indent).map closingLine ++
        [openingLine (Line.ofChars raw).indentation header],
        (stack.leftBy (Line.ofChars raw).indent).push (Line.ofChars raw).indentation,
        fun rest => ?_⟩
      simp [emitLines, hkind]
  | statement =>
      refine ⟨(stack.closedBy (Line.ofChars raw).indent).map closingLine ++
        [(Line.ofChars raw).inTarget options.assignHelper],
        stack.leftBy (Line.ofChars raw).indent, fun rest => ?_⟩
      simp [emitLines, hkind]

/-- Two lines that are the same to the blocks and become texts that differ in a literal. -/
structure LinesDiffer (helper literal literal' raw raw' : List Char) : Prop where
  indentation : (Line.ofChars raw').indentation = (Line.ofChars raw).indentation
  kind : (∃ header header', (Line.ofChars raw).kind = .opener header ∧
      (Line.ofChars raw').kind = .opener header' ∧
        Differ literal literal' header.render header'.render) ∨
    ((Line.ofChars raw).kind = .statement ∧ (Line.ofChars raw').kind = .statement ∧
      Differ literal literal' ((Line.ofChars raw).inTarget helper)
        ((Line.ofChars raw').inTarget helper))

variable {options : TranspileOptions} {raw raw' : List Char}

theorem LinesDiffer.emitLines
    (hlines : LinesDiffer options.assignHelper literal literal' raw raw') (stack : BlockStack)
    (earlier later : List (List Char)) :
    Differ literal literal'
      (finishLines (Offside.emitLines options stack (earlier ++ raw :: later)))
      (finishLines (Offside.emitLines options stack (earlier ++ raw' :: later))) := by
  induction earlier generalizing stack with
  | nil =>
      have hindent : (Line.ofChars raw').indent = (Line.ofChars raw).indent :=
        congrArg List.length hlines.indentation
      rcases hlines.kind with ⟨header, header', hkind, hkind', hdiffer⟩ | ⟨hkind, hkind', hdiffer⟩
      · simp only [List.nil_append, Offside.emitLines, hkind, hkind', hindent, hlines.indentation,
          finishLines_append, finishLines_cons, openingLine]
        have hwhole := hdiffer.append
          (finishLines ((stack.closedBy (Line.ofChars raw).indent).map closingLine) ++
            (Line.ofChars raw).indentation)
          ([' ', '\x7b', '\n'] ++ finishLines (Offside.emitLines options
            ((stack.leftBy (Line.ofChars raw).indent).push (Line.ofChars raw).indentation) later))
        simpa using hwhole
      · simp only [List.nil_append, Offside.emitLines, hkind, hkind', hindent,
          finishLines_append, finishLines_cons]
        have hwhole := hdiffer.append
          (finishLines ((stack.closedBy (Line.ofChars raw).indent).map closingLine))
          ('\n' :: finishLines (Offside.emitLines options
            (stack.leftBy (Line.ofChars raw).indent) later))
        rwa [List.append_assoc, List.append_assoc] at hwhole
  | cons line earlier ih =>
      obtain ⟨written, stack', hwritten⟩ := exists_emitLines_cons options stack line
      rw [List.cons_append, List.cons_append, hwritten, hwritten, finishLines_append,
        finishLines_append]
      have hwhole := (ih stack').append (finishLines written) []
      rwa [List.append_nil, List.append_nil] at hwhole

/-- The line of a literal, with one literal and with the other. -/
theorem linesDiffer {kind : TokenKind} (hquote : Token.quote? kind = some quote)
    (hpair : LiteralPair quote literal literal') {before after : List Char} (hslash : '/' ∉ before)
    (hskips : (WalkState.run {} before).Skips quote literal)
    (hskips' : (WalkState.run {} before).Skips quote literal')
    (hfeed : '\n' ∉ before) (hfeed' : '\n' ∉ after)
    (himport : Import.endsIn before literal after = false)
    (himport' : Import.endsIn before literal' after = false) (helper : List Char) :
    LinesDiffer helper literal literal' (before ++ literal ++ after)
      (before ++ literal' ++ after) where
  indentation := by
    rw [Line.ofChars_literal hpair hpair.first, Line.ofChars_literal hpair hpair.second]
  kind := by
    rcases Line.kind_differ hpair before after with ⟨header, header', hkind, hkind', hheader⟩ |
      ⟨hkind, hkind'⟩
    · exact .inl ⟨header, header', hkind, hkind', hheader.render hpair⟩
    · exact .inr ⟨hkind, hkind', Line.inTarget_differ hquote hpair hslash hskips hskips' hfeed
        hfeed' himport himport' helper⟩

/-! ## The whole output -/

theorem exists_quote?_of_isString {token : Token} (hstring : token.isString = true) :
    ∃ quote, Token.quote? token.kind = some quote := by
  obtain ⟨kind, text⟩ := token
  cases kind with
  | doubleQuoted => exact ⟨'"', rfl⟩
  | singleQuoted => exact ⟨'\'', rfl⟩
  | comment | text => cases hstring

/-- A string token of a source, when the line in front of it opens no other literal: what
is left of it is a literal, and a walk through its line gets past it. -/
theorem skips_of_tokenize {source : List Char} {front back : List Token} {token : Token}
    (htokens : tokenize source = front ++ token :: back)
    (hquote : Token.quote? token.kind = some quote)
    (hslash : '/' ∉ lastLine (front.flatMap Token.scrubbed))
    (hgrave : '\x60' ∉ lastLine (front.flatMap Token.scrubbed)) :
    IsLiteral quote token.scrubbed ∧
      (WalkState.run {} (lastLine (front.flatMap Token.scrubbed))).Skips quote token.scrubbed := by
  obtain ⟨start, hstart, hfeed⟩ := exists_append_lastLine (front.flatMap Token.scrubbed)
  obtain ⟨rest, hrest, hbetween⟩ := WalkState.exists_between htokens hstart hfeed hslash hgrave
  obtain ⟨after, rfl, hleads, -⟩ := WalkState.exists_after_of_tokenize_eq_cons hrest
  refine ⟨?_, hbetween.skips hleads hquote⟩
  cases hleads with
  | @literal kind quote' body _ hquote' hbody hclose =>
      obtain rfl : quote' = quote := Option.some_inj.mp (hquote'.symm.trans hquote)
      obtain ⟨body', hscrubbed, -, -⟩ := WalkState.exists_scrubbed_literal hquote' hbody hclose
      refine ⟨⟨body', hscrubbed⟩, ?_⟩
      rw [Token.scrubbed_of_isString (Token.isString_of_quote? hquote' _)]
      exact Token.notMem_flatMap_escapeLineFeed _
  | loneQuote | blockComment | lineComment | run => cases hquote

theorem mem_of_mem_lastLine {text : List Char} {c : Char} (hc : c ∈ lastLine text) : c ∈ text := by
  obtain ⟨before, htext, -⟩ := exists_append_lastLine text
  rw [htext]
  exact List.mem_append_right _ hc

/-- The contents of a string literal do not steer the transformer. For all options, two
sources without `/` and grave accent in the first, whose tokens are the same but for one
string literal between the same quotes, become generated code that is the same but for
the literal, unless it is an import whose `from` stands in one of the literals. -/
theorem transpile_literal (options : TranspileOptions) {source source' : List Char}
    {front back : List Token} {token token' : Token}
    (htokens : tokenize source = front ++ token :: back)
    (htokens' : tokenize source' = front ++ token' :: back)
    (hstring : token.isString = true) (hkind : token'.kind = token.kind)
    (hslash : '/' ∉ source) (hgrave : '\x60' ∉ source)
    (himport : Import.endsIn (lastLine (front.flatMap Token.scrubbed)) token.scrubbed
      (firstLine (back.flatMap Token.scrubbed)) = false)
    (himport' : Import.endsIn (lastLine (front.flatMap Token.scrubbed)) token'.scrubbed
      (firstLine (back.flatMap Token.scrubbed)) = false) :
    ∃ before after, transpile options source = before ++ token.scrubbed ++ after ∧
      transpile options source' = before ++ token'.scrubbed ++ after := by
  have hfront : ∀ c, c ∉ source → c ≠ '\\' → c ≠ 'n' →
      c ∉ lastLine (front.flatMap Token.scrubbed) := by
    intro c hsource hbackslash hn hmem
    have hscrub : c ∈ scrub source := by
      rw [scrub, htokens, List.flatMap_append]
      exact List.mem_append_left _ (mem_of_mem_lastLine hmem)
    rcases mem_or_of_mem_scrub hscrub with hc | hc | hc
    · exact hsource hc
    · exact hbackslash hc
    · exact hn hc
  have hslash' := hfront '/' hslash (by decide) (by decide)
  have hgrave' := hfront '\x60' hgrave (by decide) (by decide)
  obtain ⟨quote, hquote⟩ := exists_quote?_of_isString hstring
  obtain ⟨hliteral, hskips⟩ := skips_of_tokenize htokens hquote hslash' hgrave'
  obtain ⟨hliteral', hskips'⟩ := skips_of_tokenize htokens' (hkind ▸ hquote) hslash' hgrave'
  have hpair : LiteralPair quote token.scrubbed token'.scrubbed :=
    ⟨Token.eq_of_quote? hquote, hliteral, hliteral'⟩
  obtain ⟨lines, later, hlines⟩ :=
    exists_splitLines_append (front.flatMap Token.scrubbed) (back.flatMap Token.scrubbed)
  have hscrub : ∀ {source : List Char} {token : Token}, tokenize source = front ++ token :: back →
      scrub source = front.flatMap Token.scrubbed ++ token.scrubbed ++
        back.flatMap Token.scrubbed := by
    intro source token htokens
    simp [scrub, htokens]
  rw [transpile, transpile, hscrub htokens, hscrub htokens', hlines _ hliteral.lineFeed,
    hlines _ hliteral'.lineFeed]
  exact (linesDiffer hquote hpair hslash' hskips hskips' (lineFeed_notMem_lastLine _)
    (lineFeed_notMem_firstLine _) himport himport' options.assignHelper).emitLines [] lines later

/-- The name of a module may hold the word `from`: the names have ended in front of it. -/
theorem transpile_literal_sample :
    let front := [⟨.text, "import a from ".toList⟩]
    let back := [⟨.text, "\nx = 1".toList⟩]
    let source := "import a from 'b from c'\nx = 1".toList
    let source' := "import a from 'if = d'\nx = 1".toList
    tokenize source = front ++ ⟨.singleQuoted, "'b from c'".toList⟩ :: back ∧
    tokenize source' = front ++ ⟨.singleQuoted, "'if = d'".toList⟩ :: back ∧
    ∃ before after, transpile {} source = before ++ "'b from c'".toList ++ after ∧
      transpile {} source' = before ++ "'if = d'".toList ++ after := by
  intro front back source source'
  have htokens : tokenize source = front ++ ⟨.singleQuoted, "'b from c'".toList⟩ :: back := by
    decide +kernel
  have htokens' : tokenize source' = front ++ ⟨.singleQuoted, "'if = d'".toList⟩ :: back := by
    decide +kernel
  exact ⟨htokens, htokens', transpile_literal {} htokens htokens' rfl rfl (by decide +kernel)
    (by decide +kernel) (by decide +kernel) (by decide +kernel)⟩

/-- The names of an import end in a literal that holds the word `from`, and nowhere if it
does not. -/
theorem transpile_literal_ne :
    let front := [⟨.text, "import ".toList⟩]
    let source := "import 'a from b'".toList
    let source' := "import 'ab'".toList
    tokenize source = front ++ [⟨.singleQuoted, "'a from b'".toList⟩] ∧
    tokenize source' = front ++ [⟨.singleQuoted, "'ab'".toList⟩] ∧
    ¬ ∃ before after, transpile {} source = before ++ "'a from b'".toList ++ after ∧
      transpile {} source' = before ++ "'ab'".toList ++ after := by
  intro front source source'
  refine ⟨by decide +kernel, by decide +kernel, ?_⟩
  rintro ⟨before, after, hgenerated, -⟩
  have hinfix : "'a from b'".toList <:+: transpile {} source := ⟨before, after, hgenerated.symm⟩
  exact absurd hinfix (by decide +kernel)

end Offside
