/-
# Which brackets of the generated code are the source's own

The transformer copies most of what it reads, but it puts brackets of its own around
some of it: around the value of an assignment, the condition of a header, imported
names and the body of a block. A bracket of the source that has no partner can then find
one among them, and a source that the check of delimiters rejects turns into generated
code that passes, as `x = a) + (b` does.

The main result says that this and a misread `/` are the only ways. It needs no
assumption about blocks or literals: a literal that runs on behind its line may swallow
whatever the transformer adds, and lines may end blocks anywhere. What counts is that
each bracket closes one of its own origin.
-/

import Offside.Proofs.Delimiter.Origin
import Offside.Proofs.Statement.Segments
import Offside.Proofs.Transpile.Balance

namespace Offside

/-- A line in target syntax that is not just a copy: three pieces of the line that are
copied, and what is added between them. -/
structure Rewriting where
  /-- What is copied in front. -/
  front : List Char
  /-- What is added behind it. -/
  opening : List Char
  /-- What is copied in the middle. -/
  middle : List Char
  /-- What is added behind that. -/
  closing : List Char
  /-- What is copied at the end. -/
  behind : List Char
  deriving DecidableEq, Repr

namespace Rewriting

/-- The pieces one after the other. -/
def text (rewriting : Rewriting) : List Char :=
  rewriting.front ++ rewriting.opening ++ rewriting.middle ++ rewriting.closing ++
    rewriting.behind

/-- The pieces with their origins. -/
def tagged (rewriting : Rewriting) : TaggedText :=
  .copied rewriting.front ++ .added rewriting.opening ++ .copied rewriting.middle ++
    .added rewriting.closing ++ .copied rewriting.behind

@[simp]
theorem text_tagged (rewriting : Rewriting) : rewriting.tagged.text = rewriting.text := by
  simp [tagged, text]

end Rewriting

namespace Header

/-- What a header adds in front of its arguments, the arguments that it copies, and what
it adds behind them. -/
def enclosed (header : Header) : List Char × List Char × List Char :=
  match header.args with
  | none => ([], [], [])
  | some args =>
    match header.keyword, header.keyword.style with
    | .else, _ =>
      match elseIf? args with
      | some condition => ([' ', 'i', 'f', ' ', '('], condition, [')'])
      | none => ([' '], args, [])
    | _, .condition => ([' ', '('], args, [')'])
    | _, .definition => ([' '], args, [])

/-- How a header line is rewritten. -/
def rewriting (header : Header) (indentation : List Char) : Rewriting :=
  { front := indentation ++ header.written
    opening := header.enclosed.1
    middle := header.enclosed.2.1
    closing := header.enclosed.2.2 ++ [' ', '\x7b']
    behind := [] }

end Header

/-- How an assignment is rewritten. -/
def Assignment.rewriting (assignment : Assignment) (indentation helper : List Char) : Rewriting :=
  { front := indentation
    opening := assignment.scope.declaration ++ ' ' ::
      List.intercalate [' ', '=', ' '] (assignment.targets.map targetText) ++
      [' ', '=', ' '] ++ helper ++ ['(']
    middle := assignment.expression
    closing := [')']
    behind := [] }

namespace Line

/-- How an import of names is rewritten. -/
def importRewriting (line : Line) (names behind : List Char) : Rewriting :=
  { front := line.indentation ++ ['i', 'm', 'p', 'o', 'r', 't']
    opening := [' ', '\x7b']
    middle := names
    closing := ['\x7d', ' ', 'f', 'r', 'o', 'm']
    behind := behind }

/-- How a line is rewritten, if it is not copied. -/
def rewriting? (line : Line) (helper : List Char) : Option Rewriting :=
  match line.kind with
  | .blank => none
  | .opener header => some (header.rewriting line.indentation)
  | .statement =>
    match line.namedImport? with
    | some (names, behind) => some (line.importRewriting names behind)
    | none => (Assignment.parse? line.content).map (·.rewriting line.indentation helper)

/-- A line in target syntax, with the origins of its characters. -/
def tagged (line : Line) (helper : List Char) : TaggedText :=
  match line.rewriting? helper with
  | some rewriting => rewriting.tagged
  | none => .copied line.raw

/-- The texts of a line in front of which the transformer may change what a `/` means:
all of it, the arguments of a header, and the names of an import. In front of the value
of an assignment a `/` begins a literal before and after. -/
def seams (line : Line) : List (List Char) :=
  line.content ::
    match line.kind with
    | .blank => []
    | .opener header => [header.enclosed.2.1]
    | .statement => (line.namedImport?.map Prod.fst).toList

end Line

namespace Layout

/-- The text of a mark and its line feed, with the origins of its characters. -/
def markTagged (lines : List (List Char)) (helper : List Char) : Mark → TaggedText
  | .close header => .added ((lineAt lines header).indentation ++ ['\x7d', '\n'])
  | .line index => (lineAt lines index).tagged helper ++ .copied ['\n']

end Layout

/-- The generated code of a source, with the origins of its characters. -/
def transpileTagged (options : TranspileOptions) (source : List Char) : TaggedText :=
  let lines := Text.splitLines (scrub source)
  (Layout.marks lines options.flushOpenBlocks).flatMap
    (Layout.markTagged lines options.assignHelper)

/-! ## The characters of the generated code -/

theorem Header.render_eq (header : Header) :
    header.render =
      header.written ++ header.enclosed.1 ++ header.enclosed.2.1 ++ header.enclosed.2.2 := by
  obtain ⟨keyword, written, args⟩ := header
  cases args with
  | none => simp [render, enclosed]
  | some args =>
      cases keyword with
      | «else» =>
          simp only [render, enclosed]
          cases elseIf? args <;> simp [parenthesized]
      | _ => simp [render, enclosed, Keyword.style, parenthesized]

theorem text_tagged_ofChars (raw helper : List Char) :
    ((Line.ofChars raw).tagged helper).text = Layout.lineText helper raw := by
  unfold Line.tagged Line.rewriting? Layout.lineText
  cases (Line.ofChars raw).kind with
  | blank => simp [Line.raw_ofChars]
  | opener header =>
      simp [Header.rewriting, Rewriting.text, Header.render_eq]
  | statement =>
      simp only [Line.inTarget, Line.withNamedImport?_eq, Line.withDeclaration?]
      cases (Line.ofChars raw).namedImport? with
      | some cut => simp [Line.importRewriting, Rewriting.text]
      | none =>
          cases Assignment.parse? (Line.ofChars raw).content with
          | some assignment =>
              simp [Assignment.rewriting, Rewriting.text, Assignment.render]
          | none => simp [Line.raw_ofChars]

/-- Without the origins, the tagged code is the generated code. -/
theorem text_transpileTagged (options : TranspileOptions) (source : List Char) :
    (transpileTagged options source).text = transpile options source := by
  have hmark : ∀ mark, (Layout.markTagged (Text.splitLines (scrub source)) options.assignHelper
      mark).text = Layout.markText (Text.splitLines (scrub source)) options.assignHelper mark ++
        ['\n'] := by
    intro mark
    cases mark with
    | close header => simp [Layout.markTagged, Layout.markText]
    | line index =>
        simp [Layout.markTagged, Layout.markText, Layout.lineAt, text_tagged_ofChars]
  rw [transpile, Layout.emitLines_eq_marks, finishLines, List.flatMap_map, transpileTagged,
    TaggedText.text, List.map_flatMap]
  exact List.flatMap_congr fun mark _ => hmark mark

/-! ## The pieces of a line -/

open WalkState

theorem isIdle_of_class {p : Char → Bool}
    (hp : ['"', '\'', '\x60', '/', '(', '[', '\x7b', ')', ']', '\x7d'].any p = false)
    (hbackslash : p '\\' = false) {c : Char} (hc : p c = true) : isIdle c = true := by
  have hne : c ≠ '\\' := by
    rintro rfl
    rw [hc] at hbackslash
    cases hbackslash
  simp [isIdle, isInert_of_class hp hc, hne]

namespace Header

theorem enclosed_mem (header : Header) :
    header.enclosed.1 ∈ [[], [' ', 'i', 'f', ' ', '('], [' '], [' ', '(']] ∧
      header.enclosed.2.2 ∈ [[], [')']] := by
  unfold enclosed
  split
  · simp
  · split
    · split <;> simp
    · simp
    · simp

/-- What a header copies behind its keyword is what follows a gap in its arguments. -/
theorem exists_gap (header : Header) :
    ∃ gap, (∀ c ∈ gap, isIdle c = true) ∧ header.args.getD [] = gap ++ header.enclosed.2.1 := by
  unfold enclosed
  split
  · rename_i hnone
    exact ⟨[], by simp, by rw [hnone]; rfl⟩
  · rename_i args hargs
    rw [hargs, Option.getD_some]
    split
    · split
      · rename_i condition hcondition
        rw [elseIf?, Option.bind_eq_bind, Option.bind_eq_some_iff] at hcondition
        obtain ⟨rest, hword, hcondition⟩ := hcondition
        obtain ⟨-, hcondition⟩ := Option.ite_none_right_eq_some.mp hcondition
        obtain rfl := Option.some_inj.mp hcondition
        obtain ⟨blanks, hblanks, hstart⟩ := exists_trimStart rest
        refine ⟨['i', 'f'] ++ blanks, fun c hc => ?_, ?_⟩
        · rcases List.mem_append.mp hc with hc | hc
          · exact List.all_eq_true.mp (show ['i', 'f'].all isIdle = true from rfl) c hc
          · exact isIdle_of_isBlank (hblanks c hc)
        · rw [List.append_assoc, hstart, ← Text.dropLead?_eq_some_iff.mp hword]
      · exact ⟨[], by simp, rfl⟩
    · exact ⟨[], by simp, rfl⟩
    · exact ⟨[], by simp, rfl⟩

/-- A header line is its keyword, a gap, what is copied behind it, and the rest. -/
theorem exists_pieces {content : List Char} {header : Header}
    (hheader : ofContent? content = some header) :
    (∀ c ∈ header.written, Keyword.isWritten c = true) ∧
      ∃ gap back, (∀ c ∈ gap, isIdle c = true) ∧
        (∀ c ∈ back, Text.isBlank c = true ∨ c = ':') ∧
          content = header.written ++ (gap ++ (header.enclosed.2.1 ++ back)) := by
  have hwrites := writes_of_ofContent? hheader
  obtain ⟨blanks, blanks', colon, blanks'', hblanks, hcolon, hcontent⟩ := hwrites.keeps
  obtain ⟨rest, -, hspells, -⟩ := hwrites
  obtain ⟨gap, hgap, henclosed⟩ := header.exists_gap
  refine ⟨hspells.forall_isWritten, blanks ++ gap, blanks' ++ colon ++ blanks'', fun c hc => ?_,
    fun c hc => ?_, ?_⟩
  · rcases List.mem_append.mp hc with hc | hc
    · exact isIdle_of_isBlank (hblanks c (by simp [hc]))
    · exact hgap c hc
  · rw [List.mem_append, List.mem_append] at hc
    rcases hc with (hc | hc) | hc
    · exact .inl (hblanks c (by simp [hc]))
    · rcases List.mem_pair.mp hcolon with rfl | rfl
      · cases hc
      · exact .inr (List.mem_singleton.mp hc)
    · exact .inl (hblanks c (by simp [hc]))
  · rw [hcontent, henclosed]
    simp only [List.append_assoc]

end Header

namespace Assignment

theorem isIdle_of_isTargetPart {c : Char} (hc : isTargetPart c = true) : isIdle c = true :=
  isIdle_of_class rfl rfl hc

/-- The value of an assignment stands between blanks, with a semicolon behind it at most. -/
theorem exists_pieces_of_expressionOf (others : List (List Char)) :
    ∃ blanks back, (∀ c ∈ blanks, Text.isBlank c = true) ∧
      (∀ c ∈ back, Text.isBlank c = true ∨ c = ';') ∧
        List.intercalate ['='] others = blanks ++ (expressionOf others ++ back) := by
  obtain ⟨blanks, blanks', final, blanks'', hblanks, hblanks', hfinal, hblanks'', -, hvalue⟩ :=
    Text.exists_pieces_of_dropFinal ';' (List.intercalate ['='] others)
  refine ⟨blanks, blanks' ++ (final ++ blanks''), hblanks, fun c hc => ?_, ?_⟩
  · rcases List.mem_append.mp hc with hc | hc
    · exact .inl (hblanks' c hc)
    · rcases List.mem_append.mp hc with hc | hc
      · rcases List.mem_pair.mp hfinal with rfl | rfl
        · cases hc
        · exact .inr (List.mem_singleton.mp hc)
      · exact .inl (hblanks'' c hc)
  · conv_lhs => rw [hvalue]
    simp only [expressionOf, List.append_assoc]

/-- An assignment is targets, an operator in front of its value, and the rest. -/
theorem exists_pieces_of_parseTargets? {scope : Scope} {content : List Char}
    {assignment : Assignment} (hparse : parseTargets? scope content = some assignment) :
    (∀ target ∈ assignment.targets, ∀ c ∈ target, isTargetPart c = true) ∧
      ∃ front blanks back, (∀ c ∈ front, isIdle c = true) ∧
        (∀ c ∈ blanks, Text.isBlank c = true) ∧
          (∀ c ∈ back, Text.isBlank c = true ∨ c = ';') ∧
            content = front ++ '=' :: blanks ++ (assignment.expression ++ back) := by
  obtain ⟨names, hsplit, htrim, hnames⟩ := cutTargets_append (segments content)
  simp only [parseTargets?, Option.ite_none_left_eq_some, Option.some.injEq] at hparse
  obtain ⟨hempty, rfl⟩ := hparse
  constructor
  · intro target htarget c hc
    rw [htrim] at htarget
    obtain ⟨name, hname, rfl⟩ := List.mem_map.mp htarget
    exact isTargetPart_of_areTargets (hnames name hname) c (Text.mem_of_mem_trim hc)
  · have hothers := cutTargets_snd_ne_nil (segments_ne_nil content)
    obtain ⟨blanks, back, hblanks, hback, hvalue⟩ :=
      exists_pieces_of_expressionOf (cutTargets (segments content)).2
    have hjoin : content = names.flatMap (· ++ ['=']) ++
        (blanks ++ (expressionOf (cutTargets (segments content)).2 ++ back)) := by
      rw [← hvalue, ← intercalate_append_of_ne_nil names hothers, ← hsplit, intercalate_segments]
    have hne : names ≠ [] := by
      rintro rfl
      simp [htrim] at hempty
    obtain ⟨init, last, rfl⟩ := (List.eq_nil_or_concat' names).resolve_left hne
    refine ⟨init.flatMap (· ++ ['=']) ++ last, blanks, back, fun c hc => ?_, hblanks, hback, ?_⟩
    · have hidle : ∀ name ∈ init ++ [last], ∀ d ∈ name, isIdle d = true :=
        fun name hname d hd =>
          isIdle_of_isTargetPart (isTargetPart_of_areTargets (hnames name hname) d hd)
      rcases List.mem_append.mp hc with hc | hc
      · obtain ⟨name, hname, hc⟩ := List.mem_flatMap.mp hc
        rcases List.mem_append.mp hc with hc | hc
        · exact hidle name (List.mem_append_left _ hname) c hc
        · rw [List.mem_singleton.mp hc]
          rfl
      · exact hidle last (by simp) c hc
    · refine hjoin.trans ?_
      rw [List.flatMap_append, List.flatMap_singleton]
      simp only [List.append_assoc, List.cons_append, List.nil_append]

/-- The same with the word of the scope in front of the targets. -/
theorem exists_pieces {content : List Char} {assignment : Assignment}
    (hparse : parse? content = some assignment) :
    (∀ target ∈ assignment.targets, ∀ c ∈ target, isTargetPart c = true) ∧
      ∃ front blanks back, (∀ c ∈ front, isIdle c = true) ∧
        (∀ c ∈ blanks, Text.isBlank c = true) ∧
          (∀ c ∈ back, Text.isBlank c = true ∨ c = ';') ∧
            content = front ++ '=' :: blanks ++ (assignment.expression ++ back) := by
  obtain ⟨word, rest, hspells, -, rfl, hread⟩ := exists_of_parse? hparse
  obtain ⟨htargets, front, blanks, back, hfront, hblanks, hback, hrest⟩ :=
    exists_pieces_of_parseTargets? hread
  refine ⟨htargets, word ++ front, blanks, back, fun c hc => ?_, hblanks, hback, ?_⟩
  · rcases List.mem_append.mp hc with hc | hc
    · exact isIdle_of_class rfl rfl (hspells.isNamePart c hc)
    · exact hfront c hc
  · rw [hrest]
    simp only [List.append_assoc]

end Assignment

/-- An import is its word, blanks, the names, blanks, `from`, and the rest. -/
theorem Line.exists_pieces_of_namedImport? {line : Line} {names behind : List Char}
    (himport : line.namedImport? = some (names, behind)) :
    ∃ blanks blanks', (∀ c ∈ blanks, Text.isBlank c = true) ∧
      (∀ c ∈ blanks', Text.isBlank c = true) ∧
        line.content = ['i', 'm', 'p', 'o', 'r', 't'] ++
          (blanks ++ (names ++ (blanks' ++ (['f', 'r', 'o', 'm'] ++ behind)))) := by
  obtain ⟨hcut, -⟩ := Option.filter_eq_some_iff.mp himport
  obtain ⟨rest, hword, hcut⟩ := Option.bind_eq_some_iff.mp hcut
  obtain ⟨blanks, blanks', hblanks, hblanks', rfl⟩ := Import.cutBehindBlanks?_append hcut
  exact ⟨blanks, blanks', hblanks, hblanks', Text.dropLead?_eq_some_iff.mp hword⟩

/-! ## Every mark -/

/-- A settled character that begins no comment behind a `/` and changes no class. -/
def isClosing (c : Char) : Bool := isSettled c && c != '*' && c != '[' && c != ']'

theorem isClosing_of_all {text : List Char} (hall : text.all isClosing = true) :
    ∀ c ∈ text, isClosing c = true := List.all_eq_true.mp hall

/-- A rewritten line with nothing copied behind its closing part. -/
theorem Rewriting.tracks {rewriting : Rewriting} {raw gap back : List Char}
    (hraw : rewriting.front ++ (gap ++ (rewriting.middle ++ back)) = raw) (hfeed : '\n' ∉ raw)
    (hfront : ∀ c ∈ rewriting.front, isIdle c = true) (hgap : ∀ c ∈ gap, isIdle c = true)
    (hopening : ∀ c ∈ rewriting.opening, isSettled c = true)
    (hmiddle : (Text.trimStart rewriting.middle).head? = some '/' →
      SameOperand (rewriting.front ++ gap) (rewriting.front ++ rewriting.opening))
    (hback : ∀ c ∈ back, isIdle c = true ∧ c ≠ '*')
    (hclosing : ∀ c ∈ rewriting.closing, isClosing c = true)
    (hbehind : rewriting.behind = []) :
    Tracks (raw ++ ['\n']) (rewriting.tagged ++ .copied ['\n']) := by
  have hclosing' : ∀ c ∈ rewriting.closing,
      isSettled c = true ∧ c ≠ '*' ∧ c ≠ '[' ∧ c ≠ ']' := by
    intro c hc
    simpa [isClosing, and_assoc] using hclosing c hc
  have hend : (TaggedText.copied rewriting.front ++ .added rewriting.opening) ++
      (.copied rewriting.middle ++ ((.added rewriting.closing ++ .copied ['\n']) ++ .copied [])) =
      rewriting.tagged ++ [('\n', Origin.copied)] := by
    simp [tagged, hbehind, TaggedText.copied]
  have hstart : raw ++ ['\n'] =
      (rewriting.front ++ gap) ++ (rewriting.middle ++ ((back ++ ['\n']) ++ [])) := by
    simp [← hraw]
  have hfeed' : '\n' ∉ rewriting.front ++ gap := by
    rw [← hraw, ← List.append_assoc] at hfeed
    exact fun hmem => hfeed (List.mem_append_left _ hmem)
  have hclasses : ∀ square ∈ ['[', ']'],
      square ∉ TaggedText.text (.added rewriting.closing ++ .copied ['\n']) := by
    intro square hsquare hmem
    simp only [TaggedText.text_append, TaggedText.text_added, TaggedText.text_copied,
      List.mem_append, List.mem_singleton] at hmem
    rcases hmem with hmem | rfl
    · obtain ⟨-, -, hopen, hclose⟩ := hclosing' square hmem
      simp [hopen, hclose] at hsquare
    · simp at hsquare
  have hwritten : rewriting.tagged ++ .copied ['\n'] =
      (TaggedText.copied rewriting.front ++ .added rewriting.opening) ++
      (.copied rewriting.middle ++
        ((.added rewriting.closing ++ .copied ['\n']) ++ .copied [])) := hend.symm
  rw [hstart, hwritten]
  refine tracks_rewritten (fun c hc => ?_) ((quiet_copied hfront).append (quiet_added hopening)) ?_
    (fun c hc => ?_)
    ((quiet_added fun c hc => (hclosing' c hc).1).append (quiet_copied isIdle_lineFeed))
    (fun c hc => ?_) (fun c hc => ?_) (by simp) (by simp)
    ⟨hclasses '[' (by simp), hclasses ']' (by simp)⟩ hfeed' (by simp) ?_ hend
  · exact (List.mem_append.mp hc).elim (hfront c) (hgap c)
  · simpa using hmiddle
  · exact (List.mem_append.mp hc).elim (fun hc => (hback c hc).1) (isIdle_lineFeed c)
  · rcases List.mem_append.mp (List.mem_of_mem_head? hc) with hc | hc
    · exact (hback c hc).2
    · rw [List.mem_singleton.mp hc]
      decide
  · have hmem := List.mem_of_mem_head? hc
    simp only [TaggedText.text_append, TaggedText.text_added, TaggedText.text_copied,
      List.mem_append, List.mem_singleton] at hmem
    rcases hmem with hmem | rfl
    · exact (hclosing' c hmem).2.1
    · decide
  · intro hhead
    cases hhead

variable {raw : List Char}

theorem isIdle_indentation (raw : List Char) :
    ∀ c ∈ (Line.ofChars raw).indentation, isIdle c = true :=
  fun _ hc => isIdle_of_isBlank (List.mem_takeWhile_imp hc)

/-- A line that ends in blanks or in a final character other than these. -/
theorem isIdle_back {back : List Char} {last : Char}
    (hback : ∀ c ∈ back, Text.isBlank c = true ∨ c = last)
    (hlast : isIdle last = true ∧ last ≠ '*') : ∀ c ∈ back, isIdle c = true ∧ c ≠ '*' := by
  intro c hc
  rcases hback c hc with hblank | rfl
  · refine ⟨isIdle_of_isBlank hblank, ?_⟩
    rintro rfl
    exact absurd hblank (by decide)
  · exact hlast

theorem tracks_header (hfeed : '\n' ∉ raw) {header : Header}
    (hheader : Header.ofContent? (Line.ofChars raw).content = some header)
    (hslash : (Text.trimStart header.enclosed.2.1).head? ≠ some '/') :
    Tracks (raw ++ ['\n'])
      ((header.rewriting (Line.ofChars raw).indentation).tagged ++ .copied ['\n']) := by
  obtain ⟨hwritten, gap, back, hgap, hback, hcontent⟩ := Header.exists_pieces hheader
  obtain ⟨hopening, hclosing⟩ := header.enclosed_mem
  have hopening' : ∀ c ∈ header.enclosed.1, isSettled c = true := by
    have hall : ∀ text ∈ [[], [' ', 'i', 'f', ' ', '('], [' '], [' ', '(']],
        text.all isSettled = true := by decide
    exact isSettled_of_all (hall _ hopening)
  have hclosing' : ∀ c ∈ header.enclosed.2.2 ++ [' ', '\x7b'], isClosing c = true := by
    have hall : ∀ text ∈ [[], [')']], (text ++ [' ', '\x7b']).all isClosing = true := by decide
    exact isClosing_of_all (hall _ hclosing)
  have hraw : (Line.ofChars raw).indentation ++ header.written ++
      (gap ++ (header.enclosed.2.1 ++ back)) = raw := by
    rw [List.append_assoc, ← hcontent]
    exact Line.raw_ofChars raw
  have hfront : ∀ c ∈ (Line.ofChars raw).indentation ++ header.written, isIdle c = true := by
    intro c hc
    rcases List.mem_append.mp hc with hc | hc
    · exact isIdle_indentation raw c hc
    · exact isIdle_of_class rfl rfl (hwritten c hc)
  exact Rewriting.tracks hraw hfeed hfront hgap hopening' (fun hhead => absurd hhead hslash)
    (isIdle_back hback (by decide)) hclosing' rfl

namespace Assignment

/-- A target list in target syntax opens no literal. -/
theorem isSettled_targetText {target : List Char}
    (htarget : ∀ c ∈ target, isTargetPart c = true) :
    ∀ c ∈ targetText target, isSettled c = true := by
  have hname : ∀ c ∈ target, isSettled c = true :=
    fun c hc => isSettled_of_isIdle (isIdle_of_isTargetPart (htarget c hc))
  unfold targetText
  split
  · intro c hc
    rw [List.mem_append, List.mem_cons, List.mem_singleton] at hc
    rcases hc with (rfl | hc) | rfl
    · rfl
    · rcases Text.mem_or_mem_of_mem_intercalate hc with hc | ⟨piece, hpiece, hc⟩
      · exact isSettled_of_all (show [',', ' '].all isSettled = true from rfl) c hc
      · obtain ⟨name, hmem, rfl⟩ := List.mem_map.mp hpiece
        exact hname c (Text.mem_of_mem_splitOn hmem (Text.mem_of_mem_trim hc))
    · rfl
  · exact hname

/-- What an assignment adds in front of its value opens no literal. -/
theorem isSettled_opening {assignment : Assignment} {helper : List Char}
    (hhelper : ∀ c ∈ helper, isNamePart c = true)
    (htargets : ∀ target ∈ assignment.targets, ∀ c ∈ target, isTargetPart c = true)
    (indentation : List Char) :
    ∀ c ∈ (assignment.rewriting indentation helper).opening, isSettled c = true := by
  have hdeclaration : ∀ c ∈ assignment.scope.declaration, isSettled c = true := by
    cases assignment.scope <;> exact isSettled_of_all rfl
  have hequals : ∀ c ∈ [' ', '=', ' '], isSettled c = true := isSettled_of_all rfl
  intro c hc
  simp only [rewriting, List.mem_append, List.mem_cons, List.not_mem_nil, or_false] at hc
  rcases hc with (((hc | rfl | hc) | hc) | hc) | rfl
  · exact hdeclaration c hc
  · rfl
  · rcases Text.mem_or_mem_of_mem_intercalate hc with hc | ⟨piece, hpiece, hc⟩
    · exact hequals c hc
    · obtain ⟨target, htarget, rfl⟩ := List.mem_map.mp hpiece
      exact isSettled_targetText (htargets target htarget) c hc
  · exact hequals c (by simpa using hc)
  · exact isSettled_of_isIdle (isIdle_of_class rfl rfl (hhelper c hc))
  · rfl

theorem isIdle_append_equals {front blanks : List Char} (hfront : ∀ c ∈ front, isIdle c = true)
    (hblanks : ∀ c ∈ blanks, Text.isBlank c = true) :
    ∀ c ∈ front ++ '=' :: blanks, isIdle c = true := by
  intro c hc
  rw [List.mem_append, List.mem_cons] at hc
  rcases hc with hc | rfl | hc
  · exact hfront c hc
  · rfl
  · exact isIdle_of_isBlank (hblanks c hc)

/-- In front of its value an assignment ends in `=` and blanks, and a declaration in an opening
parenthesis. -/
theorem sameOperand_opening (assignment : Assignment) {helper : List Char}
    (hhelper : ∀ c ∈ helper, isNamePart c = true)
    (htargets : ∀ target ∈ assignment.targets, ∀ c ∈ target, isTargetPart c = true)
    {indentation front blanks : List Char} (hindentation : ∀ c ∈ indentation, isIdle c = true)
    (hfront : ∀ c ∈ front, isIdle c = true) (hblanks : ∀ c ∈ blanks, Text.isBlank c = true) :
    SameOperand (indentation ++ (front ++ '=' :: blanks))
      (indentation ++ (assignment.rewriting indentation helper).opening) := by
  have hopening := isSettled_opening hhelper htargets indentation
  have hbefore : ∀ c ∈ indentation ++ front, isSettled c = true :=
    fun c hc => isSettled_of_isIdle ((List.mem_append.mp hc).elim (hindentation c) (hfront c))
  obtain ⟨opening, hlast⟩ : ∃ opening,
      (assignment.rewriting indentation helper).opening = opening ++ ['('] := ⟨_, rfl⟩
  have hwritten : ∀ c ∈ indentation ++ opening, isSettled c = true := by
    intro c hc
    rcases List.mem_append.mp hc with hc | hc
    · exact isSettled_of_isIdle (hindentation c hc)
    · exact hopening c (hlast ▸ List.mem_append_left _ hc)
  have hequals : LastCode '=' (indentation ++ (front ++ '=' :: blanks)) :=
    ⟨_, blanks, (List.append_assoc _ _ _).symm, hbefore, rfl, rfl, hblanks⟩
  have hparenthesis : LastCode '(' (indentation ++ (opening ++ ['('])) :=
    ⟨_, [], (List.append_assoc _ _ _).symm, hwritten, rfl, rfl, by simp⟩
  rw [hlast]
  exact hequals.sameOperand hparenthesis rfl

end Assignment

theorem tracks_assignment (hfeed : '\n' ∉ raw) {assignment : Assignment} {helper : List Char}
    (hhelper : ∀ c ∈ helper, Assignment.isNamePart c = true)
    (hparse : Assignment.parse? (Line.ofChars raw).content = some assignment) :
    Tracks (raw ++ ['\n'])
      ((assignment.rewriting (Line.ofChars raw).indentation helper).tagged ++ .copied ['\n']) := by
  obtain ⟨htargets, front, blanks, back, hfront, hblanks, hback, hcontent⟩ :=
    Assignment.exists_pieces hparse
  have hopening := Assignment.isSettled_opening hhelper htargets (Line.ofChars raw).indentation
  have hraw : (Line.ofChars raw).indentation ++
      (front ++ '=' :: blanks ++ (assignment.expression ++ back)) = raw := by
    rw [← hcontent]
    exact Line.raw_ofChars raw
  have hoperand := assignment.sameOperand_opening hhelper htargets (isIdle_indentation raw) hfront
    hblanks
  have hclosing : ∀ c ∈ [')'], isClosing c = true := isClosing_of_all rfl
  exact Rewriting.tracks hraw hfeed (isIdle_indentation raw)
    (Assignment.isIdle_append_equals hfront hblanks) hopening (fun _ => hoperand)
    (isIdle_back hback (by decide)) hclosing rfl

/-- Both texts end in the same word, so a `/` behind it means the same. -/
theorem sameOperand_from {blanks : List Char} (hblanks : ∀ c ∈ blanks, Text.isBlank c = true) :
    SameOperand (blanks ++ ['f', 'r', 'o', 'm'])
      (TaggedText.text (.added ['\x7d', ' ', 'f', 'r', 'o', 'm'])) := by
  have hsettled : ∀ c ∈ blanks ++ ['f', 'r', 'o'], isSettled c = true := by
    intro c hc
    rcases List.mem_append.mp hc with hc | hc
    · exact isSettled_of_isIdle (isIdle_of_isBlank (hblanks c hc))
    · exact isSettled_of_all (show ['f', 'r', 'o'].all isSettled = true from rfl) c hc
  have hread : LastCode 'm' (blanks ++ ['f', 'r', 'o', 'm']) :=
    ⟨_, [], (List.append_assoc _ ['f', 'r', 'o'] ['m']).symm, hsettled, rfl, rfl, by simp⟩
  have hwritten : LastCode 'm' (TaggedText.text (.added ['\x7d', ' ', 'f', 'r', 'o', 'm'])) :=
    ⟨['\x7d', ' ', 'f', 'r', 'o'], [], rfl, isSettled_of_all rfl, rfl, rfl, by simp⟩
  exact hread.sameOperand hwritten rfl

theorem tracks_import (hfeed : '\n' ∉ raw) {names behind : List Char}
    (himport : (Line.ofChars raw).namedImport? = some (names, behind))
    (hslash : (Text.trimStart names).head? ≠ some '/') :
    Tracks (raw ++ ['\n'])
      (((Line.ofChars raw).importRewriting names behind).tagged ++ .copied ['\n']) := by
  obtain ⟨blanks, blanks', hblanks, hblanks', hcontent⟩ :=
    Line.exists_pieces_of_namedImport? himport
  have hword : ∀ c ∈ ['i', 'm', 'p', 'o', 'r', 't'], isIdle c = true := isIdle_of_all rfl
  have hfrom : ∀ c ∈ ['f', 'r', 'o', 'm'], isIdle c = true ∧ c ≠ '*' :=
    fun c hc => ⟨isIdle_of_all rfl c hc, ne_of_mem_of_not_mem hc (by decide)⟩
  have hstart : ∀ c ∈ (Line.ofChars raw).indentation ++ ['i', 'm', 'p', 'o', 'r', 't'],
      isIdle c = true :=
    fun c hc => (List.mem_append.mp hc).elim (isIdle_indentation raw c) (hword c)
  have hraw : (Line.ofChars raw).indentation ++ ['i', 'm', 'p', 'o', 'r', 't'] ++ blanks ++
      (names ++ (blanks' ++ ['f', 'r', 'o', 'm'] ++ behind)) = raw := by
    conv_rhs => rw [← Line.raw_ofChars raw, Line.raw, hcontent]
    simp only [List.append_assoc]
  have hfeed' := hfeed
  rw [← hraw] at hfeed'
  have hfront : ∀ c ∈ (Line.ofChars raw).indentation ++ ['i', 'm', 'p', 'o', 'r', 't'] ++ blanks,
      isIdle c = true :=
    fun c hc => (List.mem_append.mp hc).elim (hstart c) fun hc => isIdle_of_isBlank (hblanks c hc)
  have hback : ∀ c ∈ blanks' ++ ['f', 'r', 'o', 'm'], isIdle c = true ∧ c ≠ '*' := by
    intro c hc
    refine (List.mem_append.mp hc).elim (fun hc => ?_) (hfrom c)
    exact isIdle_back (fun d hd => .inl (hblanks' d hd))
      (show isIdle ';' = true ∧ ';' ≠ '*' by decide) c hc
  have hbrace : Quiet (.added [' ', '\x7b']) := quiet_added (isSettled_of_all rfl)
  have hclosing : Quiet (.added ['\x7d', ' ', 'f', 'r', 'o', 'm']) :=
    quiet_added (isSettled_of_all rfl)
  have hend : TaggedText.copied ((Line.ofChars raw).indentation ++
      ['i', 'm', 'p', 'o', 'r', 't']) ++ .added [' ', '\x7b'] ++
        (.copied names ++
          (.added ['\x7d', ' ', 'f', 'r', 'o', 'm'] ++ .copied (behind ++ ['\n']))) =
      ((Line.ofChars raw).importRewriting names behind).tagged ++ [('\n', Origin.copied)] := by
    simp [Line.importRewriting, Rewriting.tagged, TaggedText.copied]
  have hbrace' : ∀ c ∈ (TaggedText.text (.added ['\x7d', ' ', 'f', 'r', 'o', 'm'])).head?,
      c ≠ '*' := by
    intro c hc
    obtain rfl := Option.some_inj.mp hc
    decide
  have htracks := tracks_rewritten hfront ((quiet_copied hstart).append hbrace)
    (fun hhead => absurd hhead hslash) (fun c hc => (hback c hc).1) hclosing
    (fun c hc => (hback c (List.mem_of_mem_head? hc)).2) hbrace' (by simp) (by simp)
    (by decide) (fun hmem => absurd (List.mem_append_left _ hmem) hfeed')
    (fun hmem => absurd (List.mem_append_right _ (List.mem_append_right _
      (List.mem_append_left _ hmem))) hfeed') (fun _ => sameOperand_from hblanks') hend
  have hwhole : (Line.ofChars raw).indentation ++ ['i', 'm', 'p', 'o', 'r', 't'] ++ blanks ++
      (names ++ (blanks' ++ ['f', 'r', 'o', 'm'] ++ (behind ++ ['\n']))) = raw ++ ['\n'] := by
    conv_rhs => rw [← hraw]
    simp only [List.append_assoc]
  rw [hwhole, hend] at htracks
  exact htracks

/-- A line with its line feed. -/
theorem tracks_line (hfeed : '\n' ∉ raw) {helper : List Char}
    (hhelper : ∀ c ∈ helper, Assignment.isNamePart c = true)
    (hslash : ∀ text ∈ (Line.ofChars raw).seams, (Text.trimStart text).head? ≠ some '/') :
    Tracks (raw ++ ['\n']) ((Line.ofChars raw).tagged helper ++ .copied ['\n']) := by
  have hcopied : Tracks (raw ++ ['\n']) (.copied (Line.ofChars raw).raw ++ .copied ['\n']) := by
    have hcontent := hslash _ List.mem_cons_self
    have hline : (Text.trimStart raw).head? ≠ some '/' := by
      intro hhead
      obtain ⟨rest, hrest⟩ := List.head?_eq_some_iff.mp hhead
      have htrim : (Line.ofChars raw).content = '/' :: rest := hrest
      rw [htrim] at hcontent
      exact hcontent rfl
    have htracks := tracks_copied hline
    simpa [Line.raw_ofChars, TaggedText.copied] using htracks
  unfold Line.seams at hslash
  unfold Line.tagged Line.rewriting?
  cases hkind : (Line.ofChars raw).kind with
  | blank => exact hcopied
  | opener header =>
      rw [hkind] at hslash
      exact tracks_header hfeed (ofContent?_of_kind_opener hkind) (hslash _ (by simp))
  | statement =>
      rw [hkind] at hslash
      cases himport : (Line.ofChars raw).namedImport? with
      | some cut => exact tracks_import hfeed himport (hslash _ (by simp [himport]))
      | none =>
          cases hparse : Assignment.parse? (Line.ofChars raw).content with
          | some assignment => exact tracks_assignment hfeed hhelper hparse
          | none => exact hcopied

namespace Layout

/-- A closing brace stands behind its header's indentation, on a line of its own. -/
theorem tracks_close (lines : List (List Char)) (helper : List Char) (header : Nat) :
    Tracks [] (markTagged lines helper (.close header)) := by
  intro first second hfresh opened opened' hpair
  have hsettled : ∀ c ∈ (lineAt lines header).indentation ++ ['\x7d', '\n'],
      isSettled c = true := by
    intro c hc
    rcases List.mem_append.mp hc with hc | hc
    · exact isSettled_of_isIdle (isIdle_indentation (lines.getD header []) c hc)
    · exact isSettled_of_all (show ['\x7d', '\n'].all isSettled = true from rfl) c hc
  have hfree :
      second.FreeOfClasses (TaggedText.text (markTagged lines helper (.close header))) := by
    intro hopen
    have hline := hfresh.line
    rw [hopen] at hline
    cases hline
  have hnil : ∀ c ∈ ([] : List Char), isIdle c = true := by simp
  obtain ⟨hnest, halike, -⟩ := hfresh.alike.replaced hnil (quiet_added hsettled) hfree
    (.inr hfresh.escaped) (fun hmem => absurd hmem List.not_mem_nil) hpair
  have hend : TaggedText.added ((lineAt lines header).indentation ++ ['\x7d', '\n']) =
      TaggedText.added ((lineAt lines header).indentation ++ ['\x7d']) ++
        [('\n', Origin.added)] := by
    simp [TaggedText.added]
  refine ⟨hnest, ?_⟩
  rw [markTagged, hend] at hpair ⊢
  rw [hend] at halike
  exact halike.fresh hfresh.alike.sound hpair

/-- The marks in order take in their lines in order. -/
theorem tracks_marks {lines : List (List Char)} {helper : List Char}
    (hlines : ∀ index, Tracks (lines.getD index [] ++ ['\n'])
      (markTagged lines helper (.line index))) (marks : List Mark) :
    Tracks ((marks.filterMap Mark.index?).flatMap fun index => lines.getD index [] ++ ['\n'])
      (marks.flatMap (markTagged lines helper)) := by
  induction marks with
  | nil => exact tracks_nil
  | cons mark marks ih =>
      have hwritten : (TaggedText.text (markTagged lines helper mark)).getLast? ≠ some '/' := by
        cases mark <;> simp [markTagged]
      rw [List.flatMap_cons]
      cases mark with
      | close header => exact (tracks_close lines helper header).append ih (by simp) hwritten
      | line index => exact (hlines index).append ih (by simp) hwritten

end Layout

theorem flatMap_range_getD (lines : List (List Char)) :
    ((List.range lines.length).flatMap fun index => lines.getD index [] ++ ['\n']) =
      finishLines lines := by
  have hmap : (List.range lines.length).map (lines.getD · []) = lines :=
    List.ext_getElem (by simp) fun index hindex hindex' => by simp [hindex']
  conv_rhs => rw [finishLines, ← hmap, List.flatMap_map]

theorem finishLines_splitLines (text : List Char) :
    finishLines (Text.splitLines text) = text ++ ['\n'] := by
  have hne : Text.splitLines text ≠ [] := List.splitOn_ne_nil '\n' text
  obtain ⟨init, last, hlines⟩ := (List.eq_nil_or_concat' _).resolve_left hne
  have hjoin : List.intercalate ['\n'] (init ++ [last]) = text := by
    rw [← hlines]
    exact List.intercalate_splitOn '\n'
  rw [intercalate_append_of_ne_nil init (by simp), List.intercalate_singleton] at hjoin
  rw [hlines, finishLines, List.flatMap_append, List.flatMap_singleton, ← hjoin,
    List.append_assoc]

/-- No error in the source gets lost. Where the assign helper is an identifier, no line,
header arguments or imported names begin with a `/`, and every bracket of the generated
code closes one of its own origin, a source whose generated code passes the check of
delimiters passes it too, whatever the options say about open blocks. -/
theorem validateDelimiters_scrub_of_transpile (options : TranspileOptions) (source : List Char)
    (hhelper : Assignment.isIdentifier options.assignHelper = true) :
    (transpileTagged options source).text = transpile options source ∧
      ((∀ raw ∈ Text.splitLines (scrub source), ∀ text ∈ (Line.ofChars raw).seams,
          (Text.trimStart text).head? ≠ some '/') →
        PairsOff (transpileTagged options source) →
          validateDelimiters (transpile options source) = .ok () →
            validateDelimiters (scrub source) = .ok ()) := by
  refine ⟨text_transpileTagged options source, fun hslash hpairs hvalid => ?_⟩
  have hhelper' := Assignment.isNamePart_of_isIdentifier hhelper
  have hline : ∀ index, Tracks ((Text.splitLines (scrub source)).getD index [] ++ ['\n'])
      (Layout.markTagged (Text.splitLines (scrub source)) options.assignHelper (.line index)) := by
    intro index
    by_cases hindex : index < (Text.splitLines (scrub source)).length
    · have hmem : (Text.splitLines (scrub source)).getD index [] ∈
          Text.splitLines (scrub source) := by
        rw [List.getD_eq_getElem _ _ hindex]
        exact List.getElem_mem hindex
      exact tracks_line (Text.separator_notMem_of_mem_splitOn hmem) hhelper' (hslash _ hmem)
    · rw [Layout.markTagged, Layout.lineAt, List.getD_eq_default _ _ (by omega)]
      exact tracks_line (by simp) hhelper' (by decide)
  have htracks := Layout.tracks_marks hline
    (Layout.marks (Text.splitLines (scrub source)) options.flushOpenBlocks)
  rw [Layout.filterMap_index?_marks] at htracks
  rw [← text_transpileTagged] at hvalid
  have hfinish := htracks.validateDelimiters hpairs hvalid
  rw [flatMap_range_getD, finishLines_splitLines] at hfinish
  exact validateDelimiters_of_lineFeed hfinish

/-- An import, a header, a list of targets and brackets of the line's own around them. -/
theorem validateDelimiters_scrub_of_transpile_sample :
    let source := "import a, b from 'm'\nif f(x) == ')'\n  local p, q = (a)\n  g([p, q])".toList
    (∀ raw ∈ Text.splitLines (scrub source), ∀ text ∈ (Line.ofChars raw).seams,
      (Text.trimStart text).head? ≠ some '/') ∧
    PairsOff (transpileTagged {} source) ∧
    validateDelimiters (transpile {} source) = .ok () ∧
    validateDelimiters (scrub source) = .ok () := by
  intro source
  have hslash : ∀ raw ∈ Text.splitLines (scrub source), ∀ text ∈ (Line.ofChars raw).seams,
      (Text.trimStart text).head? ≠ some '/' := by
    decide +kernel
  have hpairs : PairsOff (transpileTagged {} source) := by
    decide +kernel
  have hvalid : validateDelimiters (transpile {} source) = .ok () := by
    decide +kernel
  exact ⟨hslash, hpairs, hvalid,
    (validateDelimiters_scrub_of_transpile {} source rfl).2 hslash hpairs hvalid⟩

/-- Neither condition can be left out: the parentheses around a value close those of the
source, and the one in front of a condition makes a regular expression of it. -/
theorem validateDelimiters_scrub_ne :
    (let source := "x = a) + (b".toList
     (∀ raw ∈ Text.splitLines (scrub source), ∀ text ∈ (Line.ofChars raw).seams,
        (Text.trimStart text).head? ≠ some '/') ∧
      validateDelimiters (transpile {} source) = .ok () ∧
        validateDelimiters (scrub source) = .error (.unexpected 1 ')')) ∧
    (let source := "if /)/".toList
     PairsOff (transpileTagged {} source) ∧ validateDelimiters (transpile {} source) = .ok () ∧
        validateDelimiters (scrub source) = .error (.unexpected 1 ')')) := by
  decide +kernel

end Offside
