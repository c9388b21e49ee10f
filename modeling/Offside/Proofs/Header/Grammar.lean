/-
# The grammar of block headers

`Header.Writes` says how a header may be written: one of its keyword's spellings, and
behind it either a blank and arguments or, for five keywords, nothing. At the end there
may be blanks and one colon. The relation knows nothing of how a line is read.

The main result says that a line opens a block exactly when a header writes its content,
that no two headers do, and that of the line's characters only blanks and one final colon
go missing. `function` is the beginning of `function*`, so the rest of a line decides
between these two spellings; no other spelling is the beginning of another.
-/

import Offside.Header
import Offside.Proofs.Text.Edges

namespace Offside

namespace Keyword

/-! ## Keywords -/

/-- The spellings of `function` without `async`. -/
inductive SpellsFunction : List Char → Prop
  | plain : SpellsFunction ['f', 'u', 'n', 'c', 't', 'i', 'o', 'n']
  | generator : SpellsFunction ['f', 'u', 'n', 'c', 't', 'i', 'o', 'n', '*']

/-- The spellings of a keyword. -/
inductive Spells : Keyword → List Char → Prop
  | «if» : Spells .if ['i', 'f']
  | «else» : Spells .else ['e', 'l', 's', 'e']
  | «switch» : Spells .switch ['s', 'w', 'i', 't', 'c', 'h']
  | «try» : Spells .try ['t', 'r', 'y']
  | «catch» : Spells .catch ['c', 'a', 't', 'c', 'h']
  | «finally» : Spells .finally ['f', 'i', 'n', 'a', 'l', 'l', 'y']
  | «class» : Spells .class ['c', 'l', 'a', 's', 's']
  | «do» : Spells .do ['d', 'o']
  | «while» : Spells .while ['w', 'h', 'i', 'l', 'e']
  | «for» : Spells .for ['f', 'o', 'r']
  | function {word : List Char} (hword : SpellsFunction word) : Spells .function word
  | async {blanks word : List Char} (hne : blanks ≠ [])
      (hblanks : ∀ c ∈ blanks, Text.isBlank c = true) (hword : SpellsFunction word) :
      Spells .function (['a', 's', 'y', 'n', 'c'] ++ blanks ++ word)

variable {content written rest : List Char} {keyword : Keyword}

theorem spellsFunction_of_cutFunction? (hcut : cutFunction? content = some (written, rest)) :
    SpellsFunction written ∧ content = written ++ rest := by
  obtain ⟨behind, hword, hpair⟩ := Option.map_eq_some_iff.mp hcut
  rw [Text.dropLead?_eq_some_iff.mp hword]
  split at hpair
  · obtain ⟨rfl, rfl⟩ := Prod.mk.inj hpair
    exact ⟨.generator, rfl⟩
  · obtain ⟨rfl, rfl⟩ := Prod.mk.inj hpair
    exact ⟨.plain, rfl⟩

theorem spells_of_cutAsyncFunction? (hcut : cutAsyncFunction? content = some (written, rest)) :
    Spells .function written ∧ content = written ++ rest := by
  rw [cutAsyncFunction?, Option.bind_eq_bind, Option.bind_eq_some_iff] at hcut
  obtain ⟨behind, hasync, hcut⟩ := hcut
  rw [Option.ite_none_left_eq_some, Option.bind_eq_bind, Option.bind_eq_some_iff] at hcut
  obtain ⟨hblanks, ⟨word, rest'⟩, hfunction, hpair⟩ := hcut
  obtain ⟨rfl, rfl⟩ := Prod.mk.inj (Option.some_inj.mp hpair)
  obtain ⟨hword, happend⟩ := spellsFunction_of_cutFunction? hfunction
  constructor
  · exact .async (by simpa using hblanks) (fun c hc => List.mem_takeWhile_imp hc) hword
  · rw [Text.dropLead?_eq_some_iff.mp hasync, List.append_assoc, List.append_assoc, ← happend,
      List.takeWhile_append_dropWhile]

theorem spells_of_mem_spellings {spelling : List Char × Keyword} (hmem : spelling ∈ spellings) :
    Spells spelling.2 spelling.1 := by
  simp only [spellings, List.mem_cons, List.not_mem_nil, or_false] at hmem
  rcases hmem with rfl | rfl | rfl | rfl | rfl | rfl | rfl | rfl | rfl | rfl <;> constructor

/-- What is cut off the front of a text is a spelling of the keyword. -/
theorem spells_of_cut? (hcut : cut? content = some (keyword, written, rest)) :
    Spells keyword written ∧ content = written ++ rest := by
  unfold cut? at hcut
  split at hcut
  · rename_i hasync
    obtain ⟨rfl, rfl, rfl⟩ : _ ∧ _ ∧ _ := by simpa using hcut
    exact spells_of_cutAsyncFunction? hasync
  · split at hcut
    · rename_i hfunction
      obtain ⟨rfl, rfl, rfl⟩ : _ ∧ _ ∧ _ := by simpa using hcut
      obtain ⟨hword, happend⟩ := spellsFunction_of_cutFunction? hfunction
      exact ⟨.function hword, happend⟩
    · obtain ⟨spelling, hmem, hspelling⟩ := List.exists_of_findSome?_eq_some hcut
      obtain ⟨behind, hlead, htriple⟩ := Option.map_eq_some_iff.mp hspelling
      obtain ⟨rfl, rfl, rfl⟩ : _ ∧ _ ∧ _ := by simpa using htriple
      exact ⟨spells_of_mem_spellings hmem, Text.dropLead?_eq_some_iff.mp hlead⟩

theorem SpellsFunction.cutFunction? {word : List Char} (hword : SpellsFunction word)
    (hstar : rest.head? ≠ some '*') : cutFunction? (word ++ rest) = some (word, rest) := by
  cases hword with
  | generator => rfl
  | plain =>
      cases rest with
      | nil => rfl
      | cons c rest =>
          have hc : c ≠ '*' := by simpa using hstar
          simp [Keyword.cutFunction?, functionWord, Text.dropLead?, hc]

theorem SpellsFunction.exists_tail {word : List Char} (hword : SpellsFunction word) :
    ∃ tail, word = 'f' :: tail := by
  cases hword <;> exact ⟨_, rfl⟩

theorem cutAsyncFunction?_blanks {blanks word : List Char} (hne : blanks ≠ [])
    (hblanks : ∀ c ∈ blanks, Text.isBlank c = true) (hword : SpellsFunction word)
    (hstar : rest.head? ≠ some '*') :
    cutAsyncFunction? (['a', 's', 'y', 'n', 'c'] ++ blanks ++ word ++ rest) =
      some (['a', 's', 'y', 'n', 'c'] ++ blanks ++ word, rest) := by
  have hlead : Text.dropLead? ['a', 's', 'y', 'n', 'c']
      (['a', 's', 'y', 'n', 'c'] ++ blanks ++ word ++ rest) = some (blanks ++ (word ++ rest)) := by
    rw [Text.dropLead?_eq_some_iff]
    simp only [List.append_assoc]
  obtain ⟨tail, hf⟩ := hword.exists_tail
  have htake : (blanks ++ (word ++ rest)).takeWhile Text.isBlank = blanks := by
    rw [hf, List.cons_append, List.takeWhile_append_of_pos hblanks,
      List.takeWhile_cons_of_neg (by decide), List.append_nil]
  have hdrop : (blanks ++ (word ++ rest)).dropWhile Text.isBlank = word ++ rest := by
    rw [hf, List.cons_append, List.dropWhile_append_of_pos hblanks,
      List.dropWhile_cons_of_neg (by decide)]
  have hempty : blanks.isEmpty = false := by simpa using hne
  rw [cutAsyncFunction?, hlead]
  simp only [Option.bind_eq_bind, Option.bind_some, htake, hdrop, hword.cutFunction? hstar, hempty,
    Bool.false_eq_true, if_false]

/-- In front of anything but a star, every spelling is found. -/
theorem Spells.cut? (hspells : Spells keyword written) (hstar : rest.head? ≠ some '*') :
    cut? (written ++ rest) = some (keyword, written, rest) := by
  cases hspells with
  | function hword =>
      have hasync : cutAsyncFunction? (written ++ rest) = none := by
        cases hword <;> rfl
      rw [Keyword.cut?, hasync, hword.cutFunction? hstar]
  | async hne hblanks hword =>
      rw [Keyword.cut?, cutAsyncFunction?_blanks hne hblanks hword hstar]
  | _ => rfl

end Keyword

namespace Header

/-! ## Arguments -/

/-- What may stand behind a keyword with these arguments. -/
inductive Follows : Keyword → Option (List Char) → List Char → Prop
  /-- A blank, and the arguments among blanks, with one colon at the end that is not theirs. -/
  | args {keyword : Keyword} {args rest : List Char}
      (hblank : ∃ c ∈ rest.head?, Text.isBlank c = true)
      (hargs : Text.trimEnd (Text.dropFinal ':' (Text.trim rest)) = args) (hne : args ≠ []) :
      Follows keyword (some args) rest
  /-- No arguments: blanks and at most one colon, behind a keyword that may stand alone. -/
  | alone {keyword : Keyword} {blanks colon blanks' : List Char}
      (halone : keyword ∈ [.else, .try, .catch, .finally, .do])
      (hblanks : ∀ c ∈ blanks, Text.isBlank c = true) (hcolon : colon ∈ [[], [':']])
      (hblanks' : ∀ c ∈ blanks', Text.isBlank c = true) :
      Follows keyword none (blanks ++ colon ++ blanks')

variable {rest : List Char} {keyword : Keyword}

/-- A final colon and the blanks at both edges can be taken off in any order. -/
theorem trim_dropFinal_trimEnd (rest : List Char) :
    Text.trim (Text.dropFinal ':' (Text.trimEnd rest)) =
      Text.trimEnd (Text.dropFinal ':' (Text.trim rest)) := by
  have hcolon : Text.isBlank ':' = false := rfl
  rw [Text.trim, Text.trimStart_dropFinal hcolon, Text.trimStart_trimEnd, Text.trim]

theorem argumentOptional_iff :
    keyword.argumentOptional = true ↔ keyword ∈ [.else, .try, .catch, .finally, .do] := by
  cases keyword <;> decide

theorem follows_none (halone : keyword.argumentOptional = true)
    (hnil : Text.trimEnd (Text.dropFinal ':' (Text.trim rest)) = []) :
    Follows keyword none rest := by
  obtain ⟨blanks, blanks', colon, blanks'', hblanks, hblanks', hcolon, hblanks'', -, hrest⟩ :=
    Text.exists_pieces_of_dropFinal ':' rest
  rw [hnil, List.append_nil] at hrest
  rw [hrest]
  refine .alone (argumentOptional_iff.mp halone) (fun c hc => ?_) hcolon hblanks''
  exact (List.mem_append.mp hc).elim (hblanks c) (hblanks' c)

/-- Read as arguments, the rest of a line gives what stands there. -/
theorem follows_of_args? {found : Option (List Char)} (hargs : args? rest = some found)
    (halone : found = none → keyword.argumentOptional = true) : Follows keyword found rest := by
  unfold args? at hargs
  simp only [trim_dropFinal_trimEnd] at hargs
  split_ifs at hargs with hhead hempty hfeed htrailing
  · obtain rfl := Option.some_inj.mp hargs
    exact follows_none (halone rfl) (List.isEmpty_iff.mp hempty)
  · obtain rfl := Option.some_inj.mp hargs
    refine .args ?_ rfl (by simpa using hempty)
    simpa [Option.getD_eq_iff] using hhead
  · obtain rfl := Option.some_inj.mp hargs
    refine follows_none (halone rfl) ?_
    rw [← trim_dropFinal_trimEnd]
    rcases (by simpa using htrailing : Text.trimEnd rest = [] ∨ Text.trimEnd rest = [':']) with
      hnil | hcolon
    · rw [hnil]
      rfl
    · rw [hcolon]
      rfl

/-- The characters of the arguments are characters of the line. -/
theorem mem_of_mem_args {c : Char}
    (hc : c ∈ Text.trimEnd (Text.dropFinal ':' (Text.trim rest))) : c ∈ rest := by
  obtain ⟨blanks, blanks', colon, blanks'', -, -, -, -, -, hrest⟩ :=
    Text.exists_pieces_of_dropFinal ':' rest
  rw [hrest]
  simp [hc]

/-- What stands behind a keyword is read as its arguments. -/
theorem Follows.args? {found : Option (List Char)} (hfollows : Follows keyword found rest)
    (hfeed : '\n' ∉ rest) :
    args? rest = some found ∧ (found = none → keyword.argumentOptional = true) := by
  unfold Header.args?
  simp only [trim_dropFinal_trimEnd]
  cases hfollows with
  | args hblank hargs hne =>
      obtain ⟨c, hc, hblank⟩ := hblank
      have hhead : (rest.head?.map Text.isBlank).getD false = true := by
        rw [Option.mem_def.mp hc]
        exact hblank
      have hfeed' : '\n' ∉ Text.trimEnd (Text.dropFinal ':' (Text.trim rest)) :=
        fun hmem => hfeed (mem_of_mem_args hmem)
      simp [hhead, hargs, hne, hargs ▸ hfeed']
  | @alone blanks colon blanks' halone hblanks hcolon hblanks' =>
      have htrim : Text.trim (blanks ++ colon ++ blanks') = colon := by
        rw [Text.trim_append_of_isBlank hblanks hblanks']
        rcases List.mem_pair.mp hcolon with rfl | rfl <;> rfl
      have hdrop : Text.trimEnd (Text.dropFinal ':' colon) = [] := by
        rcases List.mem_pair.mp hcolon with rfl | rfl <;> rfl
      refine ⟨?_, fun _ => argumentOptional_iff.mpr halone⟩
      rw [htrim, hdrop]
      by_cases hhead : ((blanks ++ colon ++ blanks').head?.map Text.isBlank).getD false = true
      · rw [if_pos hhead]
        rfl
      · -- Nothing is trimmed in front, so at the end nothing or the colon is left.
        have hstart : Text.trimStart (blanks ++ colon ++ blanks') = blanks ++ colon ++ blanks' :=
          Text.trimStart_of_head? fun c hc => by
            rw [Option.mem_def.mp hc] at hhead
            simpa using hhead
        have hend : Text.trimEnd (blanks ++ colon ++ blanks') = colon := by
          rw [← hstart, ← Text.trim, htrim]
        rw [if_neg hhead, hend]
        rcases List.mem_pair.mp hcolon with rfl | rfl <;> rfl

theorem Follows.head?_ne_star {found : Option (List Char)}
    (hfollows : Follows keyword found rest) : rest.head? ≠ some '*' := by
  intro hstar
  cases hfollows with
  | args hblank =>
      obtain ⟨c, hc, hblank⟩ := hblank
      obtain rfl : c = '*' := Option.some_inj.mp (hc.symm.trans hstar)
      cases hblank
  | @alone blanks colon blanks' halone hblanks hcolon hblanks' =>
      have hstar' : '*' ∈ blanks ++ colon ++ blanks' := List.mem_of_mem_head? hstar
      rw [List.mem_append, List.mem_append] at hstar'
      rcases hstar' with (hmem | hmem) | hmem
      · cases hblanks _ hmem
      · rcases List.mem_pair.mp hcolon with rfl | rfl <;> simp at hmem
      · cases hblanks' _ hmem

/-! ## Headers -/

/-- The header can be written as `content`: its keyword as spelled, and behind it what may
stand there. -/
def Writes (header : Header) (content : List Char) : Prop :=
  ∃ rest, content = header.written ++ rest ∧ header.keyword.Spells header.written ∧
    Follows header.keyword header.args rest

variable {content : List Char} {header : Header}

theorem writes_of_ofContent? (hheader : ofContent? content = some header) :
    header.Writes content := by
  simp only [ofContent?, Option.bind_eq_bind, Option.bind_eq_some_iff] at hheader
  obtain ⟨⟨keyword, written, rest⟩, hcut, found, hargs, hheader⟩ := hheader
  obtain ⟨hspells, hcontent⟩ := Keyword.spells_of_cut? hcut
  cases found with
  | none =>
      obtain ⟨halone, hheader⟩ := Option.ite_none_right_eq_some.mp hheader
      obtain rfl := Option.some_inj.mp hheader
      exact ⟨rest, hcontent, hspells, follows_of_args? hargs fun _ => halone⟩
  | some args =>
      obtain rfl := Option.some_inj.mp hheader
      exact ⟨rest, hcontent, hspells, follows_of_args? hargs fun hnone => nomatch hnone⟩

theorem Writes.ofContent? (hwrites : header.Writes content) (hfeed : '\n' ∉ content) :
    ofContent? content = some header := by
  obtain ⟨rest, rfl, hspells, hfollows⟩ := hwrites
  have hrest : '\n' ∉ rest := fun hmem => hfeed (List.mem_append_right _ hmem)
  obtain ⟨hargs, halone⟩ := hfollows.args? hrest
  rw [Header.ofContent?, hspells.cut? hfollows.head?_ne_star]
  simp only [Option.bind_eq_bind, Option.bind_some, hargs]
  obtain ⟨keyword, written, args⟩ := header
  cases args with
  | none => exact if_pos (halone rfl)
  | some args => rfl

/-- A content without a line feed is read as the one header that can be written so. -/
theorem ofContent?_eq_some_iff (hfeed : '\n' ∉ content) :
    ofContent? content = some header ↔ header.Writes content :=
  ⟨writes_of_ofContent?, fun hwrites => hwrites.ofContent? hfeed⟩

theorem Writes.trim_args (hwrites : header.Writes content) :
    ∀ args ∈ header.args, Text.trim args = args := by
  obtain ⟨rest, -, -, hfollows⟩ := hwrites
  intro args hargs
  rw [Option.mem_def.mp hargs] at hfollows
  cases hfollows with
  | args hblank htrim hne =>
      rw [← htrim]
      exact Text.trim_trimEnd_dropFinal rfl rest

/-- All of the content is in the header, but for blanks and at most one colon behind the
arguments. -/
def Keeps (header : Header) (content : List Char) : Prop :=
  ∃ blanks blanks' colon blanks'', (∀ c ∈ blanks ++ blanks' ++ blanks'', Text.isBlank c = true) ∧
    colon ∈ [[], [':']] ∧
      content = header.written ++ (blanks ++ header.args.getD [] ++ blanks' ++ colon ++ blanks'')

theorem Writes.keeps (hwrites : header.Writes content) : header.Keeps content := by
  obtain ⟨rest, rfl, -, hfollows⟩ := hwrites
  obtain ⟨keyword, written, args⟩ := header
  cases hfollows with
  | args hblank hargs hne =>
      obtain ⟨blanks, blanks', colon, blanks'', hblanks, hblanks', hcolon, hblanks'', -, hrest⟩ :=
        Text.exists_pieces_of_dropFinal ':' rest
      rw [hargs] at hrest
      refine ⟨blanks, blanks', colon, blanks'', fun c hc => ?_, hcolon, by rw [hrest]; rfl⟩
      rcases List.mem_append.mp hc with hc | hc
      · exact (List.mem_append.mp hc).elim (hblanks c) (hblanks' c)
      · exact hblanks'' c hc
  | @alone blanks colon blanks' halone hblanks hcolon hblanks' =>
      refine ⟨blanks, [], colon, blanks', fun c hc => ?_, hcolon, by simp⟩
      rw [List.append_nil] at hc
      exact (List.mem_append.mp hc).elim (hblanks c) (hblanks' c)

end Header

/-- A line without a line feed that is not blank opens a block exactly when a header writes
its content, and otherwise it is a statement. At most one header does; its arguments have no
blanks at their edges, and nothing of the line is left out but blanks and one final colon at
most. -/
theorem Line.kind_grammar {raw : List Char} (hfeed : '\n' ∉ raw)
    (hblank : (Line.ofChars raw).isBlank = false) :
    (∀ header : Header,
      (Line.ofChars raw).kind = .opener header ↔ header.Writes (Line.ofChars raw).content) ∧
    ((Line.ofChars raw).kind = .statement ↔
      ∀ header : Header, ¬ header.Writes (Line.ofChars raw).content) ∧
    (∀ header header' : Header, header.Writes (Line.ofChars raw).content →
      header'.Writes (Line.ofChars raw).content → header = header') ∧
    ∀ header : Header, header.Writes (Line.ofChars raw).content →
      (∀ args ∈ header.args, Text.trim args = args) ∧
        header.Keeps (Line.ofChars raw).content := by
  have hfeed' : '\n' ∉ (Line.ofChars raw).content :=
    fun hmem => hfeed ((List.dropWhile_suffix _).subset hmem)
  have hread : ∀ header : Header, Header.ofContent? (Line.ofChars raw).content = some header ↔
      header.Writes (Line.ofChars raw).content := fun _ => Header.ofContent?_eq_some_iff hfeed'
  refine ⟨fun header => ?_, ?_, fun header header' hwrites hwrites' => ?_,
    fun header hwrites => ⟨hwrites.trim_args, hwrites.keeps⟩⟩
  · rw [← hread, Line.kind, hblank]
    cases Header.ofContent? (Line.ofChars raw).content <;> simp
  · simp only [← hread, Line.kind, hblank, ← Option.eq_none_iff_forall_ne_some]
    cases Header.ofContent? (Line.ofChars raw).content <;> simp
  · exact Option.some_inj.mp (((hread _).mpr hwrites).symm.trans ((hread _).mpr hwrites'))

/-- The longer of two spellings that both fit, and of two colons the last. -/
theorem Line.kind_grammar_generator :
    let raw := "  async  function* walk(tree) : : ".toList
    let header : Header := ⟨.function, "async  function*".toList, some "walk(tree) :".toList⟩
    '\n' ∉ raw ∧ (Line.ofChars raw).isBlank = false ∧ header.Writes (Line.ofChars raw).content := by
  intro raw header
  have hfeed : '\n' ∉ raw := by decide
  have hblank : (Line.ofChars raw).isBlank = false := by decide
  have hkind : (Line.ofChars raw).kind = .opener header := by decide
  exact ⟨hfeed, hblank, ((Line.kind_grammar hfeed hblank).1 header).mp hkind⟩

end Offside
