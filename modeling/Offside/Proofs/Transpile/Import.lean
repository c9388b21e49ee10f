/-
# Imports through both stages

An import of names is rewritten twice: transpiling puts its names in braces, and compiling makes
a call of `require` of it. Both stages read it as text. Whatever the literal of the module
says, it is copied by both, because neither looks further than the first `from` and the first
quote behind it.

The names are what can go wrong. The first `from` of the text must be the one behind the names,
so no name but the first may read as that word. A name that does ends the names too early, and
what is left over is an import to neither stage.
-/

import Offside.Proofs.Compile.NamedImport
import Offside.Transpile

namespace Offside

namespace Import

/-! ## Names as words -/

/-- The import of names from a module. -/
def importLine (names : List Binding) (module : ModuleLiteral) : List Char :=
  ['i', 'm', 'p', 'o', 'r', 't', ' '] ++ [',', ' '].intercalate (names.map Binding.source) ++
    [' ', 'f', 'r', 'o', 'm', ' '] ++ module.text

/-- Characters of the words that names are written with. -/
def isListPart (c : Char) : Bool := Assignment.isNamePart c || c == ','

namespace Binding

/-- The words of a name, the last one with the mark that separates it from the next name. -/
def words (binding : Binding) (mark : List Char) : List (List Char) :=
  match binding.local? with
  | some inner => [binding.exported.name, ['a', 's'], inner.name ++ mark]
  | none => [binding.exported.name ++ mark]

/-- The words of all names. -/
def allWords : List Binding → List (List Char)
  | [] => []
  | [binding] => binding.words []
  | binding :: next :: names => binding.words [','] ++ allWords (next :: names)

theorem spaced_words (binding : Binding) (mark : List Char) :
    spaced (binding.words mark) = ' ' :: (binding.source ++ mark) := by
  unfold words source
  cases binding.local? <;> simp [spaced]

theorem spaced_allWords (first : Binding) (rest : List Binding) :
    spaced (allWords (first :: rest)) =
      ' ' :: [',', ' '].intercalate ((first :: rest).map source) := by
  induction rest generalizing first with
  | nil => simp [allWords, spaced_words]
  | cons next rest ih =>
      rw [allWords, spaced, List.flatMap_append, ← spaced, ← spaced, ih next, spaced_words]
      simp [List.intercalate_cons_cons]

/-- A word reads as `from` if it is that name, with or without its mark. -/
theorem readsAsFrom_append {mark : List Char} (hmark : mark = [] ∨ mark = [','])
    (word : List Char) : readsAsFrom (word ++ mark) = readsAsFrom word := by
  rcases hmark with rfl | rfl
  · rw [List.append_nil]
  · exact readsAsFrom_append_comma word

section Mark

variable {mark : List Char} (hmark : mark = [] ∨ mark = [','])

include hmark

theorem any_readsAsFrom_tail_words (binding : Binding) :
    (binding.words mark).tail.any readsAsFrom =
      binding.local?.toList.any fun inner => readsAsFrom inner.name := by
  unfold words
  have has : readsAsFrom ['a', 's'] = false := rfl
  cases binding.local? with
  | none => rfl
  | some inner => simp [has, readsAsFrom_append hmark]

theorem any_readsAsFrom_words (binding : Binding) :
    (binding.words mark).any readsAsFrom =
      (binding.exported :: binding.local?.toList).any fun later => readsAsFrom later.name := by
  have has : readsAsFrom ['a', 's'] = false := rfl
  unfold words
  cases binding.local? with
  | none => simp [readsAsFrom_append hmark]
  | some inner => simp [has, readsAsFrom_append hmark]

end Mark

theorem any_readsAsFrom (names : List Binding) :
    (allWords names).any readsAsFrom =
      (identifiers names).any fun later => readsAsFrom later.name := by
  fun_induction allWords names with
  | case1 => rfl
  | case2 binding =>
      rw [any_readsAsFrom_words (.inl rfl), identifiers, List.flatMap_singleton]
  | case3 binding next names ih =>
      have hnames : identifiers (binding :: next :: names) =
          (binding.exported :: binding.local?.toList) ++ identifiers (next :: names) := rfl
      rw [hnames, List.any_append, List.any_append, ih, any_readsAsFrom_words (.inr rfl)]

/-- Of the words behind the first one, some reads as `from` exactly if some name behind the
first one does. -/
theorem any_readsAsFrom_tail (first : Binding) (rest : List Binding) :
    (allWords (first :: rest)).tail.any readsAsFrom =
      (identifiers (first :: rest)).tail.any fun later => readsAsFrom later.name := by
  have hwords : ∀ mark, first.words mark ≠ [] := by
    intro mark
    unfold words
    split <;> exact List.cons_ne_nil _ _
  have hnames : (identifiers (first :: rest)).tail = first.local?.toList ++ identifiers rest := rfl
  rw [hnames, List.any_append]
  cases rest with
  | nil =>
      rw [allWords, any_readsAsFrom_tail_words (.inl rfl)]
      simp [identifiers]
  | cons next rest =>
      rw [allWords, List.tail_append_of_ne_nil (hwords _), List.any_append,
        any_readsAsFrom_tail_words (.inr rfl), any_readsAsFrom]

end Binding

/-! ### Characters of words -/

/-- The word is not empty, and consists of characters of names and commas. -/
def IsListWord (word : List Char) : Prop := word ≠ [] ∧ ∀ c ∈ word, isListPart c = true

theorem Identifier.isListWord (identifier : Identifier) {mark : List Char}
    (hmark : ∀ c ∈ mark, isListPart c = true) : IsListWord (identifier.name ++ mark) where
  left := List.append_ne_nil_of_left_ne_nil identifier.isWord.ne_nil _
  right := by
    rw [List.forall_mem_append]
    exact ⟨fun c hc => by simp [isListPart, identifier.isNamePart c hc], hmark⟩

theorem isListWord_of_all {word : List Char} (hne : word ≠ [])
    (hall : word.all isListPart = true) : IsListWord word := ⟨hne, List.all_eq_true.mp hall⟩

theorem isListWord_fromWord : IsListWord fromWord := isListWord_of_all (List.cons_ne_nil _ _) rfl

theorem isBlank_of_isListPart {c : Char} (hc : isListPart c = true) : Text.isBlank c = false := by
  rw [isListPart, Bool.or_eq_true, beq_iff_eq] at hc
  rcases hc with hpart | rfl
  · exact Assignment.isBlank_of_isNamePart hpart
  · rfl

theorem IsListWord.isWord {word : List Char} (hword : IsListWord word) : IsWord word :=
  ⟨hword.1, fun c hc => isBlank_of_isListPart (hword.2 c hc)⟩

namespace Binding

theorem isListWord_words {mark : List Char} (hmark : ∀ c ∈ mark, isListPart c = true)
    (binding : Binding) : ∀ word ∈ binding.words mark, IsListWord word := by
  unfold words
  split
  · rename_i inner _
    have hexported : IsListWord (binding.exported.name ++ []) :=
      binding.exported.isListWord (by simp)
    rw [List.append_nil] at hexported
    simp only [List.forall_mem_cons]
    exact ⟨hexported, isListWord_of_all (List.cons_ne_nil _ _) rfl, inner.isListWord hmark, by simp⟩
  · simp only [List.forall_mem_cons]
    exact ⟨binding.exported.isListWord hmark, by simp⟩

theorem isListWord_allWords (names : List Binding) :
    ∀ word ∈ allWords names, IsListWord word := by
  fun_induction allWords names with
  | case1 => simp
  | case2 binding => exact binding.isListWord_words (by simp)
  | case3 binding next names ih =>
      rw [List.forall_mem_append]
      exact ⟨binding.isListWord_words (List.all_eq_true.mp rfl), ih⟩

end Binding

/-! ## Transpiling -/

/-- Characters of an import in front of its literal. -/
def isHeadPart (c : Char) : Bool := isListPart c || c == ' '

theorem isHeadPart_of_isListPart {c : Char} (hc : isListPart c = true) : isHeadPart c = true := by
  simp [isHeadPart, hc]

theorem isHeadPart_spaced {words : List (List Char)} (hwords : ∀ word ∈ words, IsListWord word) :
    ∀ c ∈ spaced words, isHeadPart c = true := by
  intro c hc
  obtain ⟨word, hword, hc⟩ := List.mem_flatMap.mp hc
  rcases List.mem_cons.mp hc with rfl | hc
  · rfl
  · exact isHeadPart_of_isListPart ((hwords word hword).2 c hc)

/-- Characters that no import has in front of its literal. -/
theorem notMem_of_isHeadPart {text : List Char} (htext : ∀ c ∈ text, isHeadPart c = true) {c : Char}
    (hc : isHeadPart c = false) : c ∉ text := by
  intro hmem
  rw [htext c hmem] at hc
  cases hc

theorem notMem_append_spaced {word : List Char} {words : List (List Char)}
    (hwords : ∀ other ∈ word :: words, IsListWord other) {c : Char} (hc : isHeadPart c = false) :
    c ∉ word ++ spaced words := by
  rw [List.forall_mem_cons] at hwords
  rw [List.mem_append, not_or]
  exact ⟨notMem_of_isHeadPart (fun d hd => isHeadPart_of_isListPart (hwords.1.2 d hd)) hc,
    notMem_of_isHeadPart (isHeadPart_spaced hwords.2) hc⟩

theorem isPlain_of_isHeadPart {c : Char} (hc : isHeadPart c = true) : Token.isPlain c = true := by
  simp only [Token.isPlain, Bool.and_eq_true, decide_eq_true_eq]
  refine ⟨⟨?_, ?_⟩, ?_⟩
  all_goals
    rintro rfl
    cases hc

/-- Scrubbing finds no comment in front of a literal, and no line feed in it. -/
theorem scrub_append_literal {front : List Char} (hfront : ∀ c ∈ front, isHeadPart c = true)
    (module : ModuleLiteral) : scrub (front ++ module.text) = front ++ module.text := by
  obtain ⟨kind, hquote⟩ := module.exists_kind
  have hliteral : Token.Leads ⟨kind, module.text⟩ [] :=
    .literal hquote module.sealed_body module.pending_body
  have hscrubbed : (⟨kind, module.text⟩ : Token).scrubbed = module.text := by
    rw [Token.scrubbed_of_isString (Token.isString_of_quote? hquote _)]
    exact Token.flatMap_escapeLineFeed_of_notMem (module.notMem_text (by decide))
  have hrest := hliteral.scrub_append
  rw [List.append_nil, hscrubbed, Token.scrub_nil, List.append_nil] at hrest
  rw [Token.scrub_append_of_isPlain fun c hc => isPlain_of_isHeadPart (hfront c hc), hrest]

theorem kind_importOf (rest : List Char) : (Line.ofChars (importOf rest)).kind = .statement := by
  have hblank : (Line.ofChars (importOf rest)).isBlank = false := by
    have hi : Text.isBlank 'i' = false := rfl
    change (Text.trimEnd (importOf rest)).isEmpty = false
    rw [importOf, List.cons_append, Text.trimEnd_cons_of_not_blank hi]
    rfl
  have hheader : Header.ofContent? (Line.ofChars (importOf rest)).content = none := rfl
  simp [Line.kind, hblank, hheader]

/-- An import of names is transpiled to what the pattern of imports makes of it. -/
theorem transpile_importOf {rest text : List Char} (hfeed : '\n' ∉ rest)
    (hscrub : scrub (importOf rest) = importOf rest)
    (himport : (Line.ofChars (importOf rest)).withNamedImport? = some text) :
    transpile {} (importOf rest) = text ++ ['\n'] := by
  have hline : '\n' ∉ importOf rest := by simp [importOf, hfeed]
  have hsplit : Text.splitLines (importOf rest) = [importOf rest] :=
    List.splitOn_eq_singleton fun hmem => absurd hmem hline
  rw [transpile, hscrub, hsplit]
  simp only [emitLines, kind_importOf, Line.inTarget, himport]
  simp [finishLines, BlockStack.closedBy, BlockStack.leftBy]

/-- Behind `import` and a blank, a text that begins with a name is cut at its first `from`. -/
theorem withNamedImport?_of_cutNames? {text names behind : List Char}
    (hhead : ∀ c ∈ text.head?, isListPart c = true)
    (hcut : cutNames? text = some (names, behind)) :
    (Line.ofChars (importOf (' ' :: text))).withNamedImport? = some (bracedLine names behind) := by
  have hword : Text.dropLead? ['i', 'm', 'p', 'o', 'r', 't']
      (Line.ofChars (importOf (' ' :: text))).content = some (' ' :: text) := rfl
  cases text with
  | nil => cases hcut
  | cons c text =>
      have hc := hhead c rfl
      have hbrace : c ≠ '\x7b' := by
        rintro rfl
        cases hc
      have hstar : c ≠ '*' := by
        rintro rfl
        cases hc
      have hspace : Text.isBlank ' ' = true := rfl
      have htrim : Text.trimStart (' ' :: c :: text) = c :: text := by
        rw [Text.trimStart_cons_of_isBlank hspace,
          Text.trimStart_cons_of_not_blank (isBlank_of_isListPart hc)]
      have hnone : cutBehindBlanks? (c :: text) = none := by
        simp [cutBehindBlanks?, isBlank_of_isListPart hc]
      have hbehind : cutBehindBlanks? (' ' :: c :: text) = some (names, behind) := by
        rw [cutBehindBlanks?, if_pos hspace, hnone]
        exact hcut
      have hstart : ¬ ((c :: text).head? = some '\x7b' ∨ (c :: text).head? = some '*') := by
        simp [hbrace, hstar]
      rw [Line.withNamedImport?_eq, Line.namedImport?_eq hword, htrim, if_neg hstart, hbehind]
      have hindentation : (Line.ofChars (importOf (' ' :: c :: text))).indentation = [] := rfl
      rw [Option.map_some, hindentation]
      simp [bracedLine, importOf, fromWord]

/-! ## Both stages -/

/-- An import of names, word by word. -/
theorem exists_importLine_eq (first : Binding) (rest : List Binding)
    (module : ModuleLiteral) :
    ∃ word words, Binding.allWords (first :: rest) = word :: words ∧
      word ++ spaced words = [',', ' '].intercalate ((first :: rest).map Binding.source) ∧
        importLine (first :: rest) module =
          importOf (' ' :: (word ++ (spaced (words ++ [fromWord]) ++ ' ' :: module.text))) := by
  have hspaced := Binding.spaced_allWords first rest
  cases hwords : Binding.allWords (first :: rest) with
  | nil =>
      rw [hwords] at hspaced
      cases hspaced
  | cons word words =>
      rw [hwords, spaced, List.flatMap_cons, List.cons_append, List.cons_inj_right] at hspaced
      refine ⟨word, words, rfl, hspaced, ?_⟩
      rw [importLine, ← hspaced]
      simp [importOf, spaced, fromWord]

section Cut

variable {word : List Char} {words : List (List Char)} {module : ModuleLiteral}
  {cut : List Char × List Char} (hwords : ∀ other ∈ word :: words, IsListWord other)
  (hcut : cutNames? (word ++ (spaced words ++ ' ' :: module.text)) = some cut)

include hwords

theorem notMem_importOf {c : Char} (hc : isHeadPart c = false) (hc' : c ∈ ['\n', '(', ')']) :
    c ∉ word ++ (spaced words ++ ' ' :: module.text) := by
  have hblank : c ≠ ' ' := by
    rintro rfl
    cases hc
  rw [← List.append_assoc, List.mem_append, List.mem_cons, not_or, not_or]
  exact ⟨notMem_append_spaced hwords hc, hblank, module.notMem_text hc'⟩

include hcut

/-- What is transpiled is cut at its first `from`. -/
theorem transpile_importOf_words :
    transpile {} (importOf (' ' :: (word ++ (spaced words ++ ' ' :: module.text)))) =
      bracedLine cut.1 cut.2 ++ ['\n'] := by
  have hfeed : '\n' ∉ word ++ (spaced words ++ ' ' :: module.text) :=
    notMem_importOf hwords rfl (by decide)
  rw [List.forall_mem_cons] at hwords
  obtain ⟨⟨hne, hword⟩, hwords⟩ := hwords
  have hhead := forall_head?_append hne hword (spaced words ++ ' ' :: module.text)
  have hfront : ∀ c ∈ importOf (' ' :: (word ++ (spaced words ++ [' ']))), isHeadPart c = true := by
    refine List.forall_mem_append.mpr ⟨List.all_eq_true.mp rfl, ?_⟩
    rw [List.forall_mem_cons, List.forall_mem_append, List.forall_mem_append]
    exact ⟨rfl, fun c hc => isHeadPart_of_isListPart (hword c hc), isHeadPart_spaced hwords,
      List.all_eq_true.mp rfl⟩
  have hscrub := scrub_append_literal hfront module
  have hblank : '\n' ≠ ' ' := by decide
  refine transpile_importOf ?_ ?_ (withNamedImport?_of_cutNames? hhead hcut)
  · rw [List.mem_cons, not_or]
    exact ⟨hblank, hfeed⟩
  · simpa [importOf] using hscrub

/-- The names and what stands behind them are free of such characters as well. -/
theorem notMem_of_cutNames? {c : Char} (hc : isHeadPart c = false) (hc' : c ∈ ['\n', '(', ')']) :
    c ∉ cut.1 ∧ c ∉ cut.2 := by
  have hmem : c ∉ word ++ (spaced words ++ ' ' :: module.text) := notMem_importOf hwords hc hc'
  obtain ⟨blanks, -, htext⟩ := cutNames?_append hcut
  rw [← htext] at hmem
  simp only [List.mem_append, not_or] at hmem
  exact ⟨hmem.1, hmem.2.2.2⟩

/-- Both stages together: what follows `import` is put in braces up to the first `from`, and the
result is lowered. -/
theorem compile_transpile_words :
    compile {} (transpile {} (importOf (' ' :: (word ++ (spaced words ++ ' ' :: module.text))))) =
      match validateDelimiters (Require.lower (bracedLine cut.1 cut.2) ++ ['\n']) with
      | .ok () => .ok ⟨Require.lower (bracedLine cut.1 cut.2) ++ ['\n'], [.typescript, .imports]⟩
      | .error error => .error error := by
  have hfeed := notMem_of_cutNames? hwords hcut (c := '\n') rfl (by decide)
  have hparen := notMem_of_cutNames? hwords hcut (c := '(') rfl (by decide)
  rw [transpile_importOf_words hwords hcut]
  exact compile_bracedLine ⟨hfeed.1, hparen.1⟩ ⟨hfeed.2, hparen.2⟩

end Cut

/-- Words are no literal. -/
theorem moduleLiteral?_spaced_eq_none {tail : List Char} {words : List (List Char)}
    (htail : ∀ c ∈ tail, isListPart c = true) (hwords : ∀ word ∈ words, IsListWord word)
    (hne : words ≠ []) (rest : List Char) :
    Require.moduleLiteral? (tail ++ (spaced words ++ rest)) = none := by
  have hquote : ∀ {c : Char}, isListPart c = true → c ≠ '"' ∧ c ≠ '\'' := by
    intro c hc
    constructor <;> rintro rfl <;> cases hc
  refine moduleLiteral?_eq_none fun c hc => hquote ?_
  cases tail with
  | cons first tail =>
      have hfirst := htail first List.mem_cons_self
      rw [List.cons_append, Text.trimStart_cons_of_not_blank (isBlank_of_isListPart hfirst)] at hc
      exact forall_head?_append (List.cons_ne_nil _ _) htail _ c hc
  | nil =>
      obtain ⟨word, words, rfl⟩ := List.exists_cons_of_ne_nil hne
      obtain ⟨hword, -⟩ := List.forall_mem_cons.mp hwords
      have hspace : Text.isBlank ' ' = true := rfl
      have hline : spaced (word :: words) ++ rest = ' ' :: (word ++ (spaced words ++ rest)) := by
        simp [spaced]
      rw [List.nil_append, hline, Text.trimStart_cons_of_isBlank hspace,
        Text.trimStart_of_head? (hword.isWord.isBlank_head? _)] at hc
      exact forall_head?_append hword.1 hword.2 _ c hc

/-- The names end where they should if no word behind the first one reads as `from`. -/
theorem cutNames?_of_none {word : List Char} {words : List (List Char)}
    (hwords : ∀ other ∈ word :: words, IsListWord other)
    (hnone : ∀ other ∈ words, readsAsFrom other = false) (module : ModuleLiteral) :
    cutNames? (word ++ (spaced (words ++ [fromWord]) ++ ' ' :: module.text)) =
      some (word ++ spaced words, ' ' :: module.text) := by
  obtain ⟨hword, hwords⟩ := List.forall_mem_cons.mp hwords
  have hbefore : ∀ other ∈ words, IsWord other ∧ readsAsFrom other = false :=
    fun other hmem => ⟨(hwords other hmem).isWord, hnone other hmem⟩
  have hfrom : IsWord (fromWord ++ []) := isWord_fromWord
  have hfeed : '\n' ∉ module.text := module.notMem_text (by decide)
  exact cutNames?_spaced hword.isWord hbefore hfrom rfl (by simp) hfeed

/-- Otherwise they end too early, and no literal comes next. -/
theorem exists_cutNames?_of_any {word : List Char} {words : List (List Char)}
    (hwords : ∀ other ∈ word :: words, IsListWord other)
    (hany : words.any readsAsFrom = true) (module : ModuleLiteral) :
    ∃ names behind, cutNames? (word ++ (spaced (words ++ [fromWord]) ++ ' ' :: module.text)) =
        some (names, behind) ∧ '\x7d' ∉ names ∧ Require.moduleLiteral? behind = none := by
  obtain ⟨hword, hwords⟩ := List.forall_mem_cons.mp hwords
  obtain ⟨found, hfound⟩ : ∃ found, words.find? readsAsFrom = some found := by
    rw [← Option.isSome_iff_exists, List.find?_isSome]
    exact List.any_eq_true.mp hany
  obtain ⟨hreads, before, after, rfl, hbefore⟩ := List.find?_eq_some_iff_append.mp hfound
  obtain ⟨tail, rfl, htail⟩ := readsAsFrom_iff.mp hreads
  rw [List.forall_mem_append, List.forall_mem_cons] at hwords
  obtain ⟨hwordsBefore, hfrom, hwordsAfter⟩ := hwords
  have hafter : ∀ other ∈ after ++ [fromWord], IsListWord other := by
    rw [List.forall_mem_append]
    exact ⟨hwordsAfter, by simpa using isListWord_fromWord⟩
  have hcut := cutNames?_spaced hword.isWord
    (fun other hmem => ⟨(hwordsBefore other hmem).isWord, by simpa using hbefore other hmem⟩)
    hfrom.isWord htail (fun other hmem => (hafter other hmem).isWord)
    (module.notMem_text (by decide))
  have hsplit : before ++ (fromWord ++ tail) :: after ++ [fromWord] =
      before ++ (fromWord ++ tail) :: (after ++ [fromWord]) := by simp
  rw [hsplit]
  exact ⟨_, _, hcut, notMem_append_spaced (List.forall_mem_cons.mpr ⟨hword, hwordsBefore⟩) rfl,
    moduleLiteral?_spaced_eq_none (fun c hc => hfrom.2 c (List.mem_append_right _ hc)) hafter
      (by simp) _⟩

/-- Exactly if no name but the first reads as `from`, an import of names becomes the declaration
that binds them to what `require` returns for the module. -/
theorem compile_transpile_import_iff (first : Binding) (rest : List Binding)
    (module : ModuleLiteral) :
    compile {} (transpile {} (importLine (first :: rest) module)) =
        .ok ⟨requireLine (first :: rest) module ++ ['\n'], [.typescript, .imports]⟩ ↔
      ∀ later ∈ (Binding.identifiers (first :: rest)).tail, readsAsFrom later.name = false := by
  obtain ⟨word, words, hwords, hnames, hline⟩ := exists_importLine_eq first rest module
  have hlist := Binding.isListWord_allWords (first :: rest)
  have hany := Binding.any_readsAsFrom_tail first rest
  rw [hwords, List.tail_cons] at hany
  rw [hwords] at hlist
  have hnone : (∀ later ∈ (Binding.identifiers (first :: rest)).tail,
      readsAsFrom later.name = false) ↔ words.any readsAsFrom = false := by
    rw [hany]
    simp
  rw [hline, hnone]
  have hall : ∀ other ∈ word :: (words ++ [fromWord]), IsListWord other := by
    rw [← List.cons_append, List.forall_mem_append]
    exact ⟨hlist, by simpa using isListWord_fromWord⟩
  cases hreads : words.any readsAsFrom with
  | false =>
      have hcut := cutNames?_of_none hlist (by simpa using hreads) module
      have hbrace : '\x7d' ∉ word ++ spaced words := notMem_append_spaced hlist rfl
      rw [hnames] at hbrace
      rw [compile_transpile_words hall hcut, hnames,
        lower_bracedLine first rest module hbrace, validateDelimiters_requireLine]
      simp
  | true =>
      obtain ⟨names, behind, hcut, hbrace, hliteral⟩ := exists_cutNames?_of_any hlist hreads module
      have hlower : Require.lower (bracedLine names behind) = bracedLine names behind := by
        refine Require.lower_of_none ?_
        rw [import?_bracedLine hbrace, hliteral, Option.map_none]
      rw [compile_transpile_words hall hcut, hlower]
      refine iff_of_false (fun hcode => ?_) Bool.noConfusion
      split at hcode
      · simp [bracedLine, importOf, requireLine] at hcode
      · cases hcode

/-- A name `from` behind another one is taken for the end of the names. -/
theorem compile_transpile_import_ne :
    ¬ ∀ (first : Binding) (rest : List Binding) (module : ModuleLiteral),
      compile {} (transpile {} (importLine (first :: rest) module)) =
        .ok ⟨requireLine (first :: rest) module ++ ['\n'], [.typescript, .imports]⟩ := by
  intro hkept
  have hname := hkept ⟨⟨['a'], rfl⟩, some ⟨fromWord, rfl⟩⟩ []
    ⟨'\'', ['m'], .inr rfl, List.forall_mem_singleton.mpr (by decide)⟩
  revert hname
  decide +kernel

end Import

end Offside
