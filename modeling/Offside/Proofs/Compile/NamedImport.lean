/-
# Imports of names

An import of names in braces is lowered to a declaration: the pattern of its names, bound to
what `require` returns for the module. The names are cut out of the text between the braces, at
commas and at ` as `, which no name contains; so the pattern has a property for each of them.

The literal of the module is copied. It may read like code, but its brackets are not counted,
and what closes behind it was open in front of it.
-/

import Offside.Proofs.Compile.Lines
import Offside.Proofs.Scrub.Literal
import Offside.Proofs.Statement.Names
import Offside.Proofs.Statement.Segments

namespace Offside

/-! ## Delimiters around a literal -/

section Literal

open WalkState Token

variable {state : WalkState} {kind : TokenKind} {quote : Char}

theorem nestBracket_of_quoted (opened : List Char) (s : WalkStep) (hregion : s.region = .quoted)
    (hfeed : s.char ≠ '\n') : nestBracket opened s = pure opened := by
  simp [nestBracket, hregion, hfeed]

/-- A literal leaves the open brackets as they are. -/
theorem nestsFrom_literal (hclean : state.Clean) (hquote : quote? kind = some quote)
    {body : List Char} (hbody : IsBody quote body) (hfeed : '\n' ∉ body) (opened : List Char) :
    NestsFrom state (quote :: body ++ [quote]) opened opened where
  brackets := by
    have hdelimiter : ∀ after, nestBracket opened ⟨quote, .code, after⟩ = some opened := by
      intro after
      rcases eq_of_quote? hquote with rfl | rfl <;>
        simp [nestBracket, BracketScan.isDelimiter, isQuote]
    have hinside : (walkFrom ⟨some quote, false, false, some quote⟩ body).foldlM nestBracket
        opened = some opened :=
      foldlM_of_sealed (isQuote_of_quote? hquote) nestBracket_of_quoted rfl rfl hbody.isSealed
        hfeed opened
    rw [hclean.walkFrom_literal (isQuote_of_quote? hquote) hbody, List.cons_append,
      List.foldlM_cons, hdelimiter, Option.bind_eq_bind, Option.bind_some, List.foldlM_append,
      hinside, Option.bind_eq_bind, Option.bind_some, List.foldlM_cons, hdelimiter]
    rfl
  clean := by
    rw [hclean.run_literal (isQuote_of_quote? hquote) hbody]
    exact clean_behind quote

end Literal

namespace Import

/-! ## Imports as they are written -/

/-- A name. -/
structure Identifier where
  name : List Char
  isIdentifier : Assignment.isIdentifier name = true

namespace Identifier

theorem isNamePart (identifier : Identifier) :
    ∀ c ∈ identifier.name, Assignment.isNamePart c = true :=
  Assignment.isNamePart_of_isIdentifier identifier.isIdentifier

theorem isWord (identifier : Identifier) : IsWord identifier.name where
  ne_nil := by
    intro hnil
    have hidentifier := identifier.isIdentifier
    rw [hnil] at hidentifier
    cases hidentifier
  isBlank c hc := Assignment.isBlank_of_isNamePart (identifier.isNamePart c hc)

theorem notMem (identifier : Identifier) {c : Char} (hc : Assignment.isNamePart c = false) :
    c ∉ identifier.name := by
  intro hmem
  rw [identifier.isNamePart c hmem] at hc
  cases hc

end Identifier

/-- A name that a module exports, and the one that it gets here, if that is another. -/
structure Binding where
  exported : Identifier
  local? : Option Identifier

/-- A literal that names a module: between its quotes there are no quotes, no backslash, no line
feed and no parentheses. -/
structure ModuleLiteral where
  quote : Char
  body : List Char
  isQuote : quote = '"' ∨ quote = '\''
  isPlain : ∀ c ∈ body, c ∉ ['"', '\'', '\\', '\n', '(', ')']

namespace ModuleLiteral

/-- The literal with its quotes. -/
def text (module : ModuleLiteral) : List Char := module.quote :: module.body ++ [module.quote]

theorem exists_kind (module : ModuleLiteral) : ∃ kind, Token.quote? kind = some module.quote := by
  rcases module.isQuote with hquote | hquote
  · exact ⟨.doubleQuoted, by rw [hquote]; rfl⟩
  · exact ⟨.singleQuoted, by rw [hquote]; rfl⟩

theorem notMem_body (module : ModuleLiteral) {c : Char}
    (hc : c ∈ ['"', '\'', '\\', '\n', '(', ')']) : c ∉ module.body :=
  fun hmem => module.isPlain c hmem hc

theorem notMem_text (module : ModuleLiteral) {c : Char} (hc : c ∈ ['\n', '(', ')']) :
    c ∉ module.text := by
  have hquote : c ≠ module.quote := by
    rintro rfl
    rcases module.isQuote with hquote | hquote
    · rw [hquote] at hc
      exact absurd hc (by decide)
    · rw [hquote] at hc
      exact absurd hc (by decide)
  have hbody := module.notMem_body (List.mem_append_right ['"', '\'', '\\'] hc)
  simp [text, hquote, hbody]

theorem quote_notMem_body (module : ModuleLiteral) : module.quote ∉ module.body := by
  have hquote : module.quote ∈ ['"', '\''] := by simpa using module.isQuote
  exact module.notMem_body (List.mem_append_left ['\\', '\n', '(', ')'] hquote)

/-- Nothing between the quotes closes the literal. -/
theorem sealed_body (module : ModuleLiteral) : Token.Sealed false module.quote module.body :=
  Token.sealed_of_notMem module.quote_notMem_body

theorem pending_body (module : ModuleLiteral) : Token.pending false module.body = false := by
  by_contra hpending
  rw [Bool.not_eq_false] at hpending
  have hne : module.body ≠ [] := by
    intro hnil
    rw [hnil] at hpending
    cases hpending
  have hlast := Token.getLast?_of_pending hne hpending
  exact module.notMem_body (by decide) (List.mem_of_getLast? hlast)

end ModuleLiteral

namespace Binding

/-- The name as it stands in an import. -/
def source (binding : Binding) : List Char :=
  match binding.local? with
  | some inner => binding.exported.name ++ [' ', 'a', 's', ' '] ++ inner.name
  | none => binding.exported.name

/-- The name as it stands in an object pattern. -/
def property (binding : Binding) : List Char :=
  match binding.local? with
  | some inner => binding.exported.name ++ [':', ' '] ++ inner.name
  | none => binding.exported.name

/-- All the names that imported names are written with, in order. -/
def identifiers (names : List Binding) : List Identifier :=
  names.flatMap fun binding => binding.exported :: binding.local?.toList

end Binding

/-- The declaration that binds the names to what `require` returns. -/
def requireLine (names : List Binding) (module : ModuleLiteral) : List Char :=
  ['c', 'o', 'n', 's', 't', ' ', '\x7b', ' '] ++
    [',', ' '].intercalate (names.map Binding.property) ++
      [' ', '\x7d', ' ', '=', ' ', 'r', 'e', 'q', 'u', 'i', 'r', 'e', '('] ++ module.text ++
        [')', ';']

/-- A line that begins with the word `import`. -/
def importOf (rest : List Char) : List Char := ['i', 'm', 'p', 'o', 'r', 't'] ++ rest

/-- The import of names in braces; behind them stands a `from`. -/
def bracedLine (names behind : List Char) : List Char :=
  importOf (' ' :: '\x7b' :: (names ++ '\x7d' :: ' ' :: (fromWord ++ behind)))

/-! ## Compiling -/

/-- In a line without parentheses that begins with `import` there are no annotations. -/
theorem strip_importOf {rest : List Char} (hparen : '(' ∉ rest) :
    Annotation.strip (importOf rest) = importOf rest := by
  refine Annotation.strip_eq_iff.mpr ⟨?_, rfl⟩
  rintro ⟨head, parameters, result, ⟨inner, hcut, -⟩, -⟩
  obtain ⟨front, rfl, hline⟩ := Annotation.exists_of_cutFunctionHead? hcut
  have hmem : '(' ∈ importOf rest := by simp [← hline]
  rw [importOf, List.mem_append] at hmem
  exact hmem.elim (by decide) hparen

/-- A line in braces is an import if a literal ends it. -/
theorem import?_bracedLine {names : List Char} (hnames : '\x7d' ∉ names) (behind : List Char) :
    Require.import? (bracedLine names behind) =
      (Require.moduleLiteral? behind).map fun literal => (.named names, literal) := by
  have hfrom : Require.behindFrom? (' ' :: (fromWord ++ behind)) = some behind := rfl
  change Require.form? ('\x7b' :: (names ++ '\x7d' :: ' ' :: (fromWord ++ behind))) = _
  simp only [Require.form?, dropWhile_ne_append_cons hnames, takeWhile_ne_append_cons hnames, hfrom,
    Option.bind_eq_bind, Option.bind_some]
  cases Require.moduleLiteral? behind <;> rfl

/-- A line in braces is compiled to what lowering makes of it, if the delimiters of that match. -/
theorem compile_bracedLine {names behind : List Char} (hnames : '\n' ∉ names ∧ '(' ∉ names)
    (hbehind : '\n' ∉ behind ∧ '(' ∉ behind) :
    compile {} (bracedLine names behind ++ ['\n']) =
      match validateDelimiters (Require.lower (bracedLine names behind) ++ ['\n']) with
      | .ok () => .ok ⟨Require.lower (bracedLine names behind) ++ ['\n'], [.typescript, .imports]⟩
      | .error error => .error error := by
  have hline : '\n' ∉ bracedLine names behind := by
    simp [bracedLine, importOf, fromWord, hnames, hbehind]
  have hstrip : Annotation.strip (bracedLine names behind) = bracedLine names behind :=
    strip_importOf (by simp [fromWord, hnames, hbehind])
  have hlower : CompileOptions.lower {} (bracedLine names behind ++ ['\n']) =
      Require.lower (bracedLine names behind) ++ ['\n'] :=
    (CompileOptions.lower_append_lineFeed {} hline).trans
      (congrArg (Require.lower · ++ ['\n']) hstrip)
  cases hcheck : validateDelimiters (Require.lower (bracedLine names behind) ++ ['\n']) with
  | ok => simp only [compile, hlower, hcheck]
  | error error => simp only [compile, hlower, hcheck]

theorem moduleLiteral?_eq_none {text : List Char}
    (hhead : ∀ c ∈ (Text.trimStart text).head?, c ≠ '"' ∧ c ≠ '\'') :
    Require.moduleLiteral? text = none := by
  have hcut : Require.cutLiteral? (Text.trimStart text) = none := by
    cases htrim : Text.trimStart text with
    | nil => rfl
    | cons c rest =>
        have hc := hhead c (by rw [htrim]; rfl)
        simp [Require.cutLiteral?, hc]
  simp [Require.moduleLiteral?, hcut]

theorem ModuleLiteral.moduleLiteral?_text (module : ModuleLiteral) :
    Require.moduleLiteral? (' ' :: module.text) = some module.text := by
  have hbody := module.quote_notMem_body
  have hspace : Text.isBlank ' ' = true := rfl
  obtain ⟨kind, hkind⟩ := module.exists_kind
  have htrim : Text.trimStart (' ' :: module.text) = module.text := by
    rw [Text.trimStart_cons_of_isBlank hspace, text, List.cons_append,
      Text.trimStart_cons_of_not_blank (WalkState.isBlank_of_isQuote (WalkState.isQuote_of_quote? hkind))]
  have hcut : Require.cutLiteral? module.text = some (module.text, []) := by
    have hquote : (decide (module.quote = '"') || decide (module.quote = '\'')) = true := by
      simpa using module.isQuote
    rw [text, List.cons_append, Require.cutLiteral?, if_pos hquote]
    simp only [dropWhile_ne_append_cons hbody, takeWhile_ne_append_cons hbody]
    rfl
  have hend : Text.allBlank ((Text.dropLead? [';'] (Text.trimStart [])).getD
      (Text.trimStart [])) = true := rfl
  rw [Require.moduleLiteral?, htrim, hcut, Option.bind_eq_bind, Option.bind_some]
  exact if_pos hend

/-! ## Patterns -/

theorem cutAs?_append {front : List Char} (hfront : ' ' ∉ front) (rest : List Char) :
    Require.cutAs? (front ++ ([' ', 'a', 's', ' '] ++ rest)) = some (front, rest) := by
  induction front with
  | nil => rfl
  | cons c front ih =>
      rw [List.mem_cons, not_or] at hfront
      have hdrop : Text.dropLead? [' ', 'a', 's', ' ']
          (c :: (front ++ ([' ', 'a', 's', ' '] ++ rest))) = none := if_neg hfront.1
      rw [List.cons_append, Require.cutAs?, hdrop]
      simp only [ih hfront.2, Option.map_some]

theorem cutAs?_eq_none {text : List Char} (htext : ' ' ∉ text) : Require.cutAs? text = none := by
  induction text with
  | nil => rfl
  | cons c text ih =>
      rw [List.mem_cons, not_or] at htext
      have hdrop : Text.dropLead? [' ', 'a', 's', ' '] (c :: text) = none := if_neg htext.1
      rw [Require.cutAs?, hdrop]
      simp only [ih htext.2, Option.map_none]

namespace Binding

theorem property_source (binding : Binding) :
    Require.property binding.source = binding.property := by
  have hexported : ' ' ∉ binding.exported.name := binding.exported.notMem rfl
  unfold source property
  cases binding.local? with
  | none => simp only [Require.property, cutAs?_eq_none hexported]
  | some inner =>
      simp only [Require.property, List.append_assoc, cutAs?_append hexported,
        binding.exported.isWord.trim, inner.isWord.trim]

theorem trim_source (binding : Binding) : Text.trim binding.source = binding.source := by
  unfold source
  cases binding.local? with
  | none => exact binding.exported.isWord.trim
  | some inner =>
      simp only [List.append_assoc]
      exact binding.exported.isWord.trim_append inner.isWord _

theorem trim_blank_source (binding : Binding) :
    Text.trim (' ' :: binding.source) = binding.source := by
  have hspace : Text.isBlank ' ' = true := rfl
  have htrim : Text.trim (' ' :: binding.source) = Text.trim binding.source := by
    rw [Text.trim, Text.trimStart_cons_of_isBlank hspace, Text.trim]
  rw [htrim, binding.trim_source]

theorem comma_notMem_source (binding : Binding) : ',' ∉ binding.source := by
  have hname : ∀ identifier : Identifier, ',' ∉ identifier.name :=
    fun identifier => identifier.notMem rfl
  unfold source
  cases binding.local? with
  | none => exact hname binding.exported
  | some inner => simp [hname]

theorem source_ne_nil (binding : Binding) : binding.source ≠ [] := by
  unfold source
  cases binding.local? with
  | none => exact binding.exported.isWord.ne_nil
  | some inner => simp

/-- The text between the braces is taken apart into the names that it was made of. -/
theorem map_trim_splitOn (first : Binding) (rest : List Binding) :
    (([',', ' '].intercalate ((first :: rest).map source)).splitOn ',').map Text.trim =
      (first :: rest).map source := by
  have hjoin := intercalate_append_separator [','] [' '] first.source (rest.map source)
  have hpieces : ∀ piece ∈ first.source :: (rest.map source).map ([' '] ++ ·), ',' ∉ piece := by
    simp only [List.forall_mem_cons, List.forall_mem_map]
    exact ⟨first.comma_notMem_source, fun binding _ => by simp [binding.comma_notMem_source]⟩
  have hsplit := List.splitOn_intercalate ',' hpieces (List.cons_ne_nil _ _)
  rw [← hjoin] at hsplit
  rw [List.map_cons, show [',', ' '] = [','] ++ [' '] from rfl, hsplit, List.map_cons,
    first.trim_source, List.map_map, List.map_map]
  congr 1
  exact List.map_congr_left fun binding _ => binding.trim_blank_source

/-- The pattern of a named import has the properties of its names. -/
theorem pattern_source (first : Binding) (rest : List Binding) :
    Require.pattern ([',', ' '].intercalate ((first :: rest).map source)) =
      ['\x7b', ' '] ++ [',', ' '].intercalate ((first :: rest).map property) ++ [' ', '\x7d'] := by
  have hfilter : ((first :: rest).map source).filter (!·.isEmpty) = (first :: rest).map source := by
    rw [List.filter_eq_self, List.forall_mem_map]
    intro binding _
    simp [binding.source_ne_nil]
  have hmap : ((first :: rest).map source).map Require.property = (first :: rest).map property := by
    rw [List.map_map]
    exact List.map_congr_left fun binding _ => binding.property_source
  simp only [Require.pattern, map_trim_splitOn, hfilter, hmap]
  rfl

end Binding

/-! ## The declaration -/

theorem Binding.isInert_property (binding : Binding) :
    ∀ c ∈ binding.property, isInert c = true := by
  have hname : ∀ identifier : Identifier, ∀ c ∈ identifier.name, isInert c = true :=
    fun identifier c hc => Assignment.isInert_of_isNamePart (identifier.isNamePart c hc)
  unfold property
  split
  · rename_i inner _
    rw [List.forall_mem_append, List.forall_mem_append]
    exact ⟨⟨hname binding.exported, isInert_of_all rfl⟩, hname inner⟩
  · exact hname binding.exported

/-- The braces around the names and the parentheses around the module are closed. -/
theorem validateDelimiters_requireLine (names : List Binding) (module : ModuleLiteral) :
    validateDelimiters (requireLine names module ++ ['\n']) = .ok () := by
  obtain ⟨kind, hquote⟩ := module.exists_kind
  have hbraces : closerOf? '\x7b' = some '\x7d' := rfl
  have hparens : closerOf? '(' = some ')' := rfl
  have hproperties : ∀ c ∈ [' '] ++ [',', ' '].intercalate (names.map Binding.property) ++
      [' '], isInert c = true := by
    rw [List.forall_mem_append, List.forall_mem_append]
    refine ⟨⟨isInert_of_all rfl, fun c hc => ?_⟩, isInert_of_all rfl⟩
    rcases Text.mem_or_mem_of_mem_intercalate hc with hc | ⟨piece, hpiece, hc⟩
    · have hseparator : ∀ d ∈ [',', ' '], isInert d = true := isInert_of_all rfl
      exact hseparator c hc
    · obtain ⟨binding, -, rfl⟩ := List.mem_map.mp hpiece
      exact binding.isInert_property c hc
  have hconst : Nests ['c', 'o', 'n', 's', 't', ' '] [] [] :=
    nests_of_isInert (isInert_of_all rfl) []
  have hrequire : Nests [' ', '=', ' ', 'r', 'e', 'q', 'u', 'i', 'r', 'e'] [] [] :=
    nests_of_isInert (isInert_of_all rfl) []
  have hend : Nests [';', '\n'] [] [] := nests_of_isInert (isInert_of_all rfl) []
  have hfront := ((hconst.append ((nests_of_isInert hproperties []).between hbraces)).append
    hrequire).append (nests_opener hparens)
  have hback := (nests_closer hparens).append hend
  have hliteral := nestsFrom_literal (hfront.clean {} WalkState.clean_init) hquote
    ⟨module.sealed_body, module.pending_body⟩ (module.notMem_body (by decide)) ['(']
  have hall := (hfront.nestsFrom WalkState.clean_init).append
    (hliteral.append (hback.nestsFrom hliteral.clean) (WalkState.seam_literal (WalkState.isQuote_of_quote? hquote) _ _))
    (seam_of_getLast?_ne (getLast?_ne_slash hfront.slash) _)
  rw [validateDelimiters_eq_ok_iff_nestsFrom]
  simpa [requireLine, ModuleLiteral.text] using hall

/-- With its names in braces, an import of names is lowered to the declaration. -/
theorem lower_bracedLine (first : Binding) (rest : List Binding) (module : ModuleLiteral)
    (hbrace : '\x7d' ∉ [',', ' '].intercalate ((first :: rest).map Binding.source)) :
    Require.lower (bracedLine ([',', ' '].intercalate ((first :: rest).map Binding.source))
        (' ' :: module.text)) = requireLine (first :: rest) module := by
  have himport := import?_bracedLine hbrace (' ' :: module.text)
  rw [module.moduleLiteral?_text, Option.map_some] at himport
  have hblanks : ∀ rest, (importOf rest).takeWhile Text.isBlank = [] := fun _ => rfl
  rw [Require.lower_of_some himport, bracedLine, hblanks, Require.Form.render,
    Require.Form.render.declaration, Binding.pattern_source]
  simp [Require.call, requireLine]

end Import

end Offside
