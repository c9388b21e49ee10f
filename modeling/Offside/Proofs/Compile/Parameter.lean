/-
# Parameters with types and defaults

A parameter list is read three times with the same scan: to find its end, to cut it at the
commas, and to cut the annotation out of each parameter. A type leaves every one of these scans
as it found it, and so does a default value that leaves no angle bracket open. If all of them
are like that, a list of parameters loses its annotations and nothing else.

Behind a value that does leave one open, the scan finds no comma and no end of the list. If the
first default value is such a value, and no `>` follows, the whole line stays as it is.
-/

import Offside.Proofs.Compile.Split
import Offside.Proofs.Compile.TypeEnd
import Offside.Proofs.Compile.ValueText

namespace Offside

/-! ## Parameters -/

namespace Annotation

open TopLevelScan

/-- The annotation of a parameter: a type, and whether a question mark makes the parameter
optional. -/
structure ParameterType where
  optional : Bool
  text : List Char
  isType : TypeText false text

/-- The default value of a parameter. -/
structure DefaultValue where
  text : List Char
  isValue : ValueText false text

/-- A parameter as it is written. -/
structure Parameter where
  name : List Char
  isName : Assignment.isIdentifier name = true
  type? : Option ParameterType
  value? : Option DefaultValue

namespace Parameter

/-- What stands between the name of a parameter and the text of its type. -/
def mark (optional : Bool) : List Char := if optional then ['?'] else []

/-- The annotation with its colon, if there is one. -/
def annotation (parameter : Parameter) : List Char :=
  match parameter.type? with
  | some type => mark type.optional ++ ':' :: ' ' :: type.text
  | none => []

/-- The default value with its equality sign, if there is one. -/
def assigned (parameter : Parameter) : List Char :=
  match parameter.value? with
  | some value => ' ' :: '=' :: ' ' :: value.text
  | none => []

/-- The text of a parameter. -/
def text (parameter : Parameter) : List Char :=
  parameter.name ++ parameter.annotation ++ parameter.assigned

/-- The text of a parameter without its annotation. -/
def plain (parameter : Parameter) : List Char := parameter.name ++ parameter.assigned

/-- The number of angle brackets that the default value leaves open. -/
def openAngles (parameter : Parameter) : Nat :=
  match parameter.value? with
  | some value => Offside.openAngles value.text
  | none => 0

variable {scan : TopLevelScan} {stop : Place → Bool} {next : Option Char}

theorem isTypeChar_name (parameter : Parameter) :
    ∀ c ∈ parameter.name, isTypeChar c = true ∧ c ≠ ':' := by
  intro c hc
  have hpart := Assignment.isNamePart_of_isIdentifier parameter.isName c hc
  refine ⟨isTypeChar_of_class rfl rfl hpart, ?_⟩
  rintro rfl
  cases hpart

theorem isTypeChar_mark (optional : Bool) :
    ∀ c ∈ mark optional, isTypeChar c = true ∧ c ≠ ':' := by
  cases optional with
  | false => exact fun c hc => absurd hc List.not_mem_nil
  | true => exact List.forall_mem_singleton.mpr ⟨rfl, by decide⟩

/-! ### On the way to the end of a parameter -/

theorem passes_annotation (parameter : Parameter) (hscan : scan.Outside)
    (hstop : EndsParameter stop) (next : Option Char) :
    scan.Passes stop next parameter.annotation ∧
      (scan.run next parameter.annotation).Outside := by
  unfold annotation
  split
  · rename_i type _
    have hspaced : TypeText false (' ' :: type.text) := .char rfl type.isType
    have hmark := isTypeChar_mark type.optional
    obtain ⟨hpasses, hbehind, -⟩ := hscan.passes_plain hmark (hstop.notMem hmark) (some ':')
    obtain ⟨htype, hafter⟩ := hspaced.passes (hbehind.advance_colon (some ' '))
      (fun h => Bool.noConfusion h) (.inr hstop.of_isOfType) next
    have hcolon : stop ((scan.run (some ':') (mark type.optional)).place ':' (some ' ')) = false :=
      hstop.eq_false (by decide) (by decide) _ _
    rw [passes_append, TopLevelScan.run_append]
    exact ⟨⟨hpasses, stopsAt_eq_false (.inr hcolon), htype⟩, hafter.outside⟩
  · exact ⟨trivial, hscan⟩

theorem passes_assigned (parameter : Parameter) (hscan : scan.Outside)
    (hstop : EndsParameter stop) (hnext : next ≠ some '>' ∧ next ≠ some '=') :
    scan.Passes stop next parameter.assigned ∧
      (scan.run next parameter.assigned).walk.Clean ∧
        (scan.run next parameter.assigned).depth = 0 ∧
          (scan.run next parameter.assigned).angles = parameter.openAngles := by
  unfold assigned openAngles
  split
  · rename_i value _
    have hidle : ∀ (scan : TopLevelScan) (ahead : Option Char), scan.count ' ' ahead = scan :=
      fun _ => count_of_isTypeChar rfl fun h => absurd h (by decide)
    obtain ⟨houtside, -⟩ := hscan.advance_idle rfl (hidle scan (some '='))
    obtain ⟨hassigned, htype⟩ := houtside.advance_assignment rfl
    obtain ⟨hbefore, htype'⟩ := hassigned.advance_idle rfl (hidle _ (value.text.head?.or next))
    obtain ⟨hpasses, hclean, hdepth⟩ :=
      value.isValue.passes hbefore.clean (fun h => Bool.noConfusion h) hstop next
    -- The angle brackets of the value are counted from here as they are from nothing.
    have hsame : SameCount _ { previous := some ' ' } := ⟨⟨hbefore.clean, WalkState.clean_init⟩,
      hbefore.depth, hbefore.angles, htype'.trans htype, rfl⟩
    have hskips : ∀ c ∈ [' ', '='], ∀ blank ahead, stop ⟨blank, c, ahead⟩ = false := by
      intro c hc
      refine hstop.eq_false ?_ ?_
      all_goals
        rintro rfl
        exact absurd hc (by decide)
    have hblank := hskips ' ' (by decide)
    have hequals := hskips '=' (by decide)
    exact ⟨⟨stopsAt_eq_false (.inr (hblank _ _)), stopsAt_eq_false (.inr (hequals _ _)),
      stopsAt_eq_false (.inr (hblank _ _)), hpasses⟩, hclean, hdepth.trans hbefore.depth,
      (hsame.run value.isValue.isDelimiter hnext).angles⟩
  · exact ⟨trivial, hscan.clean, hscan.depth, hscan.angles⟩

/-- A parameter is passed, and behind it no brackets are open but angle brackets of its default
value. -/
theorem passes_text (parameter : Parameter) (hscan : scan.Outside)
    (hstop : EndsParameter stop) (hnext : next ≠ some '>' ∧ next ≠ some '=') :
    scan.Passes stop next parameter.text ∧ (scan.run next parameter.text).walk.Clean ∧
      (scan.run next parameter.text).depth = 0 ∧
        (scan.run next parameter.text).angles = parameter.openAngles := by
  have hname := parameter.isTypeChar_name
  obtain ⟨hpasses, hbehind, -⟩ := hscan.passes_plain hname (hstop.notMem hname)
    ((parameter.annotation ++ parameter.assigned).head?.or next)
  obtain ⟨htype, hafter⟩ :=
    parameter.passes_annotation hbehind hstop (parameter.assigned.head?.or next)
  obtain ⟨hassigned, hcounts⟩ := parameter.passes_assigned hafter hstop hnext
  rw [text, List.append_assoc, passes_append, passes_append, TopLevelScan.run_append,
    TopLevelScan.run_append]
  exact ⟨⟨hpasses, htype, hassigned⟩, hcounts⟩

end Parameter

/-! ## Parameter lists -/

/-- A scan for the end of a parameter passes the text, and is outside of every bracket again. -/
def IsPart (part : List Char) : Prop :=
  ∀ (scan : TopLevelScan) (stop : Place → Bool) (next : Option Char), scan.Outside →
    EndsParameter stop → next ≠ some '>' ∧ next ≠ some '=' →
      scan.Passes stop next part ∧ (scan.run next part).Outside

theorem IsPart.nil : IsPart [] := fun _ _ _ hscan _ _ => ⟨trivial, hscan⟩

theorem IsPart.blank_cons {part : List Char} (hpart : IsPart part) : IsPart (' ' :: part) := by
  intro scan stop next hscan hstop hnext
  have hblank : ∀ c ∈ [' '], isTypeChar c = true ∧ c ≠ ':' :=
    List.forall_mem_singleton.mpr ⟨rfl, by decide⟩
  obtain ⟨hpasses, hbehind, -⟩ :=
    hscan.passes_plain hblank (hstop.notMem hblank) (part.head?.or next)
  obtain ⟨hpasses', houtside⟩ := hpart _ stop next hbehind hstop hnext
  exact ⟨passes_append.mpr ⟨hpasses, hpasses'⟩, houtside⟩

theorem Parameter.isPart {parameter : Parameter} (hcloses : parameter.openAngles = 0) :
    IsPart parameter.text := by
  intro scan stop next hscan hstop hnext
  obtain ⟨hpasses, hclean, hdepth, hangles⟩ := parameter.passes_text hscan hstop hnext
  exact ⟨hpasses, hclean, hdepth, hangles.trans hcloses⟩

/-- In front of the end of the list, parts that commas separate are passed. -/
theorem passes_intercalate {parts : List (List Char)} (hparts : ∀ part ∈ parts, IsPart part)
    {scan : TopLevelScan} (hscan : scan.Outside) :
    scan.Passes (·.char == ')') (some ')') ([','].intercalate parts) ∧
      (scan.run (some ')') ([','].intercalate parts)).Outside := by
  have hstop : EndsParameter (·.char == ')') := fun _ hplace => .inr (eq_of_beq hplace)
  induction parts generalizing scan with
  | nil => exact ⟨trivial, hscan⟩
  | cons part parts ih =>
      rw [List.forall_mem_cons] at hparts
      cases parts with
      | nil =>
          rw [List.intercalate_singleton]
          exact hparts.1 scan _ _ hscan hstop (by decide)
      | cons next parts =>
          have hcomma : some ',' ≠ some '>' ∧ some ',' ≠ some '=' := by decide
          obtain ⟨hpart, hbehind⟩ := hparts.1 scan _ _ hscan hstop hcomma
          rw [List.intercalate_cons_cons, List.append_assoc, List.singleton_append, passes_append,
            TopLevelScan.run_append, passes_cons, TopLevelScan.run_cons]
          obtain ⟨hrest, houtside⟩ := ih hparts.2 (hbehind.advance_comma _)
          exact ⟨⟨hpart, stopsAt_eq_false (.inr rfl), hrest⟩, houtside⟩

/-- Parts that commas separate are the parts of the text that they make up. -/
theorem topLevelParts_intercalate {parts : List (List Char)} (hparts : ∀ part ∈ parts, IsPart part)
    (hne : parts ≠ []) : topLevelParts ',' ([','].intercalate parts) = parts := by
  have hstop : EndsParameter (·.char == ',') := fun _ hplace => .inl (eq_of_beq hplace)
  refine topLevelParts_eq_iff.mpr ⟨hne, rfl, fun part hpart => ?_, fun part hpart => ?_⟩
  · have hpasses := (hparts part hpart _ _ none .init hstop (by decide)).1
    exact hpasses.cut?_eq_none
  · have hcomma : some ',' ≠ some '>' ∧ some ',' ≠ some '=' := by decide
    obtain ⟨hpasses, hbehind⟩ :=
      hparts part (List.dropLast_subset _ hpart) _ _ _ .init hstop hcomma
    exact hpasses.cut?_cons (stopsAt_of_clean hbehind.clean rfl hbehind.atTop rfl)

/-! ## One parameter -/

section Name

variable {front : List Char} (hfront : ∀ c ∈ front, isTypeChar c = true ∧ c ≠ ':')

include hfront

theorem notMem_of_endsName (place : Place) (hplace : endsName place = true) :
    place.char ∉ front := by
  intro hmem
  obtain ⟨hchar, hcolon⟩ := hfront _ hmem
  rw [endsName, Bool.or_eq_true, beq_iff_eq, beq_iff_eq] at hplace
  rw [hplace.resolve_left hcolon] at hchar
  cases hchar

theorem cutTopLevel?_name {c : Char} (hc : c = ':' ∨ c = '=') (rest : List Char) :
    cutTopLevel? endsName (front ++ c :: rest) = some (front, c :: rest) := by
  obtain ⟨hpasses, hbehind, -⟩ :=
    Outside.init.passes_plain hfront (notMem_of_endsName hfront) (some c)
  have hdelimiter : BracketScan.isDelimiter c = false := by
    rcases hc with rfl | rfl <;> rfl
  have hstops : ∀ blank ahead, endsName ⟨blank, c, ahead⟩ = true := by
    rcases hc with rfl | rfl <;> exact fun _ _ => rfl
  exact hpasses.cut?_cons (stopsAt_of_clean hbehind.clean hdelimiter hbehind.atTop (hstops _ _))

theorem cutTopLevel?_name_eq_none : cutTopLevel? endsName front = none :=
  (Outside.init.passes_plain hfront (notMem_of_endsName hfront) none).1.cut?_eq_none

theorem plainParameter_untyped {rest : List Char} (hrest : ∀ c ∈ rest.head?, c = '=') :
    plainParameter (front ++ rest) = front ++ rest := by
  refine plainParameter_of_not ?_
  rintro ⟨before, annotation, hcut⟩
  change cutTopLevel? endsName (front ++ rest) = some (before, ':' :: annotation) at hcut
  cases rest with
  | nil =>
      rw [List.append_nil, cutTopLevel?_name_eq_none hfront] at hcut
      cases hcut
  | cons c rest =>
      obtain rfl : c = '=' := hrest c rfl
      rw [cutTopLevel?_name hfront (.inr rfl)] at hcut
      cases hcut

theorem plainParameter_typed (behind : List Char) :
    plainParameter (front ++ ':' :: behind) =
      match cutType? Place.isAssignment behind with
      | some (_, value) => nameOf front ++ ' ' :: value
      | none => nameOf front := plainParameter_of_cut (cutTopLevel?_name hfront (.inl rfl) behind)

end Name

namespace Parameter

theorem isTypeChar_lead {lead : List Char} (hlead : ∀ c ∈ lead, c = ' ') :
    ∀ c ∈ lead, isTypeChar c = true ∧ c ≠ ':' := by
  intro c hc
  rw [hlead c hc]
  decide

/-- A name keeps its last character, and loses a question mark behind it. -/
theorem dropFinal_trimEnd_name (parameter : Parameter) (lead : List Char) (optional : Bool) :
    Text.dropFinal '?' (Text.trimEnd (lead ++ parameter.name ++ mark optional)) =
      lead ++ parameter.name := by
  rcases List.eq_nil_or_concat parameter.name with hnil | ⟨init, last, hname⟩
  · have hempty := parameter.isName
    rw [hnil] at hempty
    cases hempty
  · have hlast := Assignment.isNamePart_of_isIdentifier parameter.isName last (by simp [hname])
    have hblank := Assignment.isBlank_of_isNamePart hlast
    have hquestion : last ≠ '?' := by
      rintro rfl
      cases hlast
    rw [hname]
    cases optional with
    | false => simp [mark, Text.trimEnd, Text.dropFinal, hblank, hquestion]
    | true =>
        have hmark : Text.isBlank '?' = false := rfl
        simp [mark, Text.trimEnd, Text.dropFinal, hmark]

/-- A parameter loses its annotation, with the question mark in front, and nothing else. -/
theorem plainParameter_text {lead : List Char} (hlead : ∀ c ∈ lead, c = ' ')
    (parameter : Parameter) :
    plainParameter (lead ++ parameter.text) = lead ++ parameter.plain := by
  have hname := List.forall_mem_append.mpr ⟨isTypeChar_lead hlead, parameter.isTypeChar_name⟩
  cases htype : parameter.type? with
  | none =>
      cases hvalue : parameter.value? with
      | none =>
          have hplain : plainParameter (lead ++ parameter.name ++ []) =
              lead ++ parameter.name ++ [] :=
            plainParameter_untyped hname (by simp)
          simpa [text, plain, annotation, assigned, htype, hvalue] using hplain
      | some value =>
          have hblank : ∀ c ∈ [' '], isTypeChar c = true ∧ c ≠ ':' :=
            List.forall_mem_singleton.mpr ⟨rfl, by decide⟩
          have hplain :
              plainParameter (lead ++ parameter.name ++ [' '] ++ '=' :: ' ' :: value.text) =
                lead ++ parameter.name ++ [' '] ++ '=' :: ' ' :: value.text :=
            plainParameter_untyped (List.forall_mem_append.mpr ⟨hname, hblank⟩) (by simp)
          simpa [text, plain, annotation, assigned, htype, hvalue] using hplain
  | some type =>
      have hspaced : TypeText false (' ' :: type.text) := .char rfl type.isType
      have hstop := fun place => @isAssignment_of_isOfType place
      have hplain := plainParameter_typed
        (List.forall_mem_append.mpr ⟨hname, isTypeChar_mark type.optional⟩)
      rw [nameOf, dropFinal_trimEnd_name] at hplain
      cases hvalue : parameter.value? with
      | none =>
          have hend : cutType? Place.isAssignment (' ' :: type.text) = none :=
            hspaced.cut?_eq_none .init hstop
          have hline := hplain (' ' :: type.text)
          rw [hend] at hline
          simpa [text, plain, annotation, assigned, htype, hvalue] using hline
      | some value =>
          have hend : cutType? Place.isAssignment
              (' ' :: type.text ++ [' '] ++ '=' :: ' ' :: value.text) =
                some (' ' :: type.text ++ [' '], '=' :: ' ' :: value.text) :=
            (hspaced.append (.char rfl .nil)).cut?_append .init hstop rfl _ fun _ => rfl
          have hline := hplain (' ' :: type.text ++ [' '] ++ '=' :: ' ' :: value.text)
          rw [hend] at hline
          simpa [text, plain, annotation, assigned, htype, hvalue] using hline

end Parameter

/-! ## Function heads -/

/-- The head of a function with this name, up to its opening parenthesis. -/
def functionHead (name : List Char) : List Char := Keyword.functionWord ++ ' ' :: name ++ ['(']

theorem cutFunctionHead?_functionHead {name : List Char} (hname : '(' ∉ name)
    (inner : List Char) :
    cutFunctionHead? (functionHead name ++ inner) = some (functionHead name, inner) := by
  have hword : cutFunctionWord? false (functionHead name ++ inner) =
      some ([], functionHead name ++ inner) := rfl
  have hcode : inCode (functionHead name ++ inner) 0 = true := rfl
  have hparen : '(' ∉ Keyword.functionWord ++ ' ' :: name := by simp [Keyword.functionWord, hname]
  have hline : functionHead name ++ inner =
      Keyword.functionWord ++ ' ' :: name ++ '(' :: inner := by
    simp [functionHead]
  have htake : (functionHead name ++ inner).takeWhile (· ≠ '(') =
      Keyword.functionWord ++ ' ' :: name := by rw [hline, takeWhile_ne_append_cons hparen]
  have hdrop : (functionHead name ++ inner).dropWhile (· ≠ '(') = '(' :: inner := by
    rw [hline, dropWhile_ne_append_cons hparen]
  rw [cutFunctionHead?, hword, Option.bind_eq_bind, Option.bind_some]
  simp only [htake, hdrop, List.length_nil, hcode, if_true]
  rfl

/-- The parts of a parameter list: behind the first one, each has a blank in front. -/
def partsOf (write : Parameter → List Char) : List Parameter → List (List Char)
  | [] => [[]]
  | parameter :: parameters => write parameter :: parameters.map fun later => ' ' :: write later

theorem intercalate_partsOf (write : Parameter → List Char) (parameters : List Parameter) :
    [','].intercalate (partsOf write parameters) =
      [',', ' '].intercalate (parameters.map write) := by
  cases parameters with
  | nil => rfl
  | cons parameter parameters =>
      have hsplit := intercalate_append_separator [','] [' '] (write parameter)
        (parameters.map write)
      rw [List.map_map] at hsplit
      exact hsplit.symm

theorem isPart_of_mem_partsOf {parameters : List Parameter}
    (hcloses : ∀ parameter ∈ parameters, parameter.openAngles = 0) :
    ∀ part ∈ partsOf Parameter.text parameters, IsPart part := by
  cases parameters with
  | nil => simpa [partsOf] using IsPart.nil
  | cons parameter parameters =>
      rw [List.forall_mem_cons] at hcloses
      rw [partsOf, List.forall_mem_cons, List.forall_mem_map]
      exact ⟨Parameter.isPart hcloses.1, fun later hmem =>
        IsPart.blank_cons (Parameter.isPart (hcloses.2 later hmem))⟩

theorem map_plainParameter_partsOf (parameters : List Parameter) :
    (partsOf Parameter.text parameters).map plainParameter =
      partsOf Parameter.plain parameters := by
  cases parameters with
  | nil => rfl
  | cons parameter parameters =>
      have hfirst : plainParameter ([] ++ parameter.text) = [] ++ parameter.plain :=
        parameter.plainParameter_text (by simp)
      have hlater : ∀ later : Parameter,
          plainParameter ([' '] ++ later.text) = [' '] ++ later.plain :=
        fun later => later.plainParameter_text (by simp)
      simp only [List.nil_append, List.singleton_append] at hfirst hlater
      simp [partsOf, hfirst, hlater]

/-- A parameter list loses its annotations and nothing else, if every default value closes the
angle brackets that a scan sees in it. -/
theorem plainHead_parameters {name : List Char} (hname : '(' ∉ name) {parameters : List Parameter}
    (hcloses : ∀ parameter ∈ parameters, parameter.openAngles = 0) (tail : List Char) :
    plainHead (functionHead name ++ [',', ' '].intercalate (parameters.map Parameter.text) ++
        [')', ' ', '\x7b'] ++ tail) =
      functionHead name ++ [',', ' '].intercalate (parameters.map Parameter.plain) ++
        [')', ' ', '\x7b'] ++ tail := by
  have hparts := isPart_of_mem_partsOf hcloses
  have hne : partsOf Parameter.text parameters ≠ [] := by cases parameters <;> simp [partsOf]
  rw [← intercalate_partsOf Parameter.text, ← intercalate_partsOf Parameter.plain,
    ← map_plainParameter_partsOf]
  set parts := partsOf Parameter.text parameters
  obtain ⟨hpasses, hbehind⟩ := passes_intercalate hparts .init
  have hclose : cutTopLevel? (·.char == ')')
      ([','].intercalate parts ++ ')' :: ' ' :: '\x7b' :: tail) =
        some ([','].intercalate parts, ')' :: ' ' :: '\x7b' :: tail) :=
    hpasses.cut?_cons (stopsAt_of_clean hbehind.clean rfl hbehind.atTop rfl)
  have hhead : IsHead (functionHead name ++ ([','].intercalate parts ++
      ')' :: ' ' :: '\x7b' :: tail)) (functionHead name) ([','].intercalate parts)
        (' ' :: '\x7b' :: tail) :=
    ⟨_, cutFunctionHead?_functionHead hname _, hclose⟩
  have hresult : plainResult (' ' :: '\x7b' :: tail) = ' ' :: '\x7b' :: tail := rfl
  have hline := hhead.plainHead_eq
  rw [topLevelParts_intercalate hparts hne, hresult] at hline
  simpa using hline

/-- Behind a conditional with a comparison, a function type and a comparison still go apart. -/
theorem plainHead_parameters_conditional :
    let keys : TypeText true ['K', ',', 'V'] := .char rfl (.separator (.inl rfl) (.of_all rfl))
    let map : TypeText false ['M', '<', 'K', ',', 'V', '>'] := .char rfl (.group rfl keys .nil)
    let inputs : TypeText true ['e', ':', 'E'] := .of_all rfl
    let function : TypeText false ['(', 'e', ':', 'E', ')', '=', '>', 'T'] :=
      .group rfl inputs (.arrow (.of_all rfl))
    let conditional : ValueText false "c ? x : y > z".toList := .of_all (by decide)
    let comparison : ValueText false "x < y".toList := .of_all (by decide)
    let parameters : List Parameter :=
      [⟨['a'], rfl, some ⟨true, _, map⟩, some ⟨_, conditional⟩⟩,
        ⟨['b'], rfl, some ⟨false, _, function⟩, none⟩, ⟨['d'], rfl, none, some ⟨_, comparison⟩⟩]
    '(' ∉ ['f'] ∧ (∀ parameter ∈ parameters, parameter.openAngles = 0) ∧
      plainHead "function f(a?: M<K,V> = c ? x : y > z, b: (e:E)=>T, d = x < y) \x7b\x7d".toList =
        "function f(a = c ? x : y > z, b, d = x < y) \x7b\x7d".toList := by
  intro keys map inputs function conditional comparison parameters
  have hname : '(' ∉ ['f'] := by decide
  have hconditional : Offside.openAngles "c ? x : y > z".toList = 0 :=
    openAngles_eq_zero (.inr (by decide))
  have hcomparison : Offside.openAngles "x < y".toList = 0 := openAngles_eq_zero (.inl (by decide))
  have hcloses : ∀ parameter ∈ parameters, parameter.openAngles = 0 := by
    simp only [parameters, List.forall_mem_cons]
    exact ⟨hconditional, rfl, hcomparison, by simp⟩
  have hplain := plainHead_parameters hname hcloses ['\x7d']
  exact ⟨hname, hcloses, hplain⟩

/-- A default value that leaves an angle bracket open keeps the line as it is, annotations
and all, unless something further on closes the bracket. -/
theorem plainHead_of_openAngles_pos {name : List Char} (hname : '(' ∉ name) {parameter : Parameter}
    (hopen : 0 < parameter.openAngles) {separator : Char}
    (hseparator : separator = ',' ∨ separator = ')') {rest : List Char} (hrest : '>' ∉ rest) :
    plainHead (functionHead name ++ (parameter.text ++ separator :: rest)) =
      functionHead name ++ (parameter.text ++ separator :: rest) := by
  have hnext : some separator ≠ some '>' ∧ some separator ≠ some '=' := by
    rcases hseparator with rfl | rfl <;> decide
  have hrest' : '>' ∉ separator :: rest := by
    rw [List.mem_cons, not_or]
    exact ⟨fun heq => hnext.1 (congrArg some heq.symm), hrest⟩
  have hstop : EndsParameter (·.char == ')') := fun _ hplace => .inr (eq_of_beq hplace)
  obtain ⟨hpasses, -, -, hangles⟩ := parameter.passes_text .init hstop hnext
  have hclose : cutTopLevel? (·.char == ')') (parameter.text ++ separator :: rest) = none :=
    (passes_append.mpr
      ⟨hpasses, passes_of_angles_pos (hangles ▸ hopen) hrest' none⟩).cut?_eq_none
  simp only [plainHead, cutFunctionHead?_functionHead hname, hclose]

/-- Behind a conditional, a comparison with `<` leaves an angle bracket open, and the types
behind it stay. -/
theorem plainHead_parameters_ne :
    ¬ ∀ (parameters : List Parameter) (tail : List Char),
      plainHead (functionHead ['f'] ++ [',', ' '].intercalate (parameters.map Parameter.text) ++
          [')', ' ', '\x7b'] ++ tail) =
        functionHead ['f'] ++ [',', ' '].intercalate (parameters.map Parameter.plain) ++
          [')', ' ', '\x7b'] ++ tail := by
  intro hplain
  have hkept := hplain
    [⟨['a'], rfl, none, some ⟨"c ? x : y < z".toList, .of_all (by decide)⟩⟩,
      ⟨['b'], rfl, some ⟨false, ['T'], .of_all rfl⟩, none⟩] ['\x7d']
  revert hkept
  decide +kernel

end Annotation

end Offside
