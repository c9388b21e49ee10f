/-
# What running code finds in the module table

The registry answers a look-up by searching: the module of a name, and in it the first
export of a name. Running code asks the table that the prelude writes, and the table is
an object literal, which is evaluated entry by entry: a later entry replaces an earlier
one of the same name. This module reads the table back out of the prelude's text, makes
objects of its literals by that rule, and compares the two answers.

They agree on what there is. They agree on its value exactly where the first and the last
export of the name are the same function. The names of modules are apart in every
registry, so the order of modules plays no part; but a module may export one name twice,
and then running code gets the last of the two functions where the registry promises the
first.
-/

import Mathlib.Data.List.Induction
import Mathlib.Logic.Function.Basic
import Offside.Proofs.Compile.Passage
import Offside.Proofs.Run.Registry
import Offside.Proofs.Run.Script

namespace Offside

namespace Prelude

/-! ## Reading object literals -/

/-- Read the string literal at the front of a text: what it denotes, and what follows
it. -/
def readName? : List Char → Option (List Char × List Char)
  | '"' :: body => do
    let (pieces, rest) ← Text.literalPieces? body
    let name ← Text.joinPieces? pieces
    some (name, rest)
  | _ => none

/-- Read an expression: it ends in front of the first comma at its top level. -/
def readExpression? (text : List Char) : Option (List Char × List Char) :=
  cutTopLevel? (·.char == ',') (Text.trimStart text)

variable {α : Type}

/-- Read the entries of an object literal behind its opening brace, of which there are
less than `bound`. Each is a string literal, a colon and a value, with a comma behind
it. -/
def readEntriesBelow? (readValue? : List Char → Option (α × List Char)) :
    (bound : Nat) → List Char → Option (List (List Char × α) × List Char)
  | 0, _ => none
  | bound + 1, text =>
    match Text.dropLead? ['\x7d'] (Text.trimStart text) with
    | some rest => some ([], rest)
    | none => do
      let (name, rest) ← readName? (Text.trimStart text)
      let rest ← Text.dropLead? [':'] (Text.trimStart rest)
      let (value, rest) ← readValue? rest
      let rest ← Text.dropLead? [','] (Text.trimStart rest)
      let (entries, rest) ← readEntriesBelow? readValue? bound rest
      some ((name, value) :: entries, rest)

/-- Read the entries of an object literal behind its opening brace. Every entry takes a
character at least, so their number is below the text's length. -/
def readEntries? (readValue? : List Char → Option (α × List Char)) (text : List Char) :
    Option (List (List Char × α) × List Char) :=
  readEntriesBelow? readValue? (text.length + 1) text

/-- Read an object literal. -/
def readObject? (readValue? : List Char → Option (α × List Char)) (text : List Char) :
    Option (List (List Char × α) × List Char) :=
  (Text.dropLead? ['\x7b'] (Text.trimStart text)).bind (readEntries? readValue?)

/-- A module table as it is written: the names of the modules, and for each the names and
functions of its exports. -/
abbrev Table := List (List Char × List (List Char × List Char))

/-- The entries of the module table in a script, each with the entries of its own
literal. -/
def readTable? (script : List Char) : Option Table :=
  match (Text.splitLines script).dropWhile (· ≠ tableOpening) with
  | [] => none
  | _ :: behind =>
    (readEntries? (readObject? readExpression?) (Text.joinLines behind)).map Prod.fst

/-- The name of the one entry that sets an object's prototype and is no property. -/
def protoName : List Char := "__proto__".toList

/-- The object that a literal with these entries makes: the entries are evaluated in
order, and one of a name that the object has replaces its value. -/
def objectOf (entries : List (List Char × α)) : List Char → Option α :=
  entries.foldl
    (fun object entry =>
      if entry.1 = protoName then object else Function.update object entry.1 (some entry.2))
    fun _ => none

/-- What a table has of its own for an export of a module. -/
def member? (table : Table) (module member : List Char) : Option (List Char) :=
  (objectOf table module).bind fun exports => objectOf exports member

/-- How the look-up of an export in the module table compares with the registry's. -/
structure ShowsMember (registry : Registry) (table : Table) (module member : List Char) :
    Prop where
  /-- The table has the function of the last export of the name. -/
  last : member? table module member =
    ((registry.resolve? module).bind (·.last? member)).map Builtin.source
  /-- The table has nothing exactly where the registry has no such module or the module no
  such export. -/
  absent : member? table module member = none ↔
    registry.resolve? module = none ∨
      ∃ found, registry.resolve? module = some found ∧ found.get? member = none
  /-- The table has what the registry answers exactly if the first and the last export of
  the name are the same function. -/
  agrees : member? table module member =
      ((registry.resolve? module).bind (·.get? member)).map Builtin.source ↔
    ∀ found, registry.resolve? module = some found →
      (found.last? member).map Builtin.source = (found.get? member).map Builtin.source
  /-- That is so in a module that exports no name twice. -/
  agreesOfNodup : (∀ found, registry.resolve? module = some found →
      (found.exports.map Prod.fst).Nodup) →
    member? table module member =
      ((registry.resolve? module).bind (·.get? member)).map Builtin.source

theorem objectOf_concat (entries : List (List Char × α)) (entry : List Char × α) :
    objectOf (entries ++ [entry]) =
      if entry.1 = protoName then objectOf entries
      else Function.update (objectOf entries) entry.1 (some entry.2) :=
  List.foldl_concat ..

/-- In an object stands, for every name, the last entry of the name. -/
theorem objectOf_eq {name : List Char} (hname : name ≠ protoName)
    (entries : List (List Char × α)) :
    objectOf entries name = (entries.reverse.find? fun e => e.1 = name).map Prod.snd := by
  induction entries using List.reverseRecOn with
  | nil => rfl
  | append_singleton entries entry ih =>
      rw [objectOf_concat, List.reverse_concat, List.find?_cons]
      by_cases hproto : entry.1 = protoName
      · have hentry : entry.1 ≠ name := fun heq => hname (heq.symm.trans hproto)
        rw [if_pos hproto, ih, decide_eq_false hentry]
      · rw [if_neg hproto]
        by_cases hentry : entry.1 = name
        · rw [← hentry, Function.update_self, decide_eq_true rfl]
          rfl
        · rw [Function.update_of_ne (Ne.symm hentry), ih, decide_eq_false hentry]

/-- The prototype is no property of the object's own. -/
theorem objectOf_protoName (entries : List (List Char × α)) :
    objectOf entries protoName = none := by
  induction entries using List.reverseRecOn with
  | nil => rfl
  | append_singleton entries entry ih =>
      rw [objectOf_concat]
      by_cases hproto : entry.1 = protoName
      · rw [if_pos hproto, ih]
      · rw [if_neg hproto, Function.update_of_ne (Ne.symm hproto), ih]

/-! ## What is written is read back -/

theorem readName?_quote (name rest : List Char) :
    readName? (Text.quote name ++ rest) = some (name, rest) := by
  obtain ⟨pieces, hpieces, hjoin⟩ := Text.exists_literalPieces?_quote name rest
  have hbody : Text.quote name ++ rest = '"' :: (name.flatMap Text.escapeChar ++ '"' :: rest) := by
    simp [Text.quote]
  rw [hbody]
  simp [readName?, hpieces, hjoin]

/-- No function in the table holds a comma at its top level. -/
theorem readExpression?_source (builtin : Builtin) (rest : List Char) :
    readExpression? (' ' :: (builtin.source ++ ',' :: rest)) =
      some (builtin.source, ',' :: rest) := by
  have hcut : cutTopLevel? (·.char == ',') (builtin.source ++ [',']) =
      some (builtin.source, [',']) := by
    cases builtin <;> decide +kernel
  have htrim : Text.trimStart (' ' :: (builtin.source ++ ',' :: rest)) =
      builtin.source ++ ',' :: rest := by
    cases builtin <;> rfl
  rw [readExpression?, htrim]
  exact (TopLevelScan.cut?_append_iff fun _ _ _ => rfl).mpr hcut

/-- The text of an entry of an object literal, on lines of its own. -/
def entryText (indentation name value : List Char) : List Char :=
  indentation ++ Text.quote name ++ ':' :: ' ' :: (value ++ [',', '\n'])

theorem trimStart_append {blanks : List Char} (hblanks : ∀ c ∈ blanks, Text.isBlank c = true)
    {c : Char} (hc : Text.isBlank c = false) (rest : List Char) :
    Text.trimStart (blanks ++ c :: rest) = c :: rest := by
  rw [Text.trimStart, List.dropWhile_append_of_pos hblanks, List.dropWhile_cons_of_neg (by simp [hc])]

theorem readEntriesBelow?_cons_of_isBlank (readValue? : List Char → Option (α × List Char))
    (bound : Nat) {c : Char} (hc : Text.isBlank c = true) (text : List Char) :
    readEntriesBelow? readValue? bound (c :: text) = readEntriesBelow? readValue? bound text := by
  have htrim : Text.trimStart (c :: text) = Text.trimStart text := List.dropWhile_cons_of_pos hc
  cases bound with
  | zero => rfl
  | succ bound => simp only [readEntriesBelow?, htrim]

section Entries

variable {β : Type} {readValue? : List Char → Option (α × List Char)}
  {indentation closing : List Char} {name : β → List Char} {written : β → List Char}
  {value : β → α}

/-- The entries of a literal are read back, each value by its own reader. -/
theorem readEntriesBelow?_entryText (hindentation : ∀ c ∈ indentation, Text.isBlank c = true)
    (hclosing : ∀ c ∈ closing, Text.isBlank c = true) (items : List β)
    (hvalue : ∀ item ∈ items, ∀ rest,
      readValue? (' ' :: (written item ++ ',' :: rest)) = some (value item, ',' :: rest))
    (rest : List Char) {bound : Nat} (hbound : items.length < bound) :
    readEntriesBelow? readValue? bound
        (items.flatMap (fun item => entryText indentation (name item) (written item)) ++
          (closing ++ '\x7d' :: rest)) =
      some (items.map fun item => (name item, value item), rest) := by
  -- Each entry takes one from the bound, so it stays above the number of those left.
  induction items generalizing bound with
  | nil =>
      obtain ⟨bound, rfl⟩ := Nat.exists_eq_succ_of_ne_zero (Nat.ne_of_gt hbound)
      rw [List.flatMap_nil, List.nil_append, readEntriesBelow?,
        trimStart_append hclosing (by decide)]
      rfl
  | cons item items ih =>
      obtain ⟨bound, rfl⟩ := Nat.exists_eq_succ_of_ne_zero (Nat.ne_of_gt (Nat.zero_lt_of_lt hbound))
      set later := items.flatMap (fun item => entryText indentation (name item) (written item)) ++
        (closing ++ '\x7d' :: rest) with hlater
      have htext : (item :: items).flatMap
            (fun item => entryText indentation (name item) (written item)) ++
              (closing ++ '\x7d' :: rest) =
          indentation ++ (Text.quote (name item) ++
            ':' :: ' ' :: (written item ++ ',' :: '\n' :: later)) := by
        simp [entryText, hlater]
      have htrim : Text.trimStart (indentation ++ (Text.quote (name item) ++
            ':' :: ' ' :: (written item ++ ',' :: '\n' :: later))) =
          Text.quote (name item) ++ ':' :: ' ' :: (written item ++ ',' :: '\n' :: later) :=
        trimStart_append hindentation (by decide) _
      have hopen : Text.dropLead? ['\x7d'] (Text.quote (name item) ++
          ':' :: ' ' :: (written item ++ ',' :: '\n' :: later)) = none := rfl
      have hcolon : ∀ behind, Text.dropLead? [':'] (Text.trimStart (':' :: behind)) = some behind :=
        fun _ => rfl
      have hcomma : ∀ behind, Text.dropLead? [','] (Text.trimStart (',' :: behind)) = some behind :=
        fun _ => rfl
      have hrest := ih (fun item hitem => hvalue item (List.mem_cons_of_mem _ hitem))
        (Nat.lt_of_succ_lt_succ hbound)
      rw [htext, readEntriesBelow?, htrim, hopen]
      simp only [readName?_quote, hcolon, hcomma, hvalue item List.mem_cons_self,
        readEntriesBelow?_cons_of_isBlank readValue? bound (c := '\n') rfl, hrest,
        Option.bind_eq_bind, Option.bind_some]
      rfl

/-- The number of entries is no limit: a text has at least as many characters. -/
theorem length_le_length_entryText (indentation : List Char) (name written : β → List Char)
    (items : List β) :
    items.length ≤
      (items.flatMap fun item => entryText indentation (name item) (written item)).length := by
  induction items with
  | nil => exact Nat.le_refl _
  | cons item items ih =>
      have hentry : 1 ≤ (entryText indentation (name item) (written item)).length := by
        simp only [entryText, List.length_append, List.length_cons]
        omega
      rw [List.flatMap_cons, List.length_append, List.length_cons]
      omega

end Entries

/-! ## The table in the prelude -/

/-- The text of a module's own literal. -/
def moduleText (module : Module) : List Char :=
  '\x7b' :: '\n' ::
    (module.exports.flatMap (fun e => entryText [' ', ' ', ' ', ' '] e.1 e.2.source) ++
      [' ', ' ', '\x7d'])

/-- The lines of a module are an entry of the table. -/
theorem flatMap_moduleLines (module : Module) :
    (moduleLines module).flatMap (· ++ ['\n']) =
      entryText [' ', ' '] module.name (moduleText module) := by
  have hexports : (module.exports.map fun e => exportLine e.1 e.2).flatMap (· ++ ['\n']) =
      module.exports.flatMap fun e => entryText [' ', ' ', ' ', ' '] e.1 e.2.source := by
    rw [List.flatMap_map]
    congr 1
    funext e
    simp [exportLine, entryText]
  rw [moduleLines, List.cons_append, List.flatMap_cons, List.flatMap_append, hexports]
  simp [moduleLine, entryText, moduleText]

/-- The literal of a module holds its exports, in order. -/
theorem readObject?_moduleText (module : Module) (rest : List Char) :
    readObject? readExpression? (' ' :: (moduleText module ++ ',' :: rest)) =
      some (module.exports.map fun e => (e.1, e.2.source), ',' :: rest) := by
  set entries := module.exports.flatMap fun e => entryText [' ', ' ', ' ', ' '] e.1 e.2.source
    with hentries
  have htext : Text.dropLead? ['\x7b'] (Text.trimStart (' ' :: (moduleText module ++ ',' :: rest))) =
      some ('\n' :: (entries ++ ([' ', ' '] ++ '\x7d' :: ',' :: rest))) := by
    simp [moduleText, Text.trimStart, Text.isBlank, Text.dropLead?, hentries]
  have hlength : module.exports.length ≤ entries.length := length_le_length_entryText ..
  rw [readObject?, htext, Option.bind_some, readEntries?,
    readEntriesBelow?_cons_of_isBlank _ _ (by decide)]
  have hindentation : ∀ c ∈ [' ', ' ', ' ', ' '], Text.isBlank c = true := List.all_eq_true.mp rfl
  have hclosing : ∀ c ∈ [' ', ' '], Text.isBlank c = true := List.all_eq_true.mp rfl
  apply readEntriesBelow?_entryText hindentation hclosing
  · exact fun e _ rest => readExpression?_source e.2 rest
  · rw [List.length_cons, List.length_append]
    omega

/-- Behind the line that opens the table stand the entries of the modules, and the closing
brace. -/
theorem joinLines_modules (modules : List Module) (after : List (List Char)) :
    Text.joinLines (modules.flatMap moduleLines ++ ['\x7d', ';'] :: (after ++ [[]])) =
      modules.flatMap (fun module => entryText [' ', ' '] module.name (moduleText module)) ++
        ([] ++ '\x7d' :: ';' :: '\n' :: Text.joinLines (after ++ [[]])) := by
  have hne : after ++ [[]] ≠ [] := by simp
  rw [Text.joinLines, intercalate_append_of_ne_nil _ (List.cons_ne_nil _ _), List.flatMap_assoc,
    List.intercalate_cons_of_ne_nil hne]
  simp only [flatMap_moduleLines]
  rfl

/-- What a registry's prelude shows as the module table: every module with every export,
in order. -/
theorem readTable?_render (registry : Registry) (helper : List Char) :
    readTable? (render registry helper) = some (registry.modules.map fun module =>
      (module.name, module.exports.map fun e => (e.1, e.2.source))) := by
  have hhead : ∀ line ∈ headLines.map String.toList, decide (line ≠ tableOpening) = true := by
    have hother : ∀ line ∈ headLines, line ≠ "const __unv_modules = \x7b" := by decide
    rw [List.forall_mem_map]
    exact fun line hline => decide_eq_true fun heq => hother line hline (String.toList_inj.mp heq)
  have hlines : Text.splitLines (render registry helper) = headLines.map String.toList ++
      tableOpening :: (registry.modules.flatMap moduleLines ++
        ['\x7d', ';'] :: (runLines helper ++ [[]])) := by
    rw [splitLines_render, lines]
    generalize runLines helper = after
    rw [tableLines, List.append_assoc, List.append_assoc, List.cons_append, List.cons_append,
      List.append_assoc]
    rfl
  have hdrop : (Text.splitLines (render registry helper)).dropWhile (· ≠ tableOpening) =
      tableOpening :: (registry.modules.flatMap moduleLines ++
        ['\x7d', ';'] :: (runLines helper ++ [[]])) := by
    rw [hlines, List.dropWhile_append_of_pos hhead, List.dropWhile_cons_of_neg (by simp)]
  have hlength : registry.modules.length ≤ (registry.modules.flatMap fun module =>
      entryText [' ', ' '] module.name (moduleText module)).length :=
    length_le_length_entryText ..
  have hindentation : ∀ c ∈ [' ', ' '], Text.isBlank c = true := List.all_eq_true.mp rfl
  rw [readTable?, hdrop]
  simp only [joinLines_modules, readEntries?]
  rw [readEntriesBelow?_entryText hindentation (by simp) registry.modules
    (fun module _ rest => readObject?_moduleText module rest)]
  · rfl
  · rw [List.length_append]
    omega

/-! ## Looking up an export -/

section Lookup

variable {registry : Registry}

/-- The object of a module holds the last export of each name. -/
theorem objectOf_exports {module : Module} (hproto : ∀ e ∈ module.exports, e.1 ≠ protoName)
    (member : List Char) :
    objectOf (module.exports.map fun e => (e.1, e.2.source)) member =
      (module.last? member).map Builtin.source := by
  by_cases hmember : member = protoName
  · have hnone : module.last? protoName = none := by simpa [Module.last?] using hproto
    rw [hmember, objectOf_protoName, hnone]
    rfl
  · rw [objectOf_eq hmember, ← List.map_reverse, List.find?_map, Option.map_map, Module.last?,
      Option.map_map]
    rfl

/-- The object of the table holds the module that the registry finds, since no other one
has its name. -/
theorem objectOf_modules (hnodup : (registry.modules.map Module.name).Nodup)
    (hproto : ∀ module ∈ registry.modules, module.name ≠ protoName) {β : Type}
    (value : Module → β) (module : List Char) :
    objectOf (registry.modules.map fun m => (m.name, value m)) module =
      (registry.resolve? module).map value := by
  by_cases hmodule : module = protoName
  · have hnone : registry.resolve? protoName = none := by simpa [Registry.resolve?] using hproto
    rw [hmodule, objectOf_protoName, hnone]
    rfl
  · rw [objectOf_eq hmodule, ← List.map_reverse, List.find?_map, Option.map_map,
      Registry.resolve?, ← find?_reverse_of_nodup hnodup]
    rfl

theorem showsMember_of_last {table : Table} {module member : List Char}
    (hlast : member? table module member =
      ((registry.resolve? module).bind (·.last? member)).map Builtin.source) :
    ShowsMember registry table module member := by
  have hagrees : member? table module member =
      ((registry.resolve? module).bind (·.get? member)).map Builtin.source ↔
        ∀ found, registry.resolve? module = some found →
          (found.last? member).map Builtin.source = (found.get? member).map Builtin.source := by
    rw [hlast]
    cases registry.resolve? module <;> simp
  refine ⟨hlast, ?_, hagrees, ?_⟩
  · rw [hlast]
    cases registry.resolve? module <;> simp [Module.last?_eq_none_iff]
  · intro hnodup
    rw [hagrees]
    intro found hfound
    rw [Module.last?_eq_get? (hnodup found hfound)]

end Lookup

/-- Running code finds in the module table what the registry finds, except that it gets the
last export of a name and the registry the first. -/
theorem member?_render (modules : List Module) (helper : List Char)
    (hproto : ∀ module ∈ modules, module.name ≠ protoName ∧
      ∀ e ∈ module.exports, e.1 ≠ protoName) :
    ∃ table, readTable? (render (Registry.ofModules modules) helper) = some table ∧
      ∀ module member, ShowsMember (Registry.ofModules modules) table module member := by
  refine ⟨_, readTable?_render (Registry.ofModules modules) helper, fun module member => ?_⟩
  apply showsMember_of_last
  have hregistered : ∀ found ∈ (Registry.ofModules modules).modules,
      found.name ≠ protoName ∧ ∀ e ∈ found.exports, e.1 ≠ protoName := by
    intro found hfound
    rcases Registry.mem_ofModules hfound with rfl | hfound
    · exact ⟨by decide, by decide⟩
    · exact hproto found hfound
  have hmodule : objectOf ((Registry.ofModules modules).modules.map fun m =>
        (m.name, m.exports.map fun e => (e.1, e.2.source))) module =
      ((Registry.ofModules modules).resolve? module).map fun m =>
        m.exports.map fun e => (e.1, e.2.source) :=
    objectOf_modules (Registry.nodup_ofModules modules)
      (fun found hfound => (hregistered found hfound).1) _ module
  rw [member?, hmodule]
  cases hfound : (Registry.ofModules modules).resolve? module with
  | none => rfl
  | some found =>
      have hmem : found ∈ (Registry.ofModules modules).modules := List.mem_of_find?_eq_some hfound
      exact objectOf_exports (hregistered found hmem).2 member

/-- A module that exports `a` twice: running code gets the second function, the registry
answers the first. An export of its own is the same for both. -/
theorem member?_render_repeated :
    (∀ module ∈ [(⟨['m'], [(['a'], .float), (['a'], .print), (['b'], .int)]⟩ : Module)],
        module.name ≠ protoName ∧ ∀ e ∈ module.exports, e.1 ≠ protoName) ∧
      ∃ table, readTable? (render (Registry.ofModules
          [⟨['m'], [(['a'], .float), (['a'], .print), (['b'], .int)]⟩]) "$assign".toList) =
          some table ∧
        member? table ['m'] ['a'] = some "__unv_print".toList ∧
        member? table ['m'] ['b'] = some "(v) => Math.floor(+v)".toList ∧
        member? table ['m'] ['c'] = none := by
  have hproto : ∀ module ∈ [(⟨['m'], [(['a'], .float), (['a'], .print), (['b'], .int)]⟩ : Module)],
      module.name ≠ protoName ∧ ∀ e ∈ module.exports, e.1 ≠ protoName := by decide
  obtain ⟨table, htable, hshows⟩ := member?_render _ "$assign".toList hproto
  refine ⟨hproto, table, htable, ?_, ?_, ?_⟩
  · rw [(hshows ['m'] ['a']).last]
    decide
  · rw [(hshows ['m'] ['b']).last]
    decide
  · rw [(hshows ['m'] ['c']).last]
    decide

/-- Running code does not find what the registry answers when a module exports a name
twice. -/
theorem member?_ne_source :
    ¬ ∀ (modules : List Module) (helper : List Char) (module member : List Char),
      (∀ module ∈ modules, module.name ≠ protoName ∧ ∀ e ∈ module.exports, e.1 ≠ protoName) →
      ∃ table, readTable? (render (Registry.ofModules modules) helper) = some table ∧
        member? table module member =
          (((Registry.ofModules modules).resolve? module).bind (·.get? member)).map
            Builtin.source := by
  intro hall
  obtain ⟨table, htable, hmember⟩ :=
    hall [⟨['m'], [(['a'], .float), (['a'], .print)]⟩] "$assign".toList ['m'] ['a'] (by decide)
  rw [readTable?_render] at htable
  obtain rfl := Option.some_inj.mp htable
  revert hmember
  decide

end Prelude

end Offside
