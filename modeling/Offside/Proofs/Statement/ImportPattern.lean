/-
# The pattern of an import

An import of names is `import`, blanks, names, blanks, the word `from` and the rest of the
line. The blanks are greedy and the names are lazy: of all ways to read a line, the one
with the most blanks behind `import` counts, and of these the one with the shortest names.

The readers of imports make the same choice. That they skip all the blanks behind `import`
unless nothing else fits is the greedy run, and that they stop at the first `from` which
fits is the lazy one.
-/

import Offside.Proofs.Statement.Import
import Offside.Proofs.Text.Pattern

namespace Offside

namespace Import

open Text (Pattern Spot isBlank isInLine)

/-- Blanks, the word `from`, and the rest of the line, which is captured. -/
def fromPattern : Pattern :=
  .seq [.oneOrMore isBlank, .word ['f', 'r', 'o', 'm'], .edge, .capture 2 (.many isInLine), .finish]

/-- An import of names; they and the rest of the line are captured. -/
def pattern : Pattern :=
  .seq [.word ['i', 'm', 'p', 'o', 'r', 't'], .oneOrMore isBlank,
    .capture 1 (.both (.one isInLine) (.few isInLine)), fromPattern]

variable {α : Type} {next : Spot → Option α} {passed ahead ahead' : List Char}
  {captured : List (Nat × List Char)}

/-- The captures of an import: the names, and what stands behind `from`. -/
def parts (found : Spot) : List Char × List Char := (found.text 1, found.text 2)

@[simp]
theorem parts_eq (names behind : List Char) :
    parts ⟨passed, ahead, (2, behind) :: (1, names) :: captured⟩ = (names, behind) := rfl

/-- Behind the names nothing is left to choose. -/
theorem followed?_fromPattern :
    fromPattern.followed? next ⟨passed, ahead, captured⟩ =
      (behindFrom? ahead).bind fun behind =>
        next ⟨ahead.reverse ++ passed, [], (2, behind) :: captured⟩ := by
  simp only [fromPattern, Pattern.seq, Pattern.followed?_both, Pattern.followed?_nothing]
  rw [Pattern.followed?_oneOrMore_of_rulesOut (Pattern.rulesOut_word rfl),
    Pattern.isEmpty_takeWhile, behindFrom?, Pattern.followed?_word]
  split
  · rfl
  · change (Text.dropLead? _ (Text.trimStart ahead)).bind _ = _
    cases hlead : Text.dropLead? ['f', 'r', 'o', 'm'] (Text.trimStart ahead) with
    | none => rfl
    | some rest =>
        have hedge : Spot.isEdge ⟨['f', 'r', 'o', 'm'].reverse ++
            ((ahead.takeWhile isBlank).reverse ++ passed), rest, captured⟩ =
              Text.startsOffWord rest := Spot.isEdge_cons rfl
        have hpassed : rest.reverse ++ (['f', 'r', 'o', 'm'].reverse ++
            ((ahead.takeWhile isBlank).reverse ++ passed)) = ahead.reverse ++ passed := by
          rw [← List.append_assoc, ← List.append_assoc, ← List.reverse_append,
            ← List.reverse_append, ← Text.dropLead?_eq_some_iff.mp hlead,
            Text.takeWhile_append_trimStart]
        rw [Option.bind_some, Pattern.followed?_edge, hedge, Pattern.followed?_captureLine,
          hpassed]
        cases hoff : Text.startsOffWord rest <;> by_cases hfeed : '\n' ∈ rest <;>
          simp [hoff, hfeed]

/-- The names and the rest of the line, if names may also be missing. -/
def names? (text : List Char) : Option (List Char × List Char) :=
  match behindFrom? text with
  | some behind => some ([], behind)
  | none => cutNames? text

theorem cutNames?_cons_eq_map (c : Char) (rest : List Char) :
    cutNames? (c :: rest) =
      if isInLine c then (names? rest).map fun cut => (c :: cut.1, cut.2) else none := by
  rw [cutNames?, names?]
  by_cases hc : c = '\n'
  · simp [hc, isInLine]
  · rw [if_neg hc, if_pos (by simpa [isInLine] using hc)]
    cases behindFrom? rest <;> rfl

/-- Lazy names end in front of the first `from` that fits. -/
theorem followed?_names (taken : List Char) :
    (Pattern.few isInLine).followed? (fun later => fromPattern.followed? (fun found =>
        some (parts found))
        { later with captured := (1, Spot.upTo ⟨passed, ahead', captured⟩ later) :: later.captured })
      ⟨taken ++ passed, ahead, captured⟩ =
      (names? ahead).map fun cut => (taken.reverse ++ cut.1, cut.2) := by
  induction ahead generalizing taken with
  | nil =>
      rw [Pattern.followed?_few_nil, followed?_fromPattern]
      rfl
  | cons c ahead ih =>
      rw [Pattern.followed?_few_cons, followed?_fromPattern, names?, cutNames?_cons_eq_map]
      specialize ih (c :: taken)
      rw [List.cons_append] at ih
      rw [ih]
      cases behindFrom? (c :: ahead) with
      | some behind => simp
      | none => cases hc : isInLine c <;> simp [Function.comp_def]

/-- The names are at least one character, which may be a blank. -/
theorem followed?_captureNames :
    (Pattern.capture 1 (.both (.one isInLine) (.few isInLine))).followed?
        (fromPattern.followed? fun found => some (parts found)) ⟨passed, ahead, captured⟩ =
      cutNames? ahead := by
  rw [Pattern.followed?_capture, Pattern.followed?_both]
  cases ahead with
  | nil => rfl
  | cons c ahead =>
      rw [Pattern.followed?_one_cons, cutNames?_cons_eq_map]
      split
      · exact followed?_names [c]
      · rfl

/-- Of the blanks behind the word `import` as many are skipped as can be. -/
theorem followed?_blanks {next : Spot → Option (List Char × List Char)}
    (hnext : ∀ passed ahead, next ⟨passed, ahead, captured⟩ = cutNames? ahead) :
    (Pattern.many isBlank).followed? next ⟨passed, ahead, captured⟩ =
      (cutBehindBlanks? ahead).or (cutNames? ahead) := by
  induction ahead generalizing passed with
  | nil => rw [Pattern.followed?_many_nil, hnext, cutBehindBlanks?, Option.none_or]
  | cons c ahead ih =>
      rw [Pattern.followed?_many_cons, hnext, ih, cutBehindBlanks?]
      split
      · cases cutBehindBlanks? ahead <;> rfl
      · rfl

/-- The captures of the preferred match are what the readers cut. -/
theorem map_parts_first? (content : List Char) :
    (pattern.first? content).map parts =
      (Text.dropLead? ['i', 'm', 'p', 'o', 'r', 't'] content).bind cutBehindBlanks? := by
  rw [Pattern.first?_eq_followed?, Pattern.map_followed?]
  simp only [pattern, Pattern.seq, Pattern.followed?_both, Pattern.followed?_nothing,
    Pattern.followed?_word, Option.map_some, Pattern.oneOrMore]
  congr 1
  funext rest
  cases rest with
  | nil => rfl
  | cons c rest =>
      rw [Pattern.followed?_one_cons, cutBehindBlanks?]
      split
      · rw [followed?_blanks fun _ _ => followed?_captureNames]
        cases cutBehindBlanks? rest <;> rfl
      · rfl

example : (pattern.first? "import a from b from c".toList).map parts =
    some (['a'], " b from c".toList) := by decide

end Import

/-- A line is an import of names if the pattern of imports fits and its names are not in
target syntax already, and what becomes of it is made of the captures. -/
theorem Line.withNamedImport?_eq_first? (line : Line) :
    line.withNamedImport? = (Import.pattern.first? line.content).bind fun found =>
      if (found.text 1).head? = some '\x7b' || (found.text 1).head? = some '*' then none
      else some (line.indentation ++ "import \x7b".toList ++ found.text 1 ++
        "\x7d from".toList ++ found.text 2) := by
  simp only [withNamedImport?, Option.bind_eq_bind]
  rw [← Option.bind_assoc, ← Import.map_parts_first?, Option.bind_map]
  rfl

end Offside
