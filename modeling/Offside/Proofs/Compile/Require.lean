/-
# Which lines are imports

A line is lowered exactly if it reads as an import that fills it, and then it begins, behind
its blanks, with another letter than before; so lowering never leaves an import as it is.
All that it copies is taken from the line.
-/

import Mathlib.Data.List.TakeWhile
import Offside.Compile.Require
import Offside.Proofs.Compile.Annotation
import Offside.Text.Lines

namespace Offside

namespace Require

/-! ## What a line is read as -/

/-- Read a line as an import that fills it: its form and the literal of its module. -/
def import? (line : List Char) : Option (Form × List Char) := do
  let rest ← Text.dropLead? ['i', 'm', 'p', 'o', 'r', 't'] (Text.trimStart line)
  form? (Text.trimStart rest)

variable {line text literal : List Char} {form : Form}

theorem lower_of_none (himport : import? line = none) : lower line = line := by
  simp only [import?, Option.bind_eq_bind, Option.bind_eq_none_iff] at himport
  have hnone : ∀ rest, Text.dropLead? ['i', 'm', 'p', 'o', 'r', 't'] (Text.trimStart line) =
      some rest → form? (Text.trimStart rest) = none := himport
  unfold lower
  cases hword : Text.dropLead? ['i', 'm', 'p', 'o', 'r', 't'] (Text.trimStart line) with
  | none => rfl
  | some rest => simp [hnone rest hword]

theorem lower_of_some (himport : import? line = some (form, literal)) :
    lower line = line.takeWhile Text.isBlank ++ form.render literal := by
  simp only [import?, Option.bind_eq_bind, Option.bind_eq_some_iff] at himport
  obtain ⟨rest, hword, hform⟩ := himport
  simp [lower, hword, hform]

/-- A call or declaration begins with a letter that no import begins with. -/
theorem exists_render_eq_cons (form : Form) (literal : List Char) :
    ∃ c rest, form.render literal = c :: rest ∧ c ≠ 'i' ∧ Text.isBlank c = false := by
  cases form with
  | named names => exact ⟨'c', _, rfl, by decide, by decide⟩
  | whole name => exact ⟨'c', _, rfl, by decide, by decide⟩
  | bare => exact ⟨'r', _, rfl, by decide, by decide⟩

theorem head?_trimStart_of_import? (himport : import? line = some (form, literal)) :
    (Text.trimStart line).head? = some 'i' := by
  simp only [import?, Option.bind_eq_bind, Option.bind_eq_some_iff] at himport
  obtain ⟨rest, hword, -⟩ := himport
  rw [Text.dropLead?_eq_some_iff.mp hword]
  rfl

theorem head?_trimStart_lower_ne (himport : import? line = some (form, literal)) :
    (Text.trimStart (lower line)).head? ≠ some 'i' := by
  obtain ⟨c, rest, hrender, hne, hblank⟩ := exists_render_eq_cons form literal
  have hblanks : ∀ d ∈ line.takeWhile Text.isBlank, Text.isBlank d = true :=
    fun d hd => List.mem_takeWhile_imp hd
  rw [lower_of_some himport, hrender, Text.trimStart, List.dropWhile_append_of_pos hblanks,
    List.dropWhile_cons_of_neg (by rw [hblank]; decide)]
  simpa using hne

/-- Lowering leads to a line with the same first letter only by leaving it alone. -/
theorem lower_eq_iff_of_head? {plain : List Char}
    (hhead : (Text.trimStart plain).head? = (Text.trimStart line).head?) :
    lower plain = line ↔ plain = line ∧ import? line = none := by
  constructor
  · intro heq
    cases himport : import? plain with
    | none =>
        rw [lower_of_none himport] at heq
        exact ⟨heq, heq ▸ himport⟩
    | some found =>
        have hfirst := head?_trimStart_of_import? himport
        exact absurd (by rw [heq, ← hhead, hfirst]) (head?_trimStart_lower_ne himport)
  · rintro ⟨rfl, himport⟩
    exact lower_of_none himport

/-- A line stays as it is exactly if it is no import. -/
theorem lower_eq_iff : lower line = line ↔ import? line = none :=
  (lower_eq_iff_of_head? rfl).trans (and_iff_right rfl)

/-! ## What a line is made of -/

/-- The text that a form takes from its line. -/
def Form.names : Form → List Char
  | .named names => names
  | .whole name => name
  | .bare => []

theorem append_of_cutLiteral? {rest : List Char} (hcut : cutLiteral? text = some (literal, rest)) :
    literal ++ rest = text := by
  cases text with
  | nil => cases hcut
  | cons quote behind =>
      simp only [cutLiteral?] at hcut
      split at hcut
      · split at hcut
        · cases hcut
        · rename_i close after hdrop
          obtain ⟨rfl, hbehind⟩ := eq_of_dropWhile_ne hdrop
          obtain ⟨rfl, rfl⟩ := Prod.mk.inj (Option.some_inj.mp hcut)
          simp only [List.cons_append, List.append_assoc, List.nil_append, hbehind]
      · cases hcut

theorem subset_of_moduleLiteral? (hliteral : moduleLiteral? text = some literal) :
    literal ⊆ text := by
  simp only [moduleLiteral?, Option.bind_eq_bind, Option.bind_eq_some_iff] at hliteral
  obtain ⟨⟨found, rest⟩, hcut, hend⟩ := hliteral
  dsimp only at hend
  split at hend
  · obtain rfl := Option.some_inj.mp hend
    have htrim : found ++ rest = Text.trimStart text := append_of_cutLiteral? hcut
    exact fun c hc => (Text.trimStart_suffix text).subset (htrim ▸ List.mem_append_left rest hc)
  · cases hend

/-- The literal behind `from` is taken from the text in front of which that stands. -/
theorem subset_of_behindFrom? {behind : List Char} (hfrom : behindFrom? text = some behind)
    (hliteral : moduleLiteral? behind = some literal) : literal ⊆ text := by
  have hsuffix : behind <:+ Text.trimStart text := by
    rw [Text.dropLead?_eq_some_iff.mp hfrom]
    exact List.suffix_append _ _
  exact fun c hc =>
    (hsuffix.trans (Text.trimStart_suffix text)).subset (subset_of_moduleLiteral? hliteral hc)

/-- An import is made of parts of its text. -/
theorem subset_of_form? (hform : form? text = some (form, literal)) :
    form.names ⊆ text ∧ literal ⊆ text := by
  unfold form? at hform
  split at hform
  case h_1 inner =>
    split at hform
    · cases hform
    · rename_i brace rest hdrop
      obtain ⟨-, hinner⟩ := eq_of_dropWhile_ne hdrop
      simp only [Option.bind_eq_bind, Option.bind_eq_some_iff] at hform
      obtain ⟨behind, hfrom, found, hfound, heq⟩ := hform
      obtain ⟨rfl, rfl⟩ := Prod.mk.inj (Option.some_inj.mp heq)
      constructor
      · exact fun c hc => List.mem_cons_of_mem _ (List.takeWhile_subset _ hc)
      · intro c hc
        have hrest : c ∈ rest := subset_of_behindFrom? hfrom hfound hc
        rw [← hinner]
        simp [hrest]
  case h_2 rest =>
    simp only [Option.bind_eq_bind, Option.bind_eq_some_iff] at hform
    obtain ⟨⟨word, afterWord⟩, hword, ⟨name, afterName⟩, hname, ⟨blanks, afterBlanks⟩, hblanks,
      behind, hfrom, found, hfound, heq⟩ := hform
    obtain ⟨rfl, rfl⟩ := Prod.mk.inj (Option.some_inj.mp heq)
    obtain ⟨-, -, hafter, -⟩ := Annotation.exists_of_cutWord? hword
    have hrest : ∀ c ∈ afterWord, c ∈ '*' :: rest := fun c hc =>
      List.mem_cons_of_mem _ ((Text.trimStart_suffix rest).subset
        (hafter ▸ List.mem_append_right word hc))
    have hafterName : blanks ++ afterBlanks = afterName := Annotation.append_of_cutBlanks? hblanks
    have hafterWord : name ++ afterName = afterWord := Annotation.append_of_cutIdentifier? hname
    rw [← hafterName] at hafterWord
    constructor
    · exact fun c hc => hrest c (hafterWord ▸ List.mem_append_left _ hc)
    · intro c hc
      have hbehind : c ∈ afterBlanks := subset_of_behindFrom? hfrom hfound hc
      exact hrest c (by simp [← hafterWord, hbehind])
  case h_3 =>
    obtain ⟨found, hfound, heq⟩ := Option.map_eq_some_iff.mp hform
    obtain ⟨rfl, rfl⟩ := Prod.mk.inj heq
    exact ⟨List.nil_subset _, subset_of_moduleLiteral? hfound⟩

theorem subset_of_import? (himport : import? line = some (form, literal)) :
    form.names ⊆ line ∧ literal ⊆ line := by
  simp only [import?, Option.bind_eq_bind, Option.bind_eq_some_iff] at himport
  obtain ⟨rest, hword, hform⟩ := himport
  obtain ⟨hnames, hliteral⟩ := subset_of_form? hform
  have hsuffix : Text.trimStart rest <:+ line := by
    refine (Text.trimStart_suffix rest).trans (List.IsSuffix.trans ?_ (Text.trimStart_suffix line))
    rw [Text.dropLead?_eq_some_iff.mp hword]
    exact List.suffix_append _ _
  exact ⟨fun c hc => hsuffix.subset (hnames hc), fun c hc => hsuffix.subset (hliteral hc)⟩

/-! ## Line feeds -/

theorem append_of_cutAs? {before behind : List Char} (hcut : cutAs? text = some (before, behind)) :
    before ++ [' ', 'a', 's', ' '] ++ behind = text := by
  fun_induction cutAs? text generalizing before with
  | case1 => cases hcut
  | case2 c rest found hfound =>
      obtain ⟨rfl, rfl⟩ := Prod.mk.inj (Option.some_inj.mp hcut)
      exact (Text.dropLead?_eq_some_iff.mp hfound).symm
  | case3 c rest hnone ih =>
      obtain ⟨⟨later, _⟩, hlater, heq⟩ := Option.map_eq_some_iff.mp hcut
      obtain ⟨rfl, rfl⟩ := Prod.mk.inj heq
      rw [List.cons_append, List.cons_append, ih hlater]

theorem lineFeed_notMem_property (hname : '\n' ∉ text) : '\n' ∉ property text := by
  unfold property
  split
  · rename_i outer inner hcut
    have htext := append_of_cutAs? hcut
    rw [← htext] at hname
    simp only [List.mem_append, not_or] at hname ⊢
    exact ⟨⟨fun hmem => hname.1.1 (Text.mem_of_mem_trim hmem), by decide⟩,
      fun hmem => hname.2 (Text.mem_of_mem_trim hmem)⟩
  · exact hname

theorem lineFeed_notMem_pattern (hnames : '\n' ∉ text) : '\n' ∉ pattern text := by
  have hproperty : ∀ part ∈ (((text.splitOn ',').map Text.trim).filter (!·.isEmpty)).map property,
      '\n' ∉ part := by
    intro part hpart
    obtain ⟨name, hname, rfl⟩ := List.mem_map.mp hpart
    obtain ⟨piece, hpiece, rfl⟩ := List.mem_map.mp (List.mem_of_mem_filter hname)
    exact lineFeed_notMem_property fun hmem =>
      hnames (Text.mem_of_mem_splitOn hpiece (Text.mem_of_mem_trim hmem))
  simp only [pattern]
  split
  · decide
  · simp only [List.mem_append, not_or]
    refine ⟨⟨by decide, fun hmem => ?_⟩, by decide⟩
    rcases Text.mem_or_mem_of_mem_intercalate hmem with hseparator | ⟨part, hpart, hmem⟩
    · exact absurd hseparator (by decide)
    · exact hproperty part hpart hmem

theorem lineFeed_notMem_render (hnames : '\n' ∉ form.names) (hliteral : '\n' ∉ literal) :
    '\n' ∉ form.render literal := by
  have hcall : '\n' ∉ call literal := by simp [call, hliteral]
  have hdeclaration : ∀ target, '\n' ∉ target → '\n' ∉ Form.render.declaration literal target := by
    intro target htarget
    simp [Form.render.declaration, htarget, hcall]
  cases form with
  | named names => exact hdeclaration _ (lineFeed_notMem_pattern hnames)
  | whole name => exact hdeclaration _ hnames
  | bare => exact hcall

/-- Lowering introduces no line feed. -/
theorem lineFeed_notMem_lower (hline : '\n' ∉ line) : '\n' ∉ lower line := by
  cases himport : import? line with
  | none => rwa [lower_of_none himport]
  | some found =>
      obtain ⟨form, literal⟩ := found
      obtain ⟨hnames, hliteral⟩ := subset_of_import? himport
      rw [lower_of_some himport, List.mem_append, not_or]
      exact ⟨fun hmem => hline (List.takeWhile_subset _ hmem),
        lineFeed_notMem_render (fun hmem => hline (hnames hmem))
          fun hmem => hline (hliteral hmem)⟩

end Require

end Offside
