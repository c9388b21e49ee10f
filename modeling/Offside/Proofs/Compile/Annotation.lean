/-
# What stripping a line takes out

Stripping takes stretches out of a line, each with the colon of an annotation in it, and
puts at most a blank in their place. So it leaves a line alone or leaves it with fewer
colons, and never with a character that it did not have, blanks apart; the passes that
follow each other on a line cannot undo one another.

This module says for each pass exactly which texts it changes: the parameters with an
annotation, the results with a type and a body, the function heads with one of these, and
the declarations with a colon behind the name.
-/

import Mathlib.Data.List.TakeWhile
import Offside.Compile.Annotation
import Offside.Proofs.Compile.TopLevel
import Offside.Proofs.Text.Differ

namespace Offside

namespace Annotation

/-! ## Texts with colons taken out -/

/-- The result has fewer colons than the text and, blanks apart, nothing that the text has
not. -/
def Shrinks (text result : List Char) : Prop :=
  (∀ c ∈ result, c ∈ text ∨ c = ' ') ∧ result.count ':' < text.count ':'

/-- The result is the text itself, or a text that shrank. -/
def Reduces (text result : List Char) : Prop := result = text ∨ Shrinks text result

theorem Shrinks.ne {text result : List Char} (hshrinks : Shrinks text result) :
    result ≠ text := by
  rintro rfl
  exact Nat.lt_irrefl _ hshrinks.2

/-- A stretch with a colon in it is taken out, and blanks may come in its place. -/
theorem shrinks_of_cut (front gap blanks back : List Char) (hgap : ':' ∈ gap)
    (hblanks : ∀ c ∈ blanks, c = ' ') :
    Shrinks (front ++ (gap ++ back)) (front ++ (blanks ++ back)) := by
  have hpos : 0 < gap.count ':' := List.count_pos_iff.mpr hgap
  have hzero : blanks.count ':' = 0 := by
    rw [List.count_eq_zero]
    intro hmem
    exact absurd (hblanks _ hmem) (by decide)
  constructor
  · intro c hc
    simp only [List.mem_append] at hc ⊢
    rcases hc with hc | hc | hc
    · exact .inl (.inl hc)
    · exact .inr (hblanks c hc)
    · exact .inl (.inr (.inr hc))
  · simp only [List.count_append]
    omega

section Pass

variable {finds : Prop} {text result : List Char} (hshrinks : finds → Shrinks text result)
  (hkeeps : ¬ finds → result = text)

include hshrinks hkeeps

/-- A pass that makes a text shrink where it finds something, and keeps it otherwise, keeps it
exactly if it finds nothing. -/
theorem eq_iff_of_shrinks : result = text ↔ ¬ finds :=
  ⟨fun heq hfinds => (hshrinks hfinds).ne heq, hkeeps⟩

theorem reduces_of_shrinks : Reduces text result := by
  by_cases hfinds : finds
  · exact .inr (hshrinks hfinds)
  · exact .inl (hkeeps hfinds)

end Pass

namespace Reduces

variable {text result text' result' : List Char}

theorem refl (text : List Char) : Reduces text text := .inl rfl

theorem mem (hreduces : Reduces text result) {c : Char} (hc : c ∈ result) : c ∈ text ∨ c = ' ' := by
  rcases hreduces with rfl | hshrinks
  · exact .inl hc
  · exact hshrinks.1 c hc

theorem count_le (hreduces : Reduces text result) : result.count ':' ≤ text.count ':' := by
  rcases hreduces with rfl | hshrinks
  · exact Nat.le_refl _
  · exact Nat.le_of_lt hshrinks.2

theorem count_lt (hreduces : Reduces text result) (hne : result ≠ text) :
    result.count ':' < text.count ':' := (hreduces.resolve_left hne).2

theorem trans (hfirst : Reduces text result) (hsecond : Reduces result result') :
    Reduces text result' := by
  rcases hfirst with rfl | hshrinks
  · exact hsecond
  · refine .inr ⟨fun c hc => ?_, Nat.lt_of_le_of_lt hsecond.count_le hshrinks.2⟩
    rcases hsecond.mem hc with hc | rfl
    · exact hshrinks.1 c hc
    · exact .inr rfl

/-- Two reductions that come back to the text change nothing. -/
theorem eq_of_trans (hfirst : Reduces text result) (hsecond : Reduces result text) :
    result = text := by
  by_contra hne
  exact absurd (hfirst.count_lt hne) (Nat.not_lt.mpr hsecond.count_le)

theorem append (hfirst : Reduces text result) (hsecond : Reduces text' result') :
    Reduces (text ++ text') (result ++ result') := by
  by_cases heq : result = text ∧ result' = text'
  · rw [heq.1, heq.2]
    exact refl _
  · have hle := hfirst.count_le
    have hle' := hsecond.count_le
    refine .inr ⟨fun c hc => ?_, ?_⟩
    · rw [List.mem_append] at hc ⊢
      rcases hc with hc | hc
      · exact (hfirst.mem hc).imp_left .inl
      · exact (hsecond.mem hc).imp_left .inr
    · rw [List.count_append, List.count_append]
      rcases not_and_or.mp heq with hne | hne
      · have hlt := hfirst.count_lt hne
        omega
      · have hlt := hsecond.count_lt hne
        omega

/-- A reduction of two parts that changes nothing changes neither. -/
theorem eq_of_append (hfirst : Reduces text result) (hsecond : Reduces text' result')
    (heq : result ++ result' = text ++ text') : result = text ∧ result' = text' := by
  have hcount := congrArg (List.count ':') heq
  rw [List.count_append, List.count_append] at hcount
  have hle := hfirst.count_le
  have hle' := hsecond.count_le
  constructor
  · by_contra hne
    have hlt := hfirst.count_lt hne
    omega
  · by_contra hne
    have hlt := hsecond.count_lt hne
    omega

end Reduces

section Join

variable {f : List Char → List Char} (hf : ∀ part, Reduces part (f part))

include hf

theorem reduces_intercalate (separator : List Char) (parts : List (List Char)) :
    Reduces (separator.intercalate parts) (separator.intercalate (parts.map f)) := by
  induction parts with
  | nil => exact .refl _
  | cons part parts ih =>
      cases parts with
      | nil => simpa using hf part
      | cons next parts =>
          rw [List.map_cons, List.map_cons, List.intercalate_cons_cons,
            List.intercalate_cons_cons]
          exact ((hf part).append (.refl separator)).append ih

/-- Parts that are reduced each for itself, without a change to the whole, are left
alone. -/
theorem eq_of_intercalate {separator : List Char} {parts : List (List Char)}
    (heq : separator.intercalate (parts.map f) = separator.intercalate parts) :
    ∀ part ∈ parts, f part = part := by
  induction parts with
  | nil => simp
  | cons part parts ih =>
      cases parts with
      | nil => simpa using heq
      | cons next parts =>
          rw [List.map_cons, List.map_cons, List.intercalate_cons_cons,
            List.intercalate_cons_cons] at heq
          have hfirst : Reduces (part ++ separator) (f part ++ separator) :=
            (hf part).append (.refl separator)
          have hrest := reduces_intercalate hf separator (next :: parts)
          obtain ⟨hpart, hparts⟩ := hfirst.eq_of_append hrest heq
          rw [List.forall_mem_cons]
          exact ⟨List.append_cancel_right hpart, ih hparts⟩

end Join

/-! ## Parameters and results -/

/-- A parameter with an annotation: the first colon or equality sign at its top level is a
colon. -/
def IsTypedParameter (parameter : List Char) : Prop :=
  ∃ before annotation,
    cutTopLevel? (fun place => place.char == ':' || place.char == '=') parameter =
      some (before, ':' :: annotation)

/-- The text behind a parameter list begins with a type that has a body behind it. -/
def IsTypedResult (rest : List Char) : Prop :=
  ∃ annotation cut, Text.trimStart rest = ':' :: annotation ∧
    cutType? (fun place => place.char == '\x7b' && !place.blankBefore) annotation = some cut

/-- The test for the end of a parameter's name. -/
def endsName (place : Place) : Bool := place.char == ':' || place.char == '='

/-- The test for the brace of a body: only blanks may not stand in front of it. -/
def beginsBody (place : Place) : Bool := place.char == '\x7b' && !place.blankBefore

/-- The name of a parameter, by what stands in front of the colon. -/
def nameOf (before : List Char) : List Char := Text.dropFinal '?' (Text.trimEnd before)

/-- A parameter with an annotation keeps its name and its default value. -/
theorem plainParameter_of_cut {parameter before annotation : List Char}
    (hcut : cutTopLevel? endsName parameter = some (before, ':' :: annotation)) :
    plainParameter parameter =
      match cutType? Place.isAssignment annotation with
      | some (_, value) => nameOf before ++ ' ' :: value
      | none => nameOf before := by
  unfold endsName at hcut
  simp only [plainParameter, hcut]
  rfl

theorem plainParameter_of_not {parameter : List Char} (huntyped : ¬ IsTypedParameter parameter) :
    plainParameter parameter = parameter := by
  unfold plainParameter
  split
  · rename_i before annotation hcut
    exact absurd ⟨before, annotation, hcut⟩ huntyped
  · rfl

theorem shrinks_plainParameter {parameter : List Char} (htyped : IsTypedParameter parameter) :
    Shrinks parameter (plainParameter parameter) := by
  obtain ⟨before, annotation, hcut⟩ := htyped
  have hparameter : before ++ ':' :: annotation = parameter := TopLevelScan.append_of_cut? hcut
  obtain ⟨final, -, hfinal⟩ := Text.dropFinal_append '?' (Text.trimEnd before)
  have hbefore : nameOf before ++ final ++ (before.reverse.takeWhile Text.isBlank).reverse =
      before := by
    rw [nameOf, hfinal, Text.trimEnd_append]
  rw [plainParameter_of_cut hcut]
  generalize nameOf before = name at hbefore ⊢
  -- The stretch that goes begins behind the name: a question mark, blanks and the colon.
  cases hvalue : cutType? Place.isAssignment annotation with
  | none =>
      have hshrinks := shrinks_of_cut name (final ++
        (before.reverse.takeWhile Text.isBlank).reverse ++ ':' :: annotation) [] []
        (by simp) (by simp)
      rw [← hparameter, ← hbefore]
      simpa using hshrinks
  | some cut =>
      obtain ⟨type, value⟩ := cut
      have hannotation : type ++ value = annotation := TopLevelScan.append_of_cut? hvalue
      have hshrinks := shrinks_of_cut name (final ++
        (before.reverse.takeWhile Text.isBlank).reverse ++ ':' :: type) [' '] value
        (by simp) (by simp)
      rw [← hparameter, ← hbefore, ← hannotation]
      simpa using hshrinks

theorem plainParameter_eq_iff {parameter : List Char} :
    plainParameter parameter = parameter ↔ ¬ IsTypedParameter parameter :=
  eq_iff_of_shrinks shrinks_plainParameter plainParameter_of_not

theorem reduces_plainParameter (parameter : List Char) :
    Reduces parameter (plainParameter parameter) :=
  reduces_of_shrinks shrinks_plainParameter plainParameter_of_not

/-- A result with a type and a body keeps the body. -/
theorem plainResult_of_cut {rest annotation type body : List Char}
    (htrim : Text.trimStart rest = ':' :: annotation)
    (hcut : cutType? beginsBody annotation = some (type, body)) :
    plainResult rest = ' ' :: body := by
  unfold beginsBody at hcut
  simp only [plainResult, htrim, hcut]

theorem plainResult_of_not {rest : List Char} (huntyped : ¬ IsTypedResult rest) :
    plainResult rest = rest := by
  unfold plainResult
  split
  · rename_i typed htrim
    split
    · rename_i hcut
      exact absurd ⟨typed, _, htrim, hcut⟩ huntyped
    · rfl
  · rfl

theorem shrinks_plainResult {rest : List Char} (htyped : IsTypedResult rest) :
    Shrinks rest (plainResult rest) := by
  obtain ⟨typed, ⟨type, body⟩, htrim, hcut⟩ := htyped
  have htype : type ++ body = typed := TopLevelScan.append_of_cut? hcut
  have hrest := Text.takeWhile_append_trimStart rest
  rw [htrim, ← htype] at hrest
  have hresult : plainResult rest = ' ' :: body := plainResult_of_cut htrim hcut
  have hshrinks := shrinks_of_cut [] (rest.takeWhile Text.isBlank ++ ':' :: type) [' '] body
    (by simp) (by simp)
  rw [hresult, ← hrest]
  simpa using hshrinks

theorem plainResult_eq_iff {rest : List Char} : plainResult rest = rest ↔ ¬ IsTypedResult rest :=
  eq_iff_of_shrinks shrinks_plainResult plainResult_of_not

theorem reduces_plainResult (rest : List Char) : Reduces rest (plainResult rest) :=
  reduces_of_shrinks shrinks_plainResult plainResult_of_not

/-! ## Function heads -/

/-- The line begins with a function head in code, its parameter list follows and is closed,
and behind that comes the rest. -/
def IsHead (line head parameters rest : List Char) : Prop :=
  ∃ inner, cutFunctionHead? line = some (head, inner) ∧
    cutTopLevel? (·.char == ')') inner = some (parameters, ')' :: rest)

/-- A line with a function head that has an annotation: at a parameter, or behind the
parameter list. -/
def HasTypedHead (line : List Char) : Prop :=
  ∃ head parameters rest, IsHead line head parameters rest ∧
    ((∃ parameter ∈ topLevelParts ',' parameters, IsTypedParameter parameter) ∨
      IsTypedResult rest)

theorem append_of_cutFunctionWord? {afterWord : Bool} {line before found : List Char}
    (hcut : cutFunctionWord? afterWord line = some (before, found)) : before ++ found = line := by
  fun_induction cutFunctionWord? afterWord line generalizing before with
  | case1 => cases hcut
  | case2 =>
      obtain ⟨rfl, rfl⟩ := Prod.mk.inj (Option.some_inj.mp hcut)
      rfl
  | case3 =>
      rename_i ih
      obtain ⟨⟨later, _⟩, hlater, heq⟩ := Option.map_eq_some_iff.mp hcut
      obtain ⟨rfl, rfl⟩ := Prod.mk.inj heq
      rw [List.cons_append, ih hlater]

/-- A function head goes up to its opening parenthesis, and the rest of the line follows. -/
theorem exists_of_cutFunctionHead? {line head inner : List Char}
    (hcut : cutFunctionHead? line = some (head, inner)) :
    ∃ front, head = front ++ ['('] ∧ head ++ inner = line := by
  rw [cutFunctionHead?, Option.bind_eq_bind, Option.bind_eq_some_iff] at hcut
  obtain ⟨⟨before, found⟩, hword, hcut⟩ := hcut
  dsimp only at hcut
  split at hcut
  · cases hcut
  · rename_i paren rest hdrop
    obtain ⟨rfl, hfound⟩ := eq_of_dropWhile_ne hdrop
    split at hcut
    · obtain ⟨rfl, rfl⟩ := Prod.mk.inj (Option.some_inj.mp hcut)
      refine ⟨_, rfl, ?_⟩
      rw [← append_of_cutFunctionWord? hword]
      simp only [List.append_assoc, List.singleton_append, hfound]
    · cases hcut

namespace IsHead

variable {line head parameters rest : List Char}

theorem line_eq (hhead : IsHead line head parameters rest) :
    head ++ [','].intercalate (topLevelParts ',' parameters) ++ ')' :: rest = line := by
  obtain ⟨inner, hcut, hclose⟩ := hhead
  obtain ⟨_, -, hline⟩ := exists_of_cutFunctionHead? hcut
  rw [intercalate_topLevelParts, List.append_assoc, TopLevelScan.append_of_cut? hclose, hline]

theorem plainHead_eq (hhead : IsHead line head parameters rest) :
    plainHead line =
      head ++ [','].intercalate ((topLevelParts ',' parameters).map plainParameter) ++
        ')' :: plainResult rest := by
  obtain ⟨inner, hcut, hclose⟩ := hhead
  simp only [plainHead, hcut, hclose]

/-- The parameters, and what follows them, are reduced. -/
theorem reduces (hhead : IsHead line head parameters rest) : Reduces line (plainHead line) := by
  rw [hhead.plainHead_eq]
  conv_lhs => rw [← hhead.line_eq]
  exact ((Reduces.refl head).append (reduces_intercalate reduces_plainParameter _ _)).append
    ((Reduces.refl [')']).append (reduces_plainResult rest))

theorem not_typed (hhead : IsHead line head parameters rest) (heq : plainHead line = line) :
    (∀ parameter ∈ topLevelParts ',' parameters, ¬ IsTypedParameter parameter) ∧
      ¬ IsTypedResult rest := by
  rw [hhead.plainHead_eq] at heq
  conv_rhs at heq => rw [← hhead.line_eq]
  have hparameters := reduces_intercalate reduces_plainParameter [','] (topLevelParts ',' parameters)
  have hresult := (Reduces.refl [')']).append (reduces_plainResult rest)
  obtain ⟨hfront, hback⟩ := ((Reduces.refl head).append hparameters).eq_of_append hresult heq
  exact ⟨fun parameter hmem => plainParameter_eq_iff.mp
      (eq_of_intercalate reduces_plainParameter (List.append_cancel_left hfront) parameter hmem),
    plainResult_eq_iff.mp (List.append_cancel_left hback)⟩

end IsHead

theorem plainHead_of_forall_not_isHead {line : List Char}
    (hnone : ∀ head parameters rest, ¬ IsHead line head parameters rest) :
    plainHead line = line := by
  unfold plainHead
  split
  · rfl
  · rename_i head inner hcut
    split
    · rename_i parameters c rest hclose
      obtain ⟨place, later, hfound, hparen⟩ := TopLevelScan.exists_of_cut? hclose
      obtain ⟨rfl, rfl⟩ := List.cons.inj hfound
      rw [eq_of_beq hparen] at hclose
      exact absurd ⟨inner, hcut, hclose⟩ (hnone head parameters rest)
    · rfl

theorem plainHead_of_not {line : List Char} (huntyped : ¬ HasTypedHead line) :
    plainHead line = line := by
  by_cases hhead : ∃ head parameters rest, IsHead line head parameters rest
  · obtain ⟨head, parameters, rest, hhead⟩ := hhead
    have hparameters : (topLevelParts ',' parameters).map plainParameter =
        topLevelParts ',' parameters := by
      refine (List.map_congr_left fun parameter hmem => ?_).trans (List.map_id _)
      exact plainParameter_of_not fun htyped =>
        huntyped ⟨head, parameters, rest, hhead, .inl ⟨parameter, hmem, htyped⟩⟩
    have hresult : plainResult rest = rest := plainResult_of_not fun htyped =>
      huntyped ⟨head, parameters, rest, hhead, .inr htyped⟩
    rw [hhead.plainHead_eq, hparameters, hresult, hhead.line_eq]
  · simp only [not_exists] at hhead
    exact plainHead_of_forall_not_isHead hhead

/-- A line keeps its function head exactly if there is no annotation in it. -/
theorem plainHead_eq_iff {line : List Char} : plainHead line = line ↔ ¬ HasTypedHead line := by
  refine ⟨?_, plainHead_of_not⟩
  rintro heq ⟨head, parameters, rest, hhead, htyped⟩
  obtain ⟨hparameters, hresult⟩ := hhead.not_typed heq
  rcases htyped with ⟨parameter, hmem, htyped⟩ | htyped
  · exact hparameters parameter hmem htyped
  · exact hresult htyped

instance (line : List Char) : Decidable (HasTypedHead line) :=
  decidable_of_iff (plainHead line ≠ line) (by rw [Ne, plainHead_eq_iff, not_not])

theorem reduces_plainHead (line : List Char) : Reduces line (plainHead line) := by
  by_cases hhead : ∃ head parameters rest, IsHead line head parameters rest
  · obtain ⟨head, parameters, rest, hhead⟩ := hhead
    exact hhead.reduces
  · simp only [not_exists] at hhead
    rw [plainHead_of_forall_not_isHead hhead]
    exact .refl line

/-! ## Declarations -/

/-- The characters of a declaration in front of the colon: blanks, those of names, and a
question mark. -/
def isDeclared (c : Char) : Bool := Text.isBlank c || Assignment.isNamePart c || c == '?'

theorem isDeclared_of_isBlank {c : Char} (hblank : Text.isBlank c = true) :
    isDeclared c = true := by
  simp [isDeclared, hblank]

theorem isDeclared_of_isNamePart {c : Char} (hname : Assignment.isNamePart c = true) :
    isDeclared c = true := by
  simp [isDeclared, hname]

theorem isDeclared_of_mem_takeWhile {text : List Char} :
    ∀ c ∈ text.takeWhile Text.isBlank, isDeclared c = true :=
  fun _ hc => isDeclared_of_isBlank (List.mem_takeWhile_imp hc)

theorem append_of_cutBlanks? {text blanks rest : List Char}
    (hcut : cutBlanks? text = some (blanks, rest)) : blanks ++ rest = text := by
  simp only [cutBlanks?] at hcut
  split at hcut
  · cases hcut
  · obtain ⟨rfl, rfl⟩ := Prod.mk.inj (Option.some_inj.mp hcut)
    exact List.takeWhile_append_dropWhile

theorem isDeclared_of_cutBlanks? {text blanks rest : List Char}
    (hcut : cutBlanks? text = some (blanks, rest)) : ∀ c ∈ blanks, isDeclared c = true := by
  simp only [cutBlanks?] at hcut
  split at hcut
  · cases hcut
  · obtain ⟨rfl, rfl⟩ := Prod.mk.inj (Option.some_inj.mp hcut)
    exact isDeclared_of_mem_takeWhile

/-- A word with blanks behind it. -/
theorem exists_of_cutWord? {word text front rest : List Char}
    (hcut : cutWord? word text = some (front, rest)) :
    ∃ blanks, front = word ++ blanks ∧ front ++ rest = text ∧
      ∀ c ∈ blanks, isDeclared c = true := by
  rw [cutWord?, Option.bind_eq_bind, Option.bind_eq_some_iff] at hcut
  obtain ⟨behind, hword, hcut⟩ := hcut
  rw [Option.bind_eq_bind, Option.bind_eq_some_iff] at hcut
  obtain ⟨⟨blanks, _⟩, hblanks, heq⟩ := hcut
  obtain ⟨rfl, rfl⟩ := Prod.mk.inj (Option.some_inj.mp heq)
  refine ⟨blanks, rfl, ?_, isDeclared_of_cutBlanks? hblanks⟩
  rw [Text.dropLead?_eq_some_iff.mp hword, List.append_assoc, append_of_cutBlanks? hblanks]

theorem append_of_cutIdentifier? {text name rest : List Char}
    (hcut : cutIdentifier? text = some (name, rest)) : name ++ rest = text := by
  cases text with
  | nil => cases hcut
  | cons c text =>
      rw [cutIdentifier?] at hcut
      split at hcut
      · obtain ⟨rfl, rfl⟩ := Prod.mk.inj (Option.some_inj.mp hcut)
        rw [List.cons_append, List.takeWhile_append_dropWhile]
      · cases hcut

theorem isDeclared_of_cutIdentifier? {text name rest : List Char}
    (hcut : cutIdentifier? text = some (name, rest)) : ∀ c ∈ name, isDeclared c = true := by
  cases text with
  | nil => cases hcut
  | cons c text =>
      rw [cutIdentifier?] at hcut
      split at hcut
      · rename_i hstart
        obtain ⟨rfl, rfl⟩ := Prod.mk.inj (Option.some_inj.mp hcut)
        rw [List.forall_mem_cons]
        constructor
        · exact isDeclared_of_isNamePart (by simp [Assignment.isNamePart, hstart])
        · exact fun d hd => isDeclared_of_isNamePart (List.mem_takeWhile_imp hd)
      · cases hcut

/-- A keyword at the beginning of a declaration. -/
theorem exists_of_cutKeyword? {text front rest : List Char}
    (hcut : (cutWord? ['l', 'e', 't'] text).or
      ((cutWord? ['v', 'a', 'r'] text).or (cutWord? ['c', 'o', 'n', 's', 't'] text)) =
        some (front, rest)) :
    front ++ rest = text ∧ (∃ c ∈ front, Text.isBlank c = false) ∧
      ∀ c ∈ front, isDeclared c = true := by
  have hkeyword : ∀ word : List Char, word.any (!Text.isBlank ·) = true →
      word.all isDeclared = true → cutWord? word text = some (front, rest) →
      front ++ rest = text ∧ (∃ c ∈ front, Text.isBlank c = false) ∧
        ∀ c ∈ front, isDeclared c = true := by
    intro word hletter hword hcut
    obtain ⟨blanks, rfl, htext, hblanks⟩ := exists_of_cutWord? hcut
    obtain ⟨c, hc, hblank⟩ := List.any_eq_true.mp hletter
    refine ⟨htext, ⟨c, List.mem_append_left _ hc, by simpa using hblank⟩, fun d hd => ?_⟩
    rcases List.mem_append.mp hd with hd | hd
    · exact List.all_eq_true.mp hword d hd
    · exact hblanks d hd
  rw [Option.or_eq_some_iff, Option.or_eq_some_iff] at hcut
  rcases hcut with hcut | ⟨-, hcut | ⟨-, hcut⟩⟩
  · exact hkeyword _ rfl rfl hcut
  · exact hkeyword _ rfl rfl hcut
  · exact hkeyword _ rfl rfl hcut

/-- The word `export` in front of a declaration, if it is there. -/
theorem append_getD_cutWord? {word : List Char} (hword : ∀ c ∈ word, isDeclared c = true)
    (text : List Char) :
    ((cutWord? word text).getD ([], text)).1 ++ ((cutWord? word text).getD ([], text)).2 = text ∧
      ∀ c ∈ ((cutWord? word text).getD ([], text)).1, isDeclared c = true := by
  cases hcut : cutWord? word text with
  | none => exact ⟨rfl, by simp⟩
  | some cut =>
      obtain ⟨blanks, hfront, htext, hblanks⟩ := exists_of_cutWord? hcut
      refine ⟨htext, fun c hc => ?_⟩
      rw [Option.getD_some, hfront] at hc
      rcases List.mem_append.mp hc with hc | hc
      · exact hword c hc
      · exact hblanks c hc

/-- Between the name and the colon stand blanks, and perhaps a question mark. -/
theorem exists_gap {text annotation : List Char}
    (hcut : Text.dropLead? [':'] (Text.trimStart
      ((Text.dropLead? ['?'] (Text.trimStart text)).getD (Text.trimStart text))) =
        some annotation) :
    ∃ gap, gap ++ ':' :: annotation = text ∧ ∀ c ∈ gap, isDeclared c = true := by
  have hcolon := Text.dropLead?_eq_some_iff.mp hcut
  have hstart := Text.takeWhile_append_trimStart text
  cases hquestion : Text.dropLead? ['?'] (Text.trimStart text) with
  | none =>
      rw [hquestion, Option.getD_none] at hcolon
      have hblanks := Text.takeWhile_append_trimStart (Text.trimStart text)
      rw [hcolon] at hblanks
      refine ⟨text.takeWhile Text.isBlank ++ (Text.trimStart text).takeWhile Text.isBlank, ?_, ?_⟩
      · rw [List.append_assoc]
        exact (congrArg _ hblanks).trans hstart
      · intro c hc
        rcases List.mem_append.mp hc with hc | hc
        · exact isDeclared_of_mem_takeWhile c hc
        · exact isDeclared_of_mem_takeWhile c hc
  | some behind =>
      rw [hquestion, Option.getD_some] at hcolon
      have hblanks := Text.takeWhile_append_trimStart behind
      rw [hcolon] at hblanks
      refine ⟨text.takeWhile Text.isBlank ++ ['?'] ++ behind.takeWhile Text.isBlank, ?_, ?_⟩
      · rw [List.append_assoc, List.append_assoc]
        refine Eq.trans (congrArg _ ?_) hstart
        rw [Text.dropLead?_eq_some_iff.mp hquestion]
        exact congrArg _ hblanks
      · intro c hc
        simp only [List.mem_append, List.mem_singleton] at hc
        rcases hc with (hc | rfl) | hc
        · exact isDeclared_of_mem_takeWhile c hc
        · rfl
        · exact isDeclared_of_mem_takeWhile c hc

/-- A declaration with an annotation: its head, something between the name and the colon,
and the annotation. -/
theorem exists_of_cutTypedDeclaration? {line head annotation : List Char}
    (hcut : cutTypedDeclaration? line = some (head, annotation)) :
    ∃ gap, head ++ (gap ++ ':' :: annotation) = line ∧ (∃ c ∈ head, Text.isBlank c = false) ∧
      ∀ c ∈ head ++ gap, isDeclared c = true := by
  have hline := Text.takeWhile_append_trimStart line
  obtain ⟨hexported, hexport⟩ := @append_getD_cutWord? ['e', 'x', 'p', 'o', 'r', 't']
    (List.all_eq_true.mp rfl) (Text.trimStart line)
  simp only [cutTypedDeclaration?, Option.bind_eq_bind, Option.bind_eq_some_iff] at hcut
  obtain ⟨⟨keyword, afterKeyword⟩, hkeyword, ⟨name, afterName⟩, hname, later, hcolon, heq⟩ := hcut
  obtain ⟨rfl, rfl⟩ := Prod.mk.inj (Option.some_inj.mp heq)
  obtain ⟨hafterExported, ⟨c, hc, hblank⟩, hkeywordDeclared⟩ := exists_of_cutKeyword? hkeyword
  obtain ⟨gap, hgap, hgapDeclared⟩ := exists_gap hcolon
  refine ⟨gap, ?_, ⟨c, by simp [hc], hblank⟩, ?_⟩
  · rw [hgap]
    simp only [List.append_assoc, append_of_cutIdentifier? hname, hafterExported, hexported, hline]
  · intro d hd
    simp only [List.mem_append] at hd
    rcases hd with (((hd | hd) | hd) | hd) | hd
    · exact isDeclared_of_mem_takeWhile d hd
    · exact hexport d hd
    · exact hkeywordDeclared d hd
    · exact isDeclared_of_cutIdentifier? hname d hd
    · exact hgapDeclared d hd

theorem plainDeclaration_of_none {line : List Char} (huntyped : cutTypedDeclaration? line = none) :
    plainDeclaration line = line := by
  simp only [plainDeclaration, huntyped]

/-- The test for the end of a declaration's annotation. -/
def endsDeclaration (place : Place) : Bool := place.char == ';' || place.isAssignment

theorem plainDeclaration_eq {line head annotation : List Char}
    (hcut : cutTypedDeclaration? line = some (head, annotation)) :
    plainDeclaration line =
      match cutType? endsDeclaration annotation with
      | some (_, ';' :: rest) => head ++ ';' :: rest
      | some (_, value) => head ++ ' ' :: value
      | none => head := by
  simp only [plainDeclaration, hcut]
  rfl

/-- An annotated declaration keeps what follows its type: an assignment is set off by a blank,
a semicolon is not. -/
theorem plainDeclaration_of_cut {line head annotation type found : List Char} {c : Char}
    (hcut : cutTypedDeclaration? line = some (head, annotation))
    (hend : cutType? endsDeclaration annotation = some (type, c :: found)) :
    plainDeclaration line = head ++ ((if c = ';' then [] else [' ']) ++ c :: found) := by
  rw [plainDeclaration_eq hcut, hend]
  by_cases hsemicolon : c = ';'
  · subst hsemicolon
    rfl
  · simp [hsemicolon]

/-- An annotated declaration keeps its head, and loses the stretch with the colon behind
it. -/
theorem exists_of_typedDeclaration {line head annotation : List Char}
    (hcut : cutTypedDeclaration? line = some (head, annotation)) :
    ∃ gap blanks back, ':' ∈ gap ∧ (∀ c ∈ blanks, c = ' ') ∧ line = head ++ (gap ++ back) ∧
      plainDeclaration line = head ++ (blanks ++ back) := by
  obtain ⟨gap, rfl, -⟩ := exists_of_cutTypedDeclaration? hcut
  cases hend : cutType? endsDeclaration annotation with
  | none =>
      refine ⟨gap ++ ':' :: annotation, [], [], by simp, by simp, by simp, ?_⟩
      rw [plainDeclaration_eq hcut, hend]
      simp
  | some cut =>
      obtain ⟨type, found⟩ := cut
      have hannotation : type ++ found = annotation := TopLevelScan.append_of_cut? hend
      obtain ⟨place, rest, rfl, -⟩ := TopLevelScan.exists_of_cut? hend
      refine ⟨gap ++ ':' :: type, if place.char = ';' then [] else [' '], place.char :: rest,
        by simp, ?_, by simp [← hannotation], plainDeclaration_of_cut hcut hend⟩
      intro c hc
      split at hc
      · cases hc
      · simpa using hc

theorem shrinks_plainDeclaration {line : List Char} (htyped : cutTypedDeclaration? line ≠ none) :
    Shrinks line (plainDeclaration line) := by
  obtain ⟨⟨head, annotation⟩, hcut⟩ := Option.ne_none_iff_exists'.mp htyped
  obtain ⟨gap, blanks, back, hcolon, hblanks, hline, hplain⟩ := exists_of_typedDeclaration hcut
  rw [hplain, hline]
  exact shrinks_of_cut head gap blanks back hcolon hblanks

/-- A line keeps its declaration exactly if that has no annotation. -/
theorem plainDeclaration_eq_iff {line : List Char} :
    plainDeclaration line = line ↔ cutTypedDeclaration? line = none :=
  (eq_iff_of_shrinks shrinks_plainDeclaration fun hnone =>
    plainDeclaration_of_none (not_not.mp hnone)).trans not_not

theorem reduces_plainDeclaration (line : List Char) : Reduces line (plainDeclaration line) :=
  reduces_of_shrinks shrinks_plainDeclaration fun hnone =>
    plainDeclaration_of_none (not_not.mp hnone)

/-! ## Both passes -/

theorem reduces_strip (line : List Char) : Reduces line (strip line) :=
  (reduces_plainHead line).trans (reduces_plainDeclaration _)

/-- Stripping leaves a line alone exactly if neither pass finds an annotation in it. -/
theorem strip_eq_iff {line : List Char} :
    strip line = line ↔ ¬ HasTypedHead line ∧ cutTypedDeclaration? line = none := by
  constructor
  · intro heq
    have hsecond := reduces_plainDeclaration (plainHead line)
    rw [show plainDeclaration (plainHead line) = line from heq] at hsecond
    have hhead : plainHead line = line := (reduces_plainHead line).eq_of_trans hsecond
    refine ⟨plainHead_eq_iff.mp hhead, plainDeclaration_eq_iff.mp ?_⟩
    rw [strip, hhead] at heq
    exact heq
  · rintro ⟨hhead, hdeclaration⟩
    rw [strip, plainHead_of_not hhead, plainDeclaration_of_none hdeclaration]

/-- Where there is no colon there is no annotation. Without one every line passes as it is,
whatever stands in it: what the passes take apart they put together again, and each stretch
that they take out has a colon in it. -/
theorem strip_eq_of_colon_notMem {line : List Char} (hcolon : ':' ∉ line) : strip line = line := by
  rcases reduces_strip line with heq | ⟨-, hfewer⟩
  · exact heq
  · rw [List.count_eq_zero_of_not_mem hcolon] at hfewer
    exact absurd hfewer (Nat.not_lt_zero _)

/-- A head with nested patterns, default values, a comparison, a regular expression, blanks,
and literals and brackets that are not closed. -/
theorem strip_eq_of_colon_notMem_unbalanced :
    let line := "function f ( \x7b a, b = [1 < 2]\x7d ,, c='),' , /[)]/) \x7b\x7b ] \"".toList
    ':' ∉ line ∧ (cutFunctionHead? line).isSome ∧ strip line = line :=
  ⟨by decide, by decide, strip_eq_of_colon_notMem (by decide)⟩

/-- Stripping introduces no line feed. -/
theorem lineFeed_notMem_strip {line : List Char} (hline : '\n' ∉ line) : '\n' ∉ strip line := by
  intro hmem
  rcases (reduces_strip line).mem hmem with hmem | hblank
  · exact hline hmem
  · exact absurd hblank (by decide)

/-! ## The first character -/

/-- Behind a character that is not blank, nothing has a say in how a line begins. -/
theorem head?_trimStart_append {front : List Char} (hfront : ∃ c ∈ front, Text.isBlank c = false)
    (back : List Char) :
    (Text.trimStart (front ++ back)).head? = (Text.trimStart front).head? := by
  obtain ⟨c, hc, hblank⟩ := hfront
  obtain ⟨before, after, rfl⟩ := List.append_of_mem hc
  rw [List.append_assoc, List.cons_append, Text.trimStart_append_cons hblank,
    Text.trimStart_append_cons hblank]
  cases Text.trimStart before <;> rfl

theorem head?_trimStart_plainHead (line : List Char) :
    (Text.trimStart (plainHead line)).head? = (Text.trimStart line).head? := by
  by_cases hhead : ∃ head parameters rest, IsHead line head parameters rest
  · obtain ⟨head, parameters, rest, hhead⟩ := hhead
    have hparen : ∃ c ∈ head, Text.isBlank c = false := by
      obtain ⟨inner, hcut, -⟩ := hhead
      obtain ⟨front, rfl, -⟩ := exists_of_cutFunctionHead? hcut
      exact ⟨'(', by simp, by decide⟩
    rw [hhead.plainHead_eq]
    conv_rhs => rw [← hhead.line_eq]
    rw [List.append_assoc, List.append_assoc, head?_trimStart_append hparen,
      head?_trimStart_append hparen]
  · simp only [not_exists] at hhead
    rw [plainHead_of_forall_not_isHead hhead]

theorem head?_trimStart_plainDeclaration (line : List Char) :
    (Text.trimStart (plainDeclaration line)).head? = (Text.trimStart line).head? := by
  cases hcut : cutTypedDeclaration? line with
  | none => rw [plainDeclaration_of_none hcut]
  | some cut =>
      obtain ⟨gap, blanks, back, -, -, hline, hplain⟩ := exists_of_typedDeclaration hcut
      obtain ⟨-, -, hword, -⟩ := exists_of_cutTypedDeclaration? hcut
      rw [hplain, head?_trimStart_append hword]
      conv_rhs => rw [hline]
      rw [head?_trimStart_append hword]

/-- Stripping does not touch the first character of a line behind its blanks. -/
theorem head?_trimStart_strip (line : List Char) :
    (Text.trimStart (strip line)).head? = (Text.trimStart line).head? := by
  rw [strip, head?_trimStart_plainDeclaration, head?_trimStart_plainHead]

end Annotation

end Offside
