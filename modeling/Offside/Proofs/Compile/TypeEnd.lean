/-
# Where an annotation ends

The annotation of a declaration ends at the first assignment or semicolon outside of brackets,
and a type has neither there. So it is taken out as a whole, with whatever stands behind it
copied, however its brackets nest.

The annotation of a result ends at a brace, because the body begins with one. A type may have
braces outside of other brackets as well, those of object types. The first brace with some type
in front of it is taken for the body's. That is right exactly if no object type stands behind
other text.
-/

import Offside.Proofs.Compile.Annotation
import Offside.Proofs.Compile.TypeText
import Offside.Proofs.Statement.Segments

namespace Offside

namespace Annotation

open TopLevelScan

/-! ## The head of a declaration -/

/-- The words that begin a declaration. -/
def declarationWords : List (List Char) :=
  [['l', 'e', 't'], ['v', 'a', 'r'], ['c', 'o', 'n', 's', 't']]

variable {word name text : List Char}

theorem cutBlanks?_blank_cons (htext : ∀ c ∈ text.head?, Text.isBlank c = false) :
    cutBlanks? (' ' :: text) = some ([' '], text) := by
  have hblank : Text.isBlank ' ' = true := rfl
  cases text with
  | nil => rfl
  | cons c text =>
      have hc : Text.isBlank c = false := htext c rfl
      simp [cutBlanks?, hblank, hc]

theorem cutWord?_append (htext : ∀ c ∈ text.head?, Text.isBlank c = false) :
    cutWord? word (word ++ ' ' :: text) = some (word ++ [' '], text) := by
  simp [cutWord?, Text.dropLead?_eq_some_iff.mpr rfl, cutBlanks?_blank_cons htext]

theorem cutIdentifier?_append (hname : Assignment.isIdentifier name = true) {c : Char}
    (hc : Assignment.isNamePart c = false) (text : List Char) :
    cutIdentifier? (name ++ c :: text) = some (name, c :: text) := by
  cases name with
  | nil => cases hname
  | cons first rest =>
      rw [Assignment.isIdentifier, Bool.and_eq_true, List.all_eq_true] at hname
      rw [List.cons_append, cutIdentifier?, if_pos hname.1, takeWhile_append_cons hc,
        dropWhile_append_cons hc, List.takeWhile_eq_self_iff.mpr hname.2,
        List.dropWhile_eq_nil_iff.mpr hname.2, List.nil_append]

theorem isBlank_head?_of_isIdentifier (hname : Assignment.isIdentifier name = true)
    (text : List Char) : ∀ c ∈ (name ++ text).head?, Text.isBlank c = false := by
  have hblank : ∀ c ∈ name, Text.isBlank c = false := fun c hc =>
    Assignment.isBlank_of_isNamePart (Assignment.isNamePart_of_isIdentifier hname c hc)
  exact forall_head?_append (by rintro rfl; cases hname) hblank text

/-- The word of a declaration is read off its front, and no `export` is. -/
theorem cutKeyword?_append (hword : word ∈ declarationWords)
    (htext : ∀ c ∈ text.head?, Text.isBlank c = false) :
    (word ++ ' ' :: text).takeWhile Text.isBlank = [] ∧
      Text.trimStart (word ++ ' ' :: text) = word ++ ' ' :: text ∧
      cutWord? ['e', 'x', 'p', 'o', 'r', 't'] (word ++ ' ' :: text) = none ∧
      (cutWord? ['l', 'e', 't'] (word ++ ' ' :: text)).or
        ((cutWord? ['v', 'a', 'r'] (word ++ ' ' :: text)).or
          (cutWord? ['c', 'o', 'n', 's', 't'] (word ++ ' ' :: text))) =
        some (word ++ [' '], text) := by
  have hcut : cutWord? word (word ++ ' ' :: text) = some (word ++ [' '], text) :=
    cutWord?_append htext
  simp only [declarationWords, List.mem_cons, List.not_mem_nil, or_false] at hword
  rcases hword with rfl | rfl | rfl
  · exact ⟨rfl, rfl, rfl, by rw [hcut, Option.some_or]⟩
  · refine ⟨rfl, rfl, rfl, ?_⟩
    rw [hcut, Option.some_or]
    rfl
  · refine ⟨rfl, rfl, rfl, ?_⟩
    rw [hcut]
    rfl

/-- An annotated declaration is cut in front of its name's colon and behind it. -/
theorem cutTypedDeclaration?_append (hword : word ∈ declarationWords)
    (hname : Assignment.isIdentifier name = true) (behind : List Char) :
    cutTypedDeclaration? (word ++ ' ' :: (name ++ ':' :: behind)) =
      some (word ++ ' ' :: name, behind) := by
  obtain ⟨hblanks, hstart, hexport, hkeyword⟩ :=
    cutKeyword?_append hword (isBlank_head?_of_isIdentifier hname (':' :: behind))
  have hcut : cutIdentifier? (name ++ ':' :: behind) = some (name, ':' :: behind) :=
    cutIdentifier?_append hname rfl behind
  have hcolon : Text.trimStart (':' :: behind) = ':' :: behind := rfl
  have hquestion : Text.dropLead? ['?'] (':' :: behind) = none := rfl
  have hdrop : Text.dropLead? [':'] (':' :: behind) = some behind := rfl
  simp [cutTypedDeclaration?, hblanks, hstart, hexport, hkeyword, hcut, hcolon, hquestion, hdrop]

/-! ## Declarations -/

theorem isAssignment_of_isOfType {place : Place} (htype : place.isOfType = true) :
    place.isAssignment = false := by
  obtain ⟨blank, c, ahead⟩ := place
  by_contra hassigns
  simp only [Place.isAssignment, Bool.not_eq_false, Bool.and_eq_true, beq_iff_eq, bne_iff_ne]
    at hassigns
  obtain ⟨⟨rfl, harrow⟩, -⟩ := hassigns
  have hnone : typeCloserOf? '=' = none := rfl
  have hchar : isTypeChar '=' = false := rfl
  simp [Place.isOfType, hnone, hchar, harrow] at htype

theorem endsDeclaration_of_isOfType {place : Place} (htype : place.isOfType = true) :
    endsDeclaration place = false := by
  rw [endsDeclaration, isAssignment_of_isOfType htype, Bool.or_false, beq_eq_false_iff_ne]
  obtain ⟨blank, c, ahead⟩ := place
  rintro rfl
  cases htype

/-- Declarations lose their annotation and nothing else. Behind the name, a type of any shape
goes, up to an assignment, up to a semicolon, or as far as the line goes; what follows is
copied, whatever it is. -/
theorem plainDeclaration_typed {type : List Char} (hword : word ∈ declarationWords)
    (hname : Assignment.isIdentifier name = true) (htype : TypeText false type)
    (rest : List Char) :
    plainDeclaration (word ++ ' ' :: (name ++ [':', ' '] ++ type ++ [' ', '=', ' '] ++ rest)) =
        word ++ ' ' :: (name ++ [' ', '=', ' '] ++ rest) ∧
      plainDeclaration (word ++ ' ' :: (name ++ [':', ' '] ++ type ++ ';' :: rest)) =
        word ++ ' ' :: (name ++ ';' :: rest) ∧
      plainDeclaration (word ++ ' ' :: (name ++ [':', ' '] ++ type)) = word ++ ' ' :: name := by
  have hcut := cutTypedDeclaration?_append hword hname
  have hspaced : TypeText false (' ' :: type) := .char rfl htype
  have hspaced' : TypeText false (' ' :: type ++ [' ']) := hspaced.append (.char rfl .nil)
  have hstop := fun place => @endsDeclaration_of_isOfType place
  refine ⟨?_, ?_, ?_⟩
  · have hend : cutType? endsDeclaration (' ' :: type ++ [' '] ++ '=' :: ' ' :: rest) =
        some (' ' :: type ++ [' '], '=' :: ' ' :: rest) :=
      hspaced'.cut?_append .init hstop rfl (' ' :: rest) fun _ => rfl
    have hline := plainDeclaration_eq (hcut (' ' :: type ++ [' '] ++ '=' :: ' ' :: rest))
    rw [hend] at hline
    simpa using hline
  · have hend : cutType? endsDeclaration (' ' :: type ++ ';' :: rest) =
        some (' ' :: type, ';' :: rest) := hspaced.cut?_append .init hstop rfl rest fun _ => rfl
    have hline := plainDeclaration_eq (hcut (' ' :: type ++ ';' :: rest))
    rw [hend] at hline
    simpa using hline
  · have hend : cutType? endsDeclaration (' ' :: type) = none := hspaced.cut?_eq_none .init hstop
    have hline := plainDeclaration_eq (hcut (' ' :: type))
    rw [hend] at hline
    simpa using hline

/-- A type with an arrow, and with a comma between angle brackets. -/
theorem plainDeclaration_typed_arrow :
    let type := ['(', 'e', ':', ' ', 'M', '<', 'K', ',', 'V', '>', ')', ' ', '=', '>', ' ', 'U']
    ['v', 'a', 'r'] ∈ declarationWords ∧ Assignment.isIdentifier ['f'] = true ∧
      TypeText false type ∧
      plainDeclaration (['v', 'a', 'r', ' ', 'f', ':', ' '] ++ type ++ [' ', '=', ' ', '/', '\'']) =
        ['v', 'a', 'r', ' ', 'f', ' ', '=', ' ', '/', '\''] := by
  intro type
  have hkeys : TypeText true ['K', ',', 'V'] := .char rfl (.separator (.inl rfl) (.of_all rfl))
  have hmap : TypeText true ['<', 'K', ',', 'V', '>'] := .group rfl hkeys .nil
  have hinner : TypeText true ['e', ':', ' ', 'M', '<', 'K', ',', 'V', '>'] :=
    .char rfl (.char rfl (.char rfl (.char rfl hmap)))
  have htype : TypeText false type := .group rfl hinner (.char rfl (.arrow (.of_all rfl)))
  have hword : ['v', 'a', 'r'] ∈ declarationWords := by decide
  have hname : Assignment.isIdentifier ['f'] = true := by decide
  exact ⟨hword, hname, htype, (plainDeclaration_typed hword hname htype ['/', '\'']).1⟩

/-! ## Results -/

/-- An object type stands in the type behind other text, outside of brackets. -/
def HasLaterObject (type : List Char) : Prop :=
  ∃ before inner after, type = before ++ '\x7b' :: inner ++ '\x7d' :: after ∧
    Text.allBlank before = false ∧ TypeText false before ∧ TypeText true inner ∧
      TypeText false after

theorem beginsBody_of_ne {place : Place} (hchar : place.char ≠ '\x7b') :
    beginsBody place = false := by
  simp [beginsBody, hchar]

variable {type : List Char} {scan : TopLevelScan}

/-- Behind some text, a brace outside of brackets is taken for the one of the body. -/
theorem cut?_brace (hscan : scan.InType 0 0) (hbehind : scan.blankSoFar = false)
    (rest : List Char) : scan.cut? beginsBody ('\x7b' :: rest) = some ([], '\x7b' :: rest) :=
  cut?_of_stopsAt (stopsAt_of_clean hscan.clean rfl hscan.atTop (by
    simp [beginsBody, place, hbehind]))

/-- On the way to a body the type is passed, or an object type in it is taken for the body. -/
def PassesOrStops (scan : TopLevelScan) (type back : List Char) : Prop :=
  scan.Passes beginsBody back.head? type ∨
    ∃ before inner after, type = before ++ '\x7b' :: inner ++ '\x7d' :: after ∧
      (scan.blankSoFar && Text.allBlank before) = false ∧ TypeText false before ∧
        TypeText true inner ∧ TypeText false after ∧
          scan.cut? beginsBody (type ++ back) =
            some (before, '\x7b' :: inner ++ '\x7d' :: after ++ back)

/-- A part that is passed may stand in front. -/
theorem PassesOrStops.append {front back : List Char} (hfront : TypeText false front)
    (hpasses : scan.Passes beginsBody (type ++ back).head? front)
    (hrest : PassesOrStops (scan.run (type ++ back).head? front) type back) :
    PassesOrStops scan (front ++ type) back := by
  rcases hrest with hrest | ⟨before, inner, after, rfl, hblank, hbefore, hinner, hafter, hcut⟩
  · left
    rw [List.head?_append] at hpasses hrest
    exact passes_append.mpr ⟨hpasses, hrest⟩
  · refine .inr ⟨front ++ before, inner, after, by simp, ?_, hfront.append hbefore, hinner,
      hafter, ?_⟩
    · rw [blankSoFar_run] at hblank
      rw [← hblank]
      simp [Text.allBlank, Bool.and_assoc]
    · rw [List.append_assoc front, hpasses.cut?_append, hcut]
      rfl

theorem passesOrStops (htype : TypeText false type) (hscan : scan.InType 0 0)
    (back : List Char) : PassesOrStops scan type back := by
  generalize hinside : false = inside at htype
  induction htype generalizing scan with
  | nil => exact .inl trivial
  | @char inside c rest hc hrest ih =>
      subst hinside
      have hchar : c ≠ '\x7b' := by
        rintro rfl
        cases hc
      rw [← List.singleton_append]
      refine .append (.char hc .nil) ⟨stopsAt_eq_false (.inr (beginsBody_of_ne hchar)), trivial⟩
        (ih ?_ rfl)
      exact hscan.advance_char hc _
  | separator => cases hinside
  | @arrow inside rest hrest ih =>
      subst hinside
      have hequals : '=' ≠ '\x7b' := by decide
      have hgreater : '>' ≠ '\x7b' := by decide
      rw [show '=' :: '>' :: rest = ['=', '>'] ++ rest from rfl]
      refine .append (.arrow .nil) ⟨?_, ?_, trivial⟩ (ih (hscan.advance_arrow _).2 rfl)
      · exact stopsAt_eq_false (.inr (beginsBody_of_ne hequals))
      · exact stopsAt_eq_false (.inr (beginsBody_of_ne hgreater))
  | @group inside opener closer inner rest hpair hinner hrest _ ih =>
      subst hinside
      by_cases hbody : opener = '\x7b' ∧ scan.blankSoFar = false
      · obtain ⟨rfl, hblank⟩ := hbody
        obtain rfl : '\x7d' = closer := Option.some_inj.mp hpair
        exact .inr ⟨[], inner, rest, rfl, by simp [hblank], .nil, hinner, hrest,
          cut?_brace hscan hblank _⟩
      · have hopener : ∀ ahead, beginsBody (scan.place opener ahead) = false := by
          intro ahead
          rw [not_and_or, Bool.not_eq_false] at hbody
          rcases hbody with hchar | hblank
          · exact beginsBody_of_ne hchar
          · simp [beginsBody, place, hblank]
        have htext : opener :: inner ++ closer :: rest = opener :: (inner ++ [closer]) ++ rest := by
          simp
        have hdeeper : ∀ {scan : TopLevelScan} {depth angles : Nat}, scan.InType depth angles →
            0 < depth + angles → ∀ next, scan.Passes beginsBody next inner ∧
              (scan.run next inner).InType depth angles :=
          fun hscan hdeep => hinner.passes hscan (fun _ => hdeep) (.inl hdeep)
        have hpassed := hscan.passes_pair hpair hdeeper (.inr hopener) (rest ++ back).head?
        have hfront : TypeText false (opener :: inner ++ [closer]) := .group hpair hinner .nil
        rw [htext]
        exact .append (by simpa using hfront) hpassed.1 (ih hpassed.2 rfl)

/-- Behind some text that is passed, the next brace is taken for the one of the body. -/
theorem cut?_behind (htype : TypeText false type) (hscan : scan.InType 0 0)
    (hblank : Text.allBlank type = false) (hpasses : scan.Passes beginsBody (some '\x7b') type)
    (rest : List Char) :
    scan.cut? beginsBody (type ++ '\x7b' :: rest) = some (type, '\x7b' :: rest) := by
  have hbehind : (scan.run (some '\x7b') type).blankSoFar = false := by
    rw [blankSoFar_run, hblank, Bool.and_false]
  have hpasses' : scan.Passes beginsBody ('\x7b' :: rest).head? type := hpasses
  rw [hpasses'.cut?_append, List.head?_cons, cut?_brace (htype.inType_run hscan _) hbehind]
  simp

/-- The scan of a result meets its type with nothing but a blank in front, and what it finds
then is kept. -/
theorem exists_plainResult_eq (type back : List Char) :
    ∃ scan : TopLevelScan, scan.InType 0 0 ∧ scan.blankSoFar = true ∧
      ∀ before found, scan.cut? beginsBody (type ++ back) = some (before, found) →
        plainResult (':' :: ' ' :: (type ++ back)) = ' ' :: found := by
  refine ⟨({ inType := true } : TopLevelScan).advance ' ' (type ++ back).head?,
    InType.init.advance_char rfl _, rfl, fun before found hcut => ?_⟩
  have hpasses : ({ inType := true } : TopLevelScan).Passes beginsBody (type ++ back).head? [' '] :=
    ⟨stopsAt_eq_false (.inr rfl), trivial⟩
  have hstart : Text.trimStart (':' :: ' ' :: (type ++ back)) = ':' :: ' ' :: (type ++ back) := rfl
  have hend : cutType? beginsBody (' ' :: (type ++ back)) = some (' ' :: before, found) := by
    have happend := hpasses.cut?_append
    simp only [run, List.head?_nil, Option.none_or, hcut] at happend
    exact happend
  unfold beginsBody at hend
  simp only [plainResult, hstart, hend]

/-- A result loses its type and nothing else exactly if no object type stands in the type
behind other text. -/
theorem plainResult_typed_iff (htype : TypeText false type) (hblank : Text.allBlank type = false)
    (tail : List Char) :
    plainResult ([':', ' '] ++ type ++ [' ', '\x7b'] ++ tail) = [' ', '\x7b'] ++ tail ↔
      ¬ HasLaterObject type := by
  obtain ⟨scan, hscan, hfresh, hplain⟩ := exists_plainResult_eq type (' ' :: '\x7b' :: tail)
  have htext : [':', ' '] ++ type ++ [' ', '\x7b'] ++ tail =
      ':' :: ' ' :: (type ++ ' ' :: '\x7b' :: tail) := by simp
  rw [htext]
  constructor
  · rintro heq ⟨before, inner, after, rfl, hbehind, hbefore, -, -⟩
    -- The cut falls in front of the later object at the latest, so too much is kept.
    have hcut : ∃ front found, scan.cut? beginsBody (before ++ '\x7b' :: (inner ++
        '\x7d' :: (after ++ ' ' :: '\x7b' :: tail))) = some (front, found) ∧
          tail.length + 1 < found.length := by
      rcases passesOrStops hbefore hscan ('\x7b' :: (inner ++ '\x7d' :: (after ++
        ' ' :: '\x7b' :: tail))) with hpasses | ⟨front, object, later, -, -, -, -, -, hcut⟩
      · refine ⟨_, _, cut?_behind hbefore hscan hbehind hpasses _, ?_⟩
        simp only [List.length_cons, List.length_append]
        omega
      · refine ⟨_, _, hcut, ?_⟩
        simp only [List.length_cons, List.length_append]
        omega
    obtain ⟨front, found, hcut, hlonger⟩ := hcut
    simp only [List.append_assoc, List.cons_append] at hplain heq
    rw [hplain front found hcut] at heq
    have hlength := congrArg List.length heq
    simp only [List.length_append, List.length_cons, List.length_nil] at hlength
    omega
  · intro hnone
    rcases passesOrStops htype hscan (' ' :: '\x7b' :: tail) with
      hpasses | ⟨before, inner, after, hsplit, hbehind, hbefore, hinner, hafter, -⟩
    · have hspaced : TypeText false (type ++ [' ']) := htype.append (.char rfl .nil)
      have hpasses' : scan.Passes beginsBody (some '\x7b') (type ++ [' ']) :=
        passes_append.mpr ⟨hpasses, stopsAt_eq_false (.inr rfl), trivial⟩
      have hblank' : Text.allBlank (type ++ [' ']) = false := by
        rw [Text.allBlank] at hblank
        rw [Text.allBlank, List.all_append, hblank, Bool.false_and]
      have hcut := cut?_behind hspaced hscan hblank' hpasses' tail
      rw [List.append_assoc] at hcut
      rw [hplain _ _ hcut]
      rfl
    · rw [hfresh, Bool.true_and] at hbehind
      exact absurd ⟨before, inner, after, hsplit, hbehind, hbefore, hinner, hafter⟩ hnone

/-- With its object type in front, a type leaves the brace behind it to the body. -/
theorem plainResult_typed_iff_front :
    let type := ['\x7b', 'a', ':', ' ', 'B', '\x7d', ' ', '&', ' ', 'C']
    TypeText false type ∧ Text.allBlank type = false ∧
      plainResult ([':', ' '] ++ type ++ [' ', '\x7b'] ++ []) = [' ', '\x7b'] ∧
      ¬ HasLaterObject type := by
  intro type
  have hobject : TypeText true ['a', ':', ' ', 'B'] := .of_all rfl
  have htype : TypeText false type := .group rfl hobject (.of_all rfl)
  have hplain : plainResult ([':', ' '] ++ type ++ [' ', '\x7b'] ++ []) = [' ', '\x7b'] := by
    decide +kernel
  exact ⟨htype, rfl, hplain, (plainResult_typed_iff htype rfl []).mp hplain⟩

/-- An object type behind another type is taken for the body, and stays. -/
theorem plainResult_typed_ne :
    ¬ ∀ type tail, TypeText false type → Text.allBlank type = false →
      plainResult ([':', ' '] ++ type ++ [' ', '\x7b'] ++ tail) = [' ', '\x7b'] ++ tail := by
  intro hplain
  have hinner : TypeText true ['b', ':', ' ', 'c'] := .of_all rfl
  have hobject : TypeText false ['\x7b', 'b', ':', ' ', 'c', '\x7d'] := .group rfl hinner .nil
  have htype : TypeText false ['A', ' ', '|', ' ', '\x7b', 'b', ':', ' ', 'c', '\x7d'] :=
    .char rfl (.char rfl (.char rfl (.char rfl hobject)))
  have hkept := hplain _ ['\x7d'] htype rfl
  revert hkept
  decide +kernel

end Annotation

end Offside
