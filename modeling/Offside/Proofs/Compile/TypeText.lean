/-
# Types as text

A type is text in which brackets nest, and angle brackets with them. Commas and semicolons
stand inside brackets only, and the `>` of an arrow is no bracket. Nothing else is said of
types: a text with all that is one, whatever it means.

A scan that is in type position goes through such a text from level to level and comes out at
the level at which it went in. On the way it can stop at the outermost level only, and there it
meets no closing bracket, no comma, no semicolon and no assignment.
-/

import Offside.Proofs.Compile.Passage

namespace Offside

/-- Characters that stand for themselves in a type, wherever they stand. -/
def isTypeChar (c : Char) : Bool := isInert c && !([',', ';', '=', '<', '>'].contains c)

/-- What closes an opening bracket in a type. -/
def typeCloserOf? (opener : Char) : Option Char :=
  if opener = '<' then some '>' else closerOf? opener

/-- The text of a type, or of what may stand inside the brackets of one. -/
inductive TypeText : (inside : Bool) → List Char → Prop
  /-- Nothing. -/
  | nil {inside : Bool} : TypeText inside []
  /-- A character that stands for itself. -/
  | char {inside : Bool} {c : Char} {rest : List Char} (hc : isTypeChar c = true)
      (hrest : TypeText inside rest) : TypeText inside (c :: rest)
  /-- A comma or a semicolon, inside brackets. -/
  | separator {c : Char} {rest : List Char} (hc : c = ',' ∨ c = ';')
      (hrest : TypeText true rest) : TypeText true (c :: rest)
  /-- An arrow. -/
  | arrow {inside : Bool} {rest : List Char} (hrest : TypeText inside rest) :
      TypeText inside ('=' :: '>' :: rest)
  /-- A pair of brackets. -/
  | group {inside : Bool} {opener closer : Char} {inner rest : List Char}
      (hpair : typeCloserOf? opener = some closer) (hinner : TypeText true inner)
      (hrest : TypeText inside rest) : TypeText inside (opener :: inner ++ closer :: rest)

/-- A place at which a part of a type begins, or at which the `>` of an arrow stands. -/
def Place.isOfType (place : Place) : Bool :=
  isTypeChar place.char || (typeCloserOf? place.char).isSome || place.char == '>' ||
    (place.char == '=' && place.ahead == some '>')

/-! ## Characters of a type -/

section Char

variable {c : Char}

theorem isInert_of_isTypeChar (hc : isTypeChar c = true) : isInert c = true :=
  (Bool.and_eq_true_iff.mp hc).1

theorem isDelimiter_of_isInert (hc : isInert c = true) : BracketScan.isDelimiter c = false := by
  simp only [isInert, Bool.not_eq_true', Bool.or_eq_false_iff] at hc
  exact hc.1.1

/-- A class of characters that are all plain in a type. -/
theorem isTypeChar_of_class {p : Char → Bool}
    (hp : ['"', '\'', '\x60', '/', '(', '[', '\x7b', ')', ']', '\x7d'].any p = false)
    (hp' : [',', ';', '=', '<', '>'].any p = false) (hc : p c = true) : isTypeChar c = true := by
  rw [isTypeChar, isInert_of_class hp hc, Bool.true_and, Bool.not_eq_true']
  by_contra hmem
  rw [Bool.not_eq_false, List.contains_iff_mem] at hmem
  exact List.any_eq_false.mp hp' c hmem hc

theorem isDelimiter_of_typeCloserOf? {closer : Char} (hpair : typeCloserOf? c = some closer) :
    BracketScan.isDelimiter c = false ∧ BracketScan.isDelimiter closer = false := by
  unfold typeCloserOf? closerOf? at hpair
  split at hpair
  · rename_i hangle
    cases hpair
    rw [hangle]
    decide
  · split at hpair <;> cases hpair <;> decide

end Char

/-! ## Levels -/

namespace TopLevelScan

/-- The scan is in type position, so many brackets and angle brackets deep, and the character
before does not make an arrow of a `>`. -/
structure InType (scan : TopLevelScan) (depth angles : Nat) : Prop where
  clean : scan.walk.Clean
  depth : scan.depth = depth
  angles : scan.angles = angles
  inType : scan.inType = true
  previous : scan.previous ≠ some '='

variable {scan : TopLevelScan} {depth angles : Nat} {c : Char} {ahead : Option Char}

/-- A plain character leaves brackets and type position alone, but for a colon outside types. -/
theorem count_of_isTypeChar (hc : isTypeChar c = true) (hcolon : c = ':' → scan.inType = true)
    (ahead : Option Char) : scan.count c ahead = scan := by
  have hinert := isInert_of_isTypeChar hc
  simp only [isInert, Bool.not_eq_true', Bool.or_eq_false_iff] at hinert
  simp only [isTypeChar, List.contains_cons, Bool.and_eq_true, Bool.not_eq_true',
    Bool.or_eq_false_iff, beq_eq_false_iff_ne] at hc
  obtain ⟨-, hcomma, hsemicolon, hequals, hless, hgreater, -⟩ := hc
  by_cases hc : c = ':'
  · obtain ⟨walk, depth, angles, inType, previous, blankSoFar⟩ := scan
    obtain rfl : inType = true := hcolon hc
    simp [count, hc, closerOf?, isCloser, place, Place.isAssignment]
  · simp [count, hinert, place, Place.isAssignment, hcomma, hsemicolon, hequals, hless, hgreater,
      hc]

/-- The `=` of an arrow is no assignment. -/
theorem count_arrow (scan : TopLevelScan) : scan.count '=' (some '>') = scan := by
  simp [count, closerOf?, isCloser, place, Place.isAssignment]

theorem ne_atTop (hdeep : 0 < scan.depth + scan.angles) : scan.atTop = false := by
  rw [atTop, Bool.and_eq_false_iff, beq_eq_false_iff_ne, beq_eq_false_iff_ne]
  omega

/-- A scan stops at the outermost level only, and there where the test accepts. -/
theorem stopsAt_eq_false {stop : Place → Bool}
    (hstop : 0 < scan.depth + scan.angles ∨ stop (scan.place c ahead) = false) :
    scan.stopsAt stop c ahead = false := by
  rcases hstop with hdeep | hstop
  · simp [stopsAt, ne_atTop hdeep]
  · simp [stopsAt, hstop]

namespace InType

theorem init : ({ inType := true } : TopLevelScan).InType 0 0 :=
  ⟨WalkState.clean_init, rfl, rfl, rfl, by decide⟩

theorem atTop (hscan : scan.InType 0 0) : scan.atTop = true := by
  rw [TopLevelScan.atTop, hscan.depth, hscan.angles]
  rfl

theorem level (hscan : scan.InType depth angles) :
    scan.depth + scan.angles = depth + angles := by
  rw [hscan.depth, hscan.angles]

/-- Brackets and angle brackets of the state behind a character are those counted. -/
theorem advance (hscan : scan.InType depth angles) (hc : BracketScan.isDelimiter c = false)
    {depth' angles' : Nat} (hdepth : (scan.count c ahead).depth = depth')
    (hangles : (scan.count c ahead).angles = angles')
    (htype : (scan.count c ahead).inType = true) (hne : c ≠ '=') :
    (scan.advance c ahead).InType depth' angles' := by
  obtain ⟨hdepth', hangles', htype'⟩ := advance_of_clean hscan.clean hc ahead
  exact ⟨clean_advance hscan.clean hc ahead, hdepth'.trans hdepth, hangles'.trans hangles,
    htype'.trans htype, by simpa [TopLevelScan.advance] using hne⟩

/-- A character that counts for nothing changes nothing. -/
theorem advance_idle (hscan : scan.InType depth angles) (hc : BracketScan.isDelimiter c = false)
    (hidle : scan.count c ahead = scan) (hne : c ≠ '=') :
    (scan.advance c ahead).InType depth angles :=
  hscan.advance hc (by rw [hidle, hscan.depth]) (by rw [hidle, hscan.angles])
    (by rw [hidle, hscan.inType]) hne

theorem advance_char (hscan : scan.InType depth angles) (hc : isTypeChar c = true)
    (ahead : Option Char) : (scan.advance c ahead).InType depth angles := by
  refine hscan.advance_idle (isDelimiter_of_isInert (isInert_of_isTypeChar hc))
    (count_of_isTypeChar hc (fun _ => hscan.inType) ahead) ?_
  rintro rfl
  exact absurd hc (by decide)

theorem advance_separator (hscan : scan.InType depth angles) (hdeep : 0 < depth + angles)
    (hc : c = ',' ∨ c = ';') (ahead : Option Char) :
    (scan.advance c ahead).InType depth angles := by
  have htop := ne_atTop (hscan.level ▸ hdeep)
  rcases hc with rfl | rfl
  · exact hscan.advance_idle rfl (by simp [count, closerOf?, isCloser, htop]) (by decide)
  · exact hscan.advance_idle rfl (by simp [count, closerOf?, isCloser, htop]) (by decide)

/-- The `=` of an arrow leaves the level, and its `>` closes no angle bracket. -/
theorem advance_arrow (hscan : scan.InType depth angles) (ahead : Option Char) :
    (scan.advance '=' (some '>')).depth + (scan.advance '=' (some '>')).angles = depth + angles ∧
      ((scan.advance '=' (some '>')).advance '>' ahead).InType depth angles := by
  have hequals : BracketScan.isDelimiter '=' = false := rfl
  have hgreater : BracketScan.isDelimiter '>' = false := rfl
  obtain ⟨hdepth, hangles, htype⟩ := advance_of_clean hscan.clean hequals (some '>')
  have hclean := clean_advance hscan.clean hequals (some '>')
  rw [count_arrow] at hdepth hangles htype
  generalize hbehind : scan.advance '=' (some '>') = behind at *
  have hprevious : behind.previous = some '=' := by rw [← hbehind, TopLevelScan.advance]
  have hcount : behind.count '>' ahead = behind := by
    simp [count, closerOf?, isCloser, place, Place.isAssignment, hprevious]
  obtain ⟨hdepth', hangles', htype'⟩ := advance_of_clean hclean hgreater ahead
  rw [hcount, hdepth, hscan.depth] at hdepth'
  rw [hcount, hangles, hscan.angles] at hangles'
  rw [hcount, htype, hscan.inType] at htype'
  refine ⟨by rw [hdepth, hangles, hscan.level], clean_advance hclean hgreater ahead, hdepth',
    hangles', htype', ?_⟩
  simp [TopLevelScan.advance]

/-- A pair of brackets leads one level in and back again. -/
theorem advance_pair {opener closer : Char} (hscan : scan.InType depth angles)
    (hpair : typeCloserOf? opener = some closer) (ahead : Option Char) :
    ∃ depth' angles', 0 < depth' + angles' ∧
      (scan.advance opener ahead).InType depth' angles' ∧
        ∀ {inner : TopLevelScan} (ahead' : Option Char), inner.InType depth' angles' →
          (inner.advance closer ahead').InType depth angles := by
  obtain ⟨hopener, hcloser⟩ := isDelimiter_of_typeCloserOf? hpair
  unfold typeCloserOf? at hpair
  split at hpair
  · rename_i hangle
    subst hangle
    cases hpair
    refine ⟨depth, angles + 1, by omega, ?_, fun {inner} ahead' hinner => ?_⟩
    · have hcount : scan.count '<' ahead = { scan with angles := scan.angles + 1 } := by
        simp [count, closerOf?, isCloser, hscan.inType]
      exact hscan.advance hopener (by rw [hcount, hscan.depth]) (by rw [hcount, hscan.angles])
        (by rw [hcount, hscan.inType]) (by decide)
    · have hcount : inner.count '>' ahead' = { inner with angles := inner.angles - 1 } := by
        simp [count, closerOf?, isCloser, hinner.angles, hinner.previous]
      exact hinner.advance hcloser (by rw [hcount, hinner.depth])
        (by rw [hcount, hinner.angles, Nat.add_sub_cancel]) (by rw [hcount, hinner.inType])
        (by decide)
  · have hequals : opener ≠ '=' ∧ closer ≠ '=' ∧ (closerOf? closer) = none ∧
        isCloser closer = true := by
      unfold closerOf? at hpair
      split at hpair <;> cases hpair <;> decide
    refine ⟨depth + 1, angles, by omega, ?_, fun {inner} ahead' hinner => ?_⟩
    · have hcount : scan.count opener ahead = { scan with depth := scan.depth + 1 } := by
        simp [count, depthAfter, hpair]
      exact hscan.advance hopener (by rw [hcount, hscan.depth]) (by rw [hcount, hscan.angles])
        (by rw [hcount, hscan.inType]) hequals.1
    · have hcount : inner.count closer ahead' = { inner with depth := inner.depth - 1 } := by
        simp [count, depthAfter, hequals]
      exact hinner.advance hcloser (by rw [hcount, hinner.depth, Nat.add_sub_cancel])
        (by rw [hcount, hinner.angles]) (by rw [hcount, hinner.inType]) hequals.2.1

/-- A pair of brackets is passed if what stands in it is. -/
theorem passes_pair {stop : Place → Bool} {opener closer : Char} {inner : List Char}
    (hscan : scan.InType depth angles) (hpair : typeCloserOf? opener = some closer)
    (hinner : ∀ {scan : TopLevelScan} {depth angles : Nat}, scan.InType depth angles →
      0 < depth + angles → ∀ next, scan.Passes stop next inner ∧
        (scan.run next inner).InType depth angles)
    (hstop : 0 < depth + angles ∨ ∀ ahead, stop (scan.place opener ahead) = false)
    (next : Option Char) :
    scan.Passes stop next (opener :: (inner ++ [closer])) ∧
      (scan.run next (opener :: (inner ++ [closer]))).InType depth angles := by
  obtain ⟨depth', angles', hdeep, hopen, hclose⟩ :=
    hscan.advance_pair hpair ((inner ++ [closer]).head?.or next)
  obtain ⟨hpasses, hbefore⟩ := hinner hopen hdeep (some closer)
  rw [passes_cons, passes_append, TopLevelScan.run_cons, TopLevelScan.run_append]
  refine ⟨⟨stopsAt_eq_false ?_, hpasses, stopsAt_eq_false ?_, trivial⟩, hclose _ hbefore⟩
  · rw [hscan.level]
    exact hstop.imp_right fun hstop => hstop _
  · exact .inl (hbefore.level ▸ hdeep)

end InType

end TopLevelScan

/-! ## Through a type -/

namespace TypeText

open TopLevelScan

variable {inside : Bool} {text : List Char} {scan : TopLevelScan} {stop : Place → Bool}
  {depth angles : Nat}

theorem append {first second : List Char} (hfirst : TypeText inside first)
    (hsecond : TypeText inside second) : TypeText inside (first ++ second) := by
  induction hfirst with
  | nil => exact hsecond
  | char hc _ ih => exact .char hc (ih hsecond)
  | separator hc _ ih => exact .separator hc (ih hsecond)
  | arrow _ ih => exact .arrow (ih hsecond)
  | @group inside opener closer inner rest hpair hinner _ _ ihrest =>
      have htext := TypeText.group hpair hinner (ihrest hsecond)
      simpa using htext

theorem of_all (hall : text.all isTypeChar = true) : TypeText inside text := by
  induction text with
  | nil => exact .nil
  | cons c text ih =>
      rw [List.all_cons, Bool.and_eq_true] at hall
      exact .char hall.1 (ih hall.2)

/-- A scan in type position passes a type, and is at the same level behind it. -/
theorem passes (htext : TypeText inside text) (hscan : scan.InType depth angles)
    (hinside : inside = true → 0 < depth + angles)
    (hstop : 0 < depth + angles ∨ ∀ place : Place, place.isOfType = true → stop place = false)
    (next : Option Char) :
    scan.Passes stop next text ∧ (scan.run next text).InType depth angles := by
  induction htext generalizing scan depth angles next with
  | nil => exact ⟨trivial, hscan⟩
  | @char inside c rest hc _ ih =>
      obtain ⟨hrest, hafter⟩ := ih (hscan.advance_char hc (rest.head?.or next)) hinside hstop next
      rw [← hscan.level] at hstop
      refine ⟨⟨stopsAt_eq_false (hstop.imp_right fun hstop => hstop _ ?_), hrest⟩, hafter⟩
      simp [Place.isOfType, place, hc]
  | @separator c rest hc _ ih =>
      have hdeep := hinside rfl
      obtain ⟨hrest, hafter⟩ :=
        ih (hscan.advance_separator hdeep hc (rest.head?.or next)) hinside hstop next
      exact ⟨⟨stopsAt_eq_false (.inl (hscan.level ▸ hdeep)), hrest⟩, hafter⟩
  | @arrow inside rest _ ih =>
      obtain ⟨hlevel, harrow⟩ := hscan.advance_arrow (rest.head?.or next)
      obtain ⟨hrest, hafter⟩ := ih harrow hinside hstop next
      refine ⟨⟨stopsAt_eq_false ?_, stopsAt_eq_false ?_, hrest⟩, hafter⟩
      · rw [hscan.level]
        exact hstop.imp_right fun hstop => hstop _ rfl
      · exact hstop.imp (fun hdeep => hlevel ▸ hdeep) fun hstop => hstop _ rfl
  | @group inside opener closer inner rest hpair _ _ ihinner ihrest =>
      have htext : opener :: inner ++ closer :: rest = opener :: (inner ++ [closer]) ++ rest := by
        simp
      have hinner : ∀ {scan : TopLevelScan} {depth angles : Nat}, scan.InType depth angles →
          0 < depth + angles → ∀ next, scan.Passes stop next inner ∧
            (scan.run next inner).InType depth angles :=
        fun hscan hdeep => ihinner hscan (fun _ => hdeep) (.inl hdeep)
      have hopener := hstop.imp_right fun hstop (ahead : Option Char) =>
        hstop (scan.place opener ahead) (by simp [Place.isOfType, place, hpair])
      obtain ⟨hpasses, hbehind⟩ := hscan.passes_pair hpair hinner hopener (rest.head?.or next)
      obtain ⟨hrest, hafter⟩ := ihrest hbehind hinside hstop next
      rw [htext, passes_append, TopLevelScan.run_append]
      exact ⟨⟨hpasses, hrest⟩, hafter⟩

theorem inType_run (htext : TypeText false text) (hscan : scan.InType 0 0) (next : Option Char) :
    (scan.run next text).InType 0 0 := by
  have hpasses : scan.Passes (fun _ => false) next text ∧ (scan.run next text).InType 0 0 :=
    htext.passes hscan (fun h => Bool.noConfusion h) (.inr fun _ _ => rfl) next
  exact hpasses.2

/-- A cut behind a type falls in front of the first character that the test accepts. -/
theorem cut?_append (htext : TypeText false text) (hscan : scan.InType 0 0)
    (hstop : ∀ place : Place, place.isOfType = true → stop place = false) {c : Char}
    (hc : BracketScan.isDelimiter c = false) (back : List Char)
    (haccepts : ∀ blank, stop ⟨blank, c, back.head?⟩ = true) :
    scan.cut? stop (text ++ c :: back) = some (text, c :: back) := by
  obtain ⟨hpasses, hafter⟩ :=
    htext.passes hscan (fun h => Bool.noConfusion h) (.inr hstop) (some c)
  exact hpasses.cut?_cons (stopsAt_of_clean hafter.clean hc hafter.atTop (haccepts _))

theorem cut?_eq_none (htext : TypeText false text) (hscan : scan.InType 0 0)
    (hstop : ∀ place : Place, place.isOfType = true → stop place = false) :
    scan.cut? stop text = none :=
  (htext.passes hscan (fun h => Bool.noConfusion h) (.inr hstop) none).1.cut?_eq_none

end TypeText

end Offside
