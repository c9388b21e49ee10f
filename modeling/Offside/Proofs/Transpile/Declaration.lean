/-
# Declarations pass where assignments do

The value of an assignment is moved: it stands behind an opening parenthesis instead of `=`,
and in front of a closing one instead of blanks and a semicolon. A `/` behind either begins a
regular expression, so the value is read as it was, regular expressions, divisions and
templates included. What is dropped at its end was code, because nothing in it could have
closed a literal. So no literal is open at the closing parenthesis either.
-/

import Offside.Proofs.Transpile.Origin

namespace Offside

open WalkState

/-- Two walks that read every text alike do the same to the brackets. -/
theorem foldlM_nestBracket_sameReading {first second : WalkState}
    (hsame : SameReading first second) (text opened : List Char) :
    (walkFrom first text).foldlM nestBracket opened =
      (walkFrom second text).foldlM nestBracket opened := by
  induction text generalizing first second opened with
  | nil => rfl
  | cons c text ih =>
      obtain ⟨hregion, hafter⟩ := hsame.step c text.head?
      rw [walkFrom_cons, walkFrom_cons, List.foldlM_cons, List.foldlM_cons,
        nestBracket_congr hregion hafter.alike.literal.1]
      congr 1
      funext middle
      exact ih hafter middle

theorem NestsFrom.congr {first second : WalkState} {text before after : List Char}
    (hnests : NestsFrom first text before after) (hsame : SameReading first second) :
    NestsFrom second text before after where
  brackets := by
    rw [← foldlM_nestBracket_sameReading hsame]
    exact hnests.brackets
  clean := hsame.clean_run hnests.clean

/-- A value that passes in one place passes in another, between brackets, where a `/` means
the same. Behind it only inert characters may be left out, because what they follow is code. -/
theorem validateDelimiters_moved {front front' value back : List Char} {opener closer : Char}
    (hvalid : validateDelimiters (front ++ (value ++ back)) = .ok ()) (hfront : Nests front [] [])
    (hback : ∀ c ∈ back, isInert c = true) (hstar : '*' ∉ back) (hfront' : Nests front' [] [])
    (hpair : closerOf? opener = some closer)
    (hoperand : SameOperand front (front' ++ [opener])) :
    validateDelimiters (front' ++ [opener] ++ (value ++ [closer])) = .ok () := by
  have hopener := hfront'.append (nests_opener hpair)
  have hcloser := nests_closer hpair
  have hsame : SameReading (run {} front) (run {} (front' ++ [opener])) :=
    (hfront.clean {} clean_init).sameReading (hopener.clean {} clean_init) (hoperand {} {} rfl rfl)
  have hseam : Seam value back := fun _ c hc =>
    ⟨ne_slash_of_isInert (hback c (List.mem_of_mem_head? hc)),
      ne_of_mem_of_not_mem (List.mem_of_mem_head? hc) hstar⟩
  have hseam' : Seam value [closer] := by
    intro _ c hc
    obtain rfl := Option.some_inj.mp hc
    unfold closerOf? at hpair
    split at hpair <;> cases hpair <;> decide
  rw [validateDelimiters_eq_ok_iff_nestsFrom] at hvalid ⊢
  have hvalue : NestsFrom (run {} front) value [] [] :=
    (hvalid.of_append (hfront.nestsFrom clean_init)
      (seam_of_getLast?_ne (getLast?_ne_slash hfront.slash) _)).of_append_isInert
        (clean_init.sound.run front) hback hseam
  have hmoved := (hvalue.congr hsame).around [opener]
  exact (hopener.nestsFrom clean_init).append
    (hmoved.append (hcloser.nestsFrom hmoved.clean) hseam')
    (seam_of_getLast?_ne (getLast?_ne_slash hopener.slash) _)

/-- If a line passes the check of delimiters, so does the declaration that its assignment
becomes: the value is read as before, and no literal of it takes in the parenthesis behind. -/
theorem validateDelimiters_declaration {raw helper text : List Char}
    (hhelper : Assignment.isIdentifier helper = true)
    (hdeclaration : (Line.ofChars raw).withDeclaration? helper = some text)
    (hvalid : validateDelimiters raw = .ok ()) : validateDelimiters text = .ok () := by
  obtain ⟨assignment, hparse, rfl⟩ := Option.map_eq_some_iff.mp hdeclaration
  obtain ⟨htargets, front, blanks, back, hfront, hblanks, hback, hcontent⟩ :=
    Assignment.exists_pieces hparse
  have hhelper' := Assignment.isNamePart_of_isIdentifier hhelper
  have hindentation := isIdle_indentation raw
  have hraw : (Line.ofChars raw).indentation ++ (front ++ '=' :: blanks) ++
      (assignment.expression ++ back) = raw := by
    conv_rhs => rw [← Line.raw_ofChars raw, Line.raw, hcontent]
    simp only [List.append_assoc, List.cons_append]
  have hgap : Nests ((Line.ofChars raw).indentation ++ (front ++ '=' :: blanks)) [] [] := by
    refine nests_of_isInert (fun c hc => isInert_of_isIdle ?_) []
    exact (List.mem_append.mp hc).elim (hindentation c)
      (Assignment.isIdle_append_equals hfront hblanks c)
  have hopening := Assignment.nests_render_front
    (fun target htarget c hc => isInert_of_class rfl (htargets target htarget c hc))
    (fun c hc => isInert_of_isIdle (hindentation c hc))
    (fun c hc => Assignment.isInert_of_isNamePart (hhelper' c hc))
  have hoperand := assignment.sameOperand_opening hhelper' htargets hindentation hfront hblanks
  have hbehind := isIdle_back hback (by decide)
  rw [← hraw] at hvalid
  have hmoved := validateDelimiters_moved hvalid hgap
    (fun c hc => isInert_of_isIdle (hbehind c hc).1) (fun hmem => (hbehind _ hmem).2 rfl) hopening
    (show closerOf? '(' = some ')' from rfl) (by simpa [Assignment.rewriting] using hoperand)
  simpa [Assignment.render] using hmoved

/-- A regular expression right behind the `=`, one with brackets in its class, and divisions. -/
theorem validateDelimiters_declaration_regex :
    let raw := "  local m, n = /[/)]=+/.exec(s[0] / 2) / '/('.length / 2 ; ".toList
    let helper := "$assign".toList
    let text := "  let [m, n] = $assign(/[/)]=+/.exec(s[0] / 2) / '/('.length / 2)".toList
    Assignment.isIdentifier helper = true ∧
      (Line.ofChars raw).withDeclaration? helper = some text ∧
        validateDelimiters raw = .ok () ∧ validateDelimiters text = .ok () := by
  intro raw helper text
  have hhelper : Assignment.isIdentifier helper = true := by decide
  have hdeclaration : (Line.ofChars raw).withDeclaration? helper = some text := by
    decide +kernel
  have hvalid : validateDelimiters raw = .ok () := by
    decide +kernel
  exact ⟨hhelper, hdeclaration, hvalid,
    validateDelimiters_declaration hhelper hdeclaration hvalid⟩

end Offside
