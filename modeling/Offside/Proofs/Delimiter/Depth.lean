/-
# The check of delimiters and the count of braces

The check of delimiters keeps the open brackets of three kinds on a stack, and the count of
braces keeps a number. Where the check reads a text to its end, the number is that of the
braces on the stack: a closing bracket takes one off the number exactly if it takes a brace
off the stack.

The count sees less. It passes over the other brackets, over literals that are broken by a
line feed, and over the literal that is open at the end. In a text with none of these the
stack holds braces only and the two go in step: either they stop at the same character or
the number is the height of the stack.
-/

import Offside.Proofs.Delimiter.Grammar

namespace Offside

/-! ## A text that the check reads to its end -/

/-- Behind a text that the check has read, the count is that of the open braces. -/
theorem braceDepth_of_foldlM_eq_ok {code : List Char} {scan : BracketScan}
    (hfold : (walk code).foldlM BracketScan.step {} = .ok scan) :
    braceDepth code = some (scan.brackets.count '\x7b') := by
  have hnest := toOption_foldlM_step (walk code) {}
  rw [hfold] at hnest
  exact foldlM_braceStep_of_nestBracket (by simp [BracketScan.brackets]) hnest.symm

/-- That a bracket is never closed is found at the end only. -/
theorem exists_of_validateDelimiters_eq_unclosed {code : List Char} {line : Nat} {opener : Char}
    (hcheck : validateDelimiters code = .error (.unclosed line opener)) :
    ∃ scan, (walk code).foldlM BracketScan.step {} = .ok scan := by
  cases hfold : (walk code).foldlM BracketScan.step {} with
  | ok scan => exact ⟨scan, rfl⟩
  | error error =>
      rw [validateDelimiters_of_foldlM_eq_error hfold] at hcheck
      obtain rfl := Except.error.inj hcheck
      obtain ⟨before, s, after, reached, -, -, hstep⟩ := exists_of_foldlM_step_eq_error hfold
      rcases BracketScan.step_eq_error hstep with ⟨-, herror⟩ | ⟨-, -, hclose⟩
      · cases herror
      · rcases BracketScan.close_eq_error hclose with ⟨-, herror⟩ | ⟨_, _, _, _, -, -, herror⟩
        · cases herror
        · cases herror

/-! ## Two checks in step -/

/-- The check and the count are in step: the open brackets are as many braces as the count
says, or both have stopped, the check at a closing bracket with no bracket open. -/
inductive InStep : Except DelimiterError BracketScan → Option Nat → Prop
  | reading {scan : BracketScan} {depth : Nat}
      (hopened : scan.brackets = List.replicate depth '\x7b') : InStep (.ok scan) (some depth)
  | stopped (line : Nat) (found : Char) : InStep (.error (.unexpected line found)) none

namespace WalkStep

/-- The character breaks no literal, and as a bracket of code it is a brace. -/
structure IsPlain (s : WalkStep) : Prop where
  unbroken : s.breaksLiteral = false
  braces : s.region = .code → s.char ∉ ['(', ')', '[', ']']

variable {s : WalkStep}

theorem IsPlain.eq_brace (hplain : s.IsPlain) (hbracket : s.isBracket = true) :
    s.char = '\x7b' ∨ s.char = '\x7d' := by
  simp only [isBracket, Bool.and_eq_true, beq_iff_eq, Bool.or_eq_true] at hbracket
  obtain ⟨hcode, hbracket⟩ := hbracket
  have hbraces := hplain.braces hcode
  simp only [List.mem_cons, List.not_mem_nil, or_false, not_or] at hbraces
  rcases hbracket with hopener | hcloser
  · unfold closerOf? at hopener
    split at hopener <;> simp_all
  · simp only [isCloser, Bool.or_eq_true, beq_iff_eq] at hcloser
    tauto

end WalkStep

/-- The count passes over what is no bracket of code. -/
theorem braceStep_of_not_isBracket {s : WalkStep} (hbracket : s.isBracket = false)
    (depth : Nat) : braceStep depth s = some depth := by
  cases hregion : s.region with
  | quoted => simp [braceStep, hregion]
  | code =>
      apply braceStep_of_ne
      · intro hchar
        simp [WalkStep.isBracket, hregion, hchar, closerOf?] at hbracket
      · intro hchar
        simp [WalkStep.isBracket, hregion, hchar, closerOf?, isCloser] at hbracket

namespace InStep

variable {scan : BracketScan} {depth : Nat}

/-- A closing brace takes one off the stack and one off the count, or stops both. -/
theorem close (hopened : scan.brackets = List.replicate depth '\x7b') {s : WalkStep}
    (hcode : s.region = .code) (hbrace : s.char = '\x7d') :
    InStep (scan.close s.char) (braceStep depth s) := by
  obtain ⟨opened, line, quoteLine⟩ := scan
  cases depth with
  | zero =>
      obtain rfl : opened = [] := List.map_eq_nil_iff.mp hopened
      have hstep : braceStep 0 s = none := by simp [braceStep, hcode, hbrace]
      rw [hstep]
      exact .stopped line s.char
  | succ depth =>
      obtain ⟨bracket, outer, rfl, hopener, houter⟩ := List.map_eq_cons_iff.mp hopened
      have hstep : braceStep (depth + 1) s = some depth := by simp [braceStep, hcode, hbrace]
      have hclose : BracketScan.close ⟨bracket :: outer, line, quoteLine⟩ s.char =
          .ok ⟨outer, line, quoteLine⟩ := by
        simp [BracketScan.close, hopener, closerOf?, hbrace]
      rw [hstep, hclose]
      exact .reading houter

/-- One character keeps the two in step. -/
theorem step (hopened : scan.brackets = List.replicate depth '\x7b') {s : WalkStep}
    (hplain : s.IsPlain) : InStep (scan.step s) (braceStep depth s) := by
  rw [BracketScan.step_eq, hplain.unbroken, if_neg (by simp)]
  cases hbracket : s.isBracket with
  | false =>
      rw [if_neg (by simp), braceStep_of_not_isBracket hbracket]
      exact .reading hopened
  | true =>
      have hcode : s.region = .code := by
        simp only [WalkStep.isBracket, Bool.and_eq_true, beq_iff_eq] at hbracket
        exact hbracket.1
      rw [if_pos rfl]
      rcases hplain.eq_brace hbracket with hbrace | hbrace
      · have hstep : braceStep depth s = some (depth + 1) := by simp [braceStep, hcode, hbrace]
        rw [hstep, if_pos (by simp [hbrace, closerOf?])]
        refine .reading ?_
        rw [List.replicate_succ, ← hopened, hbrace]
        rfl
      · rw [if_neg (by simp [hbrace, closerOf?])]
        exact close hopened hcode hbrace

/-- And so does a walk through a text. -/
theorem foldlM {steps : List WalkStep} (hplain : ∀ s ∈ steps, s.IsPlain)
    (hopened : scan.brackets = List.replicate depth '\x7b') :
    InStep (steps.foldlM BracketScan.step scan) (steps.foldlM braceStep depth) := by
  induction steps generalizing scan depth with
  | nil => exact .reading hopened
  | cons s steps ih =>
      rw [List.forall_mem_cons] at hplain
      have hfirst := step hopened hplain.1
      rw [List.foldlM_cons, List.foldlM_cons]
      generalize scan.step s = result at hfirst ⊢
      generalize braceStep depth s = count at hfirst ⊢
      cases hfirst with
      | reading hnext => exact ih hplain.2 hnext
      | stopped line found => exact .stopped line found

end InStep

/-! ## What the count says about the check -/

/-- The two agree about every text. If the check accepts it then the count is zero; if the
check misses a closing bracket then the count is that of the braces it has open at the end.
If all brackets of code are braces, every literal is closed, and none but a template crosses
the end of a line, then the count is zero exactly if the check accepts the text, and there is
none exactly if the check comes to a closing bracket with no bracket open. -/
theorem validateDelimiters_braceDepth (code : List Char) :
    (validateDelimiters code = .ok () → braceDepth code = some 0) ∧
    (∀ line opener, validateDelimiters code = .error (.unclosed line opener) →
      ∃ scan, (walk code).foldlM BracketScan.step {} = .ok scan ∧
        braceDepth code = some (scan.brackets.count '\x7b')) ∧
    ((∀ s ∈ walk code, s.region = .code → s.char ∉ ['(', ')', '[', ']']) →
      (endOfWalk code).openQuote = none → (∀ s ∈ walk code, s.breaksLiteral = false) →
      (braceDepth code = some 0 ↔ validateDelimiters code = .ok ()) ∧
      (braceDepth code = none ↔
        ∃ line found, validateDelimiters code = .error (.unexpected line found))) := by
  refine ⟨fun haccepts => ?_, fun line opener hcheck => ?_, fun hbraces hclosed hunbroken => ?_⟩
  · obtain ⟨hnest, -⟩ := (validateDelimiters_eq_ok_iff code).mp haccepts
    exact foldlM_braceStep_of_nestBracket (by simp) hnest
  · obtain ⟨scan, hfold⟩ := exists_of_validateDelimiters_eq_unclosed hcheck
    exact ⟨scan, hfold, braceDepth_of_foldlM_eq_ok hfold⟩
  · have hplain : ∀ s ∈ walk code, s.IsPlain := fun s hs => ⟨hunbroken s hs, hbraces s hs⟩
    have hinStep : InStep ((walk code).foldlM BracketScan.step {}) (braceDepth code) :=
      InStep.foldlM hplain rfl
    generalize hfold : (walk code).foldlM BracketScan.step {} = result at hinStep
    generalize braceDepth code = count at hinStep
    cases hinStep with
    | stopped line found =>
        rw [validateDelimiters_of_foldlM_eq_error hfold]
        simp
    | @reading scan depth hopened =>
        rw [validateDelimiters_of_foldlM_eq_ok hfold, hclosed]
        obtain ⟨opened, line, quoteLine⟩ := scan
        cases depth with
        | zero =>
            obtain rfl : opened = [] := List.map_eq_nil_iff.mp hopened
            simp [BracketScan.finish]
        | succ depth =>
            obtain ⟨bracket, outer, rfl, -⟩ := List.map_eq_cons_iff.mp hopened
            simp [BracketScan.finish]

/-- A text that is accepted, one with a parenthesis and two braces left open, and one with a
closing brace too many in front of a template over two lines. -/
theorem validateDelimiters_braceDepth_sample :
    braceDepth "f(\x7b a: '\x7d' \x7d)".toList = some 0 ∧
      (∃ scan, (walk "\x7b(\x7b".toList).foldlM BracketScan.step {} = .ok scan ∧
        braceDepth "\x7b(\x7b".toList = some (scan.brackets.count '\x7b')) ∧
      ∃ line found, validateDelimiters "\x7b\x7d\x7d\x60\n\x60".toList =
        .error (.unexpected line found) :=
  ⟨(validateDelimiters_braceDepth _).1 rfl,
    (validateDelimiters_braceDepth _).2.1 1 '\x7b' rfl,
    ((validateDelimiters_braceDepth _).2.2 (by decide) (by decide) (by decide)).2.mp rfl⟩

end Offside
