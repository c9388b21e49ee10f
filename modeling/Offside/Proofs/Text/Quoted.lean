/-
# String literals read back

A text written as a string literal is read back as it was, whatever characters it
holds and whatever stands behind the literal. The reader needs no knowledge of where the
literal ends: every quote of the text is escaped, so the first one that is not is the
closing one. And the literal stays on one line, because a line feed is always written as
an escape. `IsLiteralOf` collects what a reader of a literal may rely on, whoever wrote it.
-/

import Offside.Proofs.Token.Escape
import Offside.Text.Quoted

namespace Offside.Text

theorem hexValue?_lowerHexDigit {n : Nat} (hn : n < 16) : hexValue? (lowerHexDigit n) = some n := by
  have hall : ∀ m < 16, hexValue? (lowerHexDigit m) = some m := by decide
  exact hall n hn

/-- The escape of a control character writes its number. -/
theorem hexUnit?_of_lt {n : Nat} (hn : n < 0x20) :
    hexUnit? '0' '0' (lowerHexDigit (n / 16)) (lowerHexDigit (n % 16)) = some n := by
  have hhigh := hexValue?_lowerHexDigit (n := n / 16) (by omega)
  have hlow := hexValue?_lowerHexDigit (n := n % 16) (by omega)
  have hzero : hexValue? '0' = some 0 := by decide
  simp only [hexUnit?, hhigh, hlow, hzero, Option.bind_eq_bind, Option.bind_some,
    Option.some_inj]
  omega

section Pieces

variable {rest after : List Char} {pieces : List LiteralPiece}

theorem literalPieces?_shortEscape (hrest : literalPieces? rest = some (pieces, after))
    {c e : Char} (hescape : unescapeChar? c = some e) :
    literalPieces? ('\\' :: c :: rest) = some (.char e :: pieces, after) := by
  have hne : c ≠ 'u' := by
    rintro rfl
    cases hescape
  rw [literalPieces?]
  · simp [hescape, hrest]
  · intro _ _ _ _ _ hu
    exact absurd hu hne

theorem literalPieces?_unit (hrest : literalPieces? rest = some (pieces, after))
    {a b c d : Char} {n : Nat} (hunit : hexUnit? a b c d = some n) :
    literalPieces? ('\\' :: 'u' :: a :: b :: c :: d :: rest) = some (.unit n :: pieces, after) := by
  rw [literalPieces?]
  simp [hunit, hrest]

theorem literalPieces?_raw (hrest : literalPieces? rest = some (pieces, after)) {c : Char}
    (hquote : c ≠ '"') (hbackslash : c ≠ '\\') (hcontrol : ¬ c.toNat < 0x20) :
    literalPieces? (c :: rest) = some (.char c :: pieces, after) := by
  rw [literalPieces?]
  · simp [hbackslash, hcontrol, hrest]
  · exact hquote
  · intro _ _ _ _ _ hc
    exact absurd hc hbackslash
  · intro _ _ hc
    exact absurd hc hbackslash

/-- A unit below the surrogates stands for a character of its own. -/
theorem joinPieces?_unit {n : Nat} (hn : n < 0xD800) (pieces : List LiteralPiece) :
    joinPieces? (.unit n :: pieces) = (joinPieces? pieces).map (Char.ofNat n :: ·) := by
  have halone : (n < 0xD800 || 0xE000 ≤ n) = true := by simp [hn]
  rw [joinPieces?.eq_def]
  simp only [halone, if_true]

end Pieces

/-- What is written for a character is read as a piece that denotes it. -/
theorem exists_literalPieces?_escapeChar (c : Char) {rest after : List Char}
    {pieces : List LiteralPiece} (hrest : literalPieces? rest = some (pieces, after)) :
    ∃ piece, literalPieces? (escapeChar c ++ rest) = some (piece :: pieces, after) ∧
      joinPieces? (piece :: pieces) = (joinPieces? pieces).map (c :: ·) := by
  unfold escapeChar
  split
  case h_8 _ hquote hbackslash _ _ _ _ _ =>
    by_cases hcontrol : c.toNat < 0x20
    · refine ⟨.unit c.toNat, ?_, ?_⟩
      · rw [if_pos hcontrol]
        exact literalPieces?_unit hrest (hexUnit?_of_lt hcontrol)
      · rw [joinPieces?_unit (by omega), Char.ofNat_toNat]
    · rw [if_neg hcontrol]
      exact ⟨.char c, literalPieces?_raw hrest hquote hbackslash hcontrol, rfl⟩
  -- the seven characters with a short escape
  all_goals exact ⟨.char _, literalPieces?_shortEscape hrest rfl, rfl⟩

/-- The body of a literal is read up to its closing quote, and denotes the text. -/
theorem exists_literalPieces?_quote (text rest : List Char) :
    ∃ pieces, literalPieces? (text.flatMap escapeChar ++ '"' :: rest) = some (pieces, rest) ∧
      joinPieces? pieces = some text := by
  induction text with
  | nil => exact ⟨[], rfl, rfl⟩
  | cons c text ih =>
      obtain ⟨pieces, hpieces, hjoin⟩ := ih
      obtain ⟨piece, hpiece, hdenotes⟩ := exists_literalPieces?_escapeChar c hpieces
      refine ⟨piece :: pieces, ?_, ?_⟩
      · rw [List.flatMap_cons, List.append_assoc]
        exact hpiece
      · rw [hdenotes, hjoin]
        rfl

theorem unquote?_quote (text : List Char) : unquote? (quote text) = some text := by
  obtain ⟨pieces, hpieces, hjoin⟩ := exists_literalPieces?_quote text []
  have hdrop : (quote text).dropWhile isJsonSpace = '"' :: (text.flatMap escapeChar ++ ['"']) := rfl
  rw [unquote?, hdrop]
  simp [hpieces, hjoin]

/-! ## Nothing gets out of a literal -/

/-- A JSON string literal that its text cannot break out of. -/
structure IsLiteralOf (text literal : List Char) : Prop where
  /-- Read as a literal, it denotes the text. -/
  denotes : unquote? literal = some text
  /-- It holds no control character, so no line break either. -/
  printable : ∀ c ∈ literal, 0x20 ≤ c.toNat
  /-- It stands between two quotes, and every other quote in it is escaped. -/
  closed : ∃ body, literal = '"' :: (body ++ ['"']) ∧
    Token.Sealed false '"' body ∧ Token.pending false body = false

/-- A literal stays on its line. -/
theorem IsLiteralOf.lineFeed_notMem {text literal : List Char}
    (hliteral : IsLiteralOf text literal) : '\n' ∉ literal := by
  intro hfeed
  have hcontrol := hliteral.printable '\n' hfeed
  contradiction

/-- A literal ends in its closing quote. -/
theorem IsLiteralOf.getLast?_ne {text literal : List Char}
    (hliteral : IsLiteralOf text literal) : literal.getLast? ≠ some '\r' := by
  obtain ⟨body, rfl, -⟩ := hliteral.closed
  rw [← List.cons_append, List.getLast?_concat]
  decide

/-- A hexadecimal digit is no control character, no quote and no backslash. -/
theorem lowerHexDigit_plain {n : Nat} (hn : n < 16) :
    0x20 ≤ (lowerHexDigit n).toNat ∧ lowerHexDigit n ≠ '"' ∧ lowerHexDigit n ≠ '\\' := by
  have hall : ∀ m < 16,
      0x20 ≤ (lowerHexDigit m).toNat ∧ lowerHexDigit m ≠ '"' ∧ lowerHexDigit m ≠ '\\' := by
    decide
  exact hall n hn

theorem printable_escapeChar (c : Char) : ∀ d ∈ escapeChar c, 0x20 ≤ d.toNat := by
  have hshort : ∀ e : Char, 0x20 ≤ e.toNat → ∀ d ∈ ['\\', e], 0x20 ≤ d.toNat := by simp
  unfold escapeChar
  split
  case h_8 =>
    split
    · rename_i hcontrol
      have hhigh := (lowerHexDigit_plain (n := c.toNat / 16) (by omega)).1
      have hlow := (lowerHexDigit_plain (n := c.toNat % 16) (by omega)).1
      simp [hhigh, hlow]
    · rename_i hprintable
      simpa using hprintable
  all_goals exact hshort _ (by decide)

/-- What is written for a character holds no quote of its own and no half of a pair. -/
theorem sealed_escapeChar (c : Char) :
    Token.Sealed false '"' (escapeChar c) ∧ Token.pending false (escapeChar c) = false := by
  unfold escapeChar
  split
  case h_8 hquote hbackslash _ _ _ _ _ =>
    split
    · rename_i hcontrol
      have hhigh := (lowerHexDigit_plain (n := c.toNat / 16) (by omega)).2
      have hlow := (lowerHexDigit_plain (n := c.toNat % 16) (by omega)).2
      simp [Token.sealed_cons_iff, Token.sealed_nil, Token.escapesNext, hhigh, hlow]
    · have hplain : c ≠ '"' ∧ c ≠ '\\' := ⟨hquote, hbackslash⟩
      simp [Token.sealed_cons_iff, Token.sealed_nil, Token.escapesNext, hplain]
  all_goals decide

theorem sealed_flatMap_escapeChar (text : List Char) :
    Token.Sealed false '"' (text.flatMap escapeChar) ∧
      Token.pending false (text.flatMap escapeChar) = false := by
  induction text with
  | nil => exact ⟨Token.sealed_nil, rfl⟩
  | cons c text ih =>
      obtain ⟨hsealed, hpending⟩ := sealed_escapeChar c
      rw [List.flatMap_cons, Token.sealed_append_iff, Token.pending_append, hpending]
      exact ⟨⟨hsealed, ih.1⟩, ih.2⟩

/-- A text is written as a literal of itself. -/
theorem isLiteralOf_quote (text : List Char) : IsLiteralOf text (quote text) where
  denotes := unquote?_quote text
  printable := by
    have hquote : 0x20 ≤ ('"' : Char).toNat := by decide
    intro c hc
    simp only [quote, List.cons_append, List.mem_cons, List.mem_append, List.mem_flatMap,
      List.not_mem_nil, or_false] at hc
    rcases hc with rfl | ⟨d, -, hd⟩ | rfl
    · exact hquote
    · exact printable_escapeChar d c hd
    · exact hquote
  closed := ⟨text.flatMap escapeChar, rfl, sealed_flatMap_escapeChar text⟩

theorem lineFeed_notMem_quote (text : List Char) : '\n' ∉ quote text :=
  (isLiteralOf_quote text).lineFeed_notMem

end Offside.Text
