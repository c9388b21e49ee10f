/-
# Tokens of a source text

The tokens are deliberately coarse. A line-oriented transformer only has to know
where string literals and comments begin and end:

* `"…"` and `'…'` are string literals. A backslash takes the next character with
  it, and a literal may span lines.
* `### … ###` is a block comment, the shortest one that closes; it may span lines.
* `# …` is a line comment, up to its line feed and without it.

A quote that nothing closes is a one-character text token, and reading resumes
right behind it. A `###` that nothing closes is a line comment. Everything else
is text, in maximal runs, so the tokens tile the whole source: `tokenize` never
loses, repeats or moves a character.
-/

import Offside.Text.Lines

namespace Offside

/-- What a token is. -/
inductive TokenKind
  /-- A literal between double quotes. -/
  | doubleQuoted
  /-- A literal between single quotes. -/
  | singleQuoted
  /-- A comment, with its opening sign and, for a block comment, its closing one. -/
  | comment
  /-- Anything else, an unmatched quote included. -/
  | text
  deriving DecidableEq, Repr

/-- A piece of source with its kind. -/
structure Token where
  /-- What the piece is. -/
  kind : TokenKind
  /-- The characters of the piece, delimiters included. -/
  text : List Char
  deriving DecidableEq, Repr

namespace Token

/-- String literals of either quote. -/
def isString (token : Token) : Bool :=
  match token.kind with
  | .doubleQuoted | .singleQuoted => true
  | .comment | .text => false

/-- Cut `text`, which stands behind an opening `quote`, after the quote that
closes it. A backslash protects the character behind it; without a closing quote
there is no cut. -/
def cutAfterQuote (quote : Char) : List Char → Option (List Char × List Char)
  | [] => none
  | ['\\'] => none
  | '\\' :: c :: rest =>
    (cutAfterQuote quote rest).map fun (body, after) => ('\\' :: c :: body, after)
  | c :: rest =>
    if c = quote then some ([c], rest)
    else (cutAfterQuote quote rest).map fun (body, after) => (c :: body, after)

/-- Cut a text after its first `###`. -/
def cutAfterFence : List Char → Option (List Char × List Char)
  | [] => none
  | '#' :: '#' :: '#' :: rest => some (['#', '#', '#'], rest)
  | c :: rest => (cutAfterFence rest).map fun (body, after) => (c :: body, after)

/-- Cut a text, which stands behind a `#`, where the comment that this sign opens
ends: after the closing fence if the sign opens a fence and one closes it, before
the line feed otherwise. -/
def cutComment (text : List Char) : List Char × List Char :=
  match text with
  | '#' :: '#' :: rest =>
    match cutAfterFence rest with
    | some (body, after) => ('#' :: '#' :: body, after)
    | none => toLineEnd text
  | _ => toLineEnd text
where
  /-- Everything before the line feed, and the rest from it on. -/
  toLineEnd (text : List Char) : List Char × List Char :=
    (text.takeWhile (· ≠ '\n'), text.dropWhile (· ≠ '\n'))

/-- Characters that never begin a literal or a comment. -/
def isPlain (c : Char) : Bool := c ≠ '"' && c ≠ '\'' && c ≠ '#'

/-- The token that begins with `quote`, which stands in front of `rest`, and what
follows it: a literal of the given kind, or the quote alone. -/
def quoted (kind : TokenKind) (quote : Char) (rest : List Char) : Token × List Char :=
  match cutAfterQuote quote rest with
  | some (body, after) => (⟨kind, quote :: body⟩, after)
  | none => (⟨.text, [quote]⟩, rest)

/-- The token that begins with `c`, which stands in front of `rest`, and what
follows it. The first character alone dictates the kind of the token. -/
def next (c : Char) (rest : List Char) : Token × List Char :=
  if c = '"' then quoted .doubleQuoted c rest
  else if c = '\'' then quoted .singleQuoted c rest
  else if c = '#' then
    let (body, after) := cutComment rest
    (⟨.comment, c :: body⟩, after)
  else (⟨.text, c :: rest.takeWhile isPlain⟩, rest.dropWhile isPlain)

/-! ## A cut loses nothing -/

theorem append_of_cutAfterQuote {quote : Char} {text body after : List Char}
    (h : cutAfterQuote quote text = some (body, after)) : body ++ after = text := by
  fun_induction cutAfterQuote quote text generalizing body after with
  | case1 => simp at h
  | case2 => simp at h
  | case3 c rest ih =>
    obtain ⟨⟨b, a⟩, hcut, heq⟩ := Option.map_eq_some_iff.1 h
    simp only [Prod.mk.injEq] at heq
    rw [← heq.1, ← heq.2, ← ih hcut]
    rfl
  | case4 rest =>
    simp only [Option.some.injEq, Prod.mk.injEq] at h
    rw [← h.1, ← h.2, List.singleton_append]
  | case5 c rest _ _ _ ih =>
    obtain ⟨⟨b, a⟩, hcut, heq⟩ := Option.map_eq_some_iff.1 h
    simp only [Prod.mk.injEq] at heq
    rw [← heq.1, ← heq.2, ← ih hcut]
    rfl

theorem append_of_cutAfterFence {text body after : List Char}
    (h : cutAfterFence text = some (body, after)) : body ++ after = text := by
  fun_induction cutAfterFence text generalizing body after with
  | case1 => simp at h
  | case2 rest =>
    simp only [Option.some.injEq, Prod.mk.injEq] at h
    rw [← h.1, ← h.2]
    rfl
  | case3 c rest _ ih =>
    obtain ⟨⟨b, a⟩, hcut, heq⟩ := Option.map_eq_some_iff.1 h
    simp only [Prod.mk.injEq] at heq
    rw [← heq.1, ← heq.2, ← ih hcut]
    rfl

theorem cutComment_append (text : List Char) :
    (cutComment text).1 ++ (cutComment text).2 = text := by
  unfold cutComment
  split
  · rename_i rest
    split
    · rename_i body after hcut
      simp [← append_of_cutAfterFence hcut]
    · exact List.takeWhile_append_dropWhile
  · exact List.takeWhile_append_dropWhile

theorem quoted_append (kind : TokenKind) (quote : Char) (rest : List Char) :
    (quoted kind quote rest).1.text ++ (quoted kind quote rest).2 = quote :: rest := by
  unfold quoted
  split
  · rename_i body after hcut
    simp [← append_of_cutAfterQuote hcut]
  · rfl

/-- A token and what follows it make up the text it was cut from. -/
theorem next_append (c : Char) (rest : List Char) :
    (next c rest).1.text ++ (next c rest).2 = c :: rest := by
  unfold next
  split
  · exact quoted_append _ _ _
  split
  · exact quoted_append _ _ _
  split
  · simpa using cutComment_append rest
  · simp [List.takeWhile_append_dropWhile]

theorem quoted_text_ne_nil (kind : TokenKind) (quote : Char) (rest : List Char) :
    (quoted kind quote rest).1.text ≠ [] := by
  unfold quoted
  split <;> simp

/-- No token is empty. -/
theorem next_text_ne_nil (c : Char) (rest : List Char) : (next c rest).1.text ≠ [] := by
  unfold next
  split
  · exact quoted_text_ne_nil _ _ _
  split
  · exact quoted_text_ne_nil _ _ _
  split <;> simp

/-- What follows a token is shorter than the text it was cut from. -/
theorem length_next_lt (c : Char) (rest : List Char) :
    (next c rest).2.length < (c :: rest).length := by
  have hlen := congrArg List.length (next_append c rest)
  have hpos := List.length_pos_iff.2 (next_text_ne_nil c rest)
  simp only [List.length_append] at hlen
  omega

end Token

/-- The tokens of a source, in order. -/
def tokenize : List Char → List Token
  | [] => []
  | c :: rest => (Token.next c rest).1 :: tokenize (Token.next c rest).2
termination_by source => source.length
decreasing_by exact Token.length_next_lt c rest

/-- The tokens joined give the source back. -/
theorem flatMap_text_tokenize (source : List Char) :
    (tokenize source).flatMap Token.text = source := by
  fun_induction tokenize source with
  | case1 => rfl
  | case2 c rest ih => rw [List.flatMap_cons, ih, Token.next_append]

/-- Each token with the byte offsets at which it begins and ends, the first
one beginning at `start`. -/
def Token.spansFrom (start : Nat) : List Token → List (Token × Nat × Nat)
  | [] => []
  | token :: rest =>
    let stop := start + Text.byteLength token.text
    (token, start, stop) :: Token.spansFrom stop rest

/-- The tokens of a source with their byte spans. -/
def tokenSpans (source : List Char) : List (Token × Nat × Nat) :=
  Token.spansFrom 0 (tokenize source)

end Offside
