/-
# Texts as JSON string literals

`quote` writes a text as a JSON string literal: between double quotes, with the
quote and the backslash escaped, and every control character below U+0020 written
as its short escape or as `\u00xx`. So a literal never holds a line break, and no
text can end it early.

`unquote?` reads a literal that fills a whole text, up to JSON white space around
it. All the escapes of JSON are read, surrogate pairs included; a raw control
character, an unknown escape or a lone surrogate is refused.
-/

import Offside.Text.Hex

namespace Offside.Text

/-- The escape of a character inside a literal, or the character itself. -/
def escapeChar (c : Char) : List Char :=
  match c with
  | '"' => ['\\', '"']
  | '\\' => ['\\', '\\']
  | '\x08' => ['\\', 'b']
  | '\t' => ['\\', 't']
  | '\n' => ['\\', 'n']
  | '\x0c' => ['\\', 'f']
  | '\r' => ['\\', 'r']
  | c =>
    if c.toNat < 0x20 then
      ['\\', 'u', '0', '0', lowerHexDigit (c.toNat / 16), lowerHexDigit (c.toNat % 16)]
    else [c]

/-- A text as a JSON string literal. -/
def quote (text : List Char) : List Char := '"' :: text.flatMap escapeChar ++ ['"']

/-- What a piece of a literal's body denotes: a character, or a UTF-16 unit that may
be half of one. -/
inductive LiteralPiece
  /-- A character, written raw or as a short escape. -/
  | char (c : Char)
  /-- The unit of a `\uXXXX` escape. -/
  | unit (n : Nat)
  deriving DecidableEq, Repr

/-- The number that four hexadecimal digits write. -/
def hexUnit? (a b c d : Char) : Option Nat := do
  some ((← hexValue? a) * 4096 + (← hexValue? b) * 256 + (← hexValue? c) * 16 + (← hexValue? d))

/-- The character of a short escape. -/
def unescapeChar? : Char → Option Char
  | '"' => some '"'
  | '\\' => some '\\'
  | '/' => some '/'
  | 'b' => some '\x08'
  | 'f' => some '\x0c'
  | 'n' => some '\n'
  | 'r' => some '\r'
  | 't' => some '\t'
  | _ => none

/-- The pieces of a literal's body up to its closing quote, and what follows the
quote. -/
def literalPieces? : List Char → Option (List LiteralPiece × List Char)
  | [] => none
  | '"' :: rest => some ([], rest)
  | '\\' :: 'u' :: a :: b :: c :: d :: rest => do
    let n ← hexUnit? a b c d
    let (pieces, after) ← literalPieces? rest
    some (.unit n :: pieces, after)
  | '\\' :: c :: rest => do
    let e ← unescapeChar? c
    let (pieces, after) ← literalPieces? rest
    some (.char e :: pieces, after)
  | c :: rest => do
    if c.toNat < 0x20 || c = '\\' then none
    else
      let (pieces, after) ← literalPieces? rest
      some (.char c :: pieces, after)

/-- The text that pieces denote, if every surrogate has its partner. -/
def joinPieces? : List LiteralPiece → Option (List Char)
  | [] => some []
  | .char c :: rest => (joinPieces? rest).map (c :: ·)
  | .unit n :: rest =>
    if n < 0xD800 || 0xE000 ≤ n then (joinPieces? rest).map (Char.ofNat n :: ·)
    else
      match rest with
      | .unit m :: rest =>
        if n < 0xDC00 && 0xDC00 ≤ m && m < 0xE000 then
          (joinPieces? rest).map
            (Char.ofNat (0x10000 + (n - 0xD800) * 0x400 + (m - 0xDC00)) :: ·)
        else none
      | _ => none

/-- White space between the tokens of a JSON text. -/
def isJsonSpace (c : Char) : Bool := c == ' ' || c == '\n' || c == '\t' || c == '\r'

/-- The text that a JSON string literal denotes. -/
def unquote? (literal : List Char) : Option (List Char) :=
  match literal.dropWhile isJsonSpace with
  | '"' :: body =>
    match literalPieces? body with
    | some (pieces, after) => if after.all isJsonSpace then joinPieces? pieces else none
    | none => none
  | _ => none

end Offside.Text
