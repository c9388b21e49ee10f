/-
# Scrubbed source

Scrubbing prepares a source for passes that look at one line at a time: comments
go, and every string literal ends up on a single line, because a line feed inside
it becomes the two characters of its escape. Nothing else changes. After it, no
line begins inside a literal.
-/

import Offside.Token

namespace Offside

/-- A line feed written as its escape; any other character as it is. -/
def escapeLineFeed (c : Char) : List Char := if c = '\n' then ['\\', 'n'] else [c]

/-- What is left of a token: nothing of a comment, a string literal on one line,
other text as it is. -/
def Token.scrubbed (token : Token) : List Char :=
  match token.kind with
  | .comment => []
  | .text => token.text
  | .doubleQuoted | .singleQuoted => token.text.flatMap escapeLineFeed

/-- The source without comments and with each literal on one line. -/
def scrub (source : List Char) : List Char := (tokenize source).flatMap Token.scrubbed

end Offside
