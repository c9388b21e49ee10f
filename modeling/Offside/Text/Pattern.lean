/-
# Patterns

A pattern says how a text may go on. It may fit in several ways, of which one is
preferred: as many characters of a class as there are where the pattern is greedy, as
few as can be where it is lazy, and the first of two alternatives.

All the ways are listed, the preferred one in front. One behind another in the list is
taken only if whatever the pattern goes on with rules out those before it, so the first
match of a pattern is the head of its list.
-/

import Offside.Text.Blank
import Offside.Text.Word

namespace Offside.Text

/-- A place in a text, with what a match has captured up to it. -/
structure Spot where
  /-- The characters in front of the place, the nearest one first. -/
  passed : List Char := []
  /-- The text behind it. -/
  ahead : List Char
  /-- The captured texts with their numbers, the latest one first. -/
  captured : List (Nat × List Char) := []
  deriving DecidableEq, Repr

namespace Spot

/-- The text from a place to a later one. -/
def upTo (spot later : Spot) : List Char :=
  (later.passed.take (later.passed.length - spot.passed.length)).reverse

/-- A word begins or ends at the place. -/
def isEdge (spot : Spot) : Bool :=
  (spot.passed.head?.map isWord).getD false != (spot.ahead.head?.map isWord).getD false

/-- The text that was captured under a number, if one was. -/
def text? (spot : Spot) (number : Nat) : Option (List Char) := spot.captured.lookup number

/-- The captured text, which is empty if there is none. -/
def text (spot : Spot) (number : Nat) : List Char := (spot.text? number).getD []

/-- The places that are reached through characters of a class, the nearest one first. -/
def through (accepts : Char → Bool) (captured : List (Nat × List Char)) (passed : List Char) :
    List Char → List Spot
  | [] => [⟨passed, [], captured⟩]
  | c :: ahead =>
    ⟨passed, c :: ahead, captured⟩ ::
      if accepts c then through accepts captured (c :: passed) ahead else []

end Spot

/-- How a text may go on. -/
inductive Pattern
  /-- Anyhow. -/
  | nothing
  /-- With a character of a class. -/
  | one (accepts : Char → Bool)
  /-- With characters of a class, rather more than fewer. -/
  | many (accepts : Char → Bool)
  /-- With characters of a class, rather fewer than more. -/
  | few (accepts : Char → Bool)
  /-- First in one way, and then in another. -/
  | both (first second : Pattern)
  /-- In one of two ways, rather the first. -/
  | either (first second : Pattern)
  /-- In a way whose text is captured under a number. -/
  | capture (number : Nat) (pattern : Pattern)
  /-- With the beginning or the end of a word. -/
  | edge
  /-- Not at all. -/
  | finish

/-- Any character but a line feed. -/
def isInLine (c : Char) : Bool := c != '\n'

namespace Pattern

/-- In several ways, one behind another. -/
def seq : List Pattern → Pattern
  | [] => nothing
  | pattern :: patterns => both pattern (seq patterns)

/-- In one of several ways, rather an earlier one. -/
def oneOf : List Pattern → Pattern
  | [] => one fun _ => false
  | pattern :: patterns => either pattern (oneOf patterns)

/-- With a given text. -/
def word (text : List Char) : Pattern := seq (text.map fun c => one (· == c))

/-- With at least one character of a class, rather with more. -/
def oneOrMore (accepts : Char → Bool) : Pattern := both (one accepts) (many accepts)

/-- Rather in this way, but possibly not. -/
def optional (pattern : Pattern) : Pattern := either pattern nothing

/-- With blanks up to the end of the text, among them at most one `sign`. -/
def closing (sign : Char) : Pattern :=
  seq [many isBlank, optional (one (· == sign)), many isBlank, finish]

/-- The places at which a match that begins at a place may end, the preferred one
first. -/
def spots : Pattern → Spot → List Spot
  | nothing, spot => [spot]
  | one accepts, spot =>
    match spot.ahead with
    | [] => []
    | c :: ahead => if accepts c then [{ spot with passed := c :: spot.passed, ahead }] else []
  | many accepts, spot => (Spot.through accepts spot.captured spot.passed spot.ahead).reverse
  | few accepts, spot => Spot.through accepts spot.captured spot.passed spot.ahead
  | both first second, spot => (first.spots spot).flatMap second.spots
  | either first second, spot => first.spots spot ++ second.spots spot
  | capture number pattern, spot =>
    (pattern.spots spot).map fun later =>
      { later with captured := (number, spot.upTo later) :: later.captured }
  | edge, spot => if spot.isEdge then [spot] else []
  | finish, spot => if spot.ahead.isEmpty then [spot] else []

/-- The preferred match at the front of a text: the place at which it ends. -/
def first? (pattern : Pattern) (text : List Char) : Option Spot :=
  (pattern.spots { ahead := text }).head?

/-- The preferred match at the foremost place of a text that has one: the place at which
it begins, and the one at which it ends. -/
def find? (pattern : Pattern) (text : List Char) : Option (Spot × Spot) :=
  go [] text
where
  /-- Search behind the characters `passed`. -/
  go (passed : List Char) : List Char → Option (Spot × Spot)
    | [] => ((pattern.spots ⟨passed, [], []⟩).head?).map (⟨passed, [], []⟩, ·)
    | c :: ahead =>
      match (pattern.spots ⟨passed, c :: ahead, []⟩).head? with
      | some later => some (⟨passed, c :: ahead, []⟩, later)
      | none => go (c :: passed) ahead

end Pattern

end Offside.Text
