/-
# Paths into layered values

A path names a place: an identifier, then any number of `.identifier` and `[index]`
steps. An identifier is made of ASCII letters, digits, blanks, `_` and `-`. An index
may be negative and then counts from the end.

Setting a place makes room for it: where a step needs a table or a list, a value of
another shape gives way to an empty one. An index past the end fills the gap with
nothing, and a negative one before the front moves everything back.
-/

import Offside.Settings.Value

namespace Offside.Settings

/-- A step from a value to a part of it. -/
inductive Step
  /-- The entry of a key. -/
  | key (name : List Char)
  /-- The item at an index. -/
  | index (n : Int)
  deriving DecidableEq, Repr

/-- The steps to a place, from the root on. -/
abbrev Path := List Step

namespace Path

/-- Characters of an identifier. -/
def isNamePart (c : Char) : Bool := c.isAlphanum || c == ' ' || c == '_' || c == '-'

/-- Characters that may stand around an index. -/
def isPadding (c : Char) : Bool := c == ' ' || c == '\t'

/-- Indices lie between these bounds. -/
def indexBound : Int := 0x8000000000000000

/-- The index between two square brackets. -/
def index? (text : List Char) : Option Int := do
  let inner := ((text.dropWhile isPadding).reverse.dropWhile isPadding).reverse
  let n ← match inner with
    | '-' :: digits => (Text.natural? digits).map fun n => -(n : Int)
    | digits => (Text.natural? digits).map Int.ofNat
  if -indexBound ≤ n && n < indexBound then some n else none

/-- The steps behind the first identifier; `fuel` bounds their number. -/
def steps? (fuel : Nat) (text : List Char) : Option Path :=
  match fuel, text with
  | _, [] => some []
  | 0, _ => none
  | fuel + 1, '.' :: rest =>
    let name := rest.takeWhile isNamePart
    if name.isEmpty then none
    else (steps? fuel (rest.dropWhile isNamePart)).map (.key name :: ·)
  | fuel + 1, '[' :: rest =>
    match rest.dropWhile (· ≠ ']') with
    | [] => none
    | _ :: behind => do
      let n ← index? (rest.takeWhile (· ≠ ']'))
      (steps? fuel behind).map (.index n :: ·)
  | _ + 1, _ => none

/-- The path that a text writes. -/
def parse? (text : List Char) : Option Path := steps? (text.length + 1) ('.' :: text)

/-- Change the item at an index of a list, after making room for it. -/
def changeItem (n : Int) (change : Option Value → Value) (items : List Value) : List Value :=
  let place (i : Nat) (items : List Value) : List Value := items.modify i fun v => change (some v)
  if 0 ≤ n then
    let i := n.toNat
    place i (items ++ List.replicate (i + 1 - items.length) .nil)
  else
    let back := n.natAbs
    if back ≤ items.length then place (items.length - back) items
    else place 0 (List.replicate (back - items.length) .nil ++ items)

/-- Put a value at the place that a path names: layered over what is there under a
key, and in its stead at an index. -/
def set (path : Path) (value : Value) (root : Option Value) : Value :=
  match path with
  | [] => Value.layered root value
  | [.index n] => .list (changeItem n (fun _ => value) ((root.map Value.items).getD []))
  | .key name :: rest =>
    .table (update (lowerKey name) (set rest value) ((root.map Value.entries).getD []))
  | .index n :: rest =>
    .list (changeItem n (set rest value) ((root.map Value.items).getD []))

end Path

end Offside.Settings
