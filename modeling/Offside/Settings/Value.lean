/-
# Layered values

Settings come from several places, and later ones are layered over earlier ones.
Tables merge key by key; any other value replaces what was there. Keys are compared
in lower case.

Where a boolean, a text or a number is wanted, values of other shapes are converted
if there is a usual way to read them as one, and refused otherwise.
-/

import Offside.Text.Decimal

namespace Offside.Settings

/-- A value that settings can hold. -/
inductive Value
  /-- Nothing; it fills the gap when an index past the end is set. -/
  | nil
  | bool (b : Bool)
  | int (n : Int)
  | float (x : Float)
  | string (s : List Char)
  | list (items : List Value)
  | table (entries : List (List Char × Value))

/-- A character in lower case. Keys that are looked for are ASCII, and besides its own
capitals only the Kelvin sign has a lower case there. -/
def lower (c : Char) : Char := if c = '\u212a' then 'k' else c.toLower

/-- A key in lower case. -/
def lowerKey (key : List Char) : List Char := key.map lower

/-- Change the entry of a key, or add one behind all others. -/
def update {α : Type} (key : List Char) (change : Option α → α) :
    List (List Char × α) → List (List Char × α)
  | [] => [(key, change none)]
  | (k, v) :: rest =>
    if k = key then (k, change (some v)) :: rest else (k, v) :: update key change rest

namespace Value

/-- The entries of a table; none for any other value. -/
def entries : Value → List (List Char × Value)
  | table entries => entries
  | _ => []

/-- The items of a list; none for any other value. -/
def items : Value → List Value
  | list items => items
  | _ => []

mutual

/-- Layer a value over another. An empty table changes nothing where there is a
value already. -/
def layered (base : Option Value) : Value → Value
  | table [] => base.getD (table [])
  | table incoming => table (layerEntries ((base.map entries).getD []) incoming)
  | value => value

/-- Layer the entries of a table over those of another. -/
def layerEntries (base : List (List Char × Value)) :
    List (List Char × Value) → List (List Char × Value)
  | [] => base
  | (key, value) :: rest =>
    layerEntries (update (lowerKey key) (fun old => layered old value) base) rest

end

/-- The value of a key in a table. -/
def get? (value : Value) (key : List Char) : Option Value :=
  (value.entries.find? (·.1 = key)).map Prod.snd

/-- Words for yes, in lower case. -/
def yesWords : List String := ["true", "on", "yes"]

/-- Words for no, in lower case. -/
def noWords : List String := ["false", "off", "no"]

/-- The truth that a word stands for, in either case. -/
def ofWord? (s : List Char) : Option Bool :=
  let word := String.ofList (s.map Char.toLower)
  if yesWords.contains word then some true
  else if noWords.contains word then some false
  else none

/-- The value as a boolean. A number is true unless zero. -/
def toBool? : Value → Option Bool
  | bool b => some b
  | int n => some (n ≠ 0)
  | float x => some (x != 0.0)
  | string s => if s = ['1'] then some true else if s = ['0'] then some false else ofWord? s
  | nil | list _ | table _ => none

/-- An integer as text. -/
def intText (n : Int) : List Char :=
  if n < 0 then '-' :: Text.natText n.natAbs else Text.natText n.natAbs

/-- The value as text. -/
def toText? : Value → Option (List Char)
  | string s => some s
  | int n => some (intText n)
  | float x => some (Text.Decimal.shortest x)
  | bool b => some (if b then "true" else "false").toList
  | nil | list _ | table _ => none

/-- Numbers of settings are below this one. -/
def limit : Nat := 0x10000000000000000

/-- The value as a natural number below `limit`. A float is rounded to the nearest
whole number, away from zero at a half, and held between zero and the limit. -/
def toNat? : Value → Option Nat
  | int n => if 0 ≤ n && n < limit then some n.toNat else none
  | float x => some x.round.toUInt64.toNat
  | bool b => some b.toNat
  | string s =>
    match ofWord? s with
    | some b => some b.toNat
    | none =>
      (Text.natural? (if s.head? = some '+' then s.drop 1 else s)).filter (· < limit)
  | nil | list _ | table _ => none

end Value

end Offside.Settings
