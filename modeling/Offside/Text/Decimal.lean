/-
# Numbers as decimal text

`shortest` writes a floating-point number with the fewest digits that read back as
the same number, and of those digits the nearest to its value, the upper ones where
two are equally near. The notation is positional for every magnitude: `1`, `0.5`, `100000000000000000000000`.

A finite number is `m · 2^q` with natural `m`. The reals that read back as it form
an interval around it, ends included exactly when `m` is even. A grid of decimals
with a given number of digits has a point in the interval only if one of the two
neighbours of the number on that grid is such a point, so the search tries one digit
more at a time and looks at two candidates each time.

`natural?` reads a natural number without any sign or separator.
-/

namespace Offside.Text

/-- The digits of a natural number in base ten. -/
def natText (n : Nat) : List Char := Nat.toDigits 10 n

/-- The number that decimal digits write; at least one digit and nothing else. -/
def natural? (text : List Char) : Option Nat :=
  if text.isEmpty || !text.all Char.isDigit then none
  else some (text.foldl (fun n c => 10 * n + (c.toNat - '0'.toNat)) 0)

namespace Decimal

/-- A positive finite floating-point number `m · 2^q`, and whether the number right
below it is only half as far away as the one above. -/
structure Binary where
  /-- The significand. -/
  m : Nat
  /-- The exponent of two. -/
  q : Int
  /-- The significand is the least of its binade. -/
  atBinadeStart : Bool

/-- Take the magnitude of a finite number apart. -/
def Binary.ofFloat (x : Float) : Binary :=
  let bits : Nat := x.toBits.toNat
  let fraction : Nat := bits % 0x10000000000000
  let exponent : Nat := bits / 0x10000000000000 % 0x800
  if exponent = 0 then ⟨fraction, -1074, false⟩
  else ⟨fraction + 0x10000000000000, (exponent : Int) - 1075, fraction = 0 && exponent > 1⟩

/-- The number of decimal digits in front of the point, zero or less for a number
below one tenth. -/
def Binary.magnitude (b : Binary) : Int :=
  let numerator := b.m * Nat.pow 2 b.q.toNat
  let denominator := Nat.pow 2 (-b.q).toNat
  if denominator ≤ numerator then ((natText (numerator / denominator)).length : Int)
  else descend 400 numerator 0 denominator
where
  /-- Multiply by ten until the number reaches one tenth. -/
  descend (fuel numerator : Nat) (e : Int) (denominator : Nat) : Int :=
    match fuel with
    | 0 => e
    | fuel + 1 =>
      if denominator ≤ 10 * numerator then e else descend fuel (10 * numerator) (e - 1) denominator

/-- The nearest decimal `d · 10^k` to a number that reads back as it, among those
with this exponent, if there is one; of two equally near ones the upper. -/
def Binary.candidate? (b : Binary) (k : Int) : Option Nat :=
  let scale := Nat.pow 2 (b.q - 2).toNat * Nat.pow 10 (-k).toNat
  let unit := Nat.pow 10 k.toNat * Nat.pow 2 (2 - b.q).toNat
  let value := 4 * b.m * scale
  let low := (4 * b.m - if b.atBinadeStart then 1 else 2) * scale
  let high := (4 * b.m + 2) * scale
  let inside (d : Nat) : Bool :=
    if b.m % 2 = 0 then low ≤ d * unit && d * unit ≤ high
    else low < d * unit && d * unit < high
  let below := value / unit
  let above := below + 1
  match inside below, inside above with
  | true, true => if value - below * unit < above * unit - value then some below else some above
  | true, false => some below
  | false, true => some above
  | false, false => none

/-- Try more and more digits, beginning with `digits`: the decimal `d · 10^k`. -/
def Binary.shortest (b : Binary) (magnitude : Int) (digits : Nat) : (fuel : Nat) → Nat × Int
  | 0 => (0, 0)
  | fuel + 1 =>
    let k := magnitude - digits
    match b.candidate? k with
    | some d => (d, k)
    | none => b.shortest magnitude (digits + 1) fuel

/-- The decimal `d · 10^k` in positional notation, without needless zeros behind the
point. -/
def positional (d : Nat) (k : Int) : List Char :=
  let digits := natText d
  if 0 ≤ k then if d = 0 then ['0'] else digits ++ List.replicate k.toNat '0'
  else
    let places := (-k).toNat
    let padded := List.replicate (places + 1 - digits.length) '0' ++ digits
    let whole := padded.take (padded.length - places)
    let fraction := ((padded.drop (padded.length - places)).reverse.dropWhile (· == '0')).reverse
    if fraction.isEmpty then whole else whole ++ '.' :: fraction

/-- A floating-point number as text. -/
def shortest (x : Float) : List Char :=
  if x.isNaN then ['N', 'a', 'N']
  else
    let sign := if x.toBits ≥ 0x8000000000000000 then ['-'] else []
    if x.isInf then sign ++ ['i', 'n', 'f']
    else
      let b := Binary.ofFloat x
      if b.m = 0 then sign ++ ['0']
      else
        let (d, k) := b.shortest b.magnitude 1 18
        sign ++ positional d k

/-- The floating-point number nearest to `digits · 10^exponent`. -/
def toFloat (digits : Nat) (exponent : Int) : Float :=
  if digits = 0 then 0.0
  else
    let size := (natText digits).length
    if 400 < exponent + size then 1.0 / 0.0
    else if exponent + size < -400 then 0.0
    else if exponent < 0 then Float.ofScientific digits true (-exponent).toNat
    else Float.ofScientific digits false exponent.toNat

end Decimal

end Offside.Text
