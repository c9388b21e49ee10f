/-
# Dates in settings files

A date stands in a settings file without quotes and counts as the text that writes
it. It is a day of the calendar, a time of day, or both; a day with a time may be
followed by the distance from universal time. The text is the usual spelling: a
capital `T` between day and time, at most nine digits of a second and no needless
zeros among them, and a capital `Z` or a signed distance at the end.

Years have four digits and the calendar has its present leap years throughout. A
minute may have a sixty-first second.
-/

import Offside.Text.Decimal

namespace Offside.Settings.Date

/-- Read a number of so many digits that lies between two bounds. -/
def number? (count low high : Nat) (text : List Char) : Option (Nat × List Char) := do
  let digits := text.take count
  let n ← Text.natural? digits
  if digits.length = count && low ≤ n && n ≤ high then some (n, text.drop count) else none

/-- Read a number of two digits behind a separator. -/
def part? (separator : Char) (low high : Nat) : List Char → Option (Nat × List Char)
  | c :: rest => if c = separator then number? 2 low high rest else none
  | [] => none

/-- A number in two digits. -/
def twoDigits (n : Nat) : List Char := Text.natText (n / 10) ++ Text.natText (n % 10)

/-- A year with a twenty-ninth of February. -/
def isLeap (year : Nat) : Bool := year % 4 = 0 && (year % 100 ≠ 0 || year % 400 = 0)

/-- The number of days of a month. -/
def daysIn (year month : Nat) : Nat :=
  if month = 2 then if isLeap year then 29 else 28
  else if [4, 6, 9, 11].contains month then 30
  else 31

/-- Read a day: year, month and day of the month. -/
def day? (text : List Char) : Option (List Char × List Char) := do
  let (year, rest) ← number? 4 0 9999 text
  let (month, rest) ← part? '-' 1 12 rest
  let (day, rest) ← part? '-' 1 (daysIn year month) rest
  some (text.take 4 ++ '-' :: twoDigits month ++ '-' :: twoDigits day, rest)

/-- The digits behind the point of a second, with their point, as they are written. -/
def fractionText (digits : List Char) : List Char :=
  let kept := ((digits.take 9).reverse.dropWhile (· == '0')).reverse
  if kept.isEmpty then [] else '.' :: kept

/-- Read a time of day: hour, minute and second. -/
def time? (text : List Char) : Option (List Char × List Char) := do
  let (hour, rest) ← number? 2 0 23 text
  let (minute, rest) ← part? ':' 0 59 rest
  let (second, rest) ← part? ':' 0 60 rest
  let digits := match rest with
    | '.' :: behind => behind.takeWhile Char.isDigit
    | _ => []
  let whole := twoDigits hour ++ ':' :: twoDigits minute ++ ':' :: twoDigits second
  some (whole ++ fractionText digits, if digits.isEmpty then rest else rest.drop (digits.length + 1))

/-- Read the distance from universal time: its letter, or hours and minutes behind a
sign. No distance is never negative. -/
def distance? : List Char → Option (List Char × List Char)
  | 'Z' :: rest | 'z' :: rest => some (['Z'], rest)
  | sign :: rest => do
    if sign = '+' || sign = '-' then
      let (hours, rest) ← number? 2 0 23 rest
      let (minutes, rest) ← part? ':' 0 59 rest
      let sign := if hours = 0 && minutes = 0 then '+' else sign
      some (sign :: twoDigits hours ++ ':' :: twoDigits minutes, rest)
    else none
  | [] => none

/-- Read the time behind a day, with the distance from universal time, if both are
there. -/
def timeBehind? : List Char → Option (List Char × List Char)
  | mark :: rest => do
    if mark = 'T' || mark = 't' || mark = ' ' then
      let (time, rest) ← time? rest
      let (distance, rest) := (distance? rest).getD ([], rest)
      some ('T' :: time ++ distance, rest)
    else none
  | [] => none

/-- Read a date: its usual spelling, and what follows. -/
def read? (text : List Char) : Option (List Char × List Char) :=
  match day? text with
  | none => time? text
  | some (day, rest) =>
    let (time, rest) := (timeBehind? rest).getD ([], rest)
    some (day ++ time, rest)

end Offside.Settings.Date
