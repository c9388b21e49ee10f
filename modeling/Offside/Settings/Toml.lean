/-
# Settings files

Settings files are TOML documents: tables under headers, dotted keys, inline tables,
arrays, strings of all four kinds, integers, floats, booleans and dates, which count
as text.

Reading goes line by line and builds a tree that remembers how each table came
about. A table may be opened by one header only, and a dotted key may set a key only
in a table that dotted keys made. On the way there it may pass through tables that
exist as the parents of others. A key may be set once.

Keys and values are bounded in depth: a key has fewer than eighty parts, and fewer
than eighty brackets are open at once.
-/

import Offside.Settings.Date
import Offside.Settings.Path
import Offside.Text.Hex
import Offside.Text.Lines

namespace Offside.Settings.Toml

/-- A reader takes something off the front of a text, or refuses the text. -/
abbrev Reader (α : Type) := List Char → Option (α × List Char)

/-! ## Blanks and comments -/

/-- Blanks inside a line. -/
def isSpace (c : Char) : Bool := c == ' ' || c == '\t'

/-- Drop blanks inside a line. -/
def dropSpaces (text : List Char) : List Char := text.dropWhile isSpace

/-- Characters that no string or comment holds: control characters except the tab. -/
def isControl (c : Char) : Bool := (c.toNat < 0x20 && c != '\t') || c.toNat == 0x7f

/-- Drop one line end. -/
def dropLineEnd? : List Char → Option (List Char)
  | '\n' :: rest => some rest
  | '\r' :: '\n' :: rest => some rest
  | _ => none

/-- Drop a comment up to its line end, if there is one here. -/
def dropComment? (text : List Char) : Option (List Char) :=
  match text with
  | '#' :: rest =>
    let after := rest.dropWhile (!isControl ·)
    if after.isEmpty || (dropLineEnd? after).isSome then some after else none
  | _ => some text

/-- Drop what may stand behind an item at the end of its line, with the line end. -/
def dropRestOfLine? (text : List Char) : Option (List Char) := do
  let rest ← dropComment? (dropSpaces text)
  if rest.isEmpty then some [] else dropLineEnd? rest

/-- Drop blanks, comments and line ends; `fuel` bounds the number of lines. -/
def dropLines? (fuel : Nat) (text : List Char) : Option (List Char) := do
  match fuel with
  | 0 => none
  | fuel + 1 =>
    let rest ← dropComment? (dropSpaces text)
    match dropLineEnd? rest with
    | some after => dropLines? fuel after
    | none => some rest

/-! ## Strings -/

/-- The character of an escape with hexadecimal digits, which must be all there and
name a character. -/
def hexChar? (digits : List Char) : Option Char := do
  let values ← digits.mapM Text.hexValue?
  let n := values.foldl (fun n d => 16 * n + d) 0
  if n.isValidChar then some (Char.ofNat n) else none

/-- Read an escape, the backslash already taken off. -/
def escape? : Reader Char
  | 'b' :: rest => some ('\x08', rest)
  | 't' :: rest => some ('\t', rest)
  | 'n' :: rest => some ('\n', rest)
  | 'f' :: rest => some ('\x0c', rest)
  | 'r' :: rest => some ('\r', rest)
  | '"' :: rest => some ('"', rest)
  | '\\' :: rest => some ('\\', rest)
  | 'u' :: rest =>
    if rest.length < 4 then none else (hexChar? (rest.take 4)).map fun c => (c, rest.drop 4)
  | 'U' :: rest =>
    if rest.length < 8 then none else (hexChar? (rest.take 8)).map fun c => (c, rest.drop 8)
  | _ => none

/-- Read a basic string behind its opening quote. -/
def basicString? (fuel : Nat) (text : List Char) : Option (List Char × List Char) :=
  match fuel, text with
  | 0, _ | _, [] => none
  | _ + 1, '"' :: rest => some ([], rest)
  | fuel + 1, '\\' :: rest => do
    let (c, rest) ← escape? rest
    let (s, after) ← basicString? fuel rest
    some (c :: s, after)
  | fuel + 1, c :: rest =>
    if isControl c then none
    else (basicString? fuel rest).map fun (s, after) => (c :: s, after)

/-- Read a literal string behind its opening quote. -/
def literalString? : Reader (List Char)
  | [] => none
  | '\'' :: rest => some ([], rest)
  | c :: rest =>
    if isControl c then none
    else (literalString? rest).map fun (s, after) => (c :: s, after)

/-- The end of a string in triple quotes: up to two quotes may stand in front of the
closing three and belong to the string. -/
def tripleEnd? (quote : Char) (text : List Char) : Option (List Char × List Char) :=
  let count := min 5 (text.takeWhile (· == quote)).length
  if 3 ≤ count then some (List.replicate (count - 3) quote, text.drop count) else none

/-- Drop blanks and line ends. -/
def dropBlankLines : List Char → List Char
  | '\r' :: '\n' :: rest => dropBlankLines rest
  | c :: rest => if isSpace c || c == '\n' then dropBlankLines rest else c :: rest
  | [] => []

/-- Drop the blanks behind a backslash at the end of a line, over further lines. -/
def dropContinuation? (text : List Char) : Option (List Char) :=
  (dropLineEnd? (dropSpaces text)).map dropBlankLines

/-- Read a string in triple quotes behind its opening, with escapes or without. -/
def tripleString? (quote : Char) (escapes : Bool) (fuel : Nat) (text : List Char) :
    Option (List Char × List Char) :=
  match fuel with
  | 0 => none
  | fuel + 1 =>
    match tripleEnd? quote text with
    | some (s, after) => some (s, after)
    | none =>
      match text with
      | [] => none
      | '\\' :: rest =>
        if !escapes then (tripleString? quote escapes fuel rest).map fun (s, a) => ('\\' :: s, a)
        else
          match dropContinuation? rest with
          | some rest => tripleString? quote escapes fuel rest
          | none => do
            let (c, rest) ← escape? rest
            let (s, after) ← tripleString? quote escapes fuel rest
            some (c :: s, after)
      | c :: rest =>
        match dropLineEnd? text with
        | some rest => (tripleString? quote escapes fuel rest).map fun (s, a) => ('\n' :: s, a)
        | none =>
          if isControl c then none
          else (tripleString? quote escapes fuel rest).map fun (s, a) => (c :: s, a)

/-- A line end right behind an opening triple quote is not part of the string. -/
def dropFirstLineEnd (text : List Char) : List Char := (dropLineEnd? text).getD text

/-- Read a string of any kind, if one begins here. -/
def string? (text : List Char) : Option (List Char × List Char) :=
  let fuel := text.length + 1
  match text with
  | '"' :: '"' :: '"' :: rest => tripleString? '"' true fuel (dropFirstLineEnd rest)
  | '\'' :: '\'' :: '\'' :: rest => tripleString? '\'' false fuel (dropFirstLineEnd rest)
  | '"' :: rest => basicString? fuel rest
  | '\'' :: rest => literalString? rest
  | _ => none

/-! ## Keys -/

/-- Characters of a key without quotes. -/
def isBareKey (c : Char) : Bool := c.isAlphanum || c == '_' || c == '-'

/-- Read one part of a key. -/
def keyPart? (text : List Char) : Option (List Char × List Char) :=
  match text with
  | '"' :: rest => basicString? (text.length + 1) rest
  | '\'' :: rest => literalString? rest
  | _ =>
    let name := text.takeWhile isBareKey
    if name.isEmpty then none else some (name, text.dropWhile isBareKey)

/-- Keys have fewer parts than this, and fewer brackets of values are open at once. -/
def depthBound : Nat := 80

/-- Read a key of one or more parts between points; `fuel` bounds their number. -/
def keyParts? (fuel : Nat) (text : List Char) : Option (List (List Char) × List Char) := do
  match fuel with
  | 0 => none
  | fuel + 1 =>
    let (part, rest) ← keyPart? text
    match dropSpaces rest with
    | '.' :: rest =>
      let (parts, after) ← keyParts? fuel (dropSpaces rest)
      some (part :: parts, after)
    | rest => some ([part], rest)

/-- Read a key. -/
def key? (text : List Char) : Option (List (List Char) × List Char) :=
  (keyParts? (text.length + 1) text).filter fun (parts, _) => parts.length < depthBound

/-! ## Numbers -/

/-- Digits with single underscores between them, the underscores taken out. -/
def digits? (isDigit : Char → Bool) (text : List Char) : Option (List Char) :=
  let groups := text.splitOn '_'
  if groups.all fun group => !group.isEmpty && group.all isDigit then some groups.flatten else none

/-- The number that digits of a base write. -/
def ofDigits (base : Nat) (digits : List Char) : Nat :=
  digits.foldl (fun n c => base * n + (Text.hexValue? c).getD 0) 0

/-- A decimal without a needless zero in front. -/
def decimal? (text : List Char) : Option (List Char) := do
  let digits ← digits? Char.isDigit text
  if digits.length > 1 && digits.head? = some '0' then none else some digits

/-- Integers are signed 64-bit numbers. -/
def inRange (n : Int) : Option Int :=
  if -0x8000000000000000 ≤ n && n < 0x8000000000000000 then some n else none

/-- The sign in front of a number, and the rest. -/
def sign (text : List Char) : Bool × List Char :=
  match text with
  | '-' :: rest => (true, rest)
  | '+' :: rest => (false, rest)
  | _ => (false, text)

/-- Read an integer that fills a text. -/
def integer? (text : List Char) : Option Int :=
  match text with
  | '0' :: 'x' :: rest =>
    (digits? (Text.hexValue? · |>.isSome) rest).bind fun ds => inRange (ofDigits 16 ds)
  | '0' :: 'o' :: rest => (digits? (fun c => '0' ≤ c && c ≤ '7') rest).bind fun ds =>
    inRange (ofDigits 8 ds)
  | '0' :: 'b' :: rest => (digits? (fun c => c == '0' || c == '1') rest).bind fun ds =>
    inRange (ofDigits 2 ds)
  | _ =>
    let (negative, rest) := sign text
    (decimal? rest).bind fun ds =>
      inRange (if negative then -(ofDigits 10 ds : Int) else ofDigits 10 ds)

/-- The exponent of a float: an `e`, a sign and digits. -/
def exponent? (text : List Char) : Option Int := do
  let (negative, rest) := sign text
  let digits ← digits? Char.isDigit rest
  some (if negative then -(ofDigits 10 digits : Int) else ofDigits 10 digits)

/-- Read a float that fills a text. A number above the finite ones is refused. -/
def float? (text : List Char) : Option Float := do
  let (negative, rest) := sign text
  let signed (x : Float) : Float := if negative then -x else x
  if rest = ['i', 'n', 'f'] then some (signed (1.0 / 0.0))
  else if rest = ['n', 'a', 'n'] then some (0.0 / 0.0)
  else
    let isMark (c : Char) : Bool := c == 'e' || c == 'E'
    let body := rest.takeWhile (!isMark ·)
    let exponent ← match rest.dropWhile (!isMark ·) with
      | [] => some 0
      | _ :: text => exponent? text
    let whole ← decimal? (body.takeWhile (· ≠ '.'))
    let fraction ← match body.dropWhile (· ≠ '.') with
      | [] => if body.length = rest.length then none else some []
      | _ :: text => digits? Char.isDigit text
    let x := Text.Decimal.toFloat (ofDigits 10 (whole ++ fraction)) (exponent - fraction.length)
    if x.isInf && !negative then none else some (signed x)

/-- Read a value that is a single word: a boolean or a number. -/
def word? (text : List Char) : Option (Value × List Char) :=
  let isPart (c : Char) : Bool := c.isAlphanum || c == '_' || c == '+' || c == '-' || c == '.'
  let word := text.takeWhile isPart
  let rest := text.dropWhile isPart
  if word = ['t', 'r', 'u', 'e'] then some (.bool true, rest)
  else if word = ['f', 'a', 'l', 's', 'e'] then some (.bool false, rest)
  else
    match integer? word with
    | some n => some (.int n, rest)
    | none => (float? word).map fun x => (.float x, rest)

/-! ## The tree of tables -/

/-- How a table came about. -/
inductive TableKind
  /-- As the parent of a table with a header of its own. -/
  | parent
  /-- By a header. -/
  | header
  /-- By a dotted key. -/
  | dotted
  deriving DecidableEq, Repr

/-- A place in a document that is being read. -/
inductive Node
  /-- A value; nothing can be added to it. -/
  | leaf (value : Value)
  /-- A table. -/
  | table (kind : TableKind) (entries : List (List Char × Node))
  /-- Tables under the same double-bracket header, in order. -/
  | tables (items : List (List (List Char × Node)))

/-- The entries of a table that is being read. -/
abbrev Entries := List (List Char × Node)

mutual

/-- The finished value of a place. -/
def Node.value : Node → Value
  | .leaf value => value
  | .table _ entries => .table (values entries)
  | .tables items => .list (valueTables items)

/-- The finished entries of a table. -/
def values : Entries → List (List Char × Value)
  | [] => []
  | (key, node) :: rest => (key, node.value) :: values rest

/-- The finished tables of a list. -/
def valueTables : List Entries → List Value
  | [] => []
  | entries :: rest => .table (values entries) :: valueTables rest

end

/-- The place of a key. -/
def find? (key : List Char) (entries : Entries) : Option Node :=
  (entries.find? (·.1 = key)).map Prod.snd

/-- Put a place under a key, in the position of the one that was there. -/
def put (key : List Char) (node : Node) (entries : Entries) : Entries :=
  update key (fun _ => node) entries

/-- Change the table that a header path leads to; tables on the way are made as
parents, and of several tables under one header the last is meant. -/
def within? (change : Entries → Option Entries) : List (List Char) → Entries → Option Entries
  | [], entries => change entries
  | key :: path, entries => do
    match find? key entries with
    | none => some (put key (.table .parent (← within? change path [])) entries)
    | some (.table kind inner) =>
      some (put key (.table kind (← within? change path inner)) entries)
    | some (.tables items) =>
      let last ← within? change path (← items.getLast?)
      some (put key (.tables (items.dropLast ++ [last])) entries)
    | some (.leaf _) => none

/-- Open a table by a header. -/
def openTable? (key : List Char) (entries : Entries) : Option Entries :=
  match find? key entries with
  | none => some (put key (.table .header []) entries)
  | some (.table .parent inner) => some (put key (.table .header inner) entries)
  | _ => none

/-- Open one more table under a double-bracket header. -/
def openItem? (key : List Char) (entries : Entries) : Option Entries :=
  match find? key entries with
  | none => some (put key (.tables [[]]) entries)
  | some (.tables items) => some (put key (.tables (items ++ [[]])) entries)
  | _ => none

/-- Set a dotted key to a value. The table that takes the last part has to be the
one that the key begins in, or made by dotted keys. -/
def assign? (value : Value) : List (List Char) → Entries → Option Entries
  | [], _ => none
  | [key], entries =>
    match find? key entries with
    | none => some (put key (.leaf value) entries)
    | some _ => none
  | key :: path, entries => do
    match find? key entries with
    | none => some (put key (.table .dotted (← assign? value path [])) entries)
    | some (.table kind inner) =>
      if kind = .header || (kind = .parent && path.length = 1) then none
      else some (put key (.table kind (← assign? value path inner)) entries)
    | some (.tables items) =>
      if path.length = 1 then none
      else
        let last ← assign? value path (← items.getLast?)
        some (put key (.tables (items.dropLast ++ [last])) entries)
    | some (.leaf _) => none

/-! ## Values and documents -/

mutual

/-- Read a value inside `depth` open brackets; `fuel` bounds the number of values. -/
def value? (fuel depth : Nat) (text : List Char) : Option (Value × List Char) :=
  match fuel with
  | 0 => none
  | fuel + 1 =>
    match text with
    | '[' :: rest =>
      if depthBound ≤ depth + 1 then none
      else (items? fuel (depth + 1) rest).map fun (items, after) => (.list items, after)
    | '\x7b' :: rest =>
      if depthBound ≤ depth + 1 then none
      else
        match dropSpaces rest with
        | '\x7d' :: after => some (.table [], after)
        | rest =>
          (inline? fuel (depth + 1) [] rest).map fun (entries, after) =>
            (.table (values entries), after)
    | '"' :: _ | '\'' :: _ => (string? text).map fun (s, after) => (.string s, after)
    | _ =>
      match Date.read? text with
      | some (date, after) => some (.string date, after)
      | none => word? text

/-- Read the items of an array behind its opening bracket or a comma. -/
def items? (fuel depth : Nat) (text : List Char) : Option (List Value × List Char) :=
  match fuel with
  | 0 => none
  | fuel + 1 => do
    match ← dropLines? (text.length + 1) text with
    | ']' :: after => some ([], after)
    | rest =>
      let (item, rest) ← value? fuel depth rest
      match ← dropLines? (rest.length + 1) rest with
      | ']' :: after => some ([item], after)
      | ',' :: rest =>
        let (items, after) ← items? fuel depth rest
        some (item :: items, after)
      | _ => none

/-- Read the entries of an inline table behind its opening brace or a comma. -/
def inline? (fuel depth : Nat) (entries : Entries) (text : List Char) :
    Option (Entries × List Char) :=
  match fuel with
  | 0 => none
  | fuel + 1 => do
    let (key, rest) ← key? text
    match rest with
    | '=' :: rest =>
      let (value, rest) ← value? fuel depth (dropSpaces rest)
      let entries ← assign? value key entries
      match dropSpaces rest with
      | '\x7d' :: after => some (entries, after)
      | ',' :: rest => inline? fuel depth entries (dropSpaces rest)
      | _ => none
    | _ => none

end

/-- Read a key and its value. -/
def setting? (text : List Char) : Option ((List (List Char) × Value) × List Char) := do
  let (key, rest) ← key? text
  match rest with
  | '=' :: rest =>
    let (value, rest) ← value? (2 * text.length + 2) 0 (dropSpaces rest)
    some ((key, value), rest)
  | _ => none

/-- Read a header behind its first bracket: its path, whether the bracket is double,
and what follows. -/
def header? (text : List Char) : Option ((List (List Char) × Bool) × List Char) := do
  let (double, text) := match text with
    | '[' :: rest => (true, rest)
    | _ => (false, text)
  let (path, rest) ← key? (dropSpaces text)
  match double, rest with
  | true, ']' :: ']' :: rest => some ((path, true), rest)
  | false, ']' :: rest => some ((path, false), rest)
  | _, _ => none

/-- Read the rest of a document into a tree whose current table is at `path`; `fuel`
bounds the number of lines. -/
def document? (fuel : Nat) (path : List (List Char)) (entries : Entries) (text : List Char) :
    Option Entries := do
  match fuel with
  | 0 => none
  | fuel + 1 =>
    match ← dropLines? (text.length + 1) text with
    | [] => some entries
    | '[' :: rest =>
      let ((path, double), rest) ← header? rest
      let name ← path.getLast?
      let open? := if double then openItem? name else openTable? name
      let entries ← within? open? path.dropLast entries
      document? fuel path entries (← dropRestOfLine? rest)
    | rest =>
      let ((key, value), rest) ← setting? rest
      let entries ← within? (assign? value key) path entries
      document? fuel path entries (← dropRestOfLine? rest)

/-- The root table of a document, or nothing if the document is malformed. A byte
order mark in front is ignored. -/
def parse? (text : List Char) : Option Value :=
  let text := if text.head? = some '\ufeff' then text.drop 1 else text
  (document? (text.length + 1) [] [] text).map fun entries => .table (values entries)

end Offside.Settings.Toml
