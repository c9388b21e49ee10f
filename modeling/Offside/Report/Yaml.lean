/-
# Reports in YAML

A report is a mapping with four keys in a fixed order. A text is written in the
plainest way in which it is read back as itself:

* a text with line feeds as a literal block, whose lines are indented by two blanks,
  unless a blank stands at its end or in front of a line end;
* a text that would be read as a number, a truth value or nothing, or that begins or
  reads like other syntax, between single quotes;
* a text with characters that cannot stand for themselves, or with blanks that would
  be lost, between double quotes;
* any other text plainly.
-/

import Offside.Session
import Offside.Text.Decimal
import Offside.Text.Hex

namespace Offside.Report.Yaml

/-! ## Characters -/

/-- A character that ends a line. -/
def isBreak (c : Char) : Bool :=
  c == '\n' || c == '\r' || c == '\u0085' || c == '\u2028' || c == '\u2029'

/-- A character that can stand for itself. -/
def isPrintable (c : Char) : Bool :=
  let n := c.toNat
  n == 0x0a || (0x20 ≤ n && n ≤ 0x7e) ||
    (0xa0 ≤ n && n != 0xfeff && n != 0xfffe && n != 0xffff)

/-- A blank, a line end, or the end of the text. -/
def isGap (c : Option Char) : Bool :=
  match c with
  | none => true
  | some c => c == ' ' || c == '\t' || isBreak c

/-! ## Texts that mean something else -/

/-- Every character is a digit of a base, and there is one. -/
def areDigits (isDigit : Char → Bool) (text : List Char) : Bool :=
  !text.isEmpty && text.all isDigit

/-- A text without a sign in front. -/
def dropSign (text : List Char) : List Char :=
  match text with
  | '+' :: rest | '-' :: rest => rest
  | _ => text

/-- Digits behind a superfluous zero. Such a text is no number, although it might be
taken for one. -/
def hasLeadingZero (text : List Char) : Bool :=
  match dropSign text with
  | '0' :: rest => areDigits Char.isDigit rest
  | _ => false

/-- A whole number: decimal, or behind `0x`, `0o` or `0b`. -/
def isInteger (text : List Char) : Bool :=
  match dropSign text with
  | '0' :: 'x' :: digits => areDigits (fun c => (Text.hexValue? c).isSome) digits
  | '0' :: 'o' :: digits => areDigits (fun c => '0' ≤ c && c ≤ '7') digits
  | '0' :: 'b' :: digits => areDigits (fun c => c == '0' || c == '1') digits
  | digits => areDigits Char.isDigit digits

/-- A decimal fraction with an optional exponent, within the range of floating-point
numbers; or one of the words for infinity and for what is not a number. -/
def isFraction (text : List Char) : Bool :=
  let unsigned := dropSign text
  let word := String.ofList unsigned
  if [".inf", ".Inf", ".INF"].contains word then true
  else if [".nan", ".NaN", ".NAN"].contains (String.ofList text) then true
  else
    let whole := unsigned.takeWhile Char.isDigit
    let rest := unsigned.drop whole.length
    let (fraction, rest) := match rest with
      | '.' :: rest => (rest.takeWhile Char.isDigit, rest.dropWhile Char.isDigit)
      | _ => ([], rest)
    let digits := whole ++ fraction
    let exponent : Option Int := match rest with
      | [] => some 0
      | 'e' :: rest | 'E' :: rest =>
        let magnitude := (Text.natural? (dropSign rest)).map Int.ofNat
        if rest.head? = some '-' then magnitude.map (- ·) else magnitude
      | _ => none
    match digits.isEmpty, exponent with
    | false, some e =>
      (Text.Decimal.toFloat ((Text.natural? digits).getD 0) (e - fraction.length)).isFinite
    | _, _ => false

/-- The words for truth values and for nothing, some of them from older versions of
the language. -/
def reservedWords : List String :=
  ["", "~", "null", "Null", "NULL", "true", "True", "TRUE", "false", "False", "FALSE",
    "y", "Y", "yes", "Yes", "YES", "n", "N", "no", "No", "NO",
    "on", "On", "ON", "off", "Off", "OFF"]

/-- Written plainly, the text would not be read as a text. -/
def isAmbiguous (text : List Char) : Bool :=
  reservedWords.contains (String.ofList text) || hasLeadingZero text || isInteger text ||
    isFraction text

/-! ## Forms -/

/-- Signs that begin other syntax. -/
def isIndicator (c : Char) : Bool := "#,[]\x7b\x7d&*!|>'\"%@\x60".toList.contains c

/-- A colon in front of a gap, or a number sign behind one. -/
def hasInnerSyntax : List Char → Bool
  | [] => false
  | c :: rest =>
    (c == ':' && isGap rest.head?) || (isGap (some c) && rest.head? == some '#') ||
      hasInnerSyntax rest

/-- The text begins or reads like other syntax. -/
def looksLikeSyntax (text : List Char) : Bool :=
  ['-', '-', '-'].isPrefixOf text || ['.', '.', '.'].isPrefixOf text || hasInnerSyntax text ||
    match text with
    | [] => false
    | c :: rest =>
      isIndicator c || ((c == '?' || c == ':' || c == '-') && isGap rest.head?)

/-- Some character is followed by one of another kind. -/
def hasPair (first second : Char → Bool) : List Char → Bool
  | a :: b :: rest => (first a && second b) || hasPair first second (b :: rest)
  | _ => false

/-- How a text is written. -/
inductive Form
  | plain
  | singleQuoted
  | doubleQuoted
  | literal
  deriving DecidableEq, Repr

/-- The form of a text. -/
def formOf (text : List Char) : Form :=
  let isSpace (c : Char) : Bool := c == ' '
  let special := !text.all isPrintable
  let spaceAtEnd := text.getLast? == some ' '
  let spaceBeforeBreak := hasPair isSpace isBreak text
  let spaceAfterBreak := hasPair isBreak isSpace text
  if text.contains '\n' then
    if special || spaceAtEnd || spaceBeforeBreak then .doubleQuoted else .literal
  else if special || spaceBeforeBreak || spaceAfterBreak then .doubleQuoted
  else if isAmbiguous text || looksLikeSyntax text || text.any isBreak || spaceAtEnd ||
      text.head? == some ' ' then .singleQuoted
  else .plain

/-! ## Writing -/

/-- Lines of a block or of a quoted text are indented by this much. -/
def indentation : List Char := [' ', ' ']

/-- A text behind its indentation; `fresh` if the first character begins a line. -/
def indented (fresh : Bool) : List Char → List Char
  | [] => []
  | c :: rest =>
    if isBreak c then c :: indented true rest
    else if fresh then indentation ++ c :: indented false rest
    else c :: indented false rest

/-- What stands behind the bar of a literal block: the indentation if the first
character hides it, and what becomes of the line ends behind the text. -/
def literalHints (text : List Char) : List Char :=
  let hidden := (text.head?.map fun c => c == ' ' || isBreak c).getD false
  let ending := match text.reverse with
    | [] => ['-']
    | [last] => if isBreak last then ['+'] else ['-']
    | last :: before :: _ =>
      if !isBreak last then ['-'] else if isBreak before then ['+'] else []
  (if hidden then ['2'] else []) ++ ending

/-- A number in uppercase hexadecimal digits. -/
def hexDigits (width n : Nat) : List Char :=
  match width with
  | 0 => []
  | width + 1 => hexDigits width (n / 16) ++ [Text.upperHexDigit (n % 16)]

/-- A character between double quotes. -/
def escaped (c : Char) : List Char :=
  if isPrintable c && !isBreak c && c != '"' && c != '\\' then [c]
  else
    '\\' :: match c with
      | '\x00' => ['0']
      | '\x07' => ['a']
      | '\x08' => ['b']
      | '\t' => ['t']
      | '\n' => ['n']
      | '\x0b' => ['v']
      | '\x0c' => ['f']
      | '\r' => ['r']
      | '\x1b' => ['e']
      | '"' => ['"']
      | '\\' => ['\\']
      | '\u0085' => ['N']
      | '\u2028' => ['L']
      | '\u2029' => ['P']
      | _ =>
        let n := c.toNat
        if n ≤ 0xff then 'x' :: hexDigits 2 n
        else if n ≤ 0xffff then 'u' :: hexDigits 4 n
        else 'U' :: hexDigits 8 n

/-- A text as a value, up to the end of its line. -/
def scalar (text : List Char) : List Char :=
  match formOf text with
  | .plain => text ++ ['\n']
  | .singleQuoted =>
    let doubled := text.flatMap fun c => if c = '\'' then ['\'', '\''] else [c]
    let last := if (text.getLast?.map isBreak).getD false then indentation else []
    '\'' :: indented false doubled ++ last ++ ['\'', '\n']
  | .doubleQuoted => '"' :: text.flatMap escaped ++ ['"', '\n']
  | .literal =>
    let closing := if (text.getLast?.map isBreak).getD false then [] else ['\n']
    '|' :: literalHints text ++ '\n' :: indented true text ++ closing

/-- A list of texts as the value of a key. -/
def listText (items : List (List Char)) : List Char :=
  if items.isEmpty then " []\n".toList
  else '\n' :: items.flatMap fun item => ['-', ' '] ++ scalar item

/-- A report as a document. -/
def render (report : Report) : List Char :=
  "revision: ".toList ++ Text.natText report.revision ++ "\noutcome: ".toList ++
    scalar report.outcome.name.toList ++ "generated: ".toList ++ scalar report.generated ++
    "log:".toList ++ listText report.log

end Offside.Report.Yaml
