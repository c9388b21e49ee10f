/-
# Documents in URL fragments

A whole document travels in the fragment of a link. Its UTF-8 bytes are written
one by one: letters, digits, `-`, `_`, `.` and `~` as themselves, every other byte
as a percent sign and two uppercase hexadecimal digits.

Reading is lenient. One leading `#` is dropped, digits may be of either case, and
a percent sign without two digits behind it stands for itself. Only bytes that are
not UTF-8 are refused. Where a link has nothing to restore, the starter document
takes its place.
-/

import Offside.Text.Blank
import Offside.Text.Hex
import Offside.Text.Utf8

namespace Offside

/-- Why a fragment cannot be read. -/
inductive FragmentError
  /-- The decoded bytes are not well-formed UTF-8. -/
  | invalidUtf8
  deriving DecidableEq, Repr

/-- The error as it is shown. -/
def FragmentError.message : FragmentError → String
  | invalidUtf8 => "fragment is not valid UTF-8 once decoded"

namespace Fragment

/-- The document shown when there is nothing to restore. -/
def starterDocument : List Char :=
  ("import print from 'standard'\n\nif 'Unv is awesome!'\n    print('Hello World!')\n" ++
    "# keep editing for live results\n").toList

/-- Bytes that stand for themselves: `A-Z a-z 0-9 - _ . ~`. -/
def isUnreserved (byte : UInt8) : Bool :=
  let c := Char.ofNat byte.toNat
  byte < 128 && (c.isAlphanum || c == '-' || c == '_' || c == '.' || c == '~')

/-- One byte of a document as it is written in a fragment. -/
def encodeByte (byte : UInt8) : List Char :=
  if isUnreserved byte then [Char.ofNat byte.toNat]
  else ['%', Text.upperHexDigit (byte.toNat / 16), Text.upperHexDigit (byte.toNat % 16)]

/-- A document as a fragment, without the leading `#`. -/
def encode (document : List Char) : List Char := (Text.toUtf8 document).flatMap encodeByte

/-- The bytes that a fragment stands for. -/
def decodeBytes : List Char → List UInt8
  | [] => []
  | '%' :: high :: low :: rest =>
    match Text.hexValue? high, Text.hexValue? low with
    | some h, some l => UInt8.ofNat (16 * h + l) :: decodeBytes rest
    | _, _ => String.utf8EncodeChar '%' ++ decodeBytes (high :: low :: rest)
  | c :: rest => String.utf8EncodeChar c ++ decodeBytes rest

/-- The text without one leading `#`. -/
def dropHash (fragment : List Char) : List Char :=
  (Text.dropLead? ['#'] fragment).getD fragment

/-- The document in a fragment. One leading `#` is ignored. -/
def decode (fragment : List Char) : Except FragmentError (List Char) :=
  match Text.ofUtf8? (decodeBytes (dropHash fragment)) with
  | some document => .ok document
  | none => .error .invalidUtf8

/-- The document that a link restores: the one in its fragment, or the starter
document if the fragment is missing, empty behind its `#`, or cannot be decoded. -/
def restore (fragment : Option (List Char)) : List Char :=
  match fragment.map dropHash with
  | none | some [] => starterDocument
  | some text =>
    match decode text with
    | .ok document => document
    | .error .invalidUtf8 => starterDocument

/-- A link to a document: the base up to its first `#`, and the document as the
new fragment. -/
def shareUrl (base document : List Char) : List Char :=
  base.takeWhile (· ≠ '#') ++ '#' :: encode document

end Fragment

end Offside
