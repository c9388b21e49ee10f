/-
# Texts as bytes

A text is written in UTF-8, one to four bytes a character. Reading bytes back
answers only if they are well formed, so an overlong form, a lone surrogate or a
cut-off character is refused; what writing produced is always read back.
-/

namespace Offside.Text

/-- The UTF-8 bytes of a text. -/
def toUtf8 (text : List Char) : List UInt8 := text.flatMap String.utf8EncodeChar

/-- The text that well-formed UTF-8 bytes write. -/
def ofUtf8? (bytes : List UInt8) : Option (List Char) :=
  bytes.toByteArray.utf8Decode?.map Array.toList

/-- Reading answers what was written. -/
theorem ofUtf8?_toUtf8 (text : List Char) : ofUtf8? (toUtf8 text) = some text := by
  have hdecode : (toUtf8 text).toByteArray.utf8Decode? = some text.toArray :=
    List.utf8Decode?_utf8Encode
  simp [ofUtf8?, hdecode]

end Offside.Text
