/-
# Links give their documents back

A link must bring back exactly the document that was shared, whatever that document
holds: a `#` in front, a text such as `%41` that looks like an escape, characters of
several bytes. `Writes` states how bytes are written in a fragment, byte by byte and
without mentioning the writer, and the reader is shown to follow that rule. The writer
obeys it for every document, so its output is read back.

The rule also keeps `#` out of fragments. That is what makes the edges of a link safe:
the first `#` of a link is the one that the document stands behind, and neither of the
two places that drop a leading `#` can take a character of the document.
-/

import Mathlib.Data.List.TakeWhile
import Mathlib.Tactic.Tauto
import Offside.Fragment
import Offside.Proofs.Text.Utf8

namespace Offside.Fragment

/-- The characters that a fragment holds as themselves. -/
def IsPlain (c : Char) : Prop :=
  ('A' ≤ c ∧ c ≤ 'Z') ∨ ('a' ≤ c ∧ c ≤ 'z') ∨ ('0' ≤ c ∧ c ≤ '9') ∨ c ∈ ['-', '_', '.', '~']

/-- The uppercase hexadecimal digits, each at its value. -/
def hexDigits : List Char :=
  ['0', '1', '2', '3', '4', '5', '6', '7', '8', '9', 'A', 'B', 'C', 'D', 'E', 'F']

/-- The text writes the bytes: a byte that is the code of a plain character as that
character, every other byte as a percent sign and two uppercase digits. -/
inductive Writes : List UInt8 → List Char → Prop
  /-- No bytes are written as nothing. -/
  | nil : Writes [] []
  /-- A plain character stands for its own code. -/
  | plain {c : Char} {bytes : List UInt8} {text : List Char} (hplain : IsPlain c)
      (hrest : Writes bytes text) : Writes (UInt8.ofNat c.toNat :: bytes) (c :: text)
  /-- Any other byte is a triple. -/
  | triple {byte : UInt8} {high low : Char} {bytes : List UInt8} {text : List Char}
      (hreserved : ∀ c, IsPlain c → c.toNat ≠ byte.toNat)
      (hhigh : hexDigits[byte.toNat / 16]? = some high)
      (hlow : hexDigits[byte.toNat % 16]? = some low)
      (hrest : Writes bytes text) : Writes (byte :: bytes) ('%' :: high :: low :: text)

/-! ## The writer obeys the rule -/

/-- Plain characters are ASCII. -/
theorem IsPlain.toNat_lt {c : Char} (hplain : IsPlain c) : c.toNat < 128 := by
  have hle : ∀ d : Char, c ≤ d → c.toNat ≤ d.toNat := fun _ h => h
  rcases hplain with ⟨-, h⟩ | ⟨-, h⟩ | ⟨-, h⟩ | h
  · exact Nat.lt_of_le_of_lt (hle _ h) (by decide)
  · exact Nat.lt_of_le_of_lt (hle _ h) (by decide)
  · exact Nat.lt_of_le_of_lt (hle _ h) (by decide)
  · simp only [List.mem_cons, List.not_mem_nil, or_false] at h
    rcases h with rfl | rfl | rfl | rfl <;> decide

theorem isPlain_iff {c : Char} :
    IsPlain c ↔ (c.isAlphanum || c == '-' || c == '_' || c == '.' || c == '~') = true := by
  have halphanum : c.isAlphanum = (decide ('A' ≤ c ∧ c ≤ 'Z') ||
      decide ('a' ≤ c) && decide (c ≤ 'z') || decide ('0' ≤ c) && decide (c ≤ '9')) := rfl
  simp only [IsPlain, halphanum, List.mem_cons, List.not_mem_nil, or_false, Bool.or_eq_true,
    Bool.and_eq_true, decide_eq_true_eq, beq_iff_eq]
  tauto

theorem toNat_ofNat_of_lt {n : Nat} (hn : n < 128) : (Char.ofNat n).toNat = n := by
  have hvalid : n.isValidChar := .inl (by omega)
  rw [Char.ofNat, dif_pos hvalid]
  rfl

/-- The bytes that stand for themselves are the codes of the plain characters. -/
theorem isUnreserved_iff {byte : UInt8} :
    isUnreserved byte = true ↔ ∃ c, IsPlain c ∧ c.toNat = byte.toNat := by
  simp only [isUnreserved, Bool.and_eq_true, decide_eq_true_eq, ← isPlain_iff]
  constructor
  · rintro ⟨hlt, hplain⟩
    exact ⟨_, hplain, toNat_ofNat_of_lt (UInt8.lt_iff_toNat_lt.mp hlt)⟩
  · rintro ⟨c, hplain, hc⟩
    rw [← hc, Char.ofNat_toNat]
    exact ⟨UInt8.lt_iff_toNat_lt.mpr (hc ▸ hplain.toNat_lt), hplain⟩

theorem getElem?_hexDigits {n : Nat} (hn : n < 16) :
    hexDigits[n]? = some (Text.upperHexDigit n) := by
  revert n
  decide

/-- Every byte is written as the rule has it. -/
theorem Writes.cons_encodeByte {bytes : List UInt8} {text : List Char} (hrest : Writes bytes text)
    (byte : UInt8) : Writes (byte :: bytes) (encodeByte byte ++ text) := by
  have hsize := byte.toNat_lt
  unfold encodeByte
  split
  · rename_i hunreserved
    obtain ⟨c, hplain, hc⟩ := isUnreserved_iff.mp hunreserved
    have hbyte : UInt8.ofNat c.toNat = byte := by rw [hc, UInt8.ofNat_toNat]
    rw [← hc, Char.ofNat_toNat, ← hbyte]
    exact hrest.plain hplain
  · rename_i hreserved
    refine hrest.triple (fun c hplain hc => hreserved (isUnreserved_iff.mpr ⟨c, hplain, hc⟩)) ?_ ?_
    · exact getElem?_hexDigits (by omega)
    · exact getElem?_hexDigits (by omega)

/-- A document is written by the rule, as its UTF-8 bytes. -/
theorem writes_encode (document : List Char) : Writes (Text.toUtf8 document) (encode document) := by
  rw [encode]
  induction Text.toUtf8 document with
  | nil => exact .nil
  | cons byte bytes ih => exact ih.cons_encodeByte byte

/-! ## The reader follows the rule -/

theorem decodeBytes_cons {c : Char} (hc : c ≠ '%') (text : List Char) :
    decodeBytes (c :: text) = String.utf8EncodeChar c ++ decodeBytes text := by
  rw [decodeBytes]
  exact fun _ _ _ heq => absurd heq hc

theorem hexValue?_of_getElem? {n : Nat} {c : Char} (hdigit : hexDigits[n]? = some c) :
    Text.hexValue? c = some n := by
  have hn : n < hexDigits.length := (List.getElem?_eq_some_iff.mp hdigit).1
  rw [getElem?_hexDigits hn, Option.some_inj] at hdigit
  subst hdigit
  revert n
  decide

/-- What is written by the rule is read back. -/
theorem Writes.decodeBytes_eq {bytes : List UInt8} {text : List Char}
    (hwrites : Writes bytes text) : decodeBytes text = bytes := by
  induction hwrites with
  | nil => rfl
  | @plain c bytes text hplain _ ih =>
      have hpercent : c ≠ '%' := by
        rintro rfl
        exact absurd (isPlain_iff.mp hplain) (by decide)
      rw [decodeBytes_cons hpercent, Text.utf8EncodeChar_of_lt hplain.toNat_lt, ih]
      rfl
  | @triple byte high low bytes text _ hhigh hlow _ ih =>
      have hbyte : 16 * (byte.toNat / 16) + byte.toNat % 16 = byte.toNat := Nat.div_add_mod _ _
      simp only [decodeBytes, hexValue?_of_getElem? hhigh, hexValue?_of_getElem? hlow, hbyte, ih,
        UInt8.ofNat_toNat]

/-- A fragment holds no `#`. -/
theorem Writes.hash_notMem {bytes : List UInt8} {text : List Char} (hwrites : Writes bytes text) :
    '#' ∉ text := by
  induction hwrites with
  | nil => exact List.not_mem_nil
  | plain hplain _ ih =>
      rw [List.mem_cons, not_or]
      refine ⟨?_, ih⟩
      rintro rfl
      exact absurd (isPlain_iff.mp hplain) (by decide)
  | triple _ hhigh hlow _ ih =>
      have hdigits : '#' ∉ hexDigits := by decide
      simp only [List.mem_cons, not_or]
      refine ⟨by decide, ?_, ?_, ih⟩
      · rintro rfl
        exact hdigits (List.mem_of_getElem? hhigh)
      · rintro rfl
        exact hdigits (List.mem_of_getElem? hlow)

/-! ## Edges of a link -/

@[simp]
theorem dropHash_hash (text : List Char) : dropHash ('#' :: text) = text := rfl

theorem dropHash_of_notMem {text : List Char} (hhash : '#' ∉ text) : dropHash text = text := by
  cases text with
  | nil => rfl
  | cons c text =>
      have hne : '#' ≠ c := fun heq => hhash (heq ▸ List.mem_cons_self)
      simp [dropHash, Text.dropLead?, hne]

theorem hash_notMem_encode (document : List Char) : '#' ∉ encode document :=
  (writes_encode document).hash_notMem

theorem decode_encode (document : List Char) : decode (encode document) = .ok document := by
  rw [decode, dropHash_of_notMem (hash_notMem_encode document),
    (writes_encode document).decodeBytes_eq, Text.ofUtf8?_toUtf8]

theorem decode_hash_encode (document : List Char) :
    decode ('#' :: encode document) = .ok document := by
  rw [decode, dropHash_hash, (writes_encode document).decodeBytes_eq, Text.ofUtf8?_toUtf8]

theorem encode_ne_nil {document : List Char} (hne : document ≠ []) : encode document ≠ [] := by
  intro hnil
  have hempty : decode (encode document) = decode (encode []) := by rw [hnil]; rfl
  rw [decode_encode, decode_encode] at hempty
  exact hne (Except.ok.inj hempty)

theorem ne_hash_of_mem_takeWhile (base : List Char) :
    ∀ c ∈ base.takeWhile (· ≠ '#'), decide (c ≠ '#') = true := by
  intro c hc
  simpa using List.mem_takeWhile_imp hc

theorem takeWhile_shareUrl (base document : List Char) :
    (shareUrl base document).takeWhile (· ≠ '#') = base.takeWhile (· ≠ '#') := by
  rw [shareUrl, List.takeWhile_append_of_pos (ne_hash_of_mem_takeWhile base),
    List.takeWhile_cons_of_neg (by simp), List.append_nil]

theorem dropWhile_shareUrl (base document : List Char) :
    (shareUrl base document).dropWhile (· ≠ '#') = '#' :: encode document := by
  rw [shareUrl, List.dropWhile_append_of_pos (ne_hash_of_mem_takeWhile base),
    List.dropWhile_cons_of_neg (by simp)]

theorem restore_hash_encode {document : List Char} (hne : document ≠ []) :
    restore (some ('#' :: encode document)) = document := by
  obtain ⟨c, text, hcons⟩ := List.exists_cons_of_ne_nil (encode_ne_nil hne)
  have hdecode := decode_encode document
  rw [hcons] at hdecode
  simp [restore, hcons, hdecode]

/-- A link reproduces its document. A document is written by the rule of fragments, and is
read back from what is written, with a `#` in front or without; the part of a link from its
first `#` on restores it, unless it is empty; and a link to one document, taken as the base
of another, leaves nothing of the first. -/
theorem shareUrl_reproduces :
    (∀ document, Writes (Text.toUtf8 document) (encode document) ∧
      decode (encode document) = .ok document ∧ decode ('#' :: encode document) = .ok document) ∧
    (∀ base document, document ≠ [] →
      restore (some ((shareUrl base document).dropWhile (· ≠ '#'))) = document) ∧
    ∀ base first second, shareUrl (shareUrl base first) second = shareUrl base second := by
  refine ⟨fun document => ⟨writes_encode document, decode_encode document,
    decode_hash_encode document⟩, fun base document hne => ?_, fun base first second => ?_⟩
  · rw [dropWhile_shareUrl, restore_hash_encode hne]
  · rw [shareUrl, takeWhile_shareUrl, shareUrl]

/-- A document that begins with a `#` and holds what looks like an escape, shared from a
page that has a fragment of its own. -/
theorem shareUrl_reproduces_hash :
    ['#', '%', '4', '1', '+', 'é'] ≠ [] ∧
      restore (some ((shareUrl ['u', '#', 'v'] ['#', '%', '4', '1', '+', 'é']).dropWhile
        (· ≠ '#'))) = ['#', '%', '4', '1', '+', 'é'] :=
  ⟨List.cons_ne_nil _ _, shareUrl_reproduces.2.1 _ _ (List.cons_ne_nil _ _)⟩

end Offside.Fragment
