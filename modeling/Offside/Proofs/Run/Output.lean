/-
# One print, one log entry

Running code prints an entry by writing it as a string literal with a line feed behind it,
and the log is read off the lines of the output. Nothing is lost on the way: a literal holds
no control character, so the literals are the lines, and each denotes its text.

The output need not come from `print` alone. Every line of it is one entry, the text that the
line denotes or else the line as it is. None of this depends on how the process ended.
-/

import Mathlib.Data.List.Forall2
import Offside.Proofs.Text.Lines
import Offside.Proofs.Text.Quoted
import Offside.Proofs.Text.Utf8
import Offside.Run.Process

namespace Offside.ProcessRun

/-- The log entry of a line of output. -/
inductive IsEntryOf (line : List Char) : List Char → Prop
  /-- A line that is a string literal stands for the text that it denotes. -/
  | denoted {text : List Char} (hliteral : Text.unquote? line = some text) : IsEntryOf line text
  /-- Any other line stands for itself. -/
  | raw (hliteral : Text.unquote? line = none) : IsEntryOf line line

theorem isEntryOf_entry (line : List Char) : IsEntryOf line (entry line) := by
  unfold entry
  cases hliteral : Text.unquote? line with
  | some text => exact .denoted hliteral
  | none => exact .raw hliteral

/-! ## The lines of the output -/

section Bytes

variable {line : List UInt8}

theorem byteLines_of_notMem (hfeed : 10 ∉ line) :
    byteLines line = if line.isEmpty then [] else [line] := by
  rw [byteLines, List.splitOn_eq_singleton hfeed]
  rfl

theorem byteLines_append_lineFeed (hfeed : 10 ∉ line) (bytes : List UInt8) :
    byteLines (line ++ 10 :: bytes) = byteLines.dropReturn line :: byteLines bytes := by
  obtain ⟨ended, last, hsplit⟩ := exists_splitOn_eq 10 bytes
  rw [byteLines, byteLines, hsplit, List.splitOn_append_cons_self_of_not_mem hfeed, hsplit]
  simp only [List.reverse_append, List.reverse_cons, List.reverse_nil, List.nil_append,
    List.cons_append, List.reverse_reverse, List.map_cons]
  split <;> rfl

end Bytes

/-- The bytes of a text are cut into the bytes of its lines. -/
theorem byteLines_toUtf8 {text : List Char} {lines : List (List Char)}
    (hlines : Text.HasLines text lines) :
    byteLines (Text.toUtf8 text) = lines.map Text.toUtf8 := by
  have hten : ∀ line : List Char, '\n' ∉ line → 10 ∉ Text.toUtf8 line := fun line hfeed hmem =>
    hfeed ((Text.mem_toUtf8_iff (d := '\n') (by decide)).mp hmem)
  induction hlines with
  | nil => rfl
  | @unended line hne hfeed =>
      have hbytes : ¬ (Text.toUtf8 line).isEmpty := by
        rwa [List.isEmpty_iff, Text.toUtf8_eq_nil_iff]
      rw [byteLines_of_notMem (hten line hfeed), if_neg hbytes, List.map_singleton]
  | @lineFeed line text lines hfeed hreturn _ ih =>
      have hbytes : Text.toUtf8 (line ++ '\n' :: text) =
          Text.toUtf8 line ++ 10 :: Text.toUtf8 text := by simp [Text.toUtf8]; rfl
      have hlast : (Text.toUtf8 line).getLast? ≠ some 13 := fun hlast =>
        hreturn ((Text.getLast?_toUtf8_iff (d := '\r') (by decide)).mp hlast)
      rw [hbytes, byteLines_append_lineFeed (hten line hfeed), ih, byteLines.dropReturn,
        if_neg hlast, List.map_cons]
  | @returnFeed line text lines hfeed _ ih =>
      have hbytes : Text.toUtf8 (line ++ '\r' :: '\n' :: text) =
          Text.toUtf8 line ++ [13] ++ 10 :: Text.toUtf8 text := by simp [Text.toUtf8]; rfl
      have hten : 10 ∉ Text.toUtf8 line ++ [13] := by simpa using hten line hfeed
      rw [hbytes, byteLines_append_lineFeed hten, ih, byteLines.dropReturn,
        if_pos List.getLast?_concat, List.dropLast_concat, List.map_cons]

/-- Lines that were written in UTF-8 are all read. -/
theorem readable_toUtf8 (lines : List (List Char)) :
    readable (lines.map Text.toUtf8) = lines := by
  induction lines with
  | nil => rfl
  | cons line lines ih => rw [List.map_cons, readable, Text.ofUtf8?_toUtf8, ih]

variable {run : ProcessRun} {output : List Char}

/-- There is one entry for each line of the output. -/
theorem printed_eq (hstdout : run.stdout = Text.toUtf8 output) {lines : List (List Char)}
    (hlines : Text.HasLines output lines) : run.printed = lines.map entry := by
  rw [printed, hstdout, byteLines_toUtf8 hlines, readable_toUtf8]

/-- A literal is the entry of its text. -/
theorem map_entry {texts literals : List (List Char)}
    (hliterals : List.Forall₂ Text.IsLiteralOf texts literals) : literals.map entry = texts := by
  induction hliterals with
  | nil => rfl
  | cons hliteral _ ih => rw [List.map_cons, ih, entry, hliteral.denotes, Option.getD_some]

/-- Literals with a line feed behind each are the lines of what they make up. -/
theorem hasLines_literals {texts literals : List (List Char)}
    (hliterals : List.Forall₂ Text.IsLiteralOf texts literals) :
    Text.HasLines (literals.flatMap (· ++ ['\n'])) literals := by
  induction hliterals with
  | nil => exact .nil
  | cons hliteral _ ih =>
      rw [List.flatMap_cons, List.append_assoc]
      exact .lineFeed hliteral.lineFeed_notMem hliteral.getLast?_ne ih

/-- One print, one log entry. However a process ended and whatever it left on standard error, if
its output is UTF-8 then its log has one entry for each line of the output, in order: the text
that the line denotes if it is a string literal, and else the line without its ending. In
particular, what was written as literals with a line feed behind each is logged as it was. -/
theorem printed_result (hstdout : run.stdout = Text.toUtf8 output) (limit : Nat) :
    ∃ lines, Text.HasLines output lines ∧
      List.Forall₂ IsEntryOf lines (run.result limit).printed ∧
      ∀ texts literals, List.Forall₂ Text.IsLiteralOf texts literals →
        output = literals.flatMap (· ++ ['\n']) → (run.result limit).printed = texts := by
  have hlines : Text.HasLines output (Text.lines output) := Text.hasLines_iff.mpr rfl
  refine ⟨Text.lines output, hlines, ?_, ?_⟩
  · rw [result, printed_eq hstdout hlines, List.forall₂_map_right_iff, List.forall₂_same]
    exact fun line _ => isEntryOf_entry line
  · rintro texts literals hliterals rfl
    rw [result, printed_eq hstdout (hasLines_literals hliterals), map_entry hliterals]

/-- Line breaks, a quote and a backslash, and no text at all, printed by a process that was
stopped. -/
theorem printed_result_stopped :
    let texts := ["a\r\nb\r".toList, "\"\\".toList, []]
    let output := (texts.map Text.quote).flatMap (· ++ ['\n'])
    let run : ProcessRun := { stdout := Text.toUtf8 output, ending := .stopped }
    run.stdout = Text.toUtf8 output ∧ (run.result 10).printed = texts := by
  intro texts output run
  have hstdout : run.stdout = Text.toUtf8 output := rfl
  refine ⟨hstdout, ?_⟩
  obtain ⟨_, -, -, hprinted⟩ := printed_result hstdout 10
  have hliterals : List.Forall₂ Text.IsLiteralOf texts (texts.map Text.quote) := by
    rw [List.forall₂_map_right_iff, List.forall₂_same]
    exact fun text _ => Text.isLiteralOf_quote text
  exact hprinted texts _ hliterals rfl

end Offside.ProcessRun
