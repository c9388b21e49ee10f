/-
# The screen of the playground

From top to bottom: a title bar, the panes, a status line. The editor takes the left
half of the panes, the generated code the upper part of the right half, and the log
the rest. A screen that is too narrow shows a message instead.

Lines are cut at the edge of their pane. The editor's pane scrolls so that the
cursor's row is in view, the log's so that its newest entries are. Scroll positions
are 16-bit numbers, so a document of more than 65536 rows is drawn from a wrong row,
although the cursor is placed as if it were drawn from the right one.
-/

import Offside.Editor
import Offside.Screen.Theme

namespace Offside.Screen

/-- The narrowest screen that is drawn. -/
def minWidth : Nat := 60

/-- The cells that a line number and the blank behind it take. -/
def gutterWidth : Nat := 4

/-- A scroll position, as it is handed to a pane. -/
def scrollPosition (scroll : Nat) : Nat := scroll % 65536

/-- A number as text. -/
def numberText (n : Nat) : List Char := Nat.toDigits 10 n

/-- A number in at least three cells, and a blank. -/
def gutter (number : Nat) : List Char :=
  let digits := numberText number
  List.replicate (gutterWidth - 1 - digits.length) ' ' ++ digits ++ [' ']

/-- The cells of a text; line feeds take none. -/
def textCells (text : List Char) (style : Style) : Row := cells (text.filter (· ≠ '\n')) style

/-- Where a rectangle of the screen lies. -/
structure Area where
  /-- The column of its left edge. -/
  x : Nat
  /-- The row of its top edge. -/
  y : Nat
  /-- Its width. -/
  width : Nat
  /-- Its height. -/
  height : Nat
  deriving DecidableEq, Repr

/-- The area inside a frame. -/
def Area.inner (area : Area) : Area :=
  ⟨area.x + 1, area.y + 1, area.width - 2, area.height - 2⟩

/-- The areas of the panes. -/
structure Panes where
  /-- The editor. -/
  editor : Area
  /-- The generated code. -/
  generated : Area
  /-- The log. -/
  log : Area
  deriving DecidableEq, Repr

/-- The areas of the panes on a screen of the given size. The generated code gets
three fifths of the height between the bars, rounded to the nearest row. -/
def panes (width height : Nat) : Panes :=
  let between := height - 2
  let left := (width + 1) / 2
  let upper := (6 * between + 5) / 10
  ⟨⟨0, 1, left, between⟩, ⟨left, 1, width - left, upper⟩,
    ⟨left, 1 + upper, width - left, between - upper⟩⟩

/-- The first row of the document that the editor's pane should show. -/
def editorScroll (editor : Editor) (area : Area) : Nat := editor.row - (area.inner.height - 1)

/-- A line of the document behind its number, counted from zero. -/
def editorRow (index : Nat) (line : List Char) : Row :=
  cells (gutter (index + 1)) Theme.lineNumber ++ textCells line Theme.sourceText

/-- The content of the editor's pane. -/
def editorContent (editor : Editor) (area : Area) : Picture :=
  (editor.lines.mapIdx editorRow).drop (scrollPosition (editorScroll editor area))

/-- The pane of the editor, with its frame. -/
def editorPane (editor : Editor) (area : Area) : Picture :=
  framed area.width area.height " unv ".toList Theme.editorBorder (editorContent editor area)

/-- Where the cursor is placed, unless that is beyond the right edge of the pane. -/
def cursorPosition (editor : Editor) (area : Area) : Option (Nat × Nat) :=
  let inner := area.inner
  let x := inner.x + gutterWidth + editor.column
  let y := inner.y + editor.row - editorScroll editor area
  if x < inner.x + inner.width then some (x, y) else none

/-- The content of the pane with the generated code. -/
def generatedContent (editor : Editor) : Picture :=
  match editor.report with
  | some report => (Text.lines report.generated).map (textCells · Theme.sourceText)
  | none => []

/-- An entry of the log on one row, its lines joined. -/
def logRow (entry : List Char) (style : Style) : Row := textCells (Text.lines entry).flatten style

/-- All rows of the log. The last entry of a failed run tells of the failure. -/
def logRows (editor : Editor) : Picture :=
  match editor.report with
  | none => [logRow "running...".toList Theme.logEntry]
  | some report =>
    report.log.mapIdx fun index entry =>
      let failed := !report.succeeded && index == report.log.length - 1
      logRow entry (if failed then Theme.logError else Theme.logEntry)

/-- The content of the log's pane. -/
def logContent (editor : Editor) (area : Area) : Picture :=
  let rows := logRows editor
  rows.drop (scrollPosition (rows.length - area.inner.height))

/-- How a run ended, in the words of the status line. -/
def outcomeText : Outcome → String
  | .completed => "ok"
  | .compileFailed => "compile error"
  | .runtimeFailed => "runtime error"

/-- The text of the status line. -/
def statusText (editor : Editor) : List Char :=
  let run := match editor.report with
    | some report =>
      "run ".toList ++ numberText report.revision ++ [':', ' '] ++
        (outcomeText report.outcome).toList
    | none => "waiting for first run".toList
  let hint := if editor.status.isEmpty then "Ctrl+S save | Esc quit".toList else editor.status
  ' ' :: run ++ [' ', '|', ' '] ++ hint

/-- A bar over the whole width. -/
def bar (width : Nat) (text : List Char) (style : Style) : Row :=
  fit width ⟨' ', style⟩ (cells ((Text.lines text).headD []) style)

/-- The message of a screen that is too narrow. -/
def narrowText (width : Nat) : List Char :=
  "Terminal too narrow: ".toList ++ numberText width ++ " < ".toList ++ numberText minWidth ++
    " chars".toList

/-- A drawn screen. -/
structure Frame where
  /-- The rows of cells. -/
  picture : Picture
  /-- The column and the row of the cursor, if it is shown. -/
  cursor : Option (Nat × Nat)
  deriving DecidableEq, Repr

/-- The panes, drawn between the bars. -/
def middle (editor : Editor) (areas : Panes) : Picture :=
  let pane (area : Area) (title : String) (style : Style) (content : Picture) : Picture :=
    framed area.width area.height title.toList style content
  let left := editorPane editor areas.editor
  let upper := pane areas.generated " generated " Theme.outputBorder (generatedContent editor)
  let lower := pane areas.log " log " Theme.outputBorder (logContent editor areas.log)
  beside left (upper ++ lower)

/-- The screen of an editor at the given size. -/
def draw (editor : Editor) (width height : Nat) : Frame :=
  if width < minWidth then
    let blank : Cell := ⟨' ', Theme.errorMessage⟩
    let message := cells (narrowText width) Theme.errorMessage
    ⟨fitPicture width height blank [fit width blank message], none⟩
  else
    let areas := panes width height
    let title := "unv:: ".toList ++ editor.title
    ⟨bar width title Theme.titleBar :: middle editor areas ++
      [bar width (statusText editor) Theme.statusLine], cursorPosition editor areas.editor⟩

end Offside.Screen
