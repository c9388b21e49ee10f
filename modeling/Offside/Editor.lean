/-
# The text editor

The editor holds a document as lines and a cursor as a row and a column, the column
counted in characters. Keys edit at the cursor or move it. Entering a line break
carries the indentation of the line along, and adds four blanks behind a block
header. The editor asks for nothing and does nothing by itself: a key answers with
what should be done next.
-/

import Offside.Files
import Offside.Fragment
import Offside.Header
import Offside.Session
import Offside.Text.Lines

namespace Offside

/-- A key press, as far as the editor tells keys apart. -/
inductive Key
  /-- A character key. -/
  | char (c : Char)
  | enter
  | tab
  | backspace
  | left
  | right
  | up
  | down
  | home
  | «end»
  | escape
  /-- A key without an effect. -/
  | other
  deriving DecidableEq, Repr

/-- What should be done after a key press. -/
inductive Action
  /-- Nothing. -/
  | none
  /-- Run the document, which has changed. -/
  | edited
  /-- Save the document. -/
  | save
  /-- Leave. -/
  | quit
  deriving DecidableEq, Repr

/-- The state of the editor. -/
structure Editor where
  /-- The lines of the document. -/
  lines : List (List Char)
  /-- The row of the cursor, from zero. -/
  row : Nat := 0
  /-- The number of characters left of the cursor. -/
  column : Nat := 0
  /-- The file that the document is saved to, if there is one. -/
  path : Option (List Char) := none
  /-- The report shown last. -/
  report : Option Report := none
  /-- The outcome of the last attempt to save. -/
  status : List Char := []
  deriving DecidableEq, Repr

namespace Editor

/-- What a tab inserts, and how much deeper a block's lines begin. -/
def indentUnit : List Char := [' ', ' ', ' ', ' ']

/-- An editor on a document, with the cursor in front of it. -/
def ofDocument (document : List Char) (path : Option (List Char)) : Editor :=
  { lines := Text.splitLines document, path }

/-- The document. -/
def text (editor : Editor) : List Char := Text.joinLines editor.lines

/-- What is being edited: the path of the file, or `scratch`. -/
def title (editor : Editor) : List Char := editor.path.getD "scratch".toList

/-- The line of a row. -/
def lineAt (editor : Editor) (row : Nat) : List Char := editor.lines[row]?.getD []

/-- The line of the cursor. -/
def current (editor : Editor) : List Char := editor.lineAt editor.row

/-- The part of the cursor's line left of the cursor. -/
def head (editor : Editor) : List Char := editor.current.take editor.column

/-- The part of the cursor's line right of the cursor. -/
def tail (editor : Editor) : List Char := editor.current.drop editor.column

/-- Put other lines in the place of `count` lines from the given row on. -/
def replaceLines (editor : Editor) (row count : Nat) (lines : List (List Char)) :
    List (List Char) :=
  editor.lines.take row ++ lines ++ editor.lines.drop (row + count)

/-- Insert a text in front of the cursor, into the cursor's line. -/
def insert (editor : Editor) (text : List Char) : Editor :=
  { editor with
    lines := editor.replaceLines editor.row 1 [editor.head ++ text ++ editor.tail]
    column := editor.column + text.length }

/-- The indentation of the line that a line break behind `head` begins. -/
def nextIndentation (head : List Char) : List Char :=
  let line := Line.ofChars head
  match line.kind with
  | .opener _ => line.indentation ++ indentUnit
  | .blank | .statement => line.indentation

/-- Break the line at the cursor. -/
def breakLine (editor : Editor) : Editor :=
  let indentation := nextIndentation editor.head
  { editor with
    lines := editor.replaceLines editor.row 1 [editor.head, indentation ++ editor.tail]
    row := editor.row + 1
    column := indentation.length }

/-- Delete the character before the cursor, or join the line to the one above. There
is nothing to delete at the front of the document. -/
def deleteBack? (editor : Editor) : Option Editor :=
  match editor.column, editor.row with
  | column + 1, _ =>
    some { editor with
      lines := editor.replaceLines editor.row 1 [editor.current.take column ++ editor.tail]
      column }
  | 0, row + 1 =>
    let above := editor.lineAt row
    some { editor with
      lines := editor.replaceLines row 2 [above ++ editor.current]
      row
      column := above.length }
  | 0, 0 => none

/-- Move the cursor one character back. -/
def moveLeft (editor : Editor) : Editor :=
  match editor.column, editor.row with
  | column + 1, _ => { editor with column }
  | 0, row + 1 => { editor with row, column := (editor.lineAt row).length }
  | 0, 0 => editor

/-- Move the cursor one character on. -/
def moveRight (editor : Editor) : Editor :=
  if editor.column < editor.current.length then { editor with column := editor.column + 1 }
  else if editor.row + 1 < editor.lines.length then
    { editor with row := editor.row + 1, column := 0 }
  else editor

/-- Move the cursor to another row, at most to the end of its line. -/
def moveToRow (editor : Editor) (row : Nat) : Editor :=
  if row < editor.lines.length then
    { editor with row, column := min editor.column (editor.lineAt row).length }
  else editor

/-- Move the cursor one row up. -/
def moveUp (editor : Editor) : Editor :=
  match editor.row with
  | 0 => editor
  | row + 1 => editor.moveToRow row

/-- Move the cursor one row down. -/
def moveDown (editor : Editor) : Editor := editor.moveToRow (editor.row + 1)

/-- Take in a key press, with or without the control key: what should be done next,
and the state after it. -/
def press (editor : Editor) (key : Key) (control : Bool) : Action × Editor :=
  match key with
  | .escape => (.quit, editor)
  | .char c =>
    if !control then (.edited, editor.insert [c])
    else if c = 'c' then (.quit, editor)
    else if c = 's' then (.save, editor)
    else (.none, editor)
  | .tab => (.edited, editor.insert indentUnit)
  | .enter => (.edited, editor.breakLine)
  | .backspace =>
    match editor.deleteBack? with
    | some after => (.edited, after)
    | none => (.none, editor)
  | .left => (.none, editor.moveLeft)
  | .right => (.none, editor.moveRight)
  | .up => (.none, editor.moveUp)
  | .down => (.none, editor.moveDown)
  | .home => (.none, { editor with column := 0 })
  | .end => (.none, { editor with column := editor.current.length })
  | .other => (.none, editor)

/-- Show a report. -/
def display (editor : Editor) (report : Report) : Editor :=
  { editor with report := some report }

/-- The status after an attempt to save, which failed if there is an error. Without a
file the document is shown as a fragment. -/
def saved (editor : Editor) (error : Option FileError) : Editor :=
  { editor with
    status := match editor.path, error with
      | none, _ => '#' :: Fragment.encode editor.text
      | some path, none => "saved ".toList ++ path
      | some path, some error =>
        "cannot save ".toList ++ path ++ [':', ' '] ++ error.message.toList }

/-- Save the document to its file, if it has one. -/
def save (editor : Editor) (files : Files) : Editor × Files :=
  match editor.path with
  | none => (editor.saved none, files)
  | some path =>
    match files.write path editor.text with
    | .ok files => (editor.saved none, files)
    | .error error => (editor.saved (some error), files)

end Editor

end Offside
