/-
# Cells of a character screen

A screen is a list of rows, and a row is a list of cells, each of which shows one
character in one style. Pictures are put together from smaller ones: texts are cut
or filled to a width, pictures are stacked, set side by side and framed.
-/

namespace Offside.Screen

/-- The colours in use. -/
inductive Color
  | cyan
  | darkGray
  | red
  | black
  deriving DecidableEq, Repr

/-- How a cell shows its character. -/
structure Style where
  /-- The colour of the character, if not the usual one. -/
  foreground : Option Color := none
  /-- The colour behind the character, if not the usual one. -/
  background : Option Color := none
  /-- The character is bold. -/
  bold : Bool := false
  deriving DecidableEq, Repr

/-- One place on the screen. -/
structure Cell where
  /-- The character shown. -/
  char : Char := ' '
  /-- How it is shown. -/
  style : Style := {}
  deriving DecidableEq, Repr

/-- A row of cells. -/
abbrev Row := List Cell

/-- Rows from top to bottom. -/
abbrev Picture := List Row

/-- The cells of a text in one style. -/
def cells (text : List Char) (style : Style) : Row := text.map fun c => ⟨c, style⟩

/-- A row cut or filled to a width. -/
def fit (width : Nat) (fill : Cell) (row : Row) : Row :=
  row.take width ++ List.replicate (width - row.length) fill

/-- A picture cut or filled to a width and a height. -/
def fitPicture (width height : Nat) (fill : Cell) (picture : Picture) : Picture :=
  (picture.take height).map (fit width fill) ++
    List.replicate (height - picture.length) (List.replicate width fill)

/-- A picture beside another of the same height. -/
def beside (left right : Picture) : Picture := List.zipWith (· ++ ·) left right

/-- The top edge of a frame, with a title from its second cell on. -/
def topEdge (width : Nat) (title : List Char) (style : Style) : Row :=
  let inner := width - 2
  cells ['┌'] style ++ fit inner ⟨'─', style⟩ (cells title style) ++ cells ['┐'] style

/-- A picture of the given size with a title and a frame around the content. -/
def framed (width height : Nat) (title : List Char) (style : Style) (content : Picture) : Picture :=
  let side : Row := cells ['│'] style
  topEdge width title style ::
    (fitPicture (width - 2) (height - 2) {} content).map (fun row => side ++ row ++ side) ++
    [cells ['└'] style ++ List.replicate (width - 2) ⟨'─', style⟩ ++ cells ['┘'] style]

/-- Neighbouring cells of one style, joined. -/
def runs : Row → List (List Char × Style)
  | [] => []
  | cell :: rest =>
    match runs rest with
    | (text, style) :: others =>
      if cell.style = style then (cell.char :: text, style) :: others
      else ([cell.char], cell.style) :: (text, style) :: others
    | [] => [([cell.char], cell.style)]

end Offside.Screen
