/-
# Which cell of a picture depends on what

Pictures are put together from smaller ones, and a cell of the whole shows a cell of one of
its parts. To say which, one cell of a part is replaced: the whole `Paints` a place if it
shows the new cell there and is the same as before everywhere else. A frame moves such a
place one row down and one column to the right, or hides it if it lies beyond the inside of
the frame; leaving out rows moves it up.

The place is a predicate on rows and columns, so that a hidden one needs no case of its own.
-/

import Mathlib.Data.List.Basic
import Offside.Screen.Cell

namespace Offside.Screen

/-- The cell of a picture in the given row and column, both from zero. -/
def cellAt (picture : Picture) (y x : Nat) : Option Cell := picture[y]?.bind (·[x]?)

/-- Between two views, the cell in a place becomes the given one, and no other cell
changes. -/
def Paints (place : Nat → Nat → Prop) (cell : Cell) (before after : Nat → Nat → Option Cell) :
    Prop :=
  ∀ y x, (place y x → after y x = some cell) ∧ (¬ place y x → after y x = before y x)

variable {place : Nat → Nat → Prop} {cell : Cell}

theorem Paints.congr {place' : Nat → Nat → Prop} {before after : Nat → Nat → Option Cell}
    (hpaints : Paints place cell before after) (hplace : ∀ y x, place y x ↔ place' y x) :
    Paints place' cell before after := by
  intro y x
  rw [← hplace y x]
  exact hpaints y x

/-- Only one place can be painted with two cells that differ. -/
theorem Paints.place_of_place {place' : Nat → Nat → Prop} {other : Cell}
    {before after after' : Nat → Nat → Option Cell} (hne : cell ≠ other)
    (hcell : Paints place cell before after) (hother : Paints place other before after')
    (hcell' : Paints place' cell before after) (hother' : Paints place' other before after')
    {y x : Nat} (hplace : place y x) : place' y x := by
  by_contra hnot
  have hfirst := ((hcell y x).1 hplace).symm.trans ((hcell' y x).2 hnot)
  have hsecond := ((hother y x).1 hplace).symm.trans ((hother' y x).2 hnot)
  exact hne (Option.some_inj.mp (hfirst.trans hsecond.symm))

theorem Paints.drop {before after : Picture} (hpaints : Paints place cell (cellAt before)
    (cellAt after)) (count : Nat) :
    Paints (fun y x => place (y + count) x) cell (cellAt (before.drop count))
      (cellAt (after.drop count)) := by
  have hdrop : ∀ (picture : Picture) (y x : Nat),
      cellAt (picture.drop count) y x = cellAt picture (y + count) x := by
    intro picture y x
    rw [cellAt, cellAt, List.getElem?_drop, Nat.add_comm]
  intro y x
  rw [hdrop, hdrop]
  exact hpaints (y + count) x

/-! ## Rows and pictures of a fixed size -/

@[simp]
theorem length_fit (width : Nat) (fill : Cell) (row : Row) : (fit width fill row).length = width := by
  rw [fit, List.length_append, List.length_take, List.length_replicate]
  omega

theorem getElem?_fit {width x : Nat} (hx : x < width) (fill : Cell) (row : Row) :
    (fit width fill row)[x]? = some (row[x]?.getD fill) := by
  rw [fit, List.getElem?_append, List.length_take, List.getElem?_replicate, List.getElem?_take]
  rcases Nat.lt_or_ge x row.length with hlt | hge
  · rw [if_pos (by omega), if_pos hx, List.getElem?_eq_getElem hlt, Option.getD_some]
  · rw [if_neg (by omega), if_pos (by omega), List.getElem?_eq_none hge, Option.getD_none]

theorem length_fitPicture (width height : Nat) (fill : Cell) (picture : Picture) :
    (fitPicture width height fill picture).length = height := by
  rw [fitPicture, List.length_append, List.length_map, List.length_take, List.length_replicate]
  omega

theorem getElem?_fitPicture {height y : Nat} (hy : y < height) (width : Nat) (fill : Cell)
    (picture : Picture) :
    (fitPicture width height fill picture)[y]? = some (fit width fill (picture[y]?.getD [])) := by
  rw [fitPicture, List.getElem?_append, List.length_map, List.length_take, List.getElem?_map,
    List.getElem?_replicate, List.getElem?_take]
  rcases Nat.lt_or_ge y picture.length with hlt | hge
  · rw [if_pos (by omega), if_pos hy, List.getElem?_eq_getElem hlt, Option.map_some,
      Option.getD_some]
  · rw [if_neg (by omega), if_pos (by omega), List.getElem?_eq_none hge, Option.getD_none, fit,
      List.take_nil, List.nil_append, List.length_nil, Nat.sub_zero]

/-! ## Frames -/

variable {width height : Nat} {title : List Char} {style : Style} {content : Picture}

/-- The rows between the edges of a frame. -/
theorem getElem?_framed_inside {y : Nat} (hy : y < height - 2) :
    (framed width height title style content)[y + 1]? =
      some (cells ['│'] style ++ fit (width - 2) {} (content[y]?.getD []) ++ cells ['│'] style) := by
  rw [framed, List.cons_append, List.getElem?_cons_succ, List.getElem?_append_left (by
    rw [List.length_map, length_fitPicture]
    exact hy), List.getElem?_map, getElem?_fitPicture hy, Option.map_some]

/-- The edges of a frame do not depend on what is in it. -/
theorem getElem?_framed_edge (content' : Picture) {y : Nat} (hy : ∀ inside < height - 2,
    y ≠ inside + 1) : (framed width height title style content)[y]? =
      (framed width height title style content')[y]? := by
  cases y with
  | zero => rfl
  | succ y =>
      have hheight : height - 2 ≤ y := by
        by_contra hlt
        exact hy y (by omega) rfl
      rw [framed, framed, List.cons_append, List.cons_append, List.getElem?_cons_succ,
        List.getElem?_cons_succ, List.getElem?_append_right, List.getElem?_append_right,
        List.length_map, List.length_map, length_fitPicture, length_fitPicture]
      all_goals
        rw [List.length_map, length_fitPicture]
        exact hheight

/-- A frame shows the content inside, and blank cells where there is none. -/
theorem cellAt_framed_inside {y x : Nat} (hy : y < height - 2) (hx : x < width - 2) :
    cellAt (framed width height title style content) (y + 1) (x + 1) =
      some ((cellAt content y x).getD {}) := by
  have hrow : (fit (width - 2) {} (content[y]?.getD []))[x]? =
      some ((cellAt content y x).getD {}) := by
    rw [getElem?_fit hx, cellAt]
    cases content[y]? <;> rfl
  rw [cellAt, getElem?_framed_inside hy, Option.bind_some, ← hrow, List.append_assoc]
  change (fit (width - 2) {} (content[y]?.getD []) ++ cells ['│'] style)[x]? = _
  rw [List.getElem?_append_left (by rwa [length_fit])]

/-- The frame itself does not depend on what is in it. -/
theorem cellAt_framed_outside (content' : Picture) {y x : Nat}
    (houtside : ¬ ∃ y' x', y = y' + 1 ∧ x = x' + 1 ∧ y' < height - 2 ∧ x' < width - 2) :
    cellAt (framed width height title style content) y x =
      cellAt (framed width height title style content') y x := by
  by_cases hrow : ∃ y' < height - 2, y = y' + 1
  · obtain ⟨y', hy, rfl⟩ := hrow
    rw [cellAt, cellAt, getElem?_framed_inside hy, getElem?_framed_inside hy, Option.bind_some,
      Option.bind_some]
    cases x with
    | zero => rfl
    | succ x =>
        have hx : width - 2 ≤ x := by
          by_contra hlt
          exact houtside ⟨y', x, rfl, rfl, hy, by omega⟩
        rw [List.append_assoc, List.append_assoc]
        change (fit (width - 2) {} _ ++ _)[x]? = (fit (width - 2) {} _ ++ _)[x]?
        rw [List.getElem?_append_right (by rwa [length_fit]),
          List.getElem?_append_right (by rwa [length_fit]), length_fit, length_fit]
  · rw [cellAt, cellAt, getElem?_framed_edge content' fun inside hinside heq =>
      hrow ⟨inside, hinside, heq⟩]

/-- What is painted inside a frame is painted one row further down and one column further to
the right, as far as the frame is open. -/
theorem Paints.framed {before after : Picture} (hpaints : Paints place cell (cellAt before)
    (cellAt after)) (width height : Nat) (title : List Char) (style : Style) :
    Paints (fun y x => ∃ y' x', y = y' + 1 ∧ x = x' + 1 ∧ y' < height - 2 ∧ x' < width - 2 ∧
        place y' x') cell (cellAt (Screen.framed width height title style before))
      (cellAt (Screen.framed width height title style after)) := by
  intro y x
  by_cases hinside : ∃ y' x', y = y' + 1 ∧ x = x' + 1 ∧ y' < height - 2 ∧ x' < width - 2
  · obtain ⟨y, x, rfl, rfl, hy, hx⟩ := hinside
    rw [cellAt_framed_inside hy hx, cellAt_framed_inside hy hx]
    constructor
    · rintro ⟨y', x', hy', hx', -, -, hplace⟩
      obtain rfl := Nat.succ.inj hy'
      obtain rfl := Nat.succ.inj hx'
      rw [(hpaints y x).1 hplace, Option.getD_some]
    · intro hnot
      rw [(hpaints y x).2 fun hplace => hnot ⟨y, x, rfl, rfl, hy, hx, hplace⟩]
  · refine ⟨?_, fun _ => cellAt_framed_outside before hinside⟩
    rintro ⟨y', x', hy', hx', hy, hx, -⟩
    exact absurd ⟨y', x', hy', hx', hy, hx⟩ hinside

end Offside.Screen
