/-
Screens: rows of cells, over any type of cell. A line is cut or filled up to a width before it is put on its
row, so that a block of rows shows a list of lines and nothing of what was there before, whether the lines
are all put there or one of them is replaced.
-/
import Mathlib.Tactic.Common

/-- A cell for each row and column. -/
def Screen (α : Type) := Nat → Nat → α

namespace Screen

variable {α : Type}

/-- Put some cells at the start of a row. -/
def put (sc : Screen α) (row : Nat) (cells : List α) : Screen α := fun r c =>
  if r = row then cells[c]?.getD (sc r c) else sc r c

/-- A line, cut or filled up to a width. -/
def fit (blank : α) (width : Nat) (line : List α) : List α := (line.take width).rightpad width blank

/-- What a block of rows shows, each a line of the list, over what is on the screen elsewhere. -/
def block (sc : Screen α) (blank : α) (origin width : Nat) (lines : List (List α)) : Screen α := fun r c =>
  if origin ≤ r then (lines[r - origin]?.bind fun line => (fit blank width line)[c]?).getD (sc r c) else sc r c

/-- Lines put on consecutive rows. -/
def putLines (blank : α) (width : Nat) : Screen α → Nat → List (List α) → Screen α
  | sc, _, [] => sc
  | sc, row, line :: lines => putLines blank width (sc.put row (fit blank width line)) (row + 1) lines

variable (sc : Screen α) (blank : α) (origin width : Nat)

@[simp] theorem length_fit (line : List α) : (fit blank width line).length = width := by
  unfold fit
  rw [List.length_rightpad, List.length_take]
  omega

/-- A cell of a line: a character of it, or blank. -/
theorem fit_cell (cells : List α) {c : Nat} (h : c < width) :
    (fit blank width cells)[c]? = some (cells[c]?.getD blank) := by
  have hlen : (cells.take width).length = min width cells.length := List.length_take ..
  unfold fit List.rightpad
  rcases Nat.lt_or_ge c cells.length with hlt | hge
  · rw [List.getElem?_append_left (by omega), List.getElem?_take_of_lt h, List.getElem?_eq_getElem hlt]
    rfl
  · rw [List.getElem?_append_right (by omega), List.getElem?_replicate, if_pos (by omega),
      List.getElem?_eq_none hge]
    rfl

/-- With no line, the screen is what it was. -/
@[simp] theorem block_nil : sc.block blank origin width [] = sc := by
  funext r c
  unfold block
  split <;> rfl

/-- A cell of a block's line. -/
theorem block_line {lines : List (List α)} {i : Nat} (hi : i < lines.length) {c : Nat} (hc : c < width) :
    sc.block blank origin width lines (origin + i) c = lines[i][c]?.getD blank := by
  unfold block
  rw [if_pos (Nat.le_add_right ..), Nat.add_sub_cancel_left, List.getElem?_eq_getElem hi, Option.bind_some,
    fit_cell blank width _ hc]
  rfl

/-- A cell that is in no line of the block. -/
theorem block_outside {lines : List (List α)} {r c : Nat} (h : r < origin ∨ origin + lines.length ≤ r ∨ width ≤ c) :
    sc.block blank origin width lines r c = sc r c := by
  unfold block
  split
  · rename_i hr
    rcases hline : lines[r - origin]? with _ | line
    · rfl
    · have hlt := (List.getElem?_eq_some_iff.1 hline).1
      rw [Option.bind_some, List.getElem?_eq_none]
      · rfl
      · rw [length_fit]
        omega
  · rfl

/-- A line put on a row of a block, or behind its last row, replaces the line that is there. -/
theorem block_put (front rest : List (List α)) (line : List α) :
    (sc.block blank origin width (front ++ rest)).put (origin + front.length) (fit blank width line) =
      sc.block blank origin width (front ++ line :: rest.drop 1) := by
  have hline : (front ++ line :: rest.drop 1)[front.length]? = some line := by
    rw [List.getElem?_append_right (Nat.le_refl _), Nat.sub_self]
    rfl
  funext r c
  unfold put block
  by_cases hr : r = origin + front.length
  · subst hr
    simp only [if_pos, Nat.le_add_right, Nat.add_sub_cancel_left, hline, Option.bind_some]
    by_cases hc : c < width
    · rw [List.getElem?_eq_getElem (by rw [length_fit]; exact hc)]
      rfl
    · -- behind the width, the line leaves what was there, and so did the line before it
      have hnone : ∀ l : List α, (fit blank width l)[c]? = none := fun l =>
        List.getElem?_eq_none (by rw [length_fit]; omega)
      rcases (front ++ rest)[front.length]? with _ | old
      · rw [hnone]
        rfl
      · rw [Option.bind_some, hnone, hnone]
        rfl
  · rw [if_neg hr]
    by_cases hge : origin ≤ r
    · have hsame : (front ++ line :: rest.drop 1)[r - origin]? = (front ++ rest)[r - origin]? := by
        rcases Nat.lt_or_ge (r - origin) front.length with hlt | hge'
        · rw [List.getElem?_append_left hlt, List.getElem?_append_left hlt]
        · obtain ⟨j, hj⟩ : ∃ j, r - origin - front.length = j + 1 := ⟨r - origin - front.length - 1, by omega⟩
          rw [List.getElem?_append_right hge', List.getElem?_append_right hge', hj, List.getElem?_cons_succ,
            List.getElem?_drop, Nat.add_comm]
      rw [if_pos hge, if_pos hge, hsame]
    · rw [if_neg hge, if_neg hge]

/-- Lines put on rows of a block, or on from its last row, replace the lines that are there. -/
theorem block_putLines (new : List (List α)) : ∀ front rest : List (List α),
    putLines blank width (sc.block blank origin width (front ++ rest)) (origin + front.length) new =
      sc.block blank origin width (front ++ new ++ rest.drop new.length) := by
  induction new with
  | nil =>
    intro front rest
    rw [List.append_nil]
    rfl
  | cons line new ih =>
    intro front rest
    have hnext := ih (front ++ [line]) (rest.drop 1)
    rw [List.length_append, List.append_assoc, List.drop_drop] at hnext
    rw [putLines, block_put, Nat.add_assoc]
    refine hnext.trans ?_
    rw [List.append_assoc front [line] new, List.length_cons, Nat.add_comm 1]
    rfl

end Screen
