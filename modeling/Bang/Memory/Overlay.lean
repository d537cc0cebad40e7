/-
Lists of cells stored one after another, over any type of cell: what an address holds afterwards is
what the last of them that covers it put there.
-/
import Bang.Memory.Cells

namespace Mem

variable {α : Type}

/-- Cells to be stored from an address on. -/
structure Piece (α : Type) where
  start : Nat
  cells : List α

namespace Piece

/-- An address the piece is stored at. -/
def Covers (p : Piece α) (a : Nat) : Prop := p.start ≤ a ∧ a < p.start + p.cells.length

/-- What the piece puts at an address. -/
def cellAt (p : Piece α) (a : Nat) : Option α := if p.start ≤ a then p.cells[a - p.start]? else none

theorem cellAt_of_not_covers {p : Piece α} {a : Nat} (h : ¬ p.Covers a) : p.cellAt a = none := by
  unfold cellAt
  split
  · rename_i hge
    apply List.getElem?_eq_none
    by_contra hlt
    exact h ⟨hge, by omega⟩
  · rfl

end Piece

/-- The pieces stored one after another. -/
def overlay (m : Mem α) (ps : List (Piece α)) : Mem α := ps.foldl (fun m p => m.store p.start p.cells) m

theorem overlay_append (m : Mem α) (ps qs : List (Piece α)) : m.overlay (ps ++ qs) = (m.overlay ps).overlay qs :=
  List.foldl_append

theorem store_eq_cellAt (m : Mem α) (p : Piece α) (a : Nat) :
    m.store p.start p.cells a = (p.cellAt a).getD (m a) := by
  unfold store Piece.cellAt
  by_cases h : p.start ≤ a
  · rw [if_neg (Nat.not_lt.2 h), if_pos h]
  · rw [if_pos (Nat.not_le.1 h), if_neg h]
    rfl

/-- An address that no piece covers keeps its cell. -/
theorem overlay_frame (m : Mem α) {ps : List (Piece α)} {a : Nat} (h : ∀ p ∈ ps, ¬ p.Covers a) :
    m.overlay ps a = m a := by
  induction ps generalizing m with
  | nil => rfl
  | cons p ps ih =>
    have hstep : m.store p.start p.cells a = m a := by
      rw [store_eq_cellAt, Piece.cellAt_of_not_covers (h p List.mem_cons_self)]
      rfl
    exact (ih _ fun q hq => h q (List.mem_cons_of_mem _ hq)).trans hstep

/-- The last piece that covers an address decides its cell. -/
theorem overlay_last (m : Mem α) (before after : List (Piece α)) {p : Piece α} {a : Nat} {x : α}
    (hp : p.cellAt a = some x) (hafter : ∀ q ∈ after, ¬ q.Covers a) :
    m.overlay (before ++ p :: after) a = x := by
  rw [overlay_append]
  calc (m.overlay before).overlay (p :: after) a
      = ((m.overlay before).store p.start p.cells).overlay after a := rfl
    _ = (m.overlay before).store p.start p.cells a := overlay_frame _ hafter
    _ = x := by rw [store_eq_cellAt, hp]; rfl

end Mem
