/-
Cutting a list behind every occurrence of a separator, the way a text is cut into lines: the pieces
put together are the list again, and leaving out a piece leaves the others as they are.
-/
import Mathlib.Data.List.Basic
import Mathlib.Tactic.Common

namespace Pieces

variable {α : Type} [DecidableEq α] (e : α)

/-- Cut a list behind every `e`. -/
def pieces : List α → List (List α)
  | [] => []
  | c :: cs =>
    if c = e then [c] :: pieces cs
    else match pieces cs with
      | [] => [[c]]
      | p :: ps => (c :: p) :: ps

/-- Lists that are the pieces of something: each ends in its only `e`, but for the last, which may
have none. -/
inductive WellCut : List (List α) → Prop
  | nil : WellCut []
  | last {p : List α} (hne : p ≠ []) (hp : e ∉ p) : WellCut [p]
  | cons {p : List α} {ps : List (List α)} (hp : e ∉ p) (h : WellCut ps) : WellCut ((p ++ [e]) :: ps)

variable {e}

theorem pieces_append_cons {p : List α} (hp : e ∉ p) (cs : List α) :
    pieces e (p ++ e :: cs) = (p ++ [e]) :: pieces e cs := by
  induction p with
  | nil => rw [List.nil_append, pieces, if_pos rfl]; rfl
  | cons c p ih =>
    have hc : c ≠ e := fun h => hp (h ▸ List.mem_cons_self ..)
    rw [List.cons_append, pieces, if_neg hc, ih fun h => hp (List.mem_cons_of_mem _ h)]
    rfl

theorem pieces_of_not_mem {p : List α} (hne : p ≠ []) (hp : e ∉ p) : pieces e p = [p] := by
  induction p with
  | nil => exact absurd rfl hne
  | cons c p ih =>
    have hc : c ≠ e := fun h => hp (h ▸ List.mem_cons_self ..)
    rw [pieces, if_neg hc]
    cases p with
    | nil => rfl
    | cons c' p => rw [ih (List.cons_ne_nil _ _) fun h => hp (List.mem_cons_of_mem _ h)]

/-- Pieces put together are cut the same way again. -/
theorem WellCut.pieces_flatten {ps : List (List α)} (h : WellCut e ps) : pieces e ps.flatten = ps := by
  induction h with
  | nil => rfl
  | @last p hne hp => rw [List.flatten_singleton, pieces_of_not_mem hne hp]
  | @cons p ps hp _ ih =>
    rw [List.flatten_cons, List.append_assoc, List.singleton_append, pieces_append_cons hp, ih]

theorem wellCut_pieces (cs : List α) : WellCut e (pieces e cs) := by
  induction cs with
  | nil => exact .nil
  | cons c cs ih =>
    rw [pieces]
    by_cases hc : c = e
    · rw [if_pos hc, hc]
      exact .cons List.not_mem_nil ih
    · have hmem : ∀ p, e ∉ p → e ∉ c :: p := by
        intro p hp h
        rcases List.mem_cons.1 h with h | h
        · exact hc h.symm
        · exact hp h
      rw [if_neg hc]
      split
      · exact .last (List.cons_ne_nil _ _) (hmem [] List.not_mem_nil)
      · rename_i p ps hps
        rw [hps] at ih
        cases ih with
        | last hne hp => exact .last (List.cons_ne_nil _ _) (hmem p hp)
        | @cons p' _ hp h => exact .cons (p := c :: p') (hmem p' hp) h

/-- The pieces put together are the list. -/
theorem flatten_pieces (l : List α) : (pieces e l).flatten = l := by
  induction l with
  | nil => rfl
  | cons c l ih =>
    rw [pieces]
    split
    · rw [List.flatten_cons, ih]
      rfl
    · split
      · rename_i hnil
        rw [hnil] at ih
        rw [← ih]
        rfl
      · rename_i p ps hpieces
        rw [hpieces] at ih
        rw [← ih]
        rfl

omit [DecidableEq α] in
theorem WellCut.eraseIdx {ps : List (List α)} (h : WellCut e ps) : ∀ i, WellCut e (ps.eraseIdx i) := by
  induction h with
  | nil => intro i; exact .nil
  | last hne hp =>
    intro i
    cases i with
    | zero => exact .nil
    | succ i => exact .last hne hp
  | cons hp h ih =>
    intro i
    cases i with
    | zero => exact h
    | succ i => exact .cons hp (ih i)

/-- Leaving out a piece leaves the others as they are. -/
theorem pieces_eraseIdx (cs : List α) (i : Nat) :
    pieces e ((pieces e cs).eraseIdx i).flatten = (pieces e cs).eraseIdx i :=
  ((wellCut_pieces cs).eraseIdx i).pieces_flatten

end Pieces
