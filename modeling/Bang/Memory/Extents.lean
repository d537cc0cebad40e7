/-
Extents of addresses. For disjoint extents the parts they have in a range add up to the number of
addresses covered in it, so the distance from a place to the first address behind it that no
extent covers is a sum of sizes.
-/
import Mathlib.Algebra.Order.BigOperators.Group.List
import Mathlib.Algebra.Order.Ring.Nat
import Mathlib.Order.Interval.Finset.Nat

/-- `size` addresses from `start`. -/
structure Extent where
  start : Nat
  size : Nat
  deriving DecidableEq, Repr

namespace Extent

/-- The address behind the last one. -/
def stop (e : Extent) : Nat := e.start + e.size

def Covers (e : Extent) (a : Nat) : Prop := e.start ≤ a ∧ a < e.stop

instance (e : Extent) (a : Nat) : Decidable (e.Covers a) := inferInstanceAs (Decidable (_ ∧ _))

/-- How many addresses of `[lo, hi)` the extent covers. -/
def within (lo hi : Nat) (e : Extent) : Nat := min hi e.stop - max lo e.start

theorem within_of_inside {lo hi : Nat} {e : Extent} (hlo : lo ≤ e.start) (hhi : e.stop ≤ hi) :
    e.within lo hi = e.size := by
  unfold within stop at *
  omega

theorem within_of_behind {lo hi : Nat} {e : Extent} (h : hi ≤ e.start) : e.within lo hi = 0 := by
  unfold within
  omega

/-- Some extent of the list covers the address. -/
def Covered (es : List Extent) (a : Nat) : Prop := ∃ e ∈ es, e.Covers a

instance (es : List Extent) (a : Nat) : Decidable (Covered es a) :=
  inferInstanceAs (Decidable (∃ e ∈ es, _))

theorem covered_cons {e : Extent} {es : List Extent} {a : Nat} :
    Covered (e :: es) a ↔ e.Covers a ∨ Covered es a := by
  simp only [Covered, List.mem_cons, exists_eq_or_imp]

/-- No address is covered twice. -/
def NoOverlap (es : List Extent) : Prop := es.Pairwise fun d e => ∀ a, ¬(d.Covers a ∧ e.Covers a)

/-! ## Counting covered addresses -/

theorem card_covers (lo hi : Nat) (e : Extent) :
    ((Finset.Ico lo hi).filter fun a => e.Covers a).card = e.within lo hi := by
  have hset : (Finset.Ico lo hi).filter (fun a => e.Covers a) =
      Finset.Ico (max lo e.start) (min hi e.stop) := by
    ext a
    rw [Finset.mem_filter, Finset.mem_Ico, Finset.mem_Ico, Covers]
    omega
  rw [hset, Nat.card_Ico, within]

/-- The parts disjoint extents have in a range add up to the addresses covered in it. -/
theorem NoOverlap.sum_within {es : List Extent} (h : NoOverlap es) (lo hi : Nat) :
    (es.map (within lo hi)).sum = ((Finset.Ico lo hi).filter fun a => Covered es a).card := by
  induction es with
  | nil => simp [Covered]
  | cons e es ih =>
    obtain ⟨he, hes⟩ := List.pairwise_cons.1 h
    have hset : (Finset.Ico lo hi).filter (fun a => Covered (e :: es) a) =
        (Finset.Ico lo hi).filter (fun a => e.Covers a) ∪
          (Finset.Ico lo hi).filter (fun a => Covered es a) := by
      ext a
      rw [Finset.mem_union, Finset.mem_filter, Finset.mem_filter, Finset.mem_filter, covered_cons, and_or_left]
    have hdisj : Disjoint ((Finset.Ico lo hi).filter fun a => e.Covers a)
        ((Finset.Ico lo hi).filter fun a => Covered es a) := by
      refine Finset.disjoint_filter.2 fun a _ ha hcov => ?_
      obtain ⟨d, hd, hda⟩ := hcov
      exact he d hd a ⟨ha, hda⟩
    rw [List.map_cons, List.sum_cons, ih hes, hset, Finset.card_union_of_disjoint hdisj, card_covers]

/-! ## The first hole -/

/-- `hole` is the first address from `lo` on that no extent covers. -/
structure FirstHole (es : List Extent) (lo hole : Nat) : Prop where
  le : lo ≤ hole
  uncovered : ¬Covered es hole
  covered : ∀ a, lo ≤ a → a < hole → Covered es a

theorem exists_firstHole (es : List Extent) (lo : Nat) : ∃ hole, FirstHole es lo hole := by
  have hbound : ∀ e ∈ es, e.stop ≤ (es.map stop).sum := fun e he =>
    List.le_sum_of_mem (List.mem_map_of_mem he)
  have hex : ∃ n, lo ≤ n ∧ ¬Covered es n := by
    refine ⟨lo + (es.map stop).sum, Nat.le_add_right _ _, ?_⟩
    rintro ⟨e, he, -, hlt⟩
    have := hbound e he
    omega
  refine ⟨Nat.find hex, (Nat.find_spec hex).1, (Nat.find_spec hex).2, fun a hlo ha => ?_⟩
  by_contra hcov
  exact Nat.find_min hex ha ⟨hlo, hcov⟩

theorem FirstHole.unique {es : List Extent} {lo hole hole' : Nat} (h : FirstHole es lo hole)
    (h' : FirstHole es lo hole') : hole = hole' := by
  rcases Nat.lt_trichotomy hole hole' with hlt | heq | hgt
  · exact absurd (h'.covered hole h.le hlt) h.uncovered
  · exact heq
  · exact absurd (h.covered hole' h'.le hgt) h'.uncovered

section FirstHole

variable {es : List Extent} {lo hole : Nat} (h : FirstHole es lo hole)
include h

/-- A range from `lo` is covered exactly when it does not reach past the first hole. -/
theorem FirstHole.covered_iff (n : Nat) :
    (∀ a, lo ≤ a → a < lo + n → Covered es a) ↔ lo + n ≤ hole := by
  constructor
  · intro hcov
    by_contra hlt
    exact h.uncovered (hcov hole h.le (by omega))
  · intro hn a hlo ha
    exact h.covered a hlo (by omega)

/-- An extent that starts in front of the hole ends in front of it. -/
theorem FirstHole.stop_le {e : Extent} (he : e ∈ es) (hstart : e.start < hole) : e.stop ≤ hole := by
  by_contra hlt
  exact h.uncovered ⟨e, he, by omega, by omega⟩

/-- The distance to the first hole is the sum of what the extents cover in between. -/
theorem FirstHole.distance (hd : NoOverlap es) : lo + (es.map (within lo hole)).sum = hole := by
  have hall : (Finset.Ico lo hole).filter (fun a => Covered es a) = Finset.Ico lo hole :=
    Finset.filter_true_of_mem fun a ha =>
      h.covered a (Finset.mem_Ico.1 ha).1 (Finset.mem_Ico.1 ha).2
  have := h.le
  rw [hd.sum_within, hall, Nat.card_Ico]
  omega

end FirstHole

end Extent
