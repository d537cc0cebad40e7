/-
Searches at every `stride`-th offset, over any type of error: as long as the question asked at each
offset is answered, the search tells whether one of the offsets is a hit. No miss ends it early.
-/
import Mathlib.Data.Nat.Basic
import Mathlib.Tactic.Common

namespace Stride

variable {ε : Type} (hit : Nat → Except ε Bool) (stride size : Nat)

/-- The search from offset `off` on, as far as `size` bytes fit below the limit. -/
def search (hpos : 0 < stride) (limit off : Nat) : Except ε Bool :=
  if off + size ≤ limit then do
    if ← hit off then pure true else search hpos limit (off + stride)
  else pure false
termination_by limit + 1 - (off + size)
decreasing_by omega

/-- An offset the search looks at from `off` on. -/
def Visits (limit off o : Nat) : Prop := ∃ k, o = off + k * stride ∧ o + size ≤ limit

variable {hit stride size}

theorem visits_iff {limit off o : Nat} (h : off + size ≤ limit) :
    Visits stride size limit off o ↔ o = off ∨ Visits stride size limit (off + stride) o := by
  constructor
  · rintro ⟨k, rfl, hk⟩
    cases k with
    | zero => exact .inl (by rw [Nat.zero_mul, Nat.add_zero])
    | succ k => exact .inr ⟨k, by rw [Nat.succ_mul, Nat.add_assoc, Nat.add_comm stride], hk⟩
  · rintro (rfl | ⟨k, rfl, hk⟩)
    · exact ⟨0, by rw [Nat.zero_mul, Nat.add_zero], h⟩
    · exact ⟨k + 1, by rw [Nat.succ_mul, Nat.add_assoc, Nat.add_comm stride], hk⟩

theorem not_visits {limit off : Nat} (h : ¬ off + size ≤ limit) (o : Nat) : ¬ Visits stride size limit off o := by
  rintro ⟨k, rfl, hk⟩
  exact h (le_trans (Nat.add_le_add_right (Nat.le_add_right off _) size) hk)

/-- The search finds a hit exactly when there is one among the offsets it looks at. -/
theorem search_eq (hpos : 0 < stride) {p : Nat → Prop} [DecidablePred p] {limit : Nat}
    (hp : ∀ o, o + size ≤ limit → hit o = .ok (decide (p o))) (off : Nat) :
    ∃ found, search hit stride size hpos limit off = .ok found ∧
      (found = true ↔ ∃ o, Visits stride size limit off o ∧ p o) := by
  induction off using search.induct stride size hpos limit with
  | case1 off h ih =>
    rw [search, if_pos h, hp off h]
    by_cases hoff : p off
    · refine ⟨true, by rw [decide_eq_true hoff]; rfl, ?_⟩
      simp only [true_iff]
      exact ⟨off, (visits_iff h).2 (.inl rfl), hoff⟩
    · obtain ⟨found, hsearch, hfound⟩ := ih
      refine ⟨found, by rw [decide_eq_false hoff]; exact hsearch, hfound.trans ?_⟩
      constructor
      · rintro ⟨o, hvisits, ho⟩
        exact ⟨o, (visits_iff h).2 (.inr hvisits), ho⟩
      · rintro ⟨o, hvisits, ho⟩
        rcases (visits_iff h).1 hvisits with rfl | hvisits
        · exact absurd ho hoff
        · exact ⟨o, hvisits, ho⟩
  | case2 off h =>
    rw [search, if_neg h]
    refine ⟨false, rfl, ?_⟩
    simp only [Bool.false_eq_true, false_iff]
    rintro ⟨o, hvisits, -⟩
    exact not_visits h o hvisits

end Stride
