/-
Regions filled from the front: a region of `cap` cells cleared to `z` and then written one thing
after another holds the cells written so far followed by what is still clear. One rule for each
way a writer touches such a region: clearing it, writing at the cursor, skipping cells, and
coming back to patch cells it skipped.
-/
import Bang.Memory.Cells

namespace Mem

variable {α : Type}

/-- The region of `cap` cells at `a` holds `xs`, and `z` from there on. -/
structure Filled (m : Mem α) (a cap : Nat) (z : α) (xs : List α) : Prop where
  fits : xs.length ≤ cap
  holds : m.Holds a (xs ++ List.replicate (cap - xs.length) z)

theorem Filled.front {m : Mem α} {a cap : Nat} {z : α} {xs : List α} (h : Filled m a cap z xs) :
    m.Holds a xs :=
  h.holds.left

theorem filled_clear (m : Mem α) (a cap : Nat) (z : α) :
    Filled (m.store a (List.replicate cap z)) a cap z [] := by
  refine ⟨Nat.zero_le _, ?_⟩
  simpa using holds_store m a (List.replicate cap z)

/-- Clearing a larger region clears the regions inside it. -/
theorem filled_clear_part (m : Mem α) {a cap b cap' : Nat} (z : α) (hb : a ≤ b) (hcap : b + cap' ≤ a + cap) :
    Filled (m.store a (List.replicate cap z)) b cap' z [] := by
  refine ⟨Nat.zero_le _, ?_⟩
  rw [List.nil_append, List.length_nil, Nat.sub_zero, holds_replicate]
  intro i hi
  have := (holds_replicate _ a cap z).1 (holds_store m a (List.replicate cap z)) (b - a + i) (by omega)
  rwa [show a + (b - a + i) = b + i by omega] at this

/-- A region keeps its filling when only cells outside it change. -/
theorem Filled.sameOutside {m m' : Mem α} {a cap lo hi : Nat} {z : α} {xs : List α}
    (h : Filled m a cap z xs) (hs : SameOutside m m' lo hi) (hd : a + cap ≤ lo ∨ hi ≤ a) :
    Filled m' a cap z xs := by
  have hf := h.fits
  refine ⟨hf, h.holds.sameOutside hs ?_⟩
  rw [List.length_append, List.length_replicate]
  omega

/-- The region also reads as filled with some of the clear cells behind the cursor. -/
theorem Filled.skip {m : Mem α} {a cap : Nat} {z : α} {xs : List α} (h : Filled m a cap z xs) (n : Nat)
    (hn : xs.length + n ≤ cap) : Filled m a cap z (xs ++ List.replicate n z) := by
  refine ⟨by simp; omega, ?_⟩
  have hsplit : List.replicate (cap - xs.length) z =
      List.replicate n z ++ List.replicate (cap - (xs ++ List.replicate n z).length) z := by
    rw [List.replicate_append_replicate]
    congr 1
    simp; omega
  rw [List.append_assoc, ← hsplit]
  exact h.holds

/-- Overwriting cells in the middle of what is held. -/
theorem Holds.patch {m : Mem α} {a b : Nat} {xs old ys : List α} (h : m.Holds a (xs ++ old ++ ys))
    (new : List α) (hl : new.length = old.length) (hb : b = a + xs.length) :
    (m.store b new).Holds a (xs ++ new ++ ys) := by
  subst hb
  have hx : m.Holds a xs := h.left.left
  have hy : m.Holds (a + (xs ++ old).length) ys := h.right
  rw [holds_append, holds_append]
  refine ⟨⟨hx.store _ _ (Or.inl (Nat.le_refl _)), holds_store _ _ _⟩, ?_⟩
  have he : a + (xs ++ new).length = a + (xs ++ old).length := by simp [hl]
  rw [he]
  exact hy.store _ _ (Or.inr (by simp [hl, Nat.add_assoc]))

/-- Writing at the cursor. -/
theorem Filled.push {m : Mem α} {a cap b : Nat} {z : α} {xs : List α} (h : Filled m a cap z xs)
    (new : List α) (hn : xs.length + new.length ≤ cap) (hb : b = a + xs.length) :
    Filled (m.store b new) a cap z (xs ++ new) := by
  have hs := h.skip new.length hn
  refine ⟨by simp; omega, ?_⟩
  have := hs.holds.patch new (by simp) hb
  simpa using this

/-- Coming back to cells that were skipped. -/
theorem Filled.patch {m : Mem α} {a cap b : Nat} {z : α} {xs old ys : List α}
    (h : Filled m a cap z (xs ++ old ++ ys)) (new : List α) (hl : new.length = old.length)
    (hb : b = a + xs.length) : Filled (m.store b new) a cap z (xs ++ new ++ ys) := by
  have hlen : (xs ++ new ++ ys).length = (xs ++ old ++ ys).length := by simp [hl]
  refine ⟨by rw [hlen]; exact h.fits, ?_⟩
  have hh := h.holds
  rw [← hlen] at hh
  rw [List.append_assoc (xs ++ old)] at hh
  rw [List.append_assoc (xs ++ new)]
  exact hh.patch new hl hb

/-! ## Checked stores into a filled region -/

/-- A store at the cursor, checked against a region around the filled one, succeeds when there is
room, fills the region further and changes nothing outside it. -/
theorem Filled.storeIn_within {m : Mem α} {a cap b lo hi : Nat} {z : α} {xs : List α}
    (h : Filled m a cap z xs) (hlo : lo ≤ a) (hhi : a + cap ≤ hi) (new : List α)
    (hn : xs.length + new.length ≤ cap) (hb : b = a + xs.length) :
    ∃ m', storeIn lo hi m b new = some m' ∧ Filled m' a cap z (xs ++ new) ∧ SameOutside m m' a (a + cap) := by
  have hs : storeIn lo hi m b new = some (m.store b new) := storeIn_eq m (by omega) (by omega)
  exact ⟨_, hs, h.push new hn hb, (sameOutside_store m b new).mono (by omega) (by omega)⟩

theorem Filled.storeIn_push {m : Mem α} {a cap b : Nat} {z : α} {xs : List α} (h : Filled m a cap z xs)
    (new : List α) (hn : xs.length + new.length ≤ cap) (hb : b = a + xs.length) :
    ∃ m', storeIn a (a + cap) m b new = some m' ∧ Filled m' a cap z (xs ++ new) ∧
      SameOutside m m' a (a + cap) :=
  h.storeIn_within (Nat.le_refl _) (Nat.le_refl _) new hn hb

/-- A checked store over cells that were skipped. -/
theorem Filled.storeIn_patch {m : Mem α} {a cap b : Nat} {z : α} {xs old ys : List α}
    (h : Filled m a cap z (xs ++ old ++ ys)) (new : List α) (hl : new.length = old.length)
    (hb : b = a + xs.length) :
    ∃ m', storeIn a (a + cap) m b new = some m' ∧ Filled m' a cap z (xs ++ new ++ ys) ∧
      SameOutside m m' a (a + cap) := by
  have hf := h.fits
  have hs : storeIn a (a + cap) m b new = some (m.store b new) :=
    storeIn_eq m (by omega) (by simp at hf; omega)
  exact ⟨_, hs, h.patch new hl hb, (storeIn_some hs).2⟩

end Mem
