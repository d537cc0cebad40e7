/-
Memories as functions from addresses to cells, over any type of cell: storing a list of cells,
the assertion that a memory holds a list at an address, the frame rules between the two, and
stores checked against the region they may touch.
-/
import Mathlib.Data.List.Basic
import Mathlib.Data.List.GetD

/-- A memory: one cell at every address. -/
abbrev Mem (α : Type) := Nat → α

namespace Mem

variable {α : Type}

/-! ## Stores -/

/-- The cells `xs` stored from address `a` on. -/
def store (m : Mem α) (a : Nat) (xs : List α) : Mem α :=
  fun i => if i < a then m i else (xs[i - a]?).getD (m i)

theorem store_below (m : Mem α) {a i : Nat} (xs : List α) (h : i < a) : m.store a xs i = m i := by
  simp [store, h]

theorem store_above (m : Mem α) {a i : Nat} (xs : List α) (h : a + xs.length ≤ i) :
    m.store a xs i = m i := by
  unfold store
  rw [if_neg (by omega), List.getElem?_eq_none (by omega)]
  rfl

theorem store_at (m : Mem α) (a : Nat) (xs : List α) (i : Nat) (h : i < xs.length) :
    m.store a xs (a + i) = xs[i] := by
  unfold store
  rw [if_neg (by omega), Nat.add_sub_cancel_left, List.getElem?_eq_getElem h]
  rfl

@[simp] theorem store_nil (m : Mem α) (a : Nat) : m.store a [] = m := by
  funext i; simp [store]

/-- A cell that is the same before is the same after. -/
theorem store_congr {m m' : Mem α} (a : Nat) (xs : List α) {i : Nat} (h : m' i = m i) :
    m'.store a xs i = m.store a xs i := by
  unfold store
  rw [h]

/-- Two adjacent stores are one store. -/
theorem store_store (m : Mem α) (a : Nat) (xs ys : List α) :
    (m.store a xs).store (a + xs.length) ys = m.store a (xs ++ ys) := by
  funext i
  by_cases h1 : i < a
  · rw [store_below _ _ (by omega), store_below _ _ h1, store_below _ _ h1]
  · by_cases h2 : i < a + xs.length
    · obtain ⟨j, rfl⟩ : ∃ j, i = a + j := ⟨i - a, by omega⟩
      rw [store_below _ _ h2, store_at _ _ _ j (by omega), store_at _ _ _ j (by simp; omega),
        List.getElem_append_left]
    · by_cases h3 : i < a + xs.length + ys.length
      · obtain ⟨j, rfl⟩ : ∃ j, i = a + xs.length + j := ⟨i - (a + xs.length), by omega⟩
        rw [store_at _ _ _ j (by omega), Nat.add_assoc, store_at _ _ _ (xs.length + j) (by simp; omega),
          List.getElem_append_right (by omega)]
        simp
      · rw [store_above _ _ (by omega), store_above _ _ (by omega), store_above _ _ (by simp; omega)]

/-! ## What a memory holds -/

/-- The cells from address `a` on are `xs`. -/
def Holds (m : Mem α) (a : Nat) (xs : List α) : Prop :=
  ∀ i (h : i < xs.length), m (a + i) = xs[i]

theorem holds_store (m : Mem α) (a : Nat) (xs : List α) : (m.store a xs).Holds a xs :=
  fun i h => store_at m a xs i h

/-- A store leaves alone what lies on either side of it. -/
theorem Holds.store {m : Mem α} {b : Nat} {ys : List α} (h : m.Holds b ys) (a : Nat) (xs : List α)
    (hd : b + ys.length ≤ a ∨ a + xs.length ≤ b) : (m.store a xs).Holds b ys := by
  intro i hi
  rcases hd with hd | hd
  · rw [store_below _ _ (by omega)]; exact h i hi
  · rw [store_above _ _ (by omega)]; exact h i hi

theorem holds_append (m : Mem α) (a : Nat) (xs ys : List α) :
    m.Holds a (xs ++ ys) ↔ m.Holds a xs ∧ m.Holds (a + xs.length) ys := by
  constructor
  · intro h
    refine ⟨fun i hi => ?_, fun i hi => ?_⟩
    · rw [h i (by simp; omega), List.getElem_append_left hi]
    · rw [Nat.add_assoc, h (xs.length + i) (by simp; omega), List.getElem_append_right (by omega)]
      simp
  · rintro ⟨hx, hy⟩ i hi
    by_cases h : i < xs.length
    · rw [List.getElem_append_left h]; exact hx i h
    · obtain ⟨j, rfl⟩ : ∃ j, i = xs.length + j := ⟨i - xs.length, by omega⟩
      rw [List.getElem_append_right (by omega), ← Nat.add_assoc, hy j (by simp at hi; omega)]
      simp

theorem Holds.left {m : Mem α} {a : Nat} {xs ys : List α} (h : m.Holds a (xs ++ ys)) : m.Holds a xs :=
  ((holds_append m a xs ys).1 h).1

theorem Holds.right {m : Mem α} {a : Nat} {xs ys : List α} (h : m.Holds a (xs ++ ys)) :
    m.Holds (a + xs.length) ys :=
  ((holds_append m a xs ys).1 h).2

theorem holds_replicate (m : Mem α) (a n : Nat) (x : α) :
    m.Holds a (List.replicate n x) ↔ ∀ i < n, m (a + i) = x := by
  simp [Holds]

/-- Two memories hold the same where they agree. -/
theorem Holds.congr {m m' : Mem α} {a : Nat} {xs : List α} (h : m.Holds a xs)
    (he : ∀ i, a ≤ i → i < a + xs.length → m' i = m i) : m'.Holds a xs :=
  fun i hi => by rw [he _ (by omega) (by omega)]; exact h i hi

/-! ## Loads -/

/-- The `n` cells from address `a` on. -/
def load (m : Mem α) (a n : Nat) : List α := (List.range n).map fun i => m (a + i)

@[simp] theorem length_load (m : Mem α) (a n : Nat) : (m.load a n).length = n := by simp [load]

theorem holds_load (m : Mem α) (a n : Nat) : m.Holds a (m.load a n) := by
  intro i hi; simp [load]

theorem Holds.load_eq {m : Mem α} {a : Nat} {xs : List α} (h : m.Holds a xs) :
    m.load a xs.length = xs := by
  apply List.ext_getElem (by simp)
  intro i h1 h2
  simp [load, h i h2]

/-! ## Agreement outside a region -/

/-- `m'` differs from `m` inside `[lo, hi)` only. -/
def SameOutside (m m' : Mem α) (lo hi : Nat) : Prop := ∀ i, i < lo ∨ hi ≤ i → m' i = m i

theorem SameOutside.refl (m : Mem α) (lo hi : Nat) : SameOutside m m lo hi := fun _ _ => rfl

theorem SameOutside.trans {m₁ m₂ m₃ : Mem α} {lo hi : Nat} (h : SameOutside m₁ m₂ lo hi)
    (h' : SameOutside m₂ m₃ lo hi) : SameOutside m₁ m₃ lo hi :=
  fun i hi' => (h' i hi').trans (h i hi')

theorem SameOutside.mono {m m' : Mem α} {lo hi lo' hi' : Nat} (h : SameOutside m m' lo hi)
    (hlo : lo' ≤ lo) (hhi : hi ≤ hi') : SameOutside m m' lo' hi' :=
  fun i hi => h i (by omega)

theorem sameOutside_store (m : Mem α) (a : Nat) (xs : List α) :
    SameOutside m (m.store a xs) a (a + xs.length) := by
  rintro i (h | h)
  · exact store_below m xs h
  · exact store_above m xs h

/-- A further store into the region. -/
theorem SameOutside.store {m m' : Mem α} {lo hi : Nat} (h : SameOutside m m' lo hi) {a : Nat} {xs : List α}
    (hlo : lo ≤ a) (hhi : a + xs.length ≤ hi) : SameOutside m (m'.store a xs) lo hi :=
  h.trans ((sameOutside_store m' a xs).mono hlo hhi)

theorem Holds.sameOutside {m m' : Mem α} {lo hi a : Nat} {xs : List α} (h : m.Holds a xs)
    (hs : SameOutside m m' lo hi) (hd : a + xs.length ≤ lo ∨ hi ≤ a) : m'.Holds a xs :=
  h.congr fun i h1 h2 => hs i (by omega)

/-! ## Stores checked against a region -/

/-- A store into the region `[lo, hi)`; `none` when it would leave it. -/
def storeIn (lo hi : Nat) (m : Mem α) (a : Nat) (xs : List α) : Option (Mem α) :=
  if lo ≤ a ∧ a + xs.length ≤ hi then some (m.store a xs) else none

theorem storeIn_eq {lo hi a : Nat} {xs : List α} (m : Mem α) (h1 : lo ≤ a) (h2 : a + xs.length ≤ hi) :
    storeIn lo hi m a xs = some (m.store a xs) :=
  if_pos ⟨h1, h2⟩

theorem storeIn_some {lo hi a : Nat} {xs : List α} {m m' : Mem α} (h : storeIn lo hi m a xs = some m') :
    m' = m.store a xs ∧ SameOutside m m' lo hi := by
  unfold storeIn at h
  split at h
  · rename_i hb
    cases h
    exact ⟨rfl, (sameOutside_store m a xs).mono hb.1 hb.2⟩
  · cases h

/-- Straight-line code that stores one thing right after another stores their concatenation. -/
theorem storeIn_bind (lo hi : Nat) (m : Mem α) (a b : Nat) (xs ys : List α) (hb : b = a + xs.length) :
    ((storeIn lo hi m a xs).bind fun m' => storeIn lo hi m' b ys) = storeIn lo hi m a (xs ++ ys) := by
  subst hb
  unfold storeIn
  by_cases h1 : lo ≤ a ∧ a + xs.length ≤ hi
  · rw [if_pos h1, Option.bind_some, store_store]
    by_cases h2 : a + xs.length + ys.length ≤ hi
    · rw [if_pos ⟨by omega, h2⟩, if_pos ⟨h1.1, by simp; omega⟩]
    · rw [if_neg (by omega), if_neg (by simp; omega)]
  · rw [if_neg h1, if_neg (by simp; omega)]
    rfl

theorem storeIn_bind_bind {β : Type} (lo hi : Nat) (m : Mem α) (a b : Nat) (xs ys : List α)
    (k : Mem α → Option β) (hb : b = a + xs.length) :
    ((storeIn lo hi m a xs).bind fun m' => (storeIn lo hi m' b ys).bind k) =
      (storeIn lo hi m a (xs ++ ys)).bind k := by
  rw [← storeIn_bind lo hi m a b xs ys hb, Option.bind_assoc]

end Mem
