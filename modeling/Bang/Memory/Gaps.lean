/-
Gaps between taken places: of the places a stride `w` apart from `a` up to `limit`, the maximal
runs of free ones, in ascending order. What a scan for them finds does not depend on the places
it has passed, it finds every free place, and its runs do not meet.
-/
import Mathlib.Algebra.NeZero
import Mathlib.Data.List.Basic
import Mathlib.Tactic.Ring

namespace Gaps

/-! ## The scan -/

/-- The number of free places from `a` on, when the first `n` are known to be free. -/
def len (w : Nat) [NeZero w] (taken : Nat → Bool) (limit a n : Nat) : Nat :=
  if a + n * w < limit ∧ taken (a + n * w) = false then len w taken limit a (n + 1) else n
termination_by limit - (a + n * w)
decreasing_by have := NeZero.pos w; rw [Nat.add_mul, Nat.one_mul]; omega

section
variable (w : Nat) [NeZero w] (taken : Nat → Bool) (limit : Nat)

theorem le_len (a n : Nat) : n ≤ len w taken limit a n := by
  induction n using len.induct w taken limit a with
  | case1 n h ih => rw [len, if_pos h]; omega
  | case2 n h => rw [len, if_neg h]

/-- Every place of the run is free and below the limit. -/
theorem len_free (a n k : Nat) (hn : n ≤ k) (hk : k < len w taken limit a n) :
    a + k * w < limit ∧ taken (a + k * w) = false := by
  induction n using len.induct w taken limit a with
  | case1 n h ih =>
    rw [len, if_pos h] at hk
    rcases Nat.eq_or_lt_of_le hn with rfl | hlt
    · exact h
    · exact ih hlt hk
  | case2 n h => rw [len, if_neg h] at hk; omega

/-- The run ends at a taken place or at the limit. -/
theorem len_stop (a n : Nat) :
    ¬ (a + len w taken limit a n * w < limit ∧ taken (a + len w taken limit a n * w) = false) := by
  induction n using len.induct w taken limit a with
  | case1 n h ih => rw [len, if_pos h]; exact ih
  | case2 n h => rw [len, if_neg h]; exact h

theorem len_pos {a : Nat} (h : a < limit) (hfree : taken a = false) : 0 < len w taken limit a 0 := by
  rw [len, if_pos (by simpa using ⟨h, hfree⟩)]
  exact le_len w taken limit a 1

end

/-- The maximal runs of free places from `a` on: where each starts and how many places it has. -/
def gaps (w : Nat) [NeZero w] (taken : Nat → Bool) (limit a : Nat) : List (Nat × Nat) :=
  if a < limit then
    if taken a = false then
      (a, len w taken limit a 0) :: gaps w taken limit (a + len w taken limit a 0 * w)
    else gaps w taken limit (a + w)
  else []
termination_by limit - a
decreasing_by
  · have := Nat.mul_le_mul_right w (len_pos w taken limit ‹a < limit› ‹taken a = false›)
    have := NeZero.pos w
    omega
  · have := NeZero.pos w; omega

section
variable (w : Nat) [NeZero w] (taken : Nat → Bool) (limit : Nat)

/-! ## What it finds -/

/-- A run starts at or behind `a`, at a whole number of strides, and its places are free. -/
theorem mem_gaps (a : Nat) : ∀ r ∈ gaps w taken limit a, (∃ j, r.1 = a + j * w) ∧ 0 < r.2 ∧
    ∀ k < r.2, r.1 + k * w < limit ∧ taken (r.1 + k * w) = false := by
  induction a using gaps.induct w taken limit with
  | case1 a h hfree ih =>
    rw [gaps, if_pos h, if_pos hfree]
    intro r hr
    rcases List.mem_cons.1 hr with rfl | hr
    · exact ⟨⟨0, by simp⟩, len_pos w taken limit h hfree, fun k hk =>
        len_free w taken limit a 0 k (Nat.zero_le k) hk⟩
    · obtain ⟨⟨j, hj⟩, hpos, hk⟩ := ih r hr
      exact ⟨⟨len w taken limit a 0 + j, by rw [hj]; ring⟩, hpos, hk⟩
  | case2 a h htaken ih =>
    rw [gaps, if_pos h, if_neg htaken]
    intro r hr
    obtain ⟨⟨j, hj⟩, hpos, hk⟩ := ih r hr
    exact ⟨⟨j + 1, by rw [hj]; ring⟩, hpos, hk⟩
  | case3 a h => rw [gaps, if_neg h]; intro r hr; cases hr

theorem le_of_mem_gaps {a : Nat} {r : Nat × Nat} (h : r ∈ gaps w taken limit a) : a ≤ r.1 := by
  obtain ⟨⟨j, hj⟩, -, -⟩ := mem_gaps w taken limit a r h
  omega

/-- When the limit is a whole number of strides behind `a`, no run reaches over it. -/
theorem run_le_limit {a : Nat} (ha : w ∣ a) (hl : w ∣ limit) {r : Nat × Nat}
    (h : r ∈ gaps w taken limit a) : r.1 + r.2 * w ≤ limit := by
  obtain ⟨⟨j, hj⟩, hpos, hk⟩ := mem_gaps w taken limit a r h
  obtain ⟨n, hn⟩ : ∃ n, r.2 = n + 1 := ⟨r.2 - 1, by omega⟩
  obtain ⟨hlt, -⟩ := hk n (by omega)
  have hd : w ∣ r.1 + n * w := by
    rw [hj]
    exact Nat.dvd_add (Nat.dvd_add ha (Nat.dvd_mul_left ..)) (Nat.dvd_mul_left ..)
  obtain ⟨x, hx⟩ := hd
  obtain ⟨y, rfl⟩ := hl
  rw [hx] at hlt
  have hxy : x + 1 ≤ y := Nat.lt_of_mul_lt_mul_left hlt
  calc r.1 + r.2 * w = w * (x + 1) := by rw [hn, Nat.add_mul, ← Nat.add_assoc, hx]; ring
    _ ≤ w * y := Nat.mul_le_mul_left w hxy

/-- Later runs start behind earlier ones. -/
theorem pairwise_gaps (a : Nat) :
    (gaps w taken limit a).Pairwise fun r r' => r.1 + r.2 * w ≤ r'.1 := by
  induction a using gaps.induct w taken limit with
  | case1 a h hfree ih =>
    rw [gaps, if_pos h, if_pos hfree, List.pairwise_cons]
    exact ⟨fun r hr => le_of_mem_gaps w taken limit hr, ih⟩
  | case2 a h htaken ih => rw [gaps, if_pos h, if_neg htaken]; exact ih
  | case3 a h => rw [gaps, if_neg h]; exact List.Pairwise.nil

/-- Every free place is in a run. -/
theorem gaps_cover (a : Nat) : ∀ k, a + k * w < limit → taken (a + k * w) = false →
    ∃ r ∈ gaps w taken limit a, ∃ j < r.2, a + k * w = r.1 + j * w := by
  induction a using gaps.induct w taken limit with
  | case1 a h hfree ih =>
    intro k hk hkfree
    rw [gaps, if_pos h, if_pos hfree]
    by_cases hin : k < len w taken limit a 0
    · exact ⟨_, List.mem_cons_self .., k, hin, rfl⟩
    · have hsplit : a + k * w = a + len w taken limit a 0 * w + (k - len w taken limit a 0) * w := by
        rw [Nat.add_assoc, ← Nat.add_mul]
        congr 2; omega
      rw [hsplit] at hk hkfree ⊢
      obtain ⟨r, hr, j, hj, he⟩ := ih _ hk hkfree
      exact ⟨r, List.mem_cons_of_mem _ hr, j, hj, he⟩
  | case2 a h htaken ih =>
    intro k hk hkfree
    rw [gaps, if_pos h, if_neg htaken]
    cases k with
    | zero => exact absurd (by simpa using hkfree) htaken
    | succ k =>
      have hsplit : a + (k + 1) * w = a + w + k * w := by ring
      rw [hsplit] at hk hkfree ⊢
      exact ih k hk hkfree
  | case3 a h => intro k hk; omega

/-! ## Maximal runs -/

/-- `runs` are the maximal runs of places with `P`, in ascending order. -/
structure Maximal (w : Nat) (P : Nat → Prop) (runs : List (Nat × Nat)) : Prop where
  ascending : runs.Pairwise fun r r' => r.1 + r.2 * w < r'.1
  places : ∀ r ∈ runs, 0 < r.2 ∧ ∀ k < r.2, P (r.1 + k * w)
  before : ∀ r ∈ runs, ∀ q, q + w = r.1 → ¬ P q
  behind : ∀ r ∈ runs, ¬ P (r.1 + r.2 * w)
  complete : ∀ q, P q → ∃ r ∈ runs, ∃ k < r.2, q = r.1 + k * w

theorem Maximal.congr {w : Nat} {P P' : Nat → Prop} {runs : List (Nat × Nat)} (h : Maximal w P runs)
    (hP : ∀ q, P q ↔ P' q) : Maximal w P' runs := by
  obtain rfl : P = P' := funext fun q => propext (hP q)
  exact h

/-- The scan stops a run where it has to. -/
theorem gaps_behind (a : Nat) : ∀ r ∈ gaps w taken limit a,
    ¬ (r.1 + r.2 * w < limit ∧ taken (r.1 + r.2 * w) = false) := by
  induction a using gaps.induct w taken limit with
  | case1 a h hfree ih =>
    rw [gaps, if_pos h, if_pos hfree]
    intro r hr
    rcases List.mem_cons.1 hr with rfl | hr
    · exact len_stop w taken limit a 0
    · exact ih r hr
  | case2 a h htaken ih => rw [gaps, if_pos h, if_neg htaken]; exact ih
  | case3 a h => rw [gaps, if_neg h]; intro r hr; cases hr

/-- A run starts at `a` or behind a taken place. -/
theorem gaps_before (a : Nat) : ∀ r ∈ gaps w taken limit a,
    r.1 = a ∨ ∃ q, a ≤ q ∧ q + w = r.1 ∧ taken q = true := by
  induction a using gaps.induct w taken limit with
  | case1 a h hfree ih =>
    rw [gaps, if_pos h, if_pos hfree]
    intro r hr
    rcases List.mem_cons.1 hr with rfl | hr
    · exact .inl rfl
    · rcases ih r hr with hstart | ⟨q, hle, hq, htaken⟩
      · -- the place where the first run stops is not free
        obtain ⟨-, hpos, hk⟩ := mem_gaps w taken limit _ r hr
        have hfirst := hk 0 hpos
        rw [Nat.zero_mul, Nat.add_zero, hstart] at hfirst
        exact absurd hfirst (len_stop w taken limit a 0)
      · exact .inr ⟨q, by omega, hq, htaken⟩
  | case2 a h htaken ih =>
    rw [gaps, if_pos h, if_neg htaken]
    intro r hr
    rcases ih r hr with hstart | ⟨q, hle, hq, hqtaken⟩
    · exact .inr ⟨a, Nat.le_refl a, hstart.symm, Bool.of_not_eq_false htaken⟩
    · exact .inr ⟨q, by omega, hq, hqtaken⟩
  | case3 a h => rw [gaps, if_neg h]; intro r hr; cases hr

/-- What the scan finds are the maximal runs of free places. -/
theorem gaps_maximal (a : Nat) : Maximal w (fun q => (∃ k, q = a + k * w) ∧ q < limit ∧ taken q = false)
    (gaps w taken limit a) := by
  have hw := NeZero.pos w
  refine ⟨(pairwise_gaps w taken limit a).imp_of_mem ?_, fun r hr => ?_, fun r hr q hq => ?_, fun r hr hin => ?_,
    fun q hq => ?_⟩
  · intro r r' hr hr' hle
    -- the place behind the first run is not free, and the second run's first place is
    refine Nat.lt_of_le_of_ne hle fun heq => gaps_behind w taken limit a r hr ?_
    obtain ⟨-, hpos, hk⟩ := mem_gaps w taken limit a r' hr'
    have hfirst := hk 0 hpos
    rwa [Nat.zero_mul, Nat.add_zero, ← heq] at hfirst
  · obtain ⟨⟨j, hj⟩, hpos, hk⟩ := mem_gaps w taken limit a r hr
    exact ⟨hpos, fun k hlt => ⟨⟨j + k, by rw [hj]; ring⟩, hk k hlt⟩⟩
  · rintro ⟨⟨k, rfl⟩, -, hfree⟩
    rcases gaps_before w taken limit a r hr with hstart | ⟨q, -, hqr, htaken⟩
    · omega
    · obtain rfl : q = a + k * w := by omega
      rw [hfree] at htaken
      cases htaken
  · exact gaps_behind w taken limit a r hr hin.2
  · obtain ⟨⟨k, rfl⟩, hlt, hfree⟩ := hq
    exact gaps_cover w taken limit a k hlt hfree

end

/-! ## The scan looks ahead only -/

section
variable {w : Nat} [NeZero w] {taken taken' : Nat → Bool} {limit : Nat}

theorem len_congr {a : Nat} (h : ∀ q, a ≤ q → taken q = taken' q) (n : Nat) :
    len w taken limit a n = len w taken' limit a n := by
  induction n using len.induct w taken limit a with
  | case1 n hn ih =>
    have hn' : a + n * w < limit ∧ taken' (a + n * w) = false := ⟨hn.1, (h _ (by omega)).symm.trans hn.2⟩
    rw [len, if_pos hn, ih, len.eq_def w taken' limit a n, if_pos hn']
  | case2 n hn =>
    rw [len, if_neg hn, len, if_neg fun hn' => hn ⟨hn'.1, (h _ (by omega)).trans hn'.2⟩]

/-- The runs from `a` on depend on the places from `a` on only. -/
theorem gaps_congr (a : Nat) (h : ∀ q, a ≤ q → taken q = taken' q) :
    gaps w taken limit a = gaps w taken' limit a := by
  induction a using gaps.induct w taken limit with
  | case1 a hlt hfree ih =>
    have hlen : len w taken limit a 0 = len w taken' limit a 0 := len_congr h 0
    have hfree' : taken' a = false := (h a (Nat.le_refl a)).symm.trans hfree
    rw [gaps, if_pos hlt, if_pos hfree, ih fun q hq => h q (by omega), gaps.eq_def w taken' limit a,
      if_pos hlt, if_pos hfree', hlen]
  | case2 a hlt htaken ih =>
    have htaken' : ¬ taken' a = false := fun hfree => htaken ((h a (Nat.le_refl a)).trans hfree)
    rw [gaps, if_pos hlt, if_neg htaken, ih fun q hq => h q (by omega), gaps.eq_def w taken' limit a,
      if_pos hlt, if_neg htaken']
  | case3 a hlt => rw [gaps, if_neg hlt, gaps, if_neg hlt]

end

end Gaps
