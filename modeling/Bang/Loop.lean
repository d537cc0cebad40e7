/-
Loops that may run forever, over any type of states and of results: a round goes on with a new state or
returns, and a loop returns when some number of rounds is enough.
-/
import Mathlib.Tactic.Common

namespace Loop

variable {σ ρ : Type}

/-- What a round does: go on with a state, or return. -/
inductive Round (σ ρ : Type)
  | next (s : σ)
  | done (r : ρ)

/-- At most `n` rounds; `none` is a loop that has not returned by then. -/
def run (body : σ → Round σ ρ) : Nat → σ → Option ρ
  | 0, _ => none
  | n + 1, s =>
    match body s with
    | .next s => run body n s
    | .done r => some r

/-- The loop returns `r`. -/
def Returns (body : σ → Round σ ρ) (s : σ) (r : ρ) : Prop := ∃ n, run body n s = some r

variable {body : σ → Round σ ρ} {s s' : σ} {r r' : ρ}

theorem run_done (h : body s = .done r) (n : Nat) : run body (n + 1) s = some r := by
  rw [run, h]

theorem run_next (h : body s = .next s') (n : Nat) : run body (n + 1) s = run body n s' := by
  rw [run, h]

theorem returns_done (h : body s = .done r) : Returns body s r' ↔ r' = r := by
  constructor
  · rintro ⟨n, hn⟩
    cases n with
    | zero => cases hn
    | succ n =>
      rw [run_done h] at hn
      exact (Option.some.inj hn).symm
  · rintro rfl
    exact ⟨1, run_done h 0⟩

theorem returns_next (h : body s = .next s') : Returns body s r ↔ Returns body s' r := by
  constructor
  · rintro ⟨n, hn⟩
    cases n with
    | zero => cases hn
    | succ n => exact ⟨n, (run_next h n).symm.trans hn⟩
  · rintro ⟨n, hn⟩
    exact ⟨n + 1, (run_next h n).trans hn⟩

/-- More rounds than are needed change nothing. -/
theorem run_mono {n m : Nat} (hle : n ≤ m) (h : run body n s = some r) : run body m s = some r := by
  induction n generalizing m s with
  | zero => cases h
  | succ n ih =>
    obtain ⟨m, rfl⟩ : ∃ k, m = k + 1 := ⟨m - 1, by omega⟩
    cases hbody : body s with
    | next s' =>
      rw [run_next hbody] at h ⊢
      exact ih (by omega) h
    | done r' =>
      rw [run_done hbody] at h ⊢
      exact h

theorem Returns.unique (h : Returns body s r) (h' : Returns body s r') : r = r' := by
  obtain ⟨n, hn⟩ := h
  obtain ⟨m, hm⟩ := h'
  have hn := run_mono (Nat.le_max_left n m) hn
  have hm := run_mono (Nat.le_max_right n m) hm
  exact Option.some.inj (hn.symm.trans hm)

/-- A round that changes nothing is the last the loop ever makes. -/
theorem not_returns_of_fixed (h : body s = .next s) (r : ρ) : ¬ Returns body s r := by
  rintro ⟨n, hn⟩
  induction n with
  | zero => cases hn
  | succ n ih =>
    rw [run_next h] at hn
    exact ih hn

end Loop
