/-
Computations that keep a list of what they read, over any type of reads and of errors. The list goes on
in front of an error, so that a computation that stops still says what it read before.
-/
import Mathlib.Tactic.Common

/-- What a computation read, and how it ended. -/
structure Traced (ρ ε α : Type) where
  reads : List ρ
  result : Except ε α

namespace Traced

variable {ρ ε α β : Type}

/-- A computation that reads nothing. -/
def lift (x : Except ε α) : Traced ρ ε α := ⟨[], x⟩

/-- One computation and then another. -/
def andThen (x : Traced ρ ε α) (f : α → Traced ρ ε β) : Traced ρ ε β :=
  match x.result with
  | .ok a => ⟨x.reads ++ (f a).reads, (f a).result⟩
  | .error e => ⟨x.reads, .error e⟩

instance : Monad (Traced ρ ε) where
  pure a := ⟨[], .ok a⟩
  bind := andThen

@[simp] theorem pure_result (a : α) : (pure a : Traced ρ ε α).result = pure a := rfl

@[simp] theorem lift_result (x : Except ε α) : (lift x : Traced ρ ε α).result = x := rfl

/-- Without the list, the computations are those of `Except`. -/
@[simp] theorem bind_result (x : Traced ρ ε α) (f : α → Traced ρ ε β) :
    (x >>= f).result = x.result >>= fun a => (f a).result := by
  show (x.andThen f).result = _
  unfold andThen
  cases x.result <;> rfl

/-- Two computations are alike without the list when their parts are. -/
theorem result_congr {x : Traced ρ ε α} {x' : Except ε α} {f : α → Traced ρ ε β} {f' : α → Except ε β}
    (hx : x.result = x') (hf : ∀ a, x' = .ok a → (f a).result = f' a) : (x >>= f).result = x' >>= f' := by
  rw [bind_result, hx]
  cases hres : x' with
  | ok a => exact hf a hres
  | error e => rfl

theorem mem_bind_reads {x : Traced ρ ε α} {f : α → Traced ρ ε β} {r : ρ} (h : r ∈ (x >>= f).reads) :
    r ∈ x.reads ∨ ∃ a, x.result = .ok a ∧ r ∈ (f a).reads := by
  have h : r ∈ (x.andThen f).reads := h
  unfold andThen at h
  split at h
  · rename_i a ha
    rcases List.mem_append.1 h with h | h
    · exact .inl h
    · exact .inr ⟨a, ha, h⟩
  · exact .inl h

/-! ## Reads that are all good -/

/-- Every read is one of `P`, and no error is the one a bad read gives. -/
structure Safe (P : ρ → Prop) (bad : ε) (x : Traced ρ ε α) : Prop where
  reads : ∀ r ∈ x.reads, P r
  result : x.result ≠ .error bad

variable {P : ρ → Prop} {bad : ε}

theorem safe_pure (a : α) : Safe P bad (pure a : Traced ρ ε α) := by
  constructor
  · intro r hr
    cases hr
  · intro h
    cases h

theorem safe_lift {x : Except ε α} (h : x ≠ .error bad) : Safe P bad (lift x : Traced ρ ε α) :=
  ⟨(fun r hr => by cases hr), h⟩

theorem Safe.bind {x : Traced ρ ε α} {f : α → Traced ρ ε β} (hx : Safe P bad x)
    (hf : ∀ a, x.result = .ok a → Safe P bad (f a)) : Safe P bad (x >>= f) := by
  constructor
  · intro r hr
    rcases mem_bind_reads hr with hr | ⟨a, ha, hr⟩
    · exact hx.reads r hr
    · exact (hf a ha).reads r hr
  · rw [bind_result]
    intro h
    cases hres : x.result with
    | ok a =>
      rw [hres] at h
      exact (hf a hres).result h
    | error e =>
      rw [hres] at h
      have he : e = bad := Except.error.inj h
      exact hx.result (hres.trans (congrArg Except.error he))

end Traced
