/-
The firmware's page allocator, which is not part of this repository: the two kinds of request the
loader makes of it (`AllocateType::Address` and `AllocateType::MaxAddress`), what UEFI promises
about its answers, a wrapper that keeps a log of the requests, and the simplest allocator that
keeps the promises.
-/
import Mathlib.Data.List.Basic
import Mathlib.Tactic.Common

namespace Bang

/-- Bytes of a page. -/
def pageSize : Nat := 4096

/-- Page `q` is one of the `count` pages from `page` on. -/
def InRun (page count q : Nat) : Prop := ∃ k < count, q = page + k * pageSize

instance (page count q : Nat) : Decidable (InRun page count q) :=
  inferInstanceAs (Decidable (∃ k < count, q = page + k * pageSize))

/-- The allocator: requests for given pages, and requests for pages below an address. -/
structure Firmware (σ : Type) where
  /-- `allocate_pages(Address(page), _, count)`: whether it is granted. -/
  allocateAt : σ → (page count : Nat) → Bool × σ
  /-- `allocate_pages(MaxAddress(max), _, count)`: the address of the pages it grants. -/
  allocateBelow : σ → (max count : Nat) → Option Nat × σ

/-! ## What UEFI promises -/

/-- The firmware keeps account of the pages that are `taken`: it grants given pages exactly when
none of them is, hands out only pages that are not, and a granted page is taken from then on. -/
structure Firmware.Lawful {σ : Type} (fw : Firmware σ) (taken : σ → Nat → Prop) : Prop where
  at_granted : ∀ s page count, (fw.allocateAt s page count).1 = true ↔
    ∀ q, InRun page count q → ¬ taken s q
  at_taken : ∀ s page count q, taken (fw.allocateAt s page count).2 q ↔
    taken s q ∨ ((fw.allocateAt s page count).1 = true ∧ InRun page count q)
  below_granted : ∀ s max count a, (fw.allocateBelow s max count).1 = some a →
    pageSize ∣ a ∧ a + count * pageSize ≤ max + 1 ∧ ∀ q, InRun a count q → ¬ taken s q
  below_taken : ∀ s max count q, taken (fw.allocateBelow s max count).2 q ↔
    taken s q ∨ ∃ a, (fw.allocateBelow s max count).1 = some a ∧ InRun a count q

section
variable {σ : Type} {fw : Firmware σ} {taken : σ → Nat → Prop} {s s' : σ} {max count : Nat}

/-- Pages that were handed out: aligned, below the address, and free until then. -/
theorem Firmware.Lawful.below_some (h : fw.Lawful taken) {a : Nat} (hask : fw.allocateBelow s max count = (some a, s')) :
    pageSize ∣ a ∧ a + count * pageSize ≤ max + 1 ∧ (∀ q, InRun a count q → ¬ taken s q) ∧
      ∀ q, taken s' q ↔ taken s q ∨ InRun a count q := by
  obtain ⟨hdvd, hlimit, hfree⟩ := h.below_granted s max count a (by rw [hask])
  refine ⟨hdvd, hlimit, hfree, fun q => ?_⟩
  have htaken := h.below_taken s max count q
  rw [hask] at htaken
  rw [htaken]
  constructor
  · rintro (hq | ⟨_, he, hq⟩)
    · exact .inl hq
    · cases he
      exact .inr hq
  · rintro (hq | hq)
    · exact .inl hq
    · exact .inr ⟨a, rfl, hq⟩

/-- A refusal takes no page. -/
theorem Firmware.Lawful.below_none (h : fw.Lawful taken) (hask : fw.allocateBelow s max count = (none, s')) (q : Nat) :
    taken s' q ↔ taken s q := by
  have htaken := h.below_taken s max count q
  rw [hask] at htaken
  rw [htaken]
  refine or_iff_left ?_
  rintro ⟨a, he, -⟩
  cases he

end

/-! ## A log of the requests -/

/-- A request for given pages and its answer. -/
structure Request where
  page : Nat
  count : Nat
  granted : Bool
  deriving DecidableEq, Repr

/-- The same firmware, which also remembers the requests for given pages. -/
def Firmware.logged {σ : Type} (fw : Firmware σ) : Firmware (σ × List Request) where
  allocateAt s page count :=
    let (granted, f) := fw.allocateAt s.1 page count
    (granted, f, s.2 ++ [⟨page, count, granted⟩])
  allocateBelow s max count :=
    let (a, f) := fw.allocateBelow s.1 max count
    (a, f, s.2)

theorem Firmware.Lawful.logged {σ : Type} {fw : Firmware σ} {taken : σ → Nat → Prop}
    (h : fw.Lawful taken) : fw.logged.Lawful fun s => taken s.1 :=
  ⟨fun s => h.at_granted s.1, fun s => h.at_taken s.1, fun s => h.below_granted s.1,
    fun s => h.below_taken s.1⟩

/-! ## Addresses that are not null -/

/-- No page below an address is handed out at address 0: `allocate_pages` returns a `NonNull`. -/
def Firmware.NonNull {σ : Type} (fw : Firmware σ) : Prop :=
  ∀ s max count, (fw.allocateBelow s max count).1 ≠ some 0

/-- The same firmware, with the pages at address 0 given back. -/
def Firmware.nonNull {σ : Type} (fw : Firmware σ) : Firmware σ where
  allocateAt := fw.allocateAt
  allocateBelow s max count :=
    if (fw.allocateBelow s max count).1 = some 0 then (none, s) else fw.allocateBelow s max count

theorem Firmware.nonNull_nonNull {σ : Type} (fw : Firmware σ) : fw.nonNull.NonNull := by
  intro s max count
  simp only [Firmware.nonNull]
  split
  · exact Option.some_ne_none 0 ∘ Eq.symm
  · assumption

theorem Firmware.Lawful.nonNull {σ : Type} {fw : Firmware σ} {taken : σ → Nat → Prop} (h : fw.Lawful taken) :
    fw.nonNull.Lawful taken := by
  refine ⟨h.at_granted, h.at_taken, fun s max count a => ?_, fun s max count q => ?_⟩
  · simp only [Firmware.nonNull]
    split
    · intro hnone; cases hnone
    · exact h.below_granted s max count a
  · simp only [Firmware.nonNull]
    split
    · simp
    · exact h.below_taken s max count q

/-! ## The simplest such firmware -/

/-- A firmware that remembers the taken pages, and the next address it tries to hand out. -/
structure Bump where
  taken : Nat → Bool
  next : Nat

/-- The pages of a run taken as well. -/
def Bump.take (s : Bump) (page count : Nat) : Nat → Bool :=
  fun q => s.taken q || decide (InRun page count q)

def bump : Firmware Bump where
  allocateAt s page count :=
    if ∀ k < count, s.taken (page + k * pageSize) = false then
      (true, { s with taken := s.take page count })
    else (false, s)
  allocateBelow s max count :=
    if pageSize ∣ s.next ∧ s.next + count * pageSize ≤ max + 1 ∧
        ∀ k < count, s.taken (s.next + k * pageSize) = false then
      (some s.next, ⟨s.take s.next count, s.next + count * pageSize⟩)
    else (none, s)

theorem bump_free_iff (s : Bump) (page count : Nat) :
    (∀ k < count, s.taken (page + k * pageSize) = false) ↔
      ∀ q, InRun page count q → ¬ s.taken q = true := by
  constructor
  · rintro h q ⟨k, hk, rfl⟩
    simp [h k hk]
  · intro h k hk
    simpa using h _ ⟨k, hk, rfl⟩

theorem bump_lawful : bump.Lawful fun s q => s.taken q = true := by
  refine ⟨fun s page count => ?_, fun s page count q => ?_, fun s max count a => ?_, fun s max count q => ?_⟩
  · rw [← bump_free_iff]
    by_cases h : ∀ k < count, s.taken (page + k * pageSize) = false
    · simp only [bump, if_pos h]
      exact ⟨fun _ => h, fun _ => trivial⟩
    · simp only [bump, if_neg h]
      exact ⟨fun hf => absurd hf Bool.false_ne_true, fun h' => absurd h' h⟩
  · simp only [bump]
    split <;> simp [Bump.take]
  · simp only [bump]
    split
    · rename_i h
      rw [bump_free_iff] at h
      intro he
      cases he
      exact h
    · intro he; cases he
  · simp only [bump]
    split <;> simp [Bump.take]

end Bang
