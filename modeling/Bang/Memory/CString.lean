/-
NUL-terminated strings in a byte memory: the scan for the terminator, which looks at no more
cells than it is given, and the string it delimits.
-/
import Bang.Memory.Cells
import Mathlib.Algebra.Group.Nat.Defs
import Mathlib.Data.Nat.Find

namespace Mem

/-! ## The scan -/

/-- The number of bytes from `p` to the first zero byte, among the next `fuel` bytes. -/
def strlenIn (m : Mem UInt8) (p : Nat) : Nat → Option Nat
  | 0 => none
  | fuel + 1 => if m p = 0 then some 0 else (strlenIn m (p + 1) fuel).map (· + 1)

/-- The scan finds the first zero byte when there is one. -/
theorem strlenIn_eq (m : Mem UInt8) (n : Nat) : ∀ (fuel p : Nat), n < fuel → m (p + n) = 0 →
    (∀ i < n, m (p + i) ≠ 0) → strlenIn m p fuel = some n := by
  induction n with
  | zero =>
    intro fuel p hf h0 _
    obtain ⟨fuel, rfl⟩ : ∃ k, fuel = k + 1 := ⟨fuel - 1, by omega⟩
    rw [strlenIn, if_pos (by simpa using h0)]
  | succ n ih =>
    intro fuel p hf h0 hne
    obtain ⟨fuel, rfl⟩ : ∃ k, fuel = k + 1 := ⟨fuel - 1, by omega⟩
    rw [strlenIn, if_neg (by simpa using hne 0 (by omega)),
      ih fuel (p + 1) (by omega) (by rw [← h0]; congr 1; omega)
        (fun i hi => by rw [show p + 1 + i = p + (i + 1) by omega]; exact hne (i + 1) (by omega))]
    rfl

/-! ## Strings -/

/-- There is a zero byte at or after `p`, below the end of a 64-bit address space. -/
def NulTerminated (m : Mem UInt8) (p : Nat) : Prop := ∃ n, p + n < 2 ^ 64 ∧ m (p + n) = 0

/-- The length of the NUL-terminated string at `p`, or `none` if the address space ends first. -/
def strlen (m : Mem UInt8) (p : Nat) : Option Nat := strlenIn m p (2 ^ 64 - p)

/-- The bytes of the NUL-terminated string at `p`, without the terminator. -/
def cstr (m : Mem UInt8) (p : Nat) : List UInt8 := m.load p ((m.strlen p).getD 0)

theorem NulTerminated.strlen {m : Mem UInt8} {p : Nat} (h : m.NulTerminated p) :
    ∃ n, m.strlen p = some n ∧ p + n < 2 ^ 64 ∧ m (p + n) = 0 ∧ ∀ i < n, m (p + i) ≠ 0 := by
  classical
  have hex : ∃ n, m (p + n) = 0 := h.imp fun _ hn => hn.2
  obtain ⟨k, hk, hk0⟩ := h
  have hle : Nat.find hex ≤ k := Nat.find_min' hex hk0
  refine ⟨Nat.find hex, strlenIn_eq m _ _ p (by omega) (Nat.find_spec hex) ?_, by omega,
    Nat.find_spec hex, ?_⟩ <;> exact fun i hi => Nat.find_min hex hi

/-- The string of a NUL-terminated address: its bytes, its length and its terminator. -/
theorem NulTerminated.cstr {m : Mem UInt8} {p : Nat} (h : m.NulTerminated p) :
    m.strlen p = some (m.cstr p).length ∧ 0 ∉ m.cstr p ∧
      m.load p ((m.cstr p).length + 1) = m.cstr p ++ [0] := by
  obtain ⟨n, hn, -, h0, hne⟩ := h.strlen
  have hc : m.cstr p = m.load p n := by rw [Mem.cstr, hn, Option.getD_some]
  have hl : (m.cstr p).length = n := by rw [hc, length_load]
  refine ⟨by rw [hl]; exact hn, ?_, ?_⟩
  · rw [hc]
    intro hm
    obtain ⟨i, hi, he⟩ := List.getElem_of_mem hm
    rw [length_load] at hi
    exact hne i hi (by simpa [load] using he)
  · rw [hl, hc]
    simp [load, List.range_succ, h0]

theorem NulTerminated.holds {m : Mem UInt8} {p : Nat} (h : m.NulTerminated p) :
    m.Holds p (m.cstr p ++ [0]) := by
  rw [← h.cstr.2.2]
  exact holds_load m p _

/-- A string held in memory with its terminator is the string at that address. -/
theorem Holds.cstr_eq {m : Mem UInt8} {p : Nat} {s : List UInt8} (h : m.Holds p (s ++ [0]))
    (hs : 0 ∉ s) (hp : p + s.length < 2 ^ 64) : m.strlen p = some s.length ∧ m.cstr p = s := by
  have hlen : m.strlen p = some s.length := by
    refine strlenIn_eq m s.length _ p (by omega) ?_ ?_
    · have := h.right 0 (by simp)
      simpa using this
    · intro i hi he
      rw [h.left i hi] at he
      exact hs (he ▸ List.getElem_mem hi)
  exact ⟨hlen, by rw [cstr, hlen, Option.getD_some, h.left.load_eq]⟩

/-- A string stored in front of a zero byte is the string at its address. -/
theorem cstr_store (m : Mem UInt8) (p : Nat) {s : List UInt8} (hs : 0 ∉ s) (h0 : m (p + s.length) = 0)
    (hp : p + s.length < 2 ^ 64) : (m.store p s).NulTerminated p ∧ (m.store p s).cstr p = s := by
  have hend : m.store p s (p + s.length) = 0 := by rw [store_above _ _ (le_refl _), h0]
  refine ⟨⟨s.length, hp, hend⟩, (Holds.cstr_eq ?_ hs hp).2⟩
  rw [holds_append]
  exact ⟨holds_store m p s, (holds_replicate _ _ 1 _).2 fun i hi => by
    rw [show i = 0 by omega]; exact hend⟩

end Mem
