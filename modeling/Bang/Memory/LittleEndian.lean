/-
Little-endian numbers: the bytes of a number, the number a list of bytes stands for, the round
trip between the two at every width, and the fixed-width words of a byte memory.
-/
import Bang.Memory.Cells
import Mathlib.Tactic.Ring

namespace LittleEndian

/-! ## Bytes and numbers -/

/-- The `width` low bytes of `n`, least significant first. -/
def bytes : Nat → Nat → List UInt8
  | 0, _ => []
  | width + 1, n => UInt8.ofNat n :: bytes width (n / 256)

/-- The number whose bytes these are, least significant first. -/
def value : List UInt8 → Nat
  | [] => 0
  | b :: bs => b.toNat + 256 * value bs

@[simp] theorem length_bytes (width n : Nat) : (bytes width n).length = width := by
  induction width generalizing n with
  | zero => rfl
  | succ width ih => simp [bytes, ih]

/-- Reading back the low bytes of a number gives the number modulo `256 ^ width`. -/
theorem value_bytes (width n : Nat) : value (bytes width n) = n % 256 ^ width := by
  induction width generalizing n with
  | zero => simp [bytes, value, Nat.mod_one]
  | succ width ih =>
    have hb : (UInt8.ofNat n).toNat = n % 256 := rfl
    rw [bytes, value, ih, hb, pow_succ', Nat.mod_mul]

theorem value_bytes_of_lt {width n : Nat} (h : n < 256 ^ width) : value (bytes width n) = n := by
  rw [value_bytes, Nat.mod_eq_of_lt h]

@[simp] theorem bytes_zero (width : Nat) : bytes width 0 = List.replicate width 0 := by
  induction width with
  | zero => rfl
  | succ width ih => rw [bytes, Nat.zero_div, ih]; rfl

/-! ## Words -/

/-- The two bytes of a 16-bit word. -/
def u16 (x : UInt16) : List UInt8 := bytes 2 x.toNat
/-- The four bytes of a 32-bit word. -/
def u32 (x : UInt32) : List UInt8 := bytes 4 x.toNat
/-- The eight bytes of a 64-bit word. -/
def u64 (x : UInt64) : List UInt8 := bytes 8 x.toNat

@[simp] theorem length_u16 (x : UInt16) : (u16 x).length = 2 := length_bytes ..
@[simp] theorem length_u32 (x : UInt32) : (u32 x).length = 4 := length_bytes ..
@[simp] theorem length_u64 (x : UInt64) : (u64 x).length = 8 := length_bytes ..

/-- The 16-bit word of two bytes. -/
def word16 (bs : List UInt8) : UInt16 := UInt16.ofNat (value bs)
/-- The 32-bit word of four bytes. -/
def word32 (bs : List UInt8) : UInt32 := UInt32.ofNat (value bs)
/-- The 64-bit word of eight bytes. -/
def word64 (bs : List UInt8) : UInt64 := UInt64.ofNat (value bs)

@[simp] theorem word16_u16 (x : UInt16) : word16 (u16 x) = x := by
  rw [word16, u16, value_bytes_of_lt (show x.toNat < 256 ^ 2 from x.toNat_lt), UInt16.ofNat_toNat]

@[simp] theorem word32_u32 (x : UInt32) : word32 (u32 x) = x := by
  rw [word32, u32, value_bytes_of_lt (show x.toNat < 256 ^ 4 from x.toNat_lt), UInt32.ofNat_toNat]

@[simp] theorem word64_u64 (x : UInt64) : word64 (u64 x) = x := by
  rw [word64, u64, value_bytes_of_lt (show x.toNat < 256 ^ 8 from x.toNat_lt), UInt64.ofNat_toNat]

@[simp] theorem u32_zero : u32 0 = List.replicate 4 0 := bytes_zero 4

/-! ## Fields of a byte list -/

/-- The 16-bit word at offset `o`. -/
def at16 (bs : List UInt8) (o : Nat) : UInt16 := word16 ((bs.drop o).take 2)
/-- The 32-bit word at offset `o`. -/
def at32 (bs : List UInt8) (o : Nat) : UInt32 := word32 ((bs.drop o).take 4)
/-- The 64-bit word at offset `o`. -/
def at64 (bs : List UInt8) (o : Nat) : UInt64 := word64 ((bs.drop o).take 8)

@[simp] theorem at16_u16 (x : UInt16) (bs : List UInt8) : at16 (u16 x ++ bs) 0 = x := by
  rw [at16, List.drop_zero, List.take_left' (length_u16 x), word16_u16]

@[simp] theorem at32_u32 (x : UInt32) (bs : List UInt8) : at32 (u32 x ++ bs) 0 = x := by
  rw [at32, List.drop_zero, List.take_left' (length_u32 x), word32_u32]

@[simp] theorem at64_u64 (x : UInt64) (bs : List UInt8) : at64 (u64 x ++ bs) 0 = x := by
  rw [at64, List.drop_zero, List.take_left' (length_u64 x), word64_u64]

theorem drop_skip (xs bs : List UInt8) {k : Nat} (n : Nat) (h : xs.length = k) :
    (xs ++ bs).drop (n + k) = bs.drop n := by
  rw [List.drop_append, List.drop_eq_nil_of_le (by omega), List.nil_append]
  congr 1; omega

@[simp] theorem drop_u32 (x : UInt32) (bs : List UInt8) (n : Nat) :
    (u32 x ++ bs).drop (n + 4) = bs.drop n := drop_skip _ _ n (length_u32 x)

@[simp] theorem drop_u64 (x : UInt64) (bs : List UInt8) (n : Nat) :
    (u64 x ++ bs).drop (n + 8) = bs.drop n := drop_skip _ _ n (length_u64 x)

@[simp] theorem at32_skip_u32 (x : UInt32) (bs : List UInt8) (n : Nat) :
    at32 (u32 x ++ bs) (n + 4) = at32 bs n := by rw [at32, drop_u32, ← at32]

@[simp] theorem at32_skip_u64 (x : UInt64) (bs : List UInt8) (n : Nat) :
    at32 (u64 x ++ bs) (n + 8) = at32 bs n := by rw [at32, drop_u64, ← at32]

@[simp] theorem at64_skip_u64 (x : UInt64) (bs : List UInt8) (n : Nat) :
    at64 (u64 x ++ bs) (n + 8) = at64 bs n := by rw [at64, drop_u64, ← at64]

end LittleEndian

namespace Mem

open LittleEndian

/-! ## Words of a memory -/

/-- The 32-bit word at address `a`. -/
def read32 (m : Mem UInt8) (a : Nat) : UInt32 := word32 (m.load a 4)
/-- The 64-bit word at address `a`. -/
def read64 (m : Mem UInt8) (a : Nat) : UInt64 := word64 (m.load a 8)

theorem Holds.read32_eq {m : Mem UInt8} {a : Nat} {x : UInt32} (h : m.Holds a (u32 x)) :
    m.read32 a = x := by
  have := h.load_eq
  rw [length_u32] at this
  rw [read32, this, word32_u32]

theorem Holds.read64_eq {m : Mem UInt8} {a : Nat} {x : UInt64} (h : m.Holds a (u64 x)) :
    m.read64 a = x := by
  have := h.load_eq
  rw [length_u64] at this
  rw [read64, this, word64_u64]

/-- A held list that opens with a word: the word, and what is held behind it. -/
theorem Holds.uncons32 {m : Mem UInt8} {a : Nat} {x : UInt32} {bs : List UInt8}
    (h : m.Holds a (u32 x ++ bs)) : m.read32 a = x ∧ m.Holds (a + 4) bs := by
  have hr := h.right
  rw [length_u32] at hr
  exact ⟨h.left.read32_eq, hr⟩

theorem Holds.uncons64 {m : Mem UInt8} {a : Nat} {x : UInt64} {bs : List UInt8}
    (h : m.Holds a (u64 x ++ bs)) : m.read64 a = x ∧ m.Holds (a + 8) bs := by
  have hr := h.right
  rw [length_u64] at hr
  exact ⟨h.left.read64_eq, hr⟩

end Mem
