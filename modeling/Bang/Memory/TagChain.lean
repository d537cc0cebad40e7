/-
Chains of tagged records in a byte memory: every record opens with a 32-bit type and a 32-bit
size that counts itself and the eight bytes of the opening, and the next record starts at the
size rounded up to the alignment `k`. A reader of such a chain, the search for its terminating
record, and their meaning on the encoding of a list of records.
-/
import Bang.Memory.LittleEndian

namespace TagChain

open LittleEndian

/-! ## Alignment -/

/-- `n` rounded up to a multiple of `k`. -/
def alignUp (k n : Nat) : Nat := n + (k - n % k) % k

theorem le_alignUp (k n : Nat) : n ≤ alignUp k n := Nat.le_add_right ..

theorem alignUp_eight (n : Nat) : alignUp 8 n = (n + 7) / 8 * 8 := by unfold alignUp; omega

/-! ## Records -/

/-- A record: its type and what follows its opening. -/
structure Tag where
  type : UInt32
  payload : List UInt8
  deriving DecidableEq

/-- The size a record states: its opening and its payload. -/
def Tag.size (t : Tag) : Nat := 8 + t.payload.length

/-- A record as bytes. -/
def Tag.bytes (t : Tag) : List UInt8 := u32 t.type ++ (u32 (UInt32.ofNat t.size) ++ t.payload)

/-- A record as bytes, with the clear bytes up to the next one. -/
def Tag.padded (k : Nat) (t : Tag) : List UInt8 :=
  t.bytes ++ List.replicate (alignUp k t.size - t.size) 0

/-- A list of records as bytes. -/
def encode (k : Nat) (ts : List Tag) : List UInt8 := (ts.map (Tag.padded k)).flatten

@[simp] theorem Tag.length_bytes (t : Tag) : t.bytes.length = t.size := by
  simp [Tag.bytes, Tag.size]; omega

@[simp] theorem Tag.length_padded (k : Nat) (t : Tag) : (t.padded k).length = alignUp k t.size := by
  have := le_alignUp k t.size
  simp [Tag.padded]; omega

@[simp] theorem encode_nil (k : Nat) : encode k [] = [] := rfl

@[simp] theorem encode_cons (k : Nat) (t : Tag) (ts : List Tag) :
    encode k (t :: ts) = t.padded k ++ encode k ts := rfl

@[simp] theorem encode_append (k : Nat) (ts us : List Tag) :
    encode k (ts ++ us) = encode k ts ++ encode k us := by
  simp [encode]

/-- The two words a record opens with, and its payload, where a memory holds it. -/
theorem read_opening {m : Mem UInt8} {a k : Nat} {t : Tag} {rest : List UInt8}
    (h : m.Holds a (t.padded k ++ rest)) (hs : t.size < 2 ^ 32) :
    m.read32 a = t.type ∧ (m.read32 (a + 4)).toNat = t.size ∧
      m.load (a + 8) (t.size - 8) = t.payload := by
  have hb : m.Holds a (u32 t.type ++ (u32 (UInt32.ofNat t.size) ++ t.payload)) := h.left.left
  have h4 : m.Holds (a + 4) (u32 (UInt32.ofNat t.size) ++ t.payload) := by
    simpa using hb.right
  have h8 : m.Holds (a + 8) t.payload := by
    simpa [Nat.add_assoc] using h4.right
  refine ⟨hb.left.read32_eq, ?_, ?_⟩
  · rw [h4.left.read32_eq]
    exact UInt32.toNat_ofNat_of_lt' hs
  · have : t.size - 8 = t.payload.length := by simp [Tag.size]
    rw [this]; exact h8.load_eq

/-! ## Reading a chain -/

/-- The records from offset `pos` up to offset `stop` of the memory at `base`; `none` when one
states a size too small for its opening or reaches past `stop`. -/
def read (k : Nat) (m : Mem UInt8) (base stop pos : Nat) : Option (List Tag) :=
  if pos < stop then
    let size := (m.read32 (base + pos + 4)).toNat
    if 8 ≤ size ∧ pos + size ≤ stop then
      (read k m base stop (pos + alignUp k size)).map
        (⟨m.read32 (base + pos), m.load (base + pos + 8) (size - 8)⟩ :: ·)
    else none
  else some []
termination_by stop - pos
decreasing_by have := le_alignUp k (m.read32 (base + pos + 4)).toNat; omega

/-- Reading back an encoded chain gives its records, in order and nothing else. -/
theorem read_encode (k : Nat) (m : Mem UInt8) (base : Nat) (ts : List Tag) (hs : ∀ t ∈ ts, t.size < 2 ^ 32) :
    ∀ pos, m.Holds (base + pos) (encode k ts) →
      read k m base (pos + (encode k ts).length) pos = some ts := by
  induction ts with
  | nil =>
    intro pos _
    rw [read, if_neg (by simp)]
  | cons t ts ih =>
    intro pos h
    rw [encode_cons] at h
    obtain ⟨h1, h2, h3⟩ := read_opening h (hs t (List.mem_cons_self ..))
    have hle := le_alignUp k t.size
    have h8 : 8 ≤ t.size := Nat.le_add_right ..
    have htail : m.Holds (base + (pos + alignUp k t.size)) (encode k ts) := by
      simpa [Nat.add_assoc] using h.right
    have hrec := ih (fun u hu => hs u (List.mem_cons_of_mem _ hu)) _ htail
    have hstop : pos + (encode k (t :: ts)).length =
        pos + alignUp k t.size + (encode k ts).length := by simp; omega
    rw [read, hstop, if_pos (by omega)]
    simp only [h1, h2, h3]
    rw [if_pos ⟨h8, by omega⟩, hrec]
    rfl

/-! ## The terminating record -/

/-- The offset of the first record of type `last`, walking from `pos` inside the first `stop`
bytes of the memory at `base`; `none` when the walk leaves them or cannot advance. -/
def findLast (k : Nat) (last : UInt32) (m : Mem UInt8) (base stop pos : Nat) : Option Nat :=
  if pos + 8 ≤ stop then
    if m.read32 (base + pos) = last then some pos
    else
      let size := (m.read32 (base + pos + 4)).toNat
      if 8 ≤ size then findLast k last m base stop (pos + alignUp k size) else none
  else none
termination_by stop - pos
decreasing_by have := le_alignUp k (m.read32 (base + pos + 4)).toNat; omega

/-- The walk passes over records of other types. -/
theorem findLast_skip (k : Nat) (last : UInt32) (m : Mem UInt8) (base stop : Nat) (ts : List Tag)
    (hs : ∀ t ∈ ts, t.size < 2 ^ 32 ∧ t.type ≠ last) :
    ∀ pos, m.Holds (base + pos) (encode k ts) → pos + (encode k ts).length ≤ stop →
      findLast k last m base stop pos = findLast k last m base stop (pos + (encode k ts).length) := by
  induction ts with
  | nil => intro pos _ _; simp
  | cons t ts ih =>
    intro pos h hstop
    rw [encode_cons] at h
    obtain ⟨ht, hne⟩ := hs t (List.mem_cons_self ..)
    obtain ⟨h1, h2, -⟩ := read_opening h ht
    have hle := le_alignUp k t.size
    have h8 : 8 ≤ t.size := Nat.le_add_right ..
    have hlen : (encode k (t :: ts)).length = alignUp k t.size + (encode k ts).length := by simp
    have htail : m.Holds (base + (pos + alignUp k t.size)) (encode k ts) := by
      simpa [Nat.add_assoc] using h.right
    have hrec := ih (fun u hu => hs u (List.mem_cons_of_mem _ hu)) _ htail (by omega)
    rw [findLast, if_pos (by omega), h1, if_neg hne]
    simp only [h2]
    rw [if_pos h8, hrec, hlen, Nat.add_assoc]

theorem findLast_found {k : Nat} {last : UInt32} {m : Mem UInt8} {base stop pos : Nat}
    (h : m.read32 (base + pos) = last) (hp : pos + 8 ≤ stop) :
    findLast k last m base stop pos = some pos := by
  rw [findLast, if_pos hp, if_pos h]

theorem findLast_outside {k : Nat} {last : UInt32} {m : Mem UInt8} {base stop pos : Nat}
    (hp : stop < pos + 8) : findLast k last m base stop pos = none := by
  rw [findLast, if_neg (by omega)]

end TagChain
