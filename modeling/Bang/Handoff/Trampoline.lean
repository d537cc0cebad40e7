/-
The two ways into a kernel: the trampoline to 32-bit protected mode (`src/trampoline.rs`), which
runs from a copy of itself at a fixed address, and the direct 64-bit handoff (`src/handoff.rs`).
-/
import Bang.Memory.LittleEndian

namespace Bang

open LittleEndian

/-! ## The trampoline blob -/

def trampAddr : Nat := 0x1000
def slotEntry : Nat := trampAddr + 0x02
def slotMbi : Nat := trampAddr + 0x06
def slotMagic : Nat := trampAddr + 0x0A

/-- The blob as it is linked, between `_tramp_start` and `_tramp_end`: its bytes, and the offsets
of `_gdt` and `_gdt_ptr_base` in it. The data slots come first, the base of the GDT pointer last. -/
structure Blob where
  bytes : List UInt8
  gdt : Nat
  gdtPtrBase : Nat
  slots : 0x0E ≤ gdtPtrBase
  base : gdtPtrBase + 8 = bytes.length

/-! ## Entering a kernel -/

/-- The machine at the first instruction of a kernel: the mode it is in, the address it runs from,
the two registers a kernel is handed something in, and the memory. -/
inductive Entered
  | protected32 (eip eax ebx : UInt32) (memory : Mem UInt8)
  | long64 (rip rdi rsi : UInt64) (memory : Mem UInt8)

/-- The memory at the first instruction. -/
def Entered.memory : Entered → Mem UInt8
  | .protected32 _ _ _ m => m
  | .long64 _ _ _ m => m

/-- The stores of `boot_jump_to_kernel`: the blob, the kernel's parameters in its data slots, and
the base of the GDT in the copy. -/
def copyTrampoline (blob : Blob) (entry mbiAddr magic : UInt32) (m : Mem UInt8) : Mem UInt8 :=
  let m := m.store trampAddr blob.bytes
  let m := m.store slotEntry (u32 entry)
  let m := m.store slotMbi (u32 mbiAddr)
  let m := m.store slotMagic (u32 magic)
  m.store (trampAddr + blob.gdtPtrBase) (u64 (UInt64.ofNat (trampAddr + blob.gdt)))

/-- Jump to a 32-bit kernel via the trampoline, which loads the kernel's parameters from the data
slots of the copy. -/
def bootJumpToKernel (blob : Blob) (entry mbiAddr magic : UInt32) (m : Mem UInt8) : Entered :=
  let m := copyTrampoline blob entry mbiAddr magic m
  let eax := m.read32 slotMagic
  let ebx := m.read32 slotMbi
  let ecx := m.read32 slotEntry
  .protected32 ecx eax ebx m

/-- Magic value passed in RDI to identify a Bang direct handoff. -/
def bangHandoffMagic : UInt64 := 0x42414E47

/-- Jump directly to a 64-bit kernel entry point. -/
def bootHandoff64 (entry bootInfoPtr : UInt64) (m : Mem UInt8) : Entered :=
  .long64 entry bangHandoffMagic bootInfoPtr m

/-! ## What the trampoline does -/

/-- The trampoline writes where its copy is and nowhere else. -/
theorem copyTrampoline_sameOutside (blob : Blob) (entry mbiAddr magic : UInt32) (m : Mem UInt8) :
    m.SameOutside (copyTrampoline blob entry mbiAddr magic m) trampAddr (trampAddr + blob.bytes.length) := by
  have hslots := blob.slots
  have hbase := blob.base
  unfold copyTrampoline slotEntry slotMbi slotMagic
  refine ((((Mem.sameOutside_store m trampAddr blob.bytes).store ?_ ?_).store ?_ ?_).store ?_ ?_).store ?_ ?_
  all_goals
    try rw [length_u32]
    try rw [length_u64]
    omega

/-- The entry point is in its slot of the copy. -/
theorem copyTrampoline_entry (blob : Blob) (entry mbiAddr magic : UInt32) (m : Mem UInt8) :
    (copyTrampoline blob entry mbiAddr magic m).Holds slotEntry (u32 entry) := by
  have hslots := blob.slots
  unfold copyTrampoline slotEntry slotMbi slotMagic
  refine (((Mem.holds_store _ _ _).store _ _ ?_).store _ _ ?_).store _ _ ?_ <;>
    rw [length_u32] <;> omega

/-- The kernel is entered with the parameters the trampoline was called with. -/
theorem bootJumpToKernel_eq (blob : Blob) (entry mbiAddr magic : UInt32) (m : Mem UInt8) :
    bootJumpToKernel blob entry mbiAddr magic m =
      .protected32 entry magic mbiAddr (copyTrampoline blob entry mbiAddr magic m) := by
  have hslots := blob.slots
  have hentry := copyTrampoline_entry blob entry mbiAddr magic m
  have hmbi : (copyTrampoline blob entry mbiAddr magic m).Holds slotMbi (u32 mbiAddr) := by
    unfold copyTrampoline slotEntry slotMbi slotMagic
    refine ((Mem.holds_store _ _ _).store _ _ ?_).store _ _ ?_ <;> rw [length_u32] <;> omega
  have hmagic : (copyTrampoline blob entry mbiAddr magic m).Holds slotMagic (u32 magic) := by
    unfold copyTrampoline slotEntry slotMbi slotMagic
    refine (Mem.holds_store _ _ _).store _ _ ?_
    rw [length_u32]; omega
  unfold bootJumpToKernel
  simp only [hentry.read32_eq, hmbi.read32_eq, hmagic.read32_eq]

end Bang
