/-
What both Multiboot information builders read and write: the memory map as the firmware leaves
it, the loaded modules, the framebuffer, the copy of the ACPI root pointer, the reserved memory
the structure goes to, and stores into that memory (`src/multiboot.rs`, `src/modules.rs`,
`src/gop.rs`).
-/
import Bang.Memory.LittleEndian
import Bang.Memory.CString

namespace Bang

open LittleEndian

/-! ## The firmware's memory map -/

/-- A UEFI memory type: a number the firmware may extend with its own. -/
structure MemoryType where
  val : UInt32
  deriving DecidableEq, Repr

namespace MemoryType

def loaderCode : MemoryType := ⟨1⟩
def loaderData : MemoryType := ⟨2⟩
def bootServicesCode : MemoryType := ⟨3⟩
def bootServicesData : MemoryType := ⟨4⟩
def conventional : MemoryType := ⟨7⟩
def acpiReclaim : MemoryType := ⟨9⟩
def acpiNonVolatile : MemoryType := ⟨10⟩

end MemoryType

/-- One entry of the memory map: `page_count` pages of 4096 bytes from `phys_start`. -/
structure MemoryDescriptor where
  ty : MemoryType
  physStart : UInt64
  pageCount : UInt64
  deriving DecidableEq, Repr

/-- Convert EFI memory type to Multiboot memory type. -/
def efiMemtypeToMb (t : MemoryType) : UInt32 :=
  if t = .conventional ∨ t = .loaderCode ∨ t = .loaderData ∨ t = .bootServicesCode ∨
      t = .bootServicesData then 1 -- available
  else if t = .acpiReclaim then 3
  else if t = .acpiNonVolatile then 4
  else 2 -- reserved

/-! ## What the kernel is told about -/

/-- A loaded boot module: the address of its NUL-terminated name and where its data lies. -/
structure ModuleInfo where
  namePtr : UInt64
  physStart : UInt64
  size : UInt64
  deriving DecidableEq, Repr

/-- The end of a module's data, in the wrapping arithmetic of the release build. -/
def ModuleInfo.physEnd (mi : ModuleInfo) : UInt64 := mi.physStart + mi.size

/-- The framebuffer, as the graphics protocol describes it. -/
structure FbInfo where
  addr : UInt64
  pitch : UInt32
  width : UInt32
  height : UInt32
  bpp : UInt8
  fbType : UInt8
  redPos : UInt8
  redSize : UInt8
  greenPos : UInt8
  greenSize : UInt8
  bluePos : UInt8
  blueSize : UInt8
  deriving DecidableEq, Repr

/-- Bytes of the first revision's ACPI root pointer. -/
def rsdpV1 : Nat := 20
/-- Bytes of the second revision's. -/
def rsdpV2 : Nat := 36

/-- A copy of the firmware's ACPI root pointer: a buffer of the longer form's size, of which the
first `len` bytes are the copy. -/
structure Rsdp where
  bytes : List UInt8
  len : Nat
  room : bytes.length = rsdpV2
  form : len = rsdpV1 ∨ len = rsdpV2

theorem Rsdp.len_le (r : Rsdp) : r.len ≤ r.bytes.length := by
  have := r.room
  rcases r.form with h | h <;> simp only [rsdpV1, rsdpV2] at * <;> omega

/-! ## The reserved memory -/

def infoPages : Nat := 4
/-- Bytes of the memory the information structure is written to. -/
def infoSize : Nat := infoPages * 4096

theorem infoSize_eq : infoSize = 16384 := rfl

/-- Maximum number of modules a Multiboot1 structure holds. -/
def maxModules : Nat := 32

/-- Stores into the reserved memory at `out`; `none` is a store that leaves it. -/
def writeBytes (out : Nat) (m : Mem UInt8) (offset : Nat) (bs : List UInt8) : Option (Mem UInt8) :=
  Mem.storeIn out (out + infoSize) m (out + offset) bs

/-- Write a u32 at a byte offset (unaligned). -/
def writeU32 (out : Nat) (m : Mem UInt8) (offset : Nat) (val : UInt32) : Option (Mem UInt8) :=
  writeBytes out m offset (u32 val)

/-- Write a u64 at a byte offset (unaligned). -/
def writeU64 (out : Nat) (m : Mem UInt8) (offset : Nat) (val : UInt64) : Option (Mem UInt8) :=
  writeBytes out m offset (u64 val)

/-- Two stores one right after the other are one store. -/
theorem writeBytes_bind {β : Type} (out : Nat) (m : Mem UInt8) (o o' : Nat) (xs ys : List UInt8)
    (k : Mem UInt8 → Option β) (h : o' = o + xs.length) :
    ((writeBytes out m o xs).bind fun m' => (writeBytes out m' o' ys).bind k) =
      (writeBytes out m o (xs ++ ys)).bind k := by
  unfold writeBytes
  exact Mem.storeIn_bind_bind _ _ _ _ _ _ _ _ (by omega)

end Bang
