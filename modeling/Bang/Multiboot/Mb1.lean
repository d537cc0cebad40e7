/-
The Multiboot1 information builder (`build_mb1_info` of `src/multiboot.rs`). The structure, the
module table, the copies of the modules' names and the memory map go to fixed places of the
reserved memory. As in the Multiboot2 builder, the names are read from the program's own memory.
-/
import Bang.Multiboot.Info

namespace Bang

open LittleEndian

/-! ## Constants -/

def mbInfoMemory : UInt32 := 0x00000001
def mbInfoMods : UInt32 := 0x00000008
def mbInfoMemMap : UInt32 := 0x00000040

/-- `size_of::<MultibootModule>()`. -/
def multibootModuleSize : Nat := 16
/-- `size_of::<MultibootMmapEntry>()`. -/
def multibootMmapEntrySize : Nat := 24

/-- Where each part of a Multiboot1 structure goes in the reserved memory. -/
def mb1ModulesAt : Nat := 64
def mb1NamesAt : Nat := mb1ModulesAt + maxModules * multibootModuleSize
def mb1NameMax : Nat := 64
def mb1MmapAt : Nat := mb1NamesAt + maxModules * mb1NameMax
def mb1MmapMax : Nat := (infoSize - mb1MmapAt) / multibootMmapEntrySize

/-! ## The packed structures -/

/-- Multiboot1 module entries (16 bytes each). -/
structure MultibootModule where
  modStart : UInt32
  modEnd : UInt32
  string : UInt32
  reserved : UInt32
  deriving DecidableEq, Repr

/-- The fields in declaration order, packed. -/
def MultibootModule.bytes (e : MultibootModule) : List UInt8 :=
  u32 e.modStart ++ (u32 e.modEnd ++ (u32 e.string ++ u32 e.reserved))

/-- The information structure itself; `syms` is four words. -/
structure MultibootInfo where
  flags : UInt32
  memLower : UInt32
  memUpper : UInt32
  bootDevice : UInt32
  cmdline : UInt32
  modsCount : UInt32
  modsAddr : UInt32
  syms : UInt32 × UInt32 × UInt32 × UInt32
  mmapLength : UInt32
  mmapAddr : UInt32
  deriving DecidableEq, Repr

def MultibootInfo.bytes (e : MultibootInfo) : List UInt8 :=
  u32 e.flags ++ (u32 e.memLower ++ (u32 e.memUpper ++ (u32 e.bootDevice ++ (u32 e.cmdline ++
    (u32 e.modsCount ++ (u32 e.modsAddr ++ (u32 e.syms.1 ++ (u32 e.syms.2.1 ++ (u32 e.syms.2.2.1 ++
      (u32 e.syms.2.2.2 ++ (u32 e.mmapLength ++ u32 e.mmapAddr)))))))))))

structure MultibootMmapEntry where
  size : UInt32
  baseAddr : UInt64
  length : UInt64
  entryType : UInt32
  deriving DecidableEq, Repr

def MultibootMmapEntry.bytes (e : MultibootMmapEntry) : List UInt8 :=
  u32 e.size ++ (u64 e.baseAddr ++ (u64 e.length ++ u32 e.entryType))

@[simp] theorem MultibootModule.length_bytes (e : MultibootModule) :
    e.bytes.length = multibootModuleSize := by simp [MultibootModule.bytes, multibootModuleSize]

@[simp] theorem MultibootInfo.length_bytes (e : MultibootInfo) : e.bytes.length = 52 := by
  simp [MultibootInfo.bytes]

@[simp] theorem MultibootMmapEntry.length_bytes (e : MultibootMmapEntry) :
    e.bytes.length = multibootMmapEntrySize := by
  simp [MultibootMmapEntry.bytes, multibootMmapEntrySize]

/-! ## The memory map -/

/-- What the loop over the memory map counts: kilobytes below and above one megabyte. -/
structure Mb1Sizes where
  memLower : UInt64
  memUpper : UInt64
  deriving DecidableEq, Repr

/-- One descriptor's part of the sizes. -/
def Mb1Sizes.count (s : Mb1Sizes) (desc : MemoryDescriptor) : Mb1Sizes :=
  let base := desc.physStart
  let length := desc.pageCount * 4096
  if efiMemtypeToMb desc.ty = 1 then
    if base < 0x100000 then { s with memLower := s.memLower + length / 1024 }
    else if base = 0x100000 ∨ (base > 0x100000 ∧ s.memUpper > 0) then
      { s with memUpper := s.memUpper + length / 1024 }
    else s
  else s

/-- The entry written for a descriptor. -/
def mb1Entry (desc : MemoryDescriptor) : MultibootMmapEntry where
  size := UInt32.ofNat (multibootMmapEntrySize - 4)
  baseAddr := desc.physStart
  length := desc.pageCount * 4096
  entryType := efiMemtypeToMb desc.ty

/-- The loop over the memory map: the memory, the number of entries written, and the sizes. -/
def mb1MmapEntries (out : Nat) :
    List MemoryDescriptor → Mem UInt8 → Nat → Mb1Sizes → Option (Mem UInt8 × Nat × Mb1Sizes)
  | [], m, mmapCount, s => some (m, mmapCount, s)
  | desc :: descs, m, mmapCount, s =>
    if mmapCount ≥ mb1MmapMax then some (m, mmapCount, s)
    else do
      let m ← writeBytes out m (mb1MmapAt + mmapCount * multibootMmapEntrySize) (mb1Entry desc).bytes
      mb1MmapEntries out descs m (mmapCount + 1) (s.count desc)

/-! ## The modules -/

/-- The loop that copies a name's bytes, up to its terminator or `fuel` of them. -/
def mb1CopyName (out : Nat) (names : Mem UInt8) (name src : Nat) :
    (fuel : Nat) → (len : Nat) → Mem UInt8 → Option (Mem UInt8)
  | 0, _, m => some m
  | fuel + 1, len, m =>
    if names (src + len) = 0 then some m
    else do
      let m ← writeBytes out m (name + len) [names (src + len)]
      mb1CopyName out names name src fuel (len + 1) m

/-- The entry written for module `i`. -/
def mb1Module (out : Nat) (i : Nat) (mi : ModuleInfo) : MultibootModule where
  modStart := mi.physStart.toUInt32
  modEnd := mi.physEnd.toUInt32
  string := UInt32.ofNat (out + (mb1NamesAt + i * mb1NameMax))
  reserved := 0

/-- The loop over the modules, of which the next is number `i`. -/
def mb1Modules (out : Nat) (names : Mem UInt8) : List ModuleInfo → Nat → Mem UInt8 → Option (Mem UInt8)
  | [], _, m => some m
  | mi :: mods, i, m => do
    let m ← mb1CopyName out names (mb1NamesAt + i * mb1NameMax) mi.namePtr.toNat (mb1NameMax - 1) 0 m
    let m ← writeBytes out m (mb1ModulesAt + i * multibootModuleSize) (mb1Module out i mi).bytes
    mb1Modules out names mods (i + 1) m

/-! ## The builder -/

/-- The structure, from what the loops counted. -/
def mb1Info (out modCount mmapCount : Nat) (s : Mb1Sizes) : MultibootInfo :=
  let memLower := if s.memLower > 640 then 640 else s.memLower
  let flags := mbInfoMemory ||| mbInfoMemMap
  { flags := if modCount > 0 then flags ||| mbInfoMods else flags
    memLower := memLower.toUInt32
    memUpper := s.memUpper.toUInt32
    bootDevice := 0
    cmdline := 0
    modsCount := UInt32.ofNat modCount
    modsAddr := if modCount > 0 then UInt32.ofNat (out + mb1ModulesAt) else 0
    syms := (0, 0, 0, 0)
    mmapLength := UInt32.ofNat (mmapCount * multibootMmapEntrySize)
    mmapAddr := UInt32.ofNat (out + mb1MmapAt) }

/-- Build Multiboot1 boot info in the reserved memory at `out`; the memory it leaves and the
address the kernel is handed. -/
def buildMb1Info (out : Nat) (names : Mem UInt8) (map : List MemoryDescriptor)
    (modules : List ModuleInfo) (m : Mem UInt8) : Option (Mem UInt8 × UInt32) := do
  let m ← writeBytes out m 0 (List.replicate infoSize 0)
  let (m, mmapCount, s) ← mb1MmapEntries out map m 0 ⟨0, 0⟩
  let modCount := min modules.length maxModules
  let m ← mb1Modules out names (modules.take modCount) 0 m
  let m ← writeBytes out m 0 (mb1Info out modCount mmapCount s).bytes
  some (m, UInt32.ofNat out)

end Bang
