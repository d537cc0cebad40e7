/-
The Multiboot2 information builder (`build_mb2_info` of `src/multiboot.rs`), one definition for
each of the parts that share its cursor. The modules' names are read from the program's own
memory `names`, which is not the reserved memory the structure is written to.
-/
import Bang.Multiboot.Info

namespace Bang

open LittleEndian

/-! ## Constants -/

def mb2TagTypeEnd : UInt32 := 0
def mb2TagTypeModule : UInt32 := 3
def mb2TagTypeMmap : UInt32 := 6
def mb2TagTypeFramebuffer : UInt32 := 8
def mb2TagTypeAcpiOld : UInt32 := 14
def mb2TagTypeAcpiNew : UInt32 := 15

/-- `size_of::<Mb2MmapEntry>()`. -/
def mb2MmapEntrySize : Nat := 24

/-- `(pos + 7) & !7`. -/
def align8 (pos : Nat) : Nat := (pos + 7) / 8 * 8

/-! ## The parts -/

/-- The loop over the memory map: one 24-byte entry for each descriptor, until one has no room. -/
def mb2MmapEntries (out : Nat) : List MemoryDescriptor → Mem UInt8 → Nat → Option (Mem UInt8 × Nat)
  | [], m, pos => some (m, pos)
  | desc :: descs, m, pos =>
    if pos + mb2MmapEntrySize > infoSize then some (m, pos)
    else do
      let m ← writeU64 out m pos desc.physStart
      let m ← writeU64 out m (pos + 8) (desc.pageCount * 4096)
      let m ← writeU32 out m (pos + 16) (efiMemtypeToMb desc.ty)
      let m ← writeU32 out m (pos + 20) 0 -- reserved
      mb2MmapEntries out descs m (pos + mb2MmapEntrySize)

/-- The memory map tag, its size filled in once the entries are written. -/
def mb2MmapTag (out : Nat) (map : List MemoryDescriptor) (m : Mem UInt8) (pos : Nat) :
    Option (Mem UInt8 × Nat) := do
  let mmapTagStart := pos
  let m ← writeU32 out m pos mb2TagTypeMmap
  let tagSizeOffset := pos + 4
  let m ← writeU32 out m (pos + 8) (UInt32.ofNat mb2MmapEntrySize)
  let m ← writeU32 out m (pos + 12) 0 -- entry_version
  let (m, pos) ← mb2MmapEntries out map m (pos + 16)
  let m ← writeU32 out m tagSizeOffset (UInt32.ofNat (pos - mmapTagStart))
  some (m, align8 pos)

/-- The module tags, one per loaded module, until one has no room. -/
def mb2ModuleTags (out : Nat) (names : Mem UInt8) :
    List ModuleInfo → Mem UInt8 → Nat → Option (Mem UInt8 × Nat)
  | [], m, pos => some (m, pos)
  | mi :: mods, m, pos => do
    let nameAddr := mi.namePtr.toNat
    let nameLen ← names.strlen nameAddr
    let tagSize := 4 + 4 + 4 + 4 + nameLen + 1
    if pos + tagSize > infoSize then some (m, pos)
    else do
      let m ← writeU32 out m pos mb2TagTypeModule
      let m ← writeU32 out m (pos + 4) (UInt32.ofNat tagSize)
      let m ← writeU32 out m (pos + 8) mi.physStart.toUInt32
      let m ← writeU32 out m (pos + 12) mi.physEnd.toUInt32
      let m ← writeBytes out m (pos + 16) (names.load nameAddr (nameLen + 1))
      mb2ModuleTags out names mods m (align8 (pos + tagSize))

/-- The framebuffer tag; the cursor is aligned whether or not the tag fits. -/
def mb2FramebufferTag (out : Nat) : Option FbInfo → Mem UInt8 → Nat → Option (Mem UInt8 × Nat)
  | none, m, pos => some (m, pos)
  | some fb, m, pos =>
    let fbTagSize := 37
    if pos + fbTagSize ≤ infoSize then do
      let m ← writeU32 out m (pos + 0x00) mb2TagTypeFramebuffer
      let m ← writeU32 out m (pos + 0x04) (UInt32.ofNat fbTagSize)
      let m ← writeU64 out m (pos + 0x08) fb.addr
      let m ← writeU32 out m (pos + 0x10) fb.pitch
      let m ← writeU32 out m (pos + 0x14) fb.width
      let m ← writeU32 out m (pos + 0x18) fb.height
      let m ← writeBytes out m (pos + 0x1C) [fb.bpp]
      let m ← writeBytes out m (pos + 0x1D) [fb.fbType]
      let m ← writeBytes out m (pos + 0x1E) [0] -- reserved
      let m ← writeBytes out m (pos + 0x1F) [fb.redPos]
      let m ← writeBytes out m (pos + 0x20) [fb.redSize]
      let m ← writeBytes out m (pos + 0x21) [fb.greenPos]
      let m ← writeBytes out m (pos + 0x22) [fb.greenSize]
      let m ← writeBytes out m (pos + 0x23) [fb.bluePos]
      let m ← writeBytes out m (pos + 0x24) [fb.blueSize]
      some (m, align8 (pos + fbTagSize))
    else some (m, align8 pos)

/-- The ACPI root pointer tag, which alone leaves room for the terminating tag behind it. -/
def mb2RsdpTag (out : Nat) : Option Rsdp → Mem UInt8 → Nat → Option (Mem UInt8 × Nat)
  | none, m, pos => some (m, pos)
  | some rsdp, m, pos =>
    let tagSize := 8 + rsdp.len
    if pos + tagSize + 8 ≤ infoSize then do
      let kind := if rsdp.len = rsdpV2 then mb2TagTypeAcpiNew else mb2TagTypeAcpiOld
      let m ← writeU32 out m pos kind
      let m ← writeU32 out m (pos + 4) (UInt32.ofNat tagSize)
      let m ← writeBytes out m (pos + 8) (rsdp.bytes.take rsdp.len)
      some (m, align8 (pos + tagSize))
    else some (m, pos)

/-- The terminating tag, if there is room for it. -/
def mb2EndTag (out : Nat) (m : Mem UInt8) (pos : Nat) : Option (Mem UInt8 × Nat) :=
  if pos + 8 ≤ infoSize then do
    let m ← writeU32 out m pos mb2TagTypeEnd
    let m ← writeU32 out m (pos + 4) 8
    some (m, pos + 8)
  else some (m, pos)

/-! ## The builder -/

/-- Build Multiboot2 boot info in the reserved memory at `out`; the memory it leaves and the
address the kernel is handed. -/
def buildMb2Info (out : Nat) (names : Mem UInt8) (map : List MemoryDescriptor) (fb : Option FbInfo)
    (modules : List ModuleInfo) (rsdp : Option Rsdp) (m : Mem UInt8) : Option (Mem UInt8 × UInt32) := do
  let m ← writeBytes out m 0 (List.replicate infoSize 0)
  let (m, pos) ← mb2MmapTag out map m 8
  let (m, pos) ← mb2ModuleTags out names modules m pos
  let (m, pos) ← mb2FramebufferTag out fb m pos
  let (m, pos) ← mb2RsdpTag out rsdp m pos
  let (m, pos) ← mb2EndTag out m pos
  let m ← writeU32 out m 0 (UInt32.ofNat pos) -- total_size
  let m ← writeU32 out m 4 0 -- reserved
  some (m, UInt32.ofNat out)

end Bang
