/-
What the kernel loader reads of a kernel file (`src/elf.rs`): the two ELF classes, which differ in
the sizes of their headers and the places of their fields only, and the search for a Multiboot
header. Every read is checked against the file; `outOfRange` is a read that leaves it.
-/
import Bang.Memory.LittleEndian

namespace Bang

open LittleEndian

/-! ## The file -/

/-- A buffer on the heap, as long as an allocation may be. -/
structure Buffer where
  data : List UInt8
  fits : data.length < 2 ^ 63

/-- Why the loader does not return: an assertion of its own, or a read outside the file. -/
inductive Stop
  | panic (message : String)
  | outOfRange
  deriving DecidableEq, Repr

namespace Buffer

def size (file : Buffer) : Nat := file.data.length

/-- The `n` bytes at offset `off`. -/
def read (file : Buffer) (off n : Nat) : Except Stop (List UInt8) :=
  if off + n ≤ file.size then .ok ((file.data.drop off).take n) else .error .outOfRange

/-- `u32::from_le_bytes(file_buf[off..off + 4])`. -/
def u32 (file : Buffer) (off : Nat) : Except Stop UInt32 := (file.read off 4).map word32

theorem read_eq {file : Buffer} {off n : Nat} (h : off + n ≤ file.size) :
    file.read off n = .ok ((file.data.drop off).take n) :=
  if_pos h

end Buffer

/-- `assert!(condition, message)`. -/
def assert (condition : Bool) (message : String) : Except Stop Unit :=
  if condition then .ok () else .error (.panic message)

/-! ## Headers -/

/-- The fields of a file header the loader and its table description use. -/
structure Ehdr where
  eType : UInt16
  eMachine : UInt16
  eEntry : UInt64
  ePhoff : UInt64
  ePhentsize : UInt16
  ePhnum : UInt16
  deriving DecidableEq, Repr

/-- The fields of a program header the loader uses. -/
structure Phdr where
  pType : UInt32
  pOffset : UInt64
  pPaddr : UInt64
  pFilesz : UInt64
  pMemsz : UInt64
  deriving DecidableEq, Repr

def etExec : UInt16 := 2
def em386 : UInt16 := 3
def emX8664 : UInt16 := 62
def ptLoad : UInt32 := 1
def eiNident : Nat := 16
def elfClass32 : UInt8 := 1
def elfClass64 : UInt8 := 2

/-- What the two classes differ in: the sizes of their headers, the places of the fields, the
machine an executable is for, and the words of two assertions. -/
structure ElfClass where
  ehdrSize : Nat
  ehdr : List UInt8 → Ehdr
  phdrSize : Nat
  phdr : List UInt8 → Phdr
  machine : UInt16
  truncated : String
  notExecutable : String

/-- `Elf32Ehdr` and `Elf32Phdr`: addresses and offsets are 32-bit fields. -/
def elf32 : ElfClass where
  ehdrSize := 52
  ehdr bs :=
    { eType := at16 bs 16
      eMachine := at16 bs 18
      eEntry := (at32 bs 24).toUInt64
      ePhoff := (at32 bs 28).toUInt64
      ePhentsize := at16 bs 42
      ePhnum := at16 bs 44 }
  phdrSize := 32
  phdr bs :=
    { pType := at32 bs 0
      pOffset := (at32 bs 4).toUInt64
      pPaddr := (at32 bs 12).toUInt64
      pFilesz := (at32 bs 16).toUInt64
      pMemsz := (at32 bs 20).toUInt64 }
  machine := em386
  truncated := "ELF32 header truncated"
  notExecutable := "Not an i386 ELF executable"

/-- `Elf64Ehdr` and `Elf64Phdr`. -/
def elf64 : ElfClass where
  ehdrSize := 64
  ehdr bs :=
    { eType := at16 bs 16
      eMachine := at16 bs 18
      eEntry := at64 bs 24
      ePhoff := at64 bs 32
      ePhentsize := at16 bs 54
      ePhnum := at16 bs 56 }
  phdrSize := 56
  phdr bs :=
    { pType := at32 bs 0
      pOffset := at64 bs 8
      pPaddr := at64 bs 24
      pFilesz := at64 bs 32
      pMemsz := at64 bs 40 }
  machine := emX8664
  truncated := "ELF64 header truncated"
  notExecutable := "Not an x86_64 ELF executable"

/-! ## Multiboot headers -/

def mb1HeaderMagic : UInt32 := 0x1BADB002
def mb2HeaderMagic : UInt32 := 0xE85250D6

/-- Whether a Multiboot2 header stands at `off`: the magic, and four words that sum to zero. -/
def mb2HeaderAt (file : Buffer) (off : Nat) : Except Stop Bool := do
  let magic ← file.u32 off
  if magic = mb2HeaderMagic then
    let arch ← file.u32 (off + 4)
    let hlen ← file.u32 (off + 8)
    let chksum ← file.u32 (off + 12)
    pure (magic + arch + hlen + chksum == 0)
  else pure false

/-- Whether a Multiboot1 header stands at `off`: the magic, and three words that sum to zero. -/
def mb1HeaderAt (file : Buffer) (off : Nat) : Except Stop Bool := do
  let magic ← file.u32 off
  if magic = mb1HeaderMagic then
    let flags ← file.u32 (off + 4)
    let chksum ← file.u32 (off + 8)
    pure (magic + flags + chksum == 0)
  else pure false

/-- The scan for a Multiboot2 header, every eight bytes. -/
def findMb2 (file : Buffer) (mb2Limit off : Nat) : Except Stop Bool :=
  if off + 16 ≤ mb2Limit then do
    if ← mb2HeaderAt file off then pure true else findMb2 file mb2Limit (off + 8)
  else pure false
termination_by mb2Limit - off
decreasing_by omega

/-- The scan for a Multiboot1 header, every four bytes. -/
def findMb1 (file : Buffer) (mb1Limit off : Nat) : Except Stop Bool :=
  if off + 12 ≤ mb1Limit then do
    if ← mb1HeaderAt file off then pure true else findMb1 file mb1Limit (off + 4)
  else pure false
termination_by mb1Limit - off
decreasing_by omega

/-- Scan raw ELF file for multiboot headers: 2 (MB2), 1 (MB1), or 0 (none). -/
def detectMultibootVersion (file : Buffer) : Except Stop UInt32 := do
  if ← findMb2 file (min file.size 32768) 0 then pure 2
  else if ← findMb1 file (min file.size 8192) 0 then pure 1
  else pure 0

end Bang
