/-
The machine code of the two ways into a kernel: `boot_jump_to_kernel` and the blob behind it
(`src/trampoline.rs`), and `boot_handoff_64` (`src/handoff.rs`). The encodings of the instructions are the
assembler's, as are the bytes it puts in front of an aligned label; an address in the code is relative to the
next instruction, so that it is known once the code behind it is assembled.
-/
import Bang.Handoff.Trampoline
import Bang.Machine.X86

namespace Bang

open LittleEndian X86

/-! ## The blob, which runs in 32-bit mode -/

/-- Selectors of the descriptors for code and data. -/
def codeSelector : UInt16 := 0x08
def dataSelector : UInt16 := 0x10

/-- Load 32-bit data segments. -/
def loadDataSegments : List Instr32 :=
  [.mov16 .eax dataSelector, .movSeg .ds .eax, .movSeg .es .eax, .movSeg .fs .eax, .movSeg .gs .eax, .movSeg .ss .eax]

/-- `_tramp_code`, up to the far jump. Long mode paging is still active. -/
def trampCode : List Instr32 :=
  loadDataSegments ++
  -- disable paging
  [.fromCr0 .eax, .andImm .eax 0x7FFFFFFF, .toCr0 .eax,
   -- flush TLB
   .xor .eax .eax, .toCr3 .eax,
   -- disable long mode
   .movImm .ecx 0xC0000080, .rdmsr, .andImm .eax 0xFFFFFEFF, .wrmsr,
   -- enable protected mode
   .fromCr0 .eax, .orImm .eax 1, .andImm .eax 0x7FFFFFFF, .toCr0 .eax]

/-- `_pm32`: pure 32-bit protected mode, up to the jump to the kernel and the loop behind it. -/
def pm32 : List Instr32 :=
  loadDataSegments ++
  [.movImm .esp 0x7C00, .load .eax (UInt32.ofNat slotMagic), .load .ebx (UInt32.ofNat slotMbi),
   .load .ecx (UInt32.ofNat slotEntry), .jmp .ecx, .hlt, .jmpShort 0xFD]

/-- `_gdt`: the null descriptor, and flat ones for 32-bit code and data. -/
def gdtBytes : List UInt8 :=
  u64 0 ++ [0xFF, 0xFF, 0x00, 0x00, 0x00, 0x9A, 0xCF, 0x00] ++ [0xFF, 0xFF, 0x00, 0x00, 0x00, 0x92, 0xCF, 0x00]

/-- `_gdt_ptr`: its limit, and eight bytes for its base. -/
def gdtPtrBytes : List UInt8 := bytes 2 (gdtBytes.length - 1) ++ u64 0

/-! ## What is in front of it, which runs in 64-bit mode -/

/-- The labels that code in front of the blob takes the address of. -/
inductive Label
  | trampStart | trampEnd | trampCode | gdt | gdtPtr | gdtPtrBase
  deriving DecidableEq, Repr

/-- An instruction, or the address of a label of the blob. -/
inductive Asm
  | instr (i : Instr64)
  | lea (dst : Reg) (label : Label)
  deriving DecidableEq, Repr

/-- `boot_jump_to_kernel`, up to the blob. -/
def bootJumpToKernelAsm : List Asm :=
  [.instr .cli,
   .instr (.mov32 .r10 .rcx), .instr (.mov32 .r11 .rdx),
   -- copy the blob
   .lea .rsi .trampStart, .lea .rcx .trampEnd, .instr (.sub .rcx .rsi),
   .instr (.movImm .rdi (UInt32.ofNat trampAddr)), .instr .repMovsb,
   -- write the kernel's parameters into its slots
   .instr (.store32 (UInt32.ofNat slotEntry) .r10), .instr (.store32 (UInt32.ofNat slotMbi) .r11),
   .instr (.store32 (UInt32.ofNat slotMagic) .r8),
   -- fix up the base of the GDT, and load it
   .lea .r12 .trampStart, .lea .rax .gdt, .instr (.sub .rax .r12), .instr (.addImm .rax (UInt32.ofNat trampAddr)),
   .lea .rdx .gdtPtrBase, .instr (.sub .rdx .r12), .instr (.addImm .rdx (UInt32.ofNat trampAddr)),
   .instr (.store64 .rdx .rax),
   .lea .rax .gdtPtr, .instr (.sub .rax .r12), .instr (.addImm .rax (UInt32.ofNat trampAddr)), .instr (.lgdt .rax),
   -- far return to the copy
   .lea .rax .trampCode, .instr (.sub .rax .r12), .instr (.addImm .rax (UInt32.ofNat trampAddr)),
   .instr (.pushImm 0x08), .instr (.push .rax), .instr .retfq]

/-- `boot_handoff_64`. -/
def bootHandoff64Code : List Instr64 :=
  [.cli, .movImm .rsp 0x7C00, .movImm .rdi 0x42414E47, .mov .rsi .rdx, .jmp .rcx, .hlt, .jmpShort 0xFD]

/-! ## Assembling -/

/-- The code in front of the blob, where labels are that far into the blob. -/
def link (e64 : Machine.Encoding Instr64) (offset : Label → Nat) : List Asm → List Instr64
  | [] => []
  | .instr i :: rest => i :: link e64 offset rest
  | .lea dst label :: rest =>
    let rest := link e64 offset rest
    .lea dst (UInt32.ofNat (e64.size rest + offset label)) :: rest

/-- The source as it is assembled: the encodings, and what is in front of the GDT to align it. The jump over
the slots is the short one, as the offsets of the slots demand; the far jump is written out in the source. -/
structure Assembled where
  e64 : Machine.Encoding Instr64
  e32 : Machine.Encoding Instr32
  pad : List UInt8
  window64 : e64.window ≤ 15
  window32 : e32.window ≤ 15
  padded : pad.length < 16
  short : ∀ disp, (e32.encode (.jmpShort disp)).length = 2
  far : ∀ selector offset, e32.encode (.ljmp selector offset) = 0xEA :: u32 offset ++ bytes 2 selector.toNat

namespace Assembled

variable (a : Assembled)

/-- Offsets of the labels in the blob. -/
def codeAt : Nat := 0x0E
def pm32At : Nat := codeAt + a.e32.size trampCode + 7

/-- The code of the blob, behind the slots. -/
def blobCode : List Instr32 := trampCode ++ .ljmp codeSelector (UInt32.ofNat (trampAddr + a.pm32At)) :: pm32

def gdtAt : Nat := codeAt + a.e32.size a.blobCode + a.pad.length
def gdtPtrAt : Nat := a.gdtAt + gdtBytes.length
def size : Nat := a.gdtPtrAt + gdtPtrBytes.length

def offset : Label → Nat
  | .trampStart => 0
  | .trampEnd => a.size
  | .trampCode => codeAt
  | .gdt => a.gdtAt
  | .gdtPtr => a.gdtPtrAt
  | .gdtPtrBase => a.gdtPtrAt + 2

/-- The blob: the jump over the slots, the three slots, the code, and the GDT with its pointer. -/
def bytes : List UInt8 :=
  a.e32.encode (.jmpShort 0x0C) ++ List.replicate 12 0 ++ a.e32.assemble a.blobCode ++ a.pad ++ gdtBytes ++ gdtPtrBytes

theorem length_bytes : a.bytes.length = a.size := by
  simp only [bytes, size, gdtPtrAt, gdtAt, codeAt, List.length_append, a.short, List.length_replicate,
    Machine.Encoding.size]

/-- The blob as the rest of the model takes it. -/
def blob : Blob where
  bytes := a.bytes
  gdt := a.gdtAt
  gdtPtrBase := a.gdtPtrAt + 2
  slots := by
    unfold gdtPtrAt gdtAt codeAt
    omega
  base := by
    rw [length_bytes]
    rfl

/-- The code in front of the blob. -/
def jumpCode : List Instr64 := link a.e64 a.offset bootJumpToKernelAsm

/-- All of it is small. -/
theorem small : a.e64.size a.jumpCode + a.size < 2 ^ 16 := by
  have h64 := a.e64.size_le a.jumpCode
  have h32 := a.e32.size_le a.blobCode
  have hlen64 : a.jumpCode.length = 29 := rfl
  have hlen32 : a.blobCode.length = 33 := rfl
  have hgdt : gdtBytes.length = 24 := rfl
  have hptr : gdtPtrBytes.length = 10 := rfl
  have := a.padded
  have := Nat.mul_le_mul_right 29 a.window64
  have := Nat.mul_le_mul_right 33 a.window32
  rw [hlen64] at h64
  rw [hlen32] at h32
  unfold size gdtPtrAt gdtAt codeAt
  omega

end Assembled

end Bang
