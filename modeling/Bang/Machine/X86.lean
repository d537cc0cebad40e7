/-
A processor of the x86-64 family, as far as it takes to leave long mode: the general and control registers, the
segment registers with the descriptors they have loaded, and the instructions of two ways to run, 64-bit mode
and 32-bit code, which is compatibility mode or protected mode. Paging maps every address to itself, as it does
under UEFI, so that turning it off changes no address. A fault, and what is not modelled, is `none`.
-/
import Bang.Machine.Stored
import Bang.Memory.LittleEndian
import Mathlib.Logic.Function.Basic

namespace X86

open LittleEndian

/-! ## The state -/

inductive Reg
  | rax | rcx | rdx | rbx | rsp | rsi | rdi | r8 | r10 | r11 | r12
  deriving DecidableEq, Repr

/-- The registers that 32-bit code names. -/
inductive Reg32
  | eax | ecx | edx | ebx | esp | esi | edi
  deriving DecidableEq, Repr

/-- The register a low half is of. -/
def Reg32.full : Reg32 → Reg
  | .eax => .rax
  | .ecx => .rcx
  | .edx => .rdx
  | .ebx => .rbx
  | .esp => .rsp
  | .esi => .rsi
  | .edi => .rdi

/-- The segment registers for data. -/
inductive Seg
  | ds | es | fs | gs | ss
  deriving DecidableEq, Repr

/-- A segment descriptor: the first address, the last offset, and the two fields of bits. -/
structure Descriptor where
  base : Nat
  limit : Nat
  access : UInt8
  flags : Nat
  deriving DecidableEq, Repr

namespace Descriptor

def present (d : Descriptor) : Bool := d.access.toNat.testBit 7
/-- It describes memory, for the most privileged code. -/
def memory (d : Descriptor) : Bool := d.access.toNat.testBit 4 ∧ ¬ d.access.toNat.testBit 6 ∧ ¬ d.access.toNat.testBit 5
def executable (d : Descriptor) : Bool := d.access.toNat.testBit 3
/-- A code segment may be read, a data segment written. -/
def readWrite (d : Descriptor) : Bool := d.access.toNat.testBit 1
/-- The processor has used it. -/
def touched (d : Descriptor) : Descriptor := { d with access := d.access ||| 1 }
def long (d : Descriptor) : Bool := d.flags.testBit 1
def default32 (d : Descriptor) : Bool := d.flags.testBit 2
/-- All of the first four gigabytes. -/
def flat (d : Descriptor) : Bool := d.base = 0 ∧ d.limit = 2 ^ 32 - 1

/-- The eight bytes of a descriptor; the limit counts bytes or pages. -/
def read (m : Mem UInt8) (a : Nat) : Descriptor :=
  let limit := value (m.load a 2) + 2 ^ 16 * ((m (a + 6)).toNat % 16)
  let flags := (m (a + 6)).toNat / 16
  { base := value (m.load (a + 2) 3) + 2 ^ 24 * (m (a + 7)).toNat
    limit := if flags.testBit 3 then limit * 4096 + 4095 else limit
    access := m (a + 5)
    flags }

end Descriptor

structure State where
  reg : Reg → UInt64
  /-- The address of the next instruction. -/
  ip : Nat
  code : Descriptor
  seg : Seg → Descriptor
  gdtBase : Nat
  gdtLimit : Nat
  cr0 : UInt32
  cr3 : UInt32
  efer : UInt64
  /-- Interrupts are taken. -/
  interrupts : Bool
  /-- Strings are copied downwards. -/
  down : Bool
  mem : Mem UInt8

/-- How the processor reads instructions. -/
inductive Mode
  | bits64
  | bits32
  deriving DecidableEq, Repr

/-- The mode, which is that of the code segment; 16-bit code, and code that is not in a flat segment, is not
modelled. -/
def modeOf (pe lma : Bool) (code : Descriptor) : Option Mode :=
  if ¬ pe then none
  else if lma ∧ code.long then (if code.default32 then none else some .bits64)
  else if code.default32 ∧ code.flat then some .bits32
  else none

namespace State

variable (s : State)

def pe : Bool := s.cr0.toNat.testBit 0
def pg : Bool := s.cr0.toNat.testBit 31
def lme : Bool := s.efer.toNat.testBit 8
def lma : Bool := s.efer.toNat.testBit 10

def mode : Option Mode := modeOf s.pe s.lma s.code

def set (r : Reg) (v : UInt64) : State := { s with reg := Function.update s.reg r v }

/-- The low half of a register. -/
def reg32 (r : Reg) : UInt32 := (s.reg r).toUInt32
/-- Writing the low half clears the high one. -/
def set32 (r : Reg) (v : UInt32) : State := s.set r v.toUInt64

/-- The address of the descriptor a selector is about: in the global table, and for the most privileged code. -/
def entry (selector : UInt16) : Option Nat :=
  if selector.toNat % 8 = 0 ∧ 8 ≤ selector.toNat ∧ selector.toNat + 7 ≤ s.gdtLimit then
    some (s.gdtBase + selector.toNat)
  else none

/-- Load a segment register, of data that may be written. The processor marks the descriptor as used. -/
def loadSeg (r : Seg) (selector : UInt16) : Option State := do
  let a ← s.entry selector
  let d := Descriptor.read s.mem a
  if d.present ∧ d.memory ∧ ¬ d.executable ∧ d.readWrite then
    some { s with seg := Function.update s.seg r d.touched, mem := s.mem.store (a + 5) [d.touched.access] }
  else none

/-- Load the code segment, and go on at an address in it. -/
def loadCode (selector : UInt16) (ip : Nat) : Option State := do
  let a ← s.entry selector
  let d := Descriptor.read s.mem a
  if d.present ∧ d.memory ∧ d.executable ∧ ¬ (d.long ∧ d.default32) then
    some { s with ip, code := d.touched, mem := s.mem.store (a + 5) [d.touched.access] }
  else none

def push (v : UInt64) : State :=
  let rsp := s.reg .rsp - 8
  { s.set .rsp rsp with mem := s.mem.store rsp.toNat (u64 v) }

end State

/-- A 32-bit number where one of 64 bits is wanted: its sign goes on to the left. -/
def signExtend (x : UInt32) : UInt64 := if x < 0x80000000 then x.toUInt64 else x.toUInt64 ||| 0xFFFFFFFF00000000

/-! ## 64-bit mode -/

inductive Instr64
  | cli
  /-- `mov`, of the low halves. -/
  | mov32 (dst src : Reg)
  | mov (dst src : Reg)
  | movImm (dst : Reg) (imm : UInt32)
  /-- `lea dst, [rip + disp]`. -/
  | lea (dst : Reg) (disp : UInt32)
  | sub (dst src : Reg)
  | addImm (dst : Reg) (imm : UInt32)
  | repMovsb
  /-- `mov dword ptr [addr], src`. -/
  | store32 (addr : UInt32) (src : Reg)
  /-- `mov qword ptr [dst], src`. -/
  | store64 (dst src : Reg)
  | lgdt (src : Reg)
  | pushImm (imm : UInt8)
  | push (src : Reg)
  | retfq
  | jmp (dst : Reg)
  | hlt
  | jmpShort (disp : UInt8)
  deriving DecidableEq, Repr

/-- Bytes copied upwards, one after another. -/
def copyUp : Nat → (src dst : Nat) → Mem UInt8 → Mem UInt8
  | 0, _, _, m => m
  | n + 1, src, dst, m => copyUp n (src + 1) (dst + 1) (m.store dst [m src])

/-- Where a jump leads that counts from behind itself. -/
def shortTarget (ip : Nat) (disp : UInt8) : Nat :=
  if disp < 0x80 then ip + disp.toNat else ip + disp.toNat - 0x100

/-- What an instruction does, with the next one's address in `ip`. -/
def exec64 : Instr64 → State → Option State
  | .cli, s => some { s with interrupts := false }
  | .mov32 dst src, s => some (s.set32 dst (s.reg32 src))
  | .mov dst src, s => some (s.set dst (s.reg src))
  | .movImm dst imm, s => some (s.set dst (signExtend imm))
  | .lea dst disp, s => some (s.set dst (UInt64.ofNat s.ip + signExtend disp))
  | .sub dst src, s => some (s.set dst (s.reg dst - s.reg src))
  | .addImm dst imm, s => some (s.set dst (s.reg dst + signExtend imm))
  | .repMovsb, s =>
    if s.down then none
    else
      let count := s.reg .rcx
      let mem := copyUp count.toNat (s.reg .rsi).toNat (s.reg .rdi).toNat s.mem
      some { ((s.set .rsi (s.reg .rsi + count)).set .rdi (s.reg .rdi + count)).set .rcx 0 with mem }
  | .store32 addr src, s => some { s with mem := s.mem.store (signExtend addr).toNat (u32 (s.reg32 src)) }
  | .store64 dst src, s => some { s with mem := s.mem.store (s.reg dst).toNat (u64 (s.reg src)) }
  | .lgdt src, s =>
    let a := (s.reg src).toNat
    some { s with gdtLimit := value (s.mem.load a 2), gdtBase := (s.mem.read64 (a + 2)).toNat }
  | .pushImm imm, s => some (s.push (signExtend (if imm < 0x80 then imm.toUInt32 else imm.toUInt32 ||| 0xFFFFFF00)))
  | .push src, s => some (s.push (s.reg src))
  | .retfq, s =>
    let rsp := s.reg .rsp
    let ip := s.mem.read64 rsp.toNat
    let selector := s.mem.read64 (rsp.toNat + 8)
    (s.set .rsp (rsp + 16)).loadCode selector.toUInt16 ip.toNat
  | .jmp dst, s => some { s with ip := (s.reg dst).toNat }
  | .hlt, _ => none
  | .jmpShort disp, s => some { s with ip := shortTarget s.ip disp }

/-! ## 32-bit code -/

inductive Instr32
  | mov16 (dst : Reg32) (imm : UInt16)
  /-- `mov seg, src`, of the lowest 16 bits. -/
  | movSeg (seg : Seg) (src : Reg32)
  | fromCr0 (dst : Reg32)
  | toCr0 (src : Reg32)
  | toCr3 (src : Reg32)
  | andImm (dst : Reg32) (imm : UInt32)
  | orImm (dst : Reg32) (imm : UInt32)
  | xor (dst src : Reg32)
  | movImm (dst : Reg32) (imm : UInt32)
  | rdmsr
  | wrmsr
  | ljmp (selector : UInt16) (offset : UInt32)
  /-- `mov dst, dword ptr [addr]`. -/
  | load (dst : Reg32) (addr : UInt32)
  | jmp (dst : Reg32)
  | hlt
  | jmpShort (disp : UInt8)
  deriving DecidableEq, Repr

/-- The number of the register with the switch for long mode. -/
def eferMsr : UInt32 := 0xC0000080

/-- Write `cr0`. Paging is not turned on, and is not turned off from 64-bit mode; without it, long mode is not
active. -/
def writeCr0 (v : UInt32) (s : State) : Option State :=
  if v.toNat.testBit 31 then (if v.toNat.testBit 0 ∧ s.pg then some { s with cr0 := v } else none)
  else if s.mode = some .bits64 then none
  else some { s with cr0 := v, efer := s.efer &&& 0xFFFFFFFFFFFFFBFF }

/-- Write `efer`. The switch for long mode cannot be changed while there is paging, and whether long mode is
active cannot be written. -/
def writeEfer (v : UInt64) (s : State) : Option State :=
  if s.pg ∧ v.toNat.testBit 8 ≠ s.lme then none
  else some { s with efer := (v &&& 0xFFFFFFFFFFFFFBFF) ||| (s.efer &&& 0x400) }

/-- What an instruction does, with the next one's address in `ip`. -/
def exec32 : Instr32 → State → Option State
  | .mov16 dst imm, s => some (s.set dst.full ((s.reg dst.full &&& 0xFFFFFFFFFFFF0000) ||| imm.toUInt64))
  | .movSeg seg src, s => s.loadSeg seg (s.reg src.full).toUInt16
  | .fromCr0 dst, s => some (s.set32 dst.full s.cr0)
  | .toCr0 src, s => writeCr0 (s.reg32 src.full) s
  | .toCr3 src, s => some { s with cr3 := s.reg32 src.full }
  | .andImm dst imm, s => some (s.set32 dst.full (s.reg32 dst.full &&& imm))
  | .orImm dst imm, s => some (s.set32 dst.full (s.reg32 dst.full ||| imm))
  | .xor dst src, s => some (s.set32 dst.full (s.reg32 dst.full ^^^ s.reg32 src.full))
  | .movImm dst imm, s => some (s.set32 dst.full imm)
  | .rdmsr, s =>
    if s.reg32 .rcx = eferMsr then
      some ((s.set32 .rax s.efer.toUInt32).set32 .rdx (s.efer >>> 32).toUInt32)
    else none
  | .wrmsr, s =>
    if s.reg32 .rcx = eferMsr then
      writeEfer ((s.reg32 .rdx).toUInt64 <<< 32 ||| (s.reg32 .rax).toUInt64) s
    else none
  | .ljmp selector offset, s => s.loadCode selector offset.toNat
  | .load dst addr, s =>
    let d := s.seg .ds
    if addr.toNat + 3 ≤ d.limit then some (s.set32 dst.full (s.mem.read32 (d.base + addr.toNat))) else none
  | .jmp dst, s => some { s with ip := (s.reg32 dst.full).toNat }
  | .hlt, _ => none
  | .jmpShort disp, s => some { s with ip := shortTarget s.ip disp }

/-! ## The processor -/

section
variable (e64 : Machine.Encoding Instr64) (e32 : Machine.Encoding Instr32)

def way64 : Machine.Way State Instr64 where
  encoding := e64
  memory := State.mem
  counter := State.ip
  goto ip s := { s with ip }
  exec := exec64
  counter_goto _ _ := rfl
  memory_goto _ _ := rfl

def way32 : Machine.Way State Instr32 where
  encoding := e32
  memory := State.mem
  counter := State.ip
  goto ip s := { s with ip }
  exec := exec32
  counter_goto _ _ := rfl
  memory_goto _ _ := rfl

/-- The next instruction, in the mode the processor is in. -/
def step (s : State) : Option State :=
  match s.mode with
  | some .bits64 => (way64 e64).step s
  | some .bits32 => (way32 e32).step s
  | none => none

/-- What the processor comes to. -/
def Reaches : State → State → Prop := Relation.ReflTransGen fun s s' => step e64 e32 s = some s'

end

end X86
