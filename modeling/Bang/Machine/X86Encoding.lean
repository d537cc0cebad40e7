/-
The processor's own encodings of the instructions it is modelled with. Of the several ways to write one, 64-bit
instructions with registers always have the prefix that extends the numbers of registers, an address in a
register is written with a base and no index, and an immediate operand of 32-bit code has its full width.
-/
import Bang.Machine.X86

namespace X86

open LittleEndian

/-! ## Registers in an instruction -/

def Reg.number : Reg → Nat
  | .rax => 0
  | .rcx => 1
  | .rdx => 2
  | .rbx => 3
  | .rsp => 4
  | .rsi => 6
  | .rdi => 7
  | .r8 => 8
  | .r10 => 10
  | .r11 => 11
  | .r12 => 12

def Reg.ofNumber : Nat → Option Reg
  | 0 => some .rax
  | 1 => some .rcx
  | 2 => some .rdx
  | 3 => some .rbx
  | 4 => some .rsp
  | 6 => some .rsi
  | 7 => some .rdi
  | 8 => some .r8
  | 10 => some .r10
  | 11 => some .r11
  | 12 => some .r12
  | _ => none

def Reg32.ofNumber : Nat → Option Reg32
  | 0 => some .eax
  | 1 => some .ecx
  | 2 => some .edx
  | 3 => some .ebx
  | 4 => some .esp
  | 6 => some .esi
  | 7 => some .edi
  | _ => none

def Seg.number : Seg → Nat
  | .es => 0
  | .ss => 2
  | .ds => 3
  | .fs => 4
  | .gs => 5

def Seg.ofNumber : Nat → Option Seg
  | 0 => some .es
  | 2 => some .ss
  | 3 => some .ds
  | 4 => some .fs
  | 5 => some .gs
  | _ => none

@[simp] theorem Reg.ofNumber_number (r : Reg) : Reg.ofNumber r.number = some r := by cases r <;> rfl

@[simp] theorem Reg32.ofNumber_number (r : Reg32) : Reg32.ofNumber r.full.number = some r := by cases r <;> rfl

@[simp] theorem Seg.ofNumber_number (r : Seg) : Seg.ofNumber r.number = some r := by cases r <;> rfl

theorem Reg.number_lt (r : Reg) : r.number < 16 := by cases r <;> decide

theorem Reg32.number_lt (r : Reg32) : r.full.number < 8 := by cases r <;> decide

theorem Seg.number_lt (r : Seg) : r.number < 8 := by cases r <;> decide

/-- The byte of the operands: a way to address, a register or more of the opcode, and a register. The byte of a
base without an index is like it. -/
def operands (mode reg rm : Nat) : UInt8 := UInt8.ofNat (64 * mode + 8 * (reg % 8) + rm % 8)

/-- The prefix: whether operands are wide, and the high bits of the two registers. -/
def rex (wide : Bool) (reg rm : Nat) : UInt8 := UInt8.ofNat (64 + 8 * wide.toNat + 4 * (reg / 8) + rm / 8)

def isRex (p : UInt8) : Bool := p.toNat / 16 = 4
def wideOf (p : UInt8) : Bool := p.toNat / 8 % 2 = 1
def modeOfOps (ops : UInt8) : Nat := ops.toNat / 64
def moreOf (ops : UInt8) : Nat := ops.toNat / 8 % 8
def baseOf (ops : UInt8) : Nat := ops.toNat % 8

/-- The register in the middle of the operands, and the one at their end. -/
def regOf (p ops : UInt8) : Option Reg := Reg.ofNumber (8 * (p.toNat / 4 % 2) + moreOf ops)
def rmOf (p ops : UInt8) : Option Reg := Reg.ofNumber (8 * (p.toNat % 2) + baseOf ops)

theorem toNat_operands {mode : Nat} (reg rm : Nat) (h : mode < 4) :
    (operands mode reg rm).toNat = 64 * mode + 8 * (reg % 8) + rm % 8 :=
  UInt8.toNat_ofNat_of_lt' (show _ < 256 by omega)

theorem toNat_rex {reg rm : Nat} (wide : Bool) (hreg : reg < 16) (hrm : rm < 16) :
    (rex wide reg rm).toNat = 64 + 8 * wide.toNat + 4 * (reg / 8) + rm / 8 := by
  have := wide.toNat_le
  exact UInt8.toNat_ofNat_of_lt' (show _ < 256 by omega)

section
variable {mode reg rm : Nat} (wide : Bool)

theorem modeOfOps_operands (h : mode < 4) : modeOfOps (operands mode reg rm) = mode := by
  unfold modeOfOps
  rw [toNat_operands _ _ h]
  omega

theorem moreOf_operands (h : mode < 4) : moreOf (operands mode reg rm) = reg % 8 := by
  unfold moreOf
  rw [toNat_operands _ _ h]
  omega

theorem baseOf_operands (h : mode < 4) : baseOf (operands mode reg rm) = rm % 8 := by
  unfold baseOf
  rw [toNat_operands _ _ h]
  omega

theorem isRex_rex (hreg : reg < 16) (hrm : rm < 16) : isRex (rex wide reg rm) = true := by
  have := wide.toNat_le
  unfold isRex
  rw [toNat_rex wide hreg hrm, decide_eq_true_iff]
  omega

theorem wideOf_rex (hreg : reg < 16) (hrm : rm < 16) : wideOf (rex wide reg rm) = wide := by
  unfold wideOf
  rw [toNat_rex wide hreg hrm]
  cases wide
  · simp only [Bool.toNat_false, decide_eq_false_iff_not]
    omega
  · simp only [Bool.toNat_true, decide_eq_true_iff]
    omega

theorem regOf_rex (r : Reg) (hrm : rm < 16) {rm' : Nat} (h : mode < 4) :
    regOf (rex wide r.number rm) (operands mode r.number rm') = some r := by
  have := wide.toNat_le
  have := r.number_lt
  unfold regOf
  rw [toNat_rex wide r.number_lt hrm, moreOf_operands h, show 8 * _ + r.number % 8 = r.number by omega,
    Reg.ofNumber_number]

theorem rmOf_rex (r : Reg) (hreg : reg < 16) {reg' : Nat} (h : mode < 4) :
    rmOf (rex wide reg r.number) (operands mode reg' r.number) = some r := by
  have := wide.toNat_le
  have := r.number_lt
  unfold rmOf
  rw [toNat_rex wide hreg r.number_lt, baseOf_operands h, show 8 * _ + r.number % 8 = r.number by omega,
    Reg.ofNumber_number]

end

/-! ## 64-bit mode -/

def encode64 : Instr64 → List UInt8
  | .cli => [0xFA]
  | .mov32 dst src => [rex false src.number dst.number, 0x89, operands 3 src.number dst.number]
  | .mov dst src => [rex true src.number dst.number, 0x89, operands 3 src.number dst.number]
  | .movImm dst imm => [rex true 0 dst.number, 0xC7, operands 3 0 dst.number] ++ u32 imm
  | .lea dst disp => [rex true dst.number 0, 0x8D, operands 0 dst.number 5] ++ u32 disp
  | .sub dst src => [rex true src.number dst.number, 0x29, operands 3 src.number dst.number]
  | .addImm dst imm => [rex true 0 dst.number, 0x81, operands 3 0 dst.number] ++ u32 imm
  | .repMovsb => [0xF3, 0xA4]
  | .store32 addr src => [rex false src.number 0, 0x89, operands 0 src.number 4, 0x25] ++ u32 addr
  | .store64 dst src => [rex true src.number dst.number, 0x89, operands 1 src.number 4, operands 0 4 dst.number, 0]
  | .lgdt src => [rex false 0 src.number, 0x0F, 0x01, operands 1 2 4, operands 0 4 src.number, 0]
  | .pushImm imm => [0x6A, imm]
  | .push src => [rex false 0 src.number, 0xFF, operands 3 6 src.number]
  | .retfq => [rex true 0 0, 0xCB]
  | .jmp dst => [rex false 0 dst.number, 0xFF, operands 3 4 dst.number]
  | .hlt => [0xF4]
  | .jmpShort disp => [0xEB, disp]

/-- Instructions without a prefix. -/
def decodePlain : List UInt8 → Option (Instr64 × Nat)
  | 0xFA :: _ => some (.cli, 1)
  | 0xF4 :: _ => some (.hlt, 1)
  | 0xF3 :: 0xA4 :: _ => some (.repMovsb, 2)
  | 0x6A :: imm :: _ => some (.pushImm imm, 2)
  | 0xEB :: disp :: _ => some (.jmpShort disp, 2)
  | _ => none

/-- Instructions whose operands are registers. -/
def decodeRegs (p opcode ops : UInt8) : Option Instr64 :=
  if modeOfOps ops ≠ 3 then none
  else if opcode = 0x89 then do
    let src ← regOf p ops
    let dst ← rmOf p ops
    some (if wideOf p then .mov dst src else .mov32 dst src)
  else if opcode = 0x29 ∧ wideOf p then return .sub (← rmOf p ops) (← regOf p ops)
  else if opcode = 0xFF ∧ moreOf ops = 6 then return .push (← rmOf p ops)
  else if opcode = 0xFF ∧ moreOf ops = 4 then return .jmp (← rmOf p ops)
  else none

/-- Instructions with 32 bits behind their operands. -/
def decodeImm (p opcode ops : UInt8) (imm : UInt32) : Option Instr64 :=
  if ¬ wideOf p then none
  else if opcode = 0x8D ∧ modeOfOps ops = 0 ∧ baseOf ops = 5 then return .lea (← regOf p ops) imm
  else if opcode = 0xC7 ∧ modeOfOps ops = 3 ∧ moreOf ops = 0 then return .movImm (← rmOf p ops) imm
  else if opcode = 0x81 ∧ modeOfOps ops = 3 ∧ moreOf ops = 0 then return .addImm (← rmOf p ops) imm
  else none

/-- Instructions about memory at an address, or where a register says, from what is behind the opcode. -/
def decodeMem (p opcode : UInt8) (rest : List UInt8) : Option (Instr64 × Nat) :=
  let ops := rest.getD 0 0
  let base := rest.getD 1 0
  if opcode ≠ 0x89 ∨ baseOf ops ≠ 4 then none
  else if modeOfOps ops = 0 ∧ base = 0x25 ∧ ¬ wideOf p then
    return (.store32 (at32 (rest.drop 2) 0) (← regOf p ops), 8)
  else if modeOfOps ops = 1 ∧ modeOfOps base = 0 ∧ moreOf base = 4 ∧ wideOf p ∧ rest[2]? = some 0 then
    return (.store64 (← rmOf p base) (← regOf p ops), 5)
  else none

def decodeLgdt (p opcode : UInt8) (rest : List UInt8) : Option (Instr64 × Nat) :=
  let base := rest.getD 2 0
  if opcode = 0x0F ∧ rest.take 2 = [0x01, 0x54] ∧ modeOfOps base = 0 ∧ moreOf base = 4 ∧ rest[3]? = some 0 then
    return (.lgdt (← rmOf p base), 6)
  else none

/-- Instructions behind a prefix. -/
def decodeRex (p : UInt8) : List UInt8 → Option (Instr64 × Nat)
  | [] => none
  | opcode :: rest =>
    let ops := rest.getD 0 0
    if opcode = 0xCB ∧ wideOf p then some (.retfq, 2)
    else
      (decodeRegs p opcode ops).map (·, 3) <|> (decodeImm p opcode ops (at32 (rest.drop 1) 0)).map (·, 7) <|>
        decodeLgdt p opcode rest <|> decodeMem p opcode rest

def decode64 : List UInt8 → Option (Instr64 × Nat)
  | [] => none
  | p :: rest => if isRex p then decodeRex p rest else decodePlain (p :: rest)

theorem length_encode64 (i : Instr64) : (encode64 i).length ≤ 8 := by
  cases i <;> simp [encode64]

theorem decode64_encode64 (i : Instr64) (rest : List UInt8) :
    decode64 (encode64 i ++ rest) = some (i, (encode64 i).length) := by
  cases i
  case cli | repMovsb | pushImm | hlt | jmpShort => rfl
  all_goals simp [encode64, decode64, isRex_rex, wideOf_rex, regOf_rex, rmOf_rex, Reg.number_lt, decodeRex, decodeRegs,
    modeOfOps_operands, moreOf_operands, baseOf_operands, decodeImm, decodeMem, decodeLgdt,
    show operands 1 2 4 = 0x54 from rfl]

def encoding64 : Machine.Encoding Instr64 := ⟨encode64, decode64, 8, length_encode64, decode64_encode64⟩

/-! ## 32-bit code -/

def encode32 : Instr32 → List UInt8
  | .mov16 dst imm => [0x66, operands 2 7 dst.full.number] ++ u16 imm
  | .movSeg seg src => [0x8E, operands 3 seg.number src.full.number]
  | .fromCr0 dst => [0x0F, 0x20, operands 3 0 dst.full.number]
  | .toCr0 src => [0x0F, 0x22, operands 3 0 src.full.number]
  | .toCr3 src => [0x0F, 0x22, operands 3 3 src.full.number]
  | .andImm dst imm => [0x81, operands 3 4 dst.full.number] ++ u32 imm
  | .orImm dst imm => [0x81, operands 3 1 dst.full.number] ++ u32 imm
  | .xor dst src => [0x31, operands 3 src.full.number dst.full.number]
  | .movImm dst imm => [0xC7, operands 3 0 dst.full.number] ++ u32 imm
  | .rdmsr => [0x0F, 0x32]
  | .wrmsr => [0x0F, 0x30]
  | .ljmp selector offset => 0xEA :: u32 offset ++ u16 selector
  | .load dst addr => [0x8B, operands 0 dst.full.number 5] ++ u32 addr
  | .jmp dst => [0xFF, operands 3 4 dst.full.number]
  | .hlt => [0xF4]
  | .jmpShort disp => [0xEB, disp]

/-- The registers in the middle of the operands, and at their end. -/
def reg32Of (ops : UInt8) : Option Reg32 := Reg32.ofNumber (moreOf ops)
def rm32Of (ops : UInt8) : Option Reg32 := Reg32.ofNumber (baseOf ops)

/-- Instructions whose operands are registers. -/
def decodeRegs32 (opcode ops : UInt8) : Option Instr32 :=
  if modeOfOps ops ≠ 3 then none
  else if opcode = 0x8E then return .movSeg (← Seg.ofNumber (moreOf ops)) (← rm32Of ops)
  else if opcode = 0x31 then return .xor (← rm32Of ops) (← reg32Of ops)
  else if opcode = 0xFF ∧ moreOf ops = 4 then return .jmp (← rm32Of ops)
  else none

/-- Instructions with 32 bits behind their operands. -/
def decodeImm32 (opcode ops : UInt8) (imm : UInt32) : Option Instr32 :=
  if opcode = 0x8B ∧ modeOfOps ops = 0 ∧ baseOf ops = 5 then return .load (← reg32Of ops) imm
  else if modeOfOps ops ≠ 3 then none
  else if opcode = 0x81 ∧ moreOf ops = 4 then return .andImm (← rm32Of ops) imm
  else if opcode = 0x81 ∧ moreOf ops = 1 then return .orImm (← rm32Of ops) imm
  else if opcode = 0xC7 ∧ moreOf ops = 0 then return .movImm (← rm32Of ops) imm
  else none

/-- Instructions about control registers, from what is behind the first byte of the opcode. -/
def decodeControl (opcode ops : UInt8) : Option (Instr32 × Nat) :=
  if opcode = 0x32 then some (.rdmsr, 2)
  else if opcode = 0x30 then some (.wrmsr, 2)
  else if modeOfOps ops ≠ 3 then none
  else if opcode = 0x20 ∧ moreOf ops = 0 then return (.fromCr0 (← rm32Of ops), 3)
  else if opcode = 0x22 ∧ moreOf ops = 0 then return (.toCr0 (← rm32Of ops), 3)
  else if opcode = 0x22 ∧ moreOf ops = 3 then return (.toCr3 (← rm32Of ops), 3)
  else none

def decode32 : List UInt8 → Option (Instr32 × Nat)
  | [] => none
  | opcode :: rest =>
    let ops := rest.getD 0 0
    if opcode = 0xF4 then some (.hlt, 1)
    else if opcode = 0xEB then rest.head?.map (.jmpShort ·, 2)
    else if opcode = 0xEA then some (.ljmp (at16 (rest.drop 4) 0) (at32 rest 0), 7)
    else if opcode = 0x66 then
      if modeOfOps ops = 2 ∧ moreOf ops = 7 then return (.mov16 (← rm32Of ops) (at16 (rest.drop 1) 0), 4) else none
    else if opcode = 0x0F then decodeControl ops (rest.getD 1 0)
    else (decodeRegs32 opcode ops).map (·, 2) <|> (decodeImm32 opcode ops (at32 (rest.drop 1) 0)).map (·, 6)

theorem length_encode32 (i : Instr32) : (encode32 i).length ≤ 7 := by
  cases i <;> simp [encode32]

theorem decode32_encode32 (i : Instr32) (rest : List UInt8) :
    decode32 (encode32 i ++ rest) = some (i, (encode32 i).length) := by
  cases i
  all_goals simp [encode32, decode32, decodeRegs32, decodeImm32, decodeControl, reg32Of, rm32Of, modeOfOps_operands,
    moreOf_operands, baseOf_operands, Nat.mod_eq_of_lt, Reg32.number_lt, Seg.number_lt]

def encoding32 : Machine.Encoding Instr32 := ⟨encode32, decode32, 7, length_encode32, decode32_encode32⟩

end X86
