/-
`boot_jump_to_kernel` on the processor, up to the far return: whatever the registers, the blob is copied, its
slots are filled, and the processor goes on in the copy, in 32-bit code. The labels of the code are where the
assembler says, so that code between two writes to memory is what it does to the registers.
-/
import Bang.Handoff.Assembly
import Bang.Machine.X86Rules

namespace Bang

open LittleEndian X86

/-! ## Code with labels -/

/-- The instructions that change general registers only. -/
def Asm.onRegisters : Asm → Bool
  | .lea .. | .instr (.mov32 ..) | .instr (.mov ..) | .instr (.movImm ..) | .instr (.sub ..)
  | .instr (.addImm ..) => true
  | .instr _ => false

/-- What they do, where labels have these addresses. -/
def Asm.effect (address : Label → UInt64) : Asm → (Reg → UInt64) → Reg → UInt64
  | .lea dst label, reg => Function.update reg dst (address label)
  | .instr (.mov32 dst src), reg => Function.update reg dst (reg src).toUInt32.toUInt64
  | .instr (.mov dst src), reg => Function.update reg dst (reg src)
  | .instr (.movImm dst imm), reg => Function.update reg dst (signExtend imm)
  | .instr (.sub dst src), reg => Function.update reg dst (reg dst - reg src)
  | .instr (.addImm dst imm), reg => Function.update reg dst (reg dst + signExtend imm)
  | .instr _, reg => reg

namespace Assembled

variable (a : Assembled)

/-- The addresses of the labels of a blob at `start`. -/
def address (start : Nat) (label : Label) : UInt64 := UInt64.ofNat (start + a.offset label)

theorem offset_le (label : Label) : a.offset label ≤ a.size := by
  have hptr : gdtPtrBytes.length = 10 := rfl
  cases label <;> simp only [offset, size, gdtPtrAt, gdtAt, codeAt] <;> omega

theorem address_toNat {start : Nat} (h : start + a.size < 2 ^ 64) (label : Label) :
    (a.address start label).toNat = start + a.offset label := by
  have := a.offset_le label
  exact UInt64.toNat_ofNat_of_lt' (show _ < 2 ^ 64 by omega)

/-- The code `rest` is next, and the blob at `start` behind it. -/
structure At (start : Nat) (rest : List Asm) (s : State) : Prop where
  in64 : In64 s
  code : (way64 a.e64).CodeAt s (link a.e64 a.offset rest)
  ends : s.ip + a.e64.size (link a.e64 a.offset rest) = start
  small : a.e64.size (link a.e64 a.offset rest) + a.size < 2 ^ 16
  high : start + a.size < 2 ^ 64

namespace At

variable {a} {start : Nat} {rest : List Asm} {s : State}

/-- An instruction that is executed, and leaves alone the code that follows it. -/
theorem next (i : Instr64) (rest' : List Asm) (s' : State) {code : List Instr64} (h : a.At start rest s)
    (hlink : link a.e64 a.offset rest = i :: code) (hrest : code = link a.e64 a.offset rest')
    (hexec : exec64 i { s with ip := s.ip + (a.e64.encode i).length } = some s') (hin : In64 s')
    (hip : s'.ip = s.ip + (a.e64.encode i).length) (hmem : ∀ x, s'.ip ≤ x → x < start → s'.mem x = s.mem x) :
    Reaches a.e64 a.e32 s s' ∧ a.At start rest' s' := by
  subst hrest
  have hends := h.ends
  have hsmall := h.small
  have hcode := h.code
  rw [hlink] at hends hsmall hcode
  rw [Machine.Encoding.size_cons] at hends hsmall
  refine ⟨reaches_step64 a.e64 a.e32 h.in64 hcode hexec, hin, ?_, by omega, by omega, h.high⟩
  have hcode : s.mem.Holds s.ip (a.e64.encode i ++ a.e64.assemble (link a.e64 a.offset rest')) := hcode
  have hrest := hcode.right
  rw [← hip] at hrest
  refine hrest.congr fun x hle hlt => hmem x hle ?_
  have hsize : a.e64.size (link a.e64 a.offset rest') = (a.e64.assemble (link a.e64 a.offset rest')).length := rfl
  omega

/-- The address of a label, as the code takes it. -/
theorem label_eq (ip : Nat) (code : List Instr64) (label : Label) (hends : ip + a.e64.size code = start)
    (hsmall : a.e64.size code + a.size < 2 ^ 16) (hhigh : start + a.size < 2 ^ 64) :
    UInt64.ofNat ip + signExtend (UInt32.ofNat (a.e64.size code + a.offset label)) = a.address start label := by
  have hoff := a.offset_le label
  have hdisp : (UInt32.ofNat (a.e64.size code + a.offset label)).toNat = a.e64.size code + a.offset label :=
    UInt32.toNat_ofNat_of_lt' (show _ < 2 ^ 32 by omega)
  apply UInt64.toNat_inj.1
  rw [toNat_ofNat_add (by omega) (by omega), hdisp, a.address_toNat hhigh]
  omega

/-- One instruction on registers. -/
theorem register {x : Asm} (h : a.At start (x :: rest) s) (hx : x.onRegisters = true) :
    ∃ ip, s.ip ≤ ip ∧ Reaches a.e64 a.e32 s { s with ip, reg := x.effect (a.address start) s.reg } ∧
      a.At start rest { s with ip, reg := x.effect (a.address start) s.reg } := by
  cases x with
  | lea dst label =>
    refine ⟨_, Nat.le_add_right .., h.next (.lea dst _) rest _ rfl rfl ?_ (h.in64.of_eq rfl rfl rfl) rfl
      fun _ _ _ => rfl⟩
    have hends := h.ends
    have hsmall := h.small
    rw [link, Machine.Encoding.size_cons] at hends hsmall
    have hlabel := label_eq (s.ip + (a.e64.encode (.lea dst _)).length) (link a.e64 a.offset rest) label
      (by rw [← hends, Nat.add_assoc]) (by omega) h.high
    simp only [exec64, State.set, Asm.effect, hlabel]
  | instr i =>
    cases i with
    | mov32 | mov | movImm | sub | addImm =>
      exact ⟨_, Nat.le_add_right .., h.next _ rest _ rfl rfl rfl (h.in64.of_eq rfl rfl rfl) rfl fun _ _ _ => rfl⟩
    | cli | lea | repMovsb | store32 | store64 | lgdt | pushImm | push | retfq | jmp | hlt | jmpShort => cases hx

/-- Instructions on registers, one after another. -/
theorem registers (code rest : List Asm) : ∀ s, a.At start (code ++ rest) s → (∀ x ∈ code, x.onRegisters = true) →
    ∃ ip, s.ip ≤ ip ∧
      Reaches a.e64 a.e32 s { s with ip, reg := code.foldl (fun reg x => x.effect (a.address start) reg) s.reg } ∧
      a.At start rest { s with ip, reg := code.foldl (fun reg x => x.effect (a.address start) reg) s.reg } := by
  induction code with
  | nil =>
    intro s h _
    exact ⟨s.ip, Nat.le_refl _, .refl, h⟩
  | cons x code ih =>
    intro s h hcode
    obtain ⟨ip₁, hle₁, hreach₁, h₁⟩ := h.register (hcode x List.mem_cons_self)
    obtain ⟨ip₂, hle₂, hreach₂, h₂⟩ := ih _ h₁ fun y hy => hcode y (List.mem_cons_of_mem _ hy)
    exact ⟨ip₂, hle₁.trans hle₂, hreach₁.trans hreach₂, h₂⟩

end At

/-! ## The copy -/

/-- What the blob holds behind its slots and in front of the base of its GDT pointer, the copy holds too. -/
theorem copy_holds {off : Nat} {piece : List UInt8} (entry mbiAddr magic : UInt32) (m : Mem UInt8)
    (h : (m.store trampAddr a.bytes).Holds (trampAddr + off) piece) (hlow : codeAt ≤ off)
    (hhigh : off + piece.length ≤ a.gdtPtrAt + 2) :
    (copyTrampoline a.blob entry mbiAddr magic m).Holds (trampAddr + off) piece := by
  have hlow : 0x0E ≤ off := hlow
  have hblob : a.blob.gdtPtrBase = a.gdtPtrAt + 2 := rfl
  unfold copyTrampoline slotEntry slotMbi slotMagic
  refine (((h.store _ _ ?_).store _ _ ?_).store _ _ ?_).store _ _ ?_ <;>
    simp only [length_u32, length_u64, hblob] <;> omega

/-- The parts of the blob where it is stored. -/
theorem store_holds (m : Mem UInt8) :
    (m.store trampAddr a.bytes).Holds (trampAddr + codeAt) (a.e32.assemble a.blobCode) ∧
      (m.store trampAddr a.bytes).Holds (trampAddr + a.gdtAt) gdtBytes ∧
      (m.store trampAddr a.bytes).Holds (trampAddr + a.gdtPtrAt) gdtPtrBytes := by
  have h := Mem.holds_store m trampAddr a.bytes
  have hslots : (a.e32.encode (.jmpShort 0x0C) ++ List.replicate 12 0).length = codeAt := by
    rw [List.length_append, a.short, List.length_replicate]
    rfl
  have hcode := h.left.left.left.right
  have hgdt := h.left.right
  have hptr := h.right
  rw [hslots] at hcode
  simp only [List.length_append, a.short, List.length_replicate] at hgdt hptr
  exact ⟨hcode, hgdt, hptr⟩

theorem copy_code (entry mbiAddr magic : UInt32) (m : Mem UInt8) :
    (copyTrampoline a.blob entry mbiAddr magic m).Holds (trampAddr + codeAt) (a.e32.assemble a.blobCode) := by
  refine a.copy_holds entry mbiAddr magic m (a.store_holds m).1 (Nat.le_refl _) ?_
  have hsize : a.e32.size a.blobCode = (a.e32.assemble a.blobCode).length := rfl
  unfold gdtPtrAt gdtAt
  omega

theorem copy_gdt (entry mbiAddr magic : UInt32) (m : Mem UInt8) :
    (copyTrampoline a.blob entry mbiAddr magic m).Holds (trampAddr + a.gdtAt) gdtBytes := by
  refine a.copy_holds entry mbiAddr magic m (a.store_holds m).2.1 ?_ ?_
  · unfold gdtAt
    omega
  · unfold gdtPtrAt
    omega

theorem copy_limit (entry mbiAddr magic : UInt32) (m : Mem UInt8) :
    (copyTrampoline a.blob entry mbiAddr magic m).Holds (trampAddr + a.gdtPtrAt) (LittleEndian.bytes 2 23) := by
  refine a.copy_holds entry mbiAddr magic m (a.store_holds m).2.2.left ?_ (Nat.le_refl _)
  unfold gdtPtrAt gdtAt
  omega

/-! ## The stages -/

section
variable {a} {start : Nat} {s : State}

/-- The blob is copied; the kernel's parameters are in other registers. -/
theorem At.copied (h : a.At start bootJumpToKernelAsm s) (hdown : s.down = false) (hblob : s.mem.Holds start a.bytes)
    (hapart : trampAddr + a.size ≤ s.ip ∨ start + a.size ≤ trampAddr) :
    ∃ s', s.ip ≤ s'.ip ∧ Reaches a.e64 a.e32 s s' ∧ a.At start (bootJumpToKernelAsm.drop 8) s' ∧
      s'.mem = s.mem.store trampAddr a.bytes ∧ s'.reg32 .r10 = s.reg32 .rcx ∧ s'.reg32 .r11 = s.reg32 .rdx ∧
      s'.reg .r8 = s.reg .r8 ∧ s'.reg .rsp = s.reg .rsp ∧ s'.interrupts = false := by
  have hhigh := h.high
  obtain ⟨hreach₀, h₀⟩ := h.next .cli (bootJumpToKernelAsm.drop 1)
    { s with ip := s.ip + (a.e64.encode .cli).length, interrupts := false }
    rfl rfl rfl (h.in64.of_eq rfl rfl rfl) rfl fun _ _ _ => rfl
  obtain ⟨ip₁, hle₁, hreach₁, h₁⟩ := At.registers
    [.instr (.mov32 .r10 .rcx), .instr (.mov32 .r11 .rdx), .lea .rsi .trampStart, .lea .rcx .trampEnd,
      .instr (.sub .rcx .rsi), .instr (.movImm .rdi (UInt32.ofNat trampAddr))] (bootJumpToKernelAsm.drop 7) _ h₀
    (by decide)
  generalize hreg : List.foldl _ _ _ = reg at hreach₁ h₁
  have hrsi : reg .rsi = a.address start .trampStart := by rw [← hreg]; simp [Asm.effect, Function.update]
  have hrcx : reg .rcx = a.address start .trampEnd - a.address start .trampStart := by
    rw [← hreg]; simp [Asm.effect, Function.update]
  have hrdi : reg .rdi = signExtend (UInt32.ofNat trampAddr) := by rw [← hreg]; simp [Asm.effect, Function.update]
  have hlow : (reg .r10).toUInt32 = s.reg32 .rcx ∧ (reg .r11).toUInt32 = s.reg32 .rdx ∧ reg .r8 = s.reg .r8 ∧
      reg .rsp = s.reg .rsp := by
    rw [← hreg]
    simp only [List.foldl, Asm.effect, State.reg32, Function.update_apply, reduceCtorEq, if_false, if_true,
      UInt32.toUInt32_toUInt64, and_self]
  -- the bytes that are copied are those of the blob
  have hmem : copyUp (reg .rcx).toNat (reg .rsi).toNat (reg .rdi).toNat s.mem = s.mem.store trampAddr a.bytes := by
    have hstart := a.address_toNat hhigh .trampStart
    have hend := a.address_toNat hhigh .trampEnd
    have hcount : (reg .rcx).toNat = a.bytes.length := by
      rw [hrcx, toNat_sub (by rw [hstart, hend]; exact Nat.add_le_add_left (Nat.zero_le _) _), hstart, hend,
        a.length_bytes]
      exact Nat.add_sub_add_left start a.size 0
    have hdst : (reg .rdi).toNat = trampAddr := by rw [hrdi]; decide
    have hlen := a.length_bytes
    have hip := h.ends
    rw [hcount, hrsi, hstart, hdst, copyUp_eq _ _ _ _ (by simp only [offset]; omega)]
    congr 1
    exact hblob.load_eq
  have hexec := h₁.next .repMovsb (bootJumpToKernelAsm.drop 8) _ rfl rfl
    (if_neg (by rw [hdown]; exact Bool.false_ne_true)) (h₁.in64.of_eq rfl rfl rfl) rfl
  obtain ⟨hreach₂, h₂⟩ := hexec fun x hle hlt => by
    simp only [hmem]
    have hle : ip₁ + (a.e64.encode .repMovsb).length ≤ x := hle
    have hle₁ : s.ip + (a.e64.encode .cli).length ≤ ip₁ := hle₁
    exact Mem.sameOutside_store s.mem _ _ x (by rw [a.length_bytes]; omega)
  refine ⟨_, ?_, (hreach₀.trans hreach₁).trans hreach₂, h₂, hmem, hlow.1, hlow.2.1, hlow.2.2.1, hlow.2.2.2, rfl⟩
  have hle₁ : s.ip + (a.e64.encode .cli).length ≤ ip₁ := hle₁
  show s.ip ≤ ip₁ + (a.e64.encode .repMovsb).length
  omega

/-- The slots of the copy are filled. -/
theorem At.filled (h : a.At start (bootJumpToKernelAsm.drop 8) s)
    (hapart : trampAddr + a.size ≤ s.ip ∨ start + a.size ≤ trampAddr) :
    ∃ s', s.ip ≤ s'.ip ∧ Reaches a.e64 a.e32 s s' ∧ a.At start (bootJumpToKernelAsm.drop 11) s' ∧
      s'.mem = ((s.mem.store slotEntry (u32 (s.reg32 .r10))).store slotMbi (u32 (s.reg32 .r11))).store slotMagic
        (u32 (s.reg32 .r8)) ∧ s'.reg = s.reg ∧ s'.interrupts = s.interrupts := by
  have hsize : 0x0E ≤ a.size := by
    unfold size gdtPtrAt gdtAt codeAt
    omega
  -- a store into a slot leaves alone the code, which is apart from the copy
  have hkeeps : ∀ (m : Mem UInt8) (slot : Nat) (v : UInt32), trampAddr ≤ slot → slot + 4 ≤ trampAddr + 0x0E →
      ∀ x, s.ip ≤ x → x < start → m.store slot (u32 v) x = m x := by
    intro m slot v hlow hhigh x hle hlt
    exact Mem.sameOutside_store m slot (u32 v) x (by rw [length_u32]; omega)
  obtain ⟨hreach₁, h₁⟩ := h.next (.store32 (UInt32.ofNat slotEntry) .r10) (bootJumpToKernelAsm.drop 9)
    { s with ip := s.ip + (a.e64.encode (.store32 (UInt32.ofNat slotEntry) .r10)).length,
             mem := s.mem.store slotEntry (u32 (s.reg32 .r10)) }
    rfl rfl rfl (h.in64.of_eq rfl rfl rfl) rfl fun x hle hlt =>
      hkeeps _ _ _ (by decide) (by decide) x (by simp only at hle; omega) hlt
  obtain ⟨hreach₂, h₂⟩ := h₁.next (.store32 (UInt32.ofNat slotMbi) .r11) (bootJumpToKernelAsm.drop 10) _
    rfl rfl rfl (h₁.in64.of_eq rfl rfl rfl) rfl fun x hle hlt =>
      hkeeps _ _ _ (by decide) (by decide) x (by simp only at hle; omega) hlt
  obtain ⟨hreach₃, h₃⟩ := h₂.next (.store32 (UInt32.ofNat slotMagic) .r8) (bootJumpToKernelAsm.drop 11) _
    rfl rfl rfl (h₂.in64.of_eq rfl rfl rfl) rfl fun x hle hlt =>
      hkeeps _ _ _ (by decide) (by decide) x (by simp only at hle; omega) hlt
  exact ⟨_, by simp only; omega, (hreach₁.trans hreach₂).trans hreach₃, h₃, rfl, rfl, rfl⟩

/-- The address of a label in the copy. -/
theorem relocated (hhigh : start + a.size < 2 ^ 64) (label : Label) :
    a.address start label - a.address start .trampStart + signExtend (UInt32.ofNat trampAddr) =
      UInt64.ofNat (trampAddr + a.offset label) := by
  have := a.small
  have := a.offset_le label
  have hstart := a.address_toNat hhigh .trampStart
  have hlabel := a.address_toNat hhigh label
  have hzero : a.offset .trampStart = 0 := rfl
  have haddr : trampAddr = 0x1000 := rfl
  have htramp : (signExtend (UInt32.ofNat trampAddr)).toNat = trampAddr := by decide
  apply UInt64.toNat_inj.1
  rw [UInt64.toNat_add, toNat_sub (by omega), hstart, hlabel, htramp,
    UInt64.toNat_ofNat_of_lt' (show _ < 2 ^ 64 by omega)]
  omega

/-- The GDT pointer of the copy is given its base, the GDT of the copy. -/
theorem At.based (h : a.At start (bootJumpToKernelAsm.drop 11) s)
    (hapart : trampAddr + a.size ≤ s.ip ∨ start + a.size ≤ trampAddr) :
    ∃ s', s.ip ≤ s'.ip ∧ Reaches a.e64 a.e32 s s' ∧ a.At start (bootJumpToKernelAsm.drop 19) s' ∧
      s'.mem = s.mem.store (trampAddr + (a.gdtPtrAt + 2)) (u64 (UInt64.ofNat (trampAddr + a.gdtAt))) ∧
      s'.reg .r12 = a.address start .trampStart ∧ s'.reg .rsp = s.reg .rsp ∧ s'.interrupts = s.interrupts := by
  have hhigh := h.high
  have hsmall := a.small
  have haddr : trampAddr = 0x1000 := rfl
  have hsize : a.size = a.gdtPtrAt + 10 := rfl
  -- the addresses of the GDT and of the base in its pointer
  obtain ⟨ip₁, hle₁, hreach₁, h₁⟩ := At.registers
    [.lea .r12 .trampStart, .lea .rax .gdt, .instr (.sub .rax .r12), .instr (.addImm .rax (UInt32.ofNat trampAddr)),
      .lea .rdx .gdtPtrBase, .instr (.sub .rdx .r12), .instr (.addImm .rdx (UInt32.ofNat trampAddr))]
    (bootJumpToKernelAsm.drop 18) _ h (by decide)
  generalize hreg₁ : List.foldl _ _ _ = reg₁ at hreach₁ h₁
  have hvalues : reg₁ .rax = UInt64.ofNat (trampAddr + a.gdtAt) ∧ reg₁ .r12 = a.address start .trampStart ∧
      reg₁ .rdx = UInt64.ofNat (trampAddr + (a.gdtPtrAt + 2)) ∧ reg₁ .rsp = s.reg .rsp := by
    have hrax := a.relocated hhigh .gdt
    have hrdx := a.relocated hhigh .gdtPtrBase
    rw [← hreg₁]
    simp only [List.foldl, Asm.effect, Function.update_apply, reduceCtorEq, if_false, if_true, hrax, hrdx, offset,
      and_self]
  obtain ⟨hrax, hr12, hrdx, hrsp⟩ := hvalues
  have hdst : (reg₁ .rdx).toNat = trampAddr + (a.gdtPtrAt + 2) := by
    rw [hrdx, UInt64.toNat_ofNat_of_lt' (show _ < 2 ^ 64 by omega)]
  obtain ⟨hreach₂, h₂⟩ := h₁.next (.store64 .rdx .rax) (bootJumpToKernelAsm.drop 19)
    { s with ip := ip₁ + (a.e64.encode (.store64 .rdx .rax)).length, reg := reg₁,
             mem := s.mem.store (reg₁ .rdx).toNat (u64 (reg₁ .rax)) }
    rfl rfl rfl (h₁.in64.of_eq rfl rfl rfl) rfl fun x hle hlt => by
      simp only at hle ⊢
      exact Mem.sameOutside_store s.mem _ _ x (by rw [length_u64]; omega)
  rw [hdst, hrax] at hreach₂ h₂
  exact ⟨_, by simp only; omega, hreach₁.trans hreach₂, h₂, rfl, hr12, hrsp, rfl⟩

/-- The GDT of the copy is loaded. -/
theorem At.loaded (h : a.At start (bootJumpToKernelAsm.drop 19) s) (hr12 : s.reg .r12 = a.address start .trampStart)
    (hlimit : s.mem.Holds (trampAddr + a.gdtPtrAt) (LittleEndian.bytes 2 23))
    (hbase : s.mem.Holds (trampAddr + a.gdtPtrAt + 2) (u64 (UInt64.ofNat (trampAddr + a.gdtAt)))) :
    ∃ s', s.ip ≤ s'.ip ∧ Reaches a.e64 a.e32 s s' ∧ a.At start (bootJumpToKernelAsm.drop 23) s' ∧ s'.mem = s.mem ∧
      s'.gdtBase = trampAddr + a.gdtAt ∧ s'.gdtLimit = 23 ∧ s'.reg .r12 = a.address start .trampStart ∧
      s'.reg .rsp = s.reg .rsp ∧ s'.interrupts = s.interrupts := by
  have hhigh := h.high
  have hsmall := a.small
  have haddr : trampAddr = 0x1000 := rfl
  have hsize : a.size = a.gdtAt + 24 + 10 := rfl
  have hgdtPtr : a.gdtPtrAt = a.gdtAt + 24 := rfl
  obtain ⟨ip₁, hle₁, hreach₁, h₁⟩ := At.registers
    [.lea .rax .gdtPtr, .instr (.sub .rax .r12), .instr (.addImm .rax (UInt32.ofNat trampAddr))]
    (bootJumpToKernelAsm.drop 22) _ h (by decide)
  generalize hreg₁ : List.foldl _ _ _ = reg₁ at hreach₁ h₁
  have hvalues : reg₁ .rax = UInt64.ofNat (trampAddr + a.gdtPtrAt) ∧ reg₁ .r12 = a.address start .trampStart ∧
      reg₁ .rsp = s.reg .rsp := by
    have hptr := a.relocated hhigh .gdtPtr
    rw [← hreg₁]
    simp only [List.foldl, Asm.effect, Function.update_apply, reduceCtorEq, if_false, if_true, hr12, hptr, offset,
      and_self]
  obtain ⟨hrax, hr12, hrsp⟩ := hvalues
  have hsrc : (reg₁ .rax).toNat = trampAddr + a.gdtPtrAt := by
    rw [hrax, UInt64.toNat_ofNat_of_lt' (show _ < 2 ^ 64 by omega)]
  have hgdtBase : (s.mem.read64 (trampAddr + a.gdtPtrAt + 2)).toNat = trampAddr + a.gdtAt := by
    rw [hbase.read64_eq]
    exact UInt64.toNat_ofNat_of_lt' (show _ < 2 ^ 64 by omega)
  have hgdtLimit : value (s.mem.load (trampAddr + a.gdtPtrAt) 2) = 23 := congrArg value hlimit.load_eq
  obtain ⟨hreach₂, h₂⟩ := h₁.next (.lgdt .rax) (bootJumpToKernelAsm.drop 23)
    { s with ip := ip₁ + (a.e64.encode (.lgdt .rax)).length, reg := reg₁, gdtBase := trampAddr + a.gdtAt,
             gdtLimit := 23 }
    rfl rfl (by simp only [exec64, hsrc, hgdtBase, hgdtLimit]) (h₁.in64.of_eq rfl rfl rfl) rfl fun _ _ _ => rfl
  exact ⟨_, by simp only; omega, hreach₁.trans hreach₂, h₂, rfl, rfl, rfl, hr12, hrsp, rfl⟩

/-- The two words of the far return, as the processor reads them back. -/
theorem stack_words (m : Mem UInt8) {sp : Nat} (selector target : UInt64) (h : 16 ≤ sp) :
    ((m.store (sp - 8) (u64 selector)).store (sp - 16) (u64 target)).read64 (sp - 16) = target ∧
      ((m.store (sp - 8) (u64 selector)).store (sp - 16) (u64 target)).read64 (sp - 16 + 8) = selector := by
  have hsp : sp - 16 + 8 = sp - 8 := by omega
  constructor
  · exact (Mem.holds_store _ _ _).read64_eq
  · have hheld := (Mem.holds_store m (sp - 8) (u64 selector)).store (sp - 16) (u64 target)
      (.inr (by rw [length_u64]; omega))
    rw [hsp]
    exact hheld.read64_eq

/-- They are pushed below what the code of the function needs. -/
theorem At.pushed (h : a.At start (bootJumpToKernelAsm.drop 26) s) (hstack : 16 ≤ (s.reg .rsp).toNat)
    (hcode : (s.reg .rsp).toNat ≤ s.ip ∨ start ≤ (s.reg .rsp).toNat - 16) :
    ∃ ip reg mem, (reg .rsp).toNat = (s.reg .rsp).toNat - 16 ∧
      mem = (s.mem.store ((s.reg .rsp).toNat - 8) (u64 8)).store ((s.reg .rsp).toNat - 16) (u64 (s.reg .rax)) ∧
      Reaches a.e64 a.e32 s { s with ip, reg, mem } ∧
      a.At start (bootJumpToKernelAsm.drop 28) { s with ip, reg, mem } := by
  have hsub8 : (s.reg .rsp - 8).toNat = (s.reg .rsp).toNat - 8 := toNat_sub (by show 8 ≤ _; omega)
  have hsub16 : (s.reg .rsp - 8 - 8).toNat = (s.reg .rsp).toNat - 16 := by
    rw [toNat_sub (by rw [hsub8]; show 8 ≤ _; omega), hsub8]
    rfl
  obtain ⟨hreach₁, h₁⟩ := h.next (.pushImm 0x08) (bootJumpToKernelAsm.drop 27)
    { s with ip := s.ip + (a.e64.encode (.pushImm 0x08)).length,
             reg := Function.update s.reg .rsp (s.reg .rsp - 8),
             mem := s.mem.store ((s.reg .rsp).toNat - 8) (u64 8) }
    rfl rfl (by rw [← hsub8]; rfl) (h.in64.of_eq rfl rfl rfl) rfl
    fun x hle hlt => by
      simp only at hle ⊢
      exact Mem.sameOutside_store s.mem _ _ x (by rw [length_u64]; omega)
  obtain ⟨hreach₂, h₂⟩ := h₁.next (.push .rax) (bootJumpToKernelAsm.drop 28)
    { s with ip := s.ip + (a.e64.encode (.pushImm 0x08)).length + (a.e64.encode (.push .rax)).length,
             reg := Function.update (Function.update s.reg .rsp (s.reg .rsp - 8)) .rsp (s.reg .rsp - 8 - 8),
             mem := (s.mem.store ((s.reg .rsp).toNat - 8) (u64 8)).store ((s.reg .rsp).toNat - 16)
               (u64 (s.reg .rax)) }
    rfl rfl (by rw [← hsub16]; rfl) (h₁.in64.of_eq rfl rfl rfl) rfl
    fun x hle hlt => by
      simp only at hle ⊢
      exact Mem.sameOutside_store _ _ _ x (by rw [length_u64]; omega)
  exact ⟨_, _, _, by rw [Function.update_self, hsub16], rfl, hreach₁.trans hreach₂, h₂⟩

/-- The far return: two words on the stack, and the processor is in the copy. -/
theorem At.returned (h : a.At start (bootJumpToKernelAsm.drop 23) s) (hbase : s.gdtBase = trampAddr + a.gdtAt)
    (hlimit : s.gdtLimit = 23) (hr12 : s.reg .r12 = a.address start .trampStart) (hstack : 16 ≤ (s.reg .rsp).toNat)
    (hcode : (s.reg .rsp).toNat ≤ s.ip ∨ start ≤ (s.reg .rsp).toNat - 16)
    (hcopy : (s.reg .rsp).toNat ≤ trampAddr ∨ trampAddr + a.size ≤ (s.reg .rsp).toNat - 16)
    (hgdt : s.mem.Holds (trampAddr + a.gdtAt + 8) (flatBytes 0x9A)) :
    ∃ s', Reaches a.e64 a.e32 s s' ∧ In32 (trampAddr + a.gdtAt) 23 s' ∧ s'.ip = trampAddr + codeAt ∧
      s'.code = flatDescriptor 0x9B ∧
      s'.mem = ((s.mem.store ((s.reg .rsp).toNat - 8) (u64 8)).store ((s.reg .rsp).toNat - 16)
        (u64 (UInt64.ofNat (trampAddr + codeAt)))).store (trampAddr + a.gdtAt + 8 + 5) [0x9B] ∧
      s'.interrupts = s.interrupts := by
  have hsize : a.size = a.gdtAt + 24 + 10 := rfl
  -- the address
  obtain ⟨ip₁, hle₁, hreach₁, h₁⟩ := At.registers
    [.lea .rax .trampCode, .instr (.sub .rax .r12), .instr (.addImm .rax (UInt32.ofNat trampAddr))]
    (bootJumpToKernelAsm.drop 26) _ h (by decide)
  generalize hreg₁ : List.foldl _ _ _ = reg₁ at hreach₁ h₁
  have hvalues : reg₁ .rax = UInt64.ofNat (trampAddr + codeAt) ∧ reg₁ .rsp = s.reg .rsp := by
    have hcode := a.relocated h.high .trampCode
    rw [← hreg₁]
    simp only [List.foldl, Asm.effect, Function.update_apply, reduceCtorEq, if_false, if_true, hr12, hcode, offset,
      and_self]
  obtain ⟨hrax, hrsp⟩ := hvalues
  -- the selector and the address, pushed
  obtain ⟨ip₂, reg₂, mem, hrsp₂, hmem, hreach₂, h₂⟩ :=
    h₁.pushed (by simpa only [hrsp] using hstack) (by simp only [hrsp]; omega)
  simp only [hrax, hrsp] at hmem hrsp₂
  obtain ⟨htarget, hselector⟩ := stack_words s.mem 8 (UInt64.ofNat (trampAddr + codeAt)) hstack
  rw [← hmem] at htarget hselector ⊢
  have hdescriptor : mem.Holds (trampAddr + a.gdtAt + 8) (flatBytes 0x9A) := by
    have hlen : (flatBytes 0x9A).length = 8 := rfl
    rw [hmem]
    exact (hgdt.store _ _ (by rw [length_u64]; omega)).store _ _ (by rw [length_u64]; omega)
  have hin₂ := h₂.in64
  obtain ⟨h32, hlong, hflat⟩ := flatDescriptor_32 0x9B
  refine ⟨{ s with ip := trampAddr + codeAt, reg := Function.update reg₂ .rsp (reg₂ .rsp + 16),
                   code := flatDescriptor 0x9B, mem := mem.store (trampAddr + a.gdtAt + 8 + 5) [0x9B] },
    (hreach₁.trans hreach₂).trans (reaches_step64 a.e64 a.e32 hin₂ h₂.code ?_),
    ⟨hin₂.pe, h32, hlong, hflat, hbase, hlimit⟩, rfl, rfl, rfl, rfl⟩
  simp only [exec64, hrsp₂, htarget, hselector]
  have htarget : (UInt64.ofNat (trampAddr + codeAt)).toNat = trampAddr + codeAt := by decide
  refine (loadCode_flat 8 _ rfl (by decide) (hlimit.symm ▸ by decide) (.inl rfl) ?_).trans ?_
  · exact hbase.symm ▸ hdescriptor
  · simp only [State.set, hbase, htarget]
    rfl

end

end Assembled

end Bang
