/-
The two ways into a kernel on the processor: from the call of `boot_jump_to_kernel` or of `boot_handoff_64` it
comes to the kernel's first instruction, as the model of the handoff says. The trampoline writes to memory
besides its copy: two words on the stack it is called on, and the marks of the processor in the copy's GDT.
-/
import Bang.Handoff.FarReturn
import Bang.Handoff.ProtectedMode
import Bang.Machine.X86Encoding

namespace Bang

open LittleEndian X86

/-- The processor is at the first instruction of a kernel; the memory at some addresses does not matter. -/
def Entered.On (scratch : Nat → Prop) : Entered → State → Prop
  | .protected32 eip eax ebx m, s =>
    Protected s ∧ s.ip = eip.toNat ∧ s.reg32 .rax = eax ∧ s.reg32 .rbx = ebx ∧ ∀ x, ¬ scratch x → s.mem x = m x
  | .long64 rip rdi rsi m, s =>
    s.mode = some .bits64 ∧ s.interrupts = false ∧ s.ip = rip.toNat ∧ s.reg .rdi = rdi ∧ s.reg .rsi = rsi ∧
      ∀ x, ¬ scratch x → s.mem x = m x

namespace Assembled

variable (a : Assembled)

/-- `boot_jump_to_kernel` is called, in 64-bit mode: its code and the blob are in memory, and neither they nor
the stack are where the copy goes. -/
structure Called (s : State) : Prop where
  in64 : In64 s
  up : s.down = false
  code : s.mem.Holds s.ip (a.e64.assemble a.jumpCode ++ a.bytes)
  high : s.ip + a.e64.size a.jumpCode + a.size < 2 ^ 64
  apart : trampAddr + a.size ≤ s.ip ∨ s.ip + a.e64.size a.jumpCode + a.size ≤ trampAddr
  stack : 16 ≤ (s.reg .rsp).toNat
  stackCode : (s.reg .rsp).toNat ≤ s.ip ∨ s.ip + a.e64.size a.jumpCode ≤ (s.reg .rsp).toNat - 16
  stackCopy : (s.reg .rsp).toNat ≤ trampAddr ∨ trampAddr + a.size ≤ (s.reg .rsp).toNat - 16

/-- What the trampoline writes to besides its copy: the words it pushes, and the marks. -/
def Scratch (s : State) (x : Nat) : Prop :=
  a.Marked x ∨ (s.reg .rsp).toNat - 16 ≤ x ∧ x < (s.reg .rsp).toNat

variable {a} {s : State}

theorem Called.at (h : a.Called s) : a.At (s.ip + a.e64.size a.jumpCode) bootJumpToKernelAsm s :=
  ⟨h.in64, h.code.left, rfl, a.small, h.high⟩

/-- The far return is reached, with the copy as the model has it. -/
theorem Called.returns (h : a.Called s) : ∃ s', Reaches a.e64 a.e32 s s' ∧ In32 a.gdtCopy 23 s' ∧
    s'.ip = trampAddr + codeAt ∧ s'.interrupts = false ∧
    s'.mem = (((copyTrampoline a.blob (s.reg32 .rcx) (s.reg32 .rdx) (s.reg32 .r8) s.mem).store
      ((s.reg .rsp).toNat - 8) (u64 8)).store ((s.reg .rsp).toNat - 16) (u64 (UInt64.ofNat (trampAddr + codeAt)))).store
        (a.gdtCopy + 8 + 5) [0x9B] := by
  obtain ⟨s₁, hle₁, hreach₁, h₁, hmem₁, hr10, hr11, hr8, hrsp₁, hint₁⟩ := h.at.copied h.up h.code.right h.apart
  have hapart := h.apart
  have hstackCode := h.stackCode
  obtain ⟨s₂, hle₂, hreach₂, h₂, hmem₂, hreg₂, hint₂⟩ := h₁.filled (by omega)
  -- the copy with its slots filled, and the base of its GDT pointer still to come
  have hslots : s₂.mem.store (trampAddr + (a.gdtPtrAt + 2)) (u64 (UInt64.ofNat (trampAddr + a.gdtAt))) =
      copyTrampoline a.blob (s.reg32 .rcx) (s.reg32 .rdx) (s.reg32 .r8) s.mem := by
    rw [hmem₂, hmem₁, hr10, hr11, show s₁.reg32 .r8 = s.reg32 .r8 from congrArg UInt64.toUInt32 hr8]
    rfl
  obtain ⟨s₃, hle₃, hreach₃, h₃, hmem₃, hr12₃, hrsp₃, hint₃⟩ := h₂.based (by omega)
  have hbased : s₃.mem.Holds (trampAddr + (a.gdtPtrAt + 2)) (u64 (UInt64.ofNat (trampAddr + a.gdtAt))) := by
    rw [hmem₃]
    exact Mem.holds_store _ _ _
  rw [hslots] at hmem₃
  obtain ⟨s₄, hle₄, hreach₄, h₄, hmem₄, hbase₄, hlimit₄, hr12₄, hrsp₄, hint₄⟩ := h₃.loaded hr12₃
    (by rw [hmem₃]; exact a.copy_limit _ _ _ _) hbased
  rw [hmem₃] at hmem₄
  have hrsp : s₄.reg .rsp = s.reg .rsp := by rw [hrsp₄, hrsp₃, hreg₂, hrsp₁]
  have hgdt : s₄.mem.Holds (trampAddr + a.gdtAt + 8) (flatBytes 0x9A) := by
    rw [hmem₄]
    exact (a.copy_gdt _ _ _ _).left.right
  obtain ⟨s₅, hreach₅, h₅, hip₅, -, hmem₅, hint₅⟩ := h₄.returned hbase₄ hlimit₄ hr12₄ (by rw [hrsp]; exact h.stack)
    (by rw [hrsp]; omega) (by rw [hrsp]; exact h.stackCopy) hgdt
  refine ⟨s₅, (((hreach₁.trans hreach₂).trans hreach₃).trans hreach₄).trans hreach₅, h₅, hip₅, ?_, ?_⟩
  · rw [hint₅, hint₄, hint₃, hint₂, hint₁]
  · rw [hmem₅, hmem₄, hrsp]
    rfl

/-- The copy is in memory as it was linked, with its slots filled. -/
theorem Called.inCopy (h : a.Called s) : ∃ s', Reaches a.e64 a.e32 s s' ∧ s'.interrupts = false ∧
    a.InCopy (((copyTrampoline a.blob (s.reg32 .rcx) (s.reg32 .rdx) (s.reg32 .r8) s.mem).store
      ((s.reg .rsp).toNat - 8) (u64 8)).store ((s.reg .rsp).toNat - 16) (u64 (UInt64.ofNat (trampAddr + codeAt))))
        a.blobCode s' := by
  obtain ⟨s', hreach, hin, hip, hint, hmem⟩ := h.returns
  have hstack := h.stack
  have hcopy := h.stackCopy
  have hsize : a.size = a.gdtAt + 24 + 10 := rfl
  have hcodeSize : a.e32.size a.blobCode = (a.e32.assemble a.blobCode).length := rfl
  have hgdtCopy : a.gdtCopy = trampAddr + a.gdtAt := rfl
  have hgdtAt : codeAt + a.e32.size a.blobCode ≤ a.gdtAt := Nat.le_add_right _ _
  -- the words on the stack are outside the copy, the mark in its GDT
  have hkept : ∀ (off : Nat) (piece : List UInt8), off + piece.length ≤ a.size →
      (copyTrampoline a.blob (s.reg32 .rcx) (s.reg32 .rdx) (s.reg32 .r8) s.mem).Holds (trampAddr + off) piece →
      (((copyTrampoline a.blob (s.reg32 .rcx) (s.reg32 .rdx) (s.reg32 .r8) s.mem).store ((s.reg .rsp).toNat - 8)
        (u64 8)).store ((s.reg .rsp).toNat - 16) (u64 (UInt64.ofNat (trampAddr + codeAt)))).Holds (trampAddr + off)
          piece := by
    intro off piece hoff hheld
    exact (hheld.store _ _ (by rw [length_u64]; omega)).store _ _ (by rw [length_u64]; omega)
  have hgdt := a.copy_gdt (s.reg32 .rcx) (s.reg32 .rdx) (s.reg32 .r8) s.mem
  refine ⟨s', hreach, hint, hin, ?_, by rw [hip], ⟨0x9B, .inr rfl, ?_⟩, ⟨0x92, .inl rfl, ?_⟩, fun x hx => ?_⟩
  · show s'.mem.Holds s'.ip _
    rw [hmem, hip]
    exact (hkept codeAt _ (by omega) (a.copy_code _ _ _ _)).store _ _ (.inl (by omega))
  · rw [hmem]
    have hheld := hkept (a.gdtAt + 8) (flatBytes 0x9A) (by simp [flatBytes]; omega) hgdt.left.right
    exact holds_touched hheld 0x9B
  · rw [hmem]
    have hheld := hkept (a.gdtAt + 16) (flatBytes 0x92) (by simp [flatBytes]; omega) hgdt.right
    exact Mem.Holds.store hheld _ _ (.inr (by simp; omega))
  · rw [hmem]
    unfold Marked at hx
    exact Mem.sameOutside_store _ _ _ x (by rw [List.length_singleton]; omega)

/-- The slots of the copy hold the kernel's parameters. -/
theorem copy_slots (blob : Blob) (entry mbiAddr magic : UInt32) (m : Mem UInt8) :
    (copyTrampoline blob entry mbiAddr magic m).Holds slotEntry (u32 entry) ∧
      (copyTrampoline blob entry mbiAddr magic m).Holds slotMbi (u32 mbiAddr) ∧
      (copyTrampoline blob entry mbiAddr magic m).Holds slotMagic (u32 magic) := by
  have hslots := blob.slots
  refine ⟨copyTrampoline_entry blob entry mbiAddr magic m, ?_, ?_⟩
  · unfold copyTrampoline slotEntry slotMbi slotMagic
    refine ((Mem.holds_store _ _ _).store _ _ ?_).store _ _ ?_ <;> rw [length_u32] <;> omega
  · unfold copyTrampoline slotEntry slotMbi slotMagic
    refine (Mem.holds_store _ _ _).store _ _ ?_
    rw [length_u32]
    omega

/-- The kernel's first instruction is reached, with the kernel's parameters and a stack of its own. -/
theorem Called.reaches (h : a.Called s) : ∃ s', Reaches a.e64 a.e32 s s' ∧ Protected s' ∧ s'.ip = (s.reg32 .rcx).toNat ∧
    s'.reg32 .rax = s.reg32 .r8 ∧ s'.reg32 .rbx = s.reg32 .rdx ∧ s'.reg32 .rsp = 0x7C00 ∧
    ∀ x, ¬ a.Scratch s x → s'.mem x = copyTrampoline a.blob (s.reg32 .rcx) (s.reg32 .rdx) (s.reg32 .r8) s.mem x := by
  obtain ⟨s₁, hreach₁, hint₁, h₁⟩ := h.inCopy
  have hstack := h.stack
  have hcopy := h.stackCopy
  have hsize : 0x0E ≤ a.size := by
    unfold Assembled.size gdtPtrAt gdtAt codeAt
    omega
  obtain ⟨hentry, hmbi, hmagic⟩ := copy_slots a.blob (s.reg32 .rcx) (s.reg32 .rdx) (s.reg32 .r8) s.mem
  generalize copyTrampoline a.blob (s.reg32 .rcx) (s.reg32 .rdx) (s.reg32 .r8) s.mem = copied at h₁ hentry hmbi hmagic ⊢
  -- the words on the stack are not in the slots
  have hkept : ∀ (slot : Nat) (v : UInt32), trampAddr ≤ slot → slot + 4 ≤ trampAddr + 0x0E → copied.Holds slot (u32 v) →
      ((copied.store ((s.reg .rsp).toNat - 8) (u64 8)).store ((s.reg .rsp).toNat - 16)
        (u64 (UInt64.ofNat (trampAddr + codeAt)))).Holds slot (u32 v) := by
    intro slot v hlow hhigh hheld
    exact (hheld.store _ _ (by rw [length_u32, length_u64]; omega)).store _ _ (by rw [length_u32, length_u64]; omega)
  obtain ⟨s', hreach, hprotected, hip, heax, hebx, hesp, hmem⟩ := h₁.reaches ⟨hkept _ _ (by decide) (by decide) hentry,
    hkept _ _ (by decide) (by decide) hmbi, hkept _ _ (by decide) (by decide) hmagic⟩ hint₁
  refine ⟨s', hreach₁.trans hreach, hprotected, hip, heax, hebx, hesp, fun x hx => ?_⟩
  unfold Scratch at hx
  rw [hmem x fun hmarked => hx (.inl hmarked), Mem.sameOutside_store _ _ _ x (by rw [length_u64]; omega),
    Mem.sameOutside_store _ _ _ x (by rw [length_u64]; omega)]

end Assembled

/-- From its call, the trampoline comes to the kernel, in protected mode, with a stack of its own. -/
theorem bootJumpToKernel_on (a : Assembled) {s : State} (h : a.Called s) :
    ∃ s', Reaches a.e64 a.e32 s s' ∧ s'.reg32 .rsp = 0x7C00 ∧
      (bootJumpToKernel a.blob (s.reg32 .rcx) (s.reg32 .rdx) (s.reg32 .r8) s.mem).On (a.Scratch s) s' := by
  obtain ⟨s', hreach, hprotected, hip, heax, hebx, hesp, hmem⟩ := h.reaches
  rw [bootJumpToKernel_eq]
  exact ⟨s', hreach, hesp, hprotected, hip, heax, hebx, hmem⟩

/-- The source as it is assembled with the encodings of the processor, at an address that is as aligned as the
GDT has to be. -/
def assembled : Assembled where
  e64 := encoding64
  e32 := encoding32
  pad := List.replicate 15 0
  window64 := by decide
  window32 := by decide
  padded := by decide
  short _ := rfl
  far _ _ := rfl

/-- The processor under the firmware, with all of the first four gigabytes in its data segments. -/
def underFirmware (reg : Reg → UInt64) (ip : Nat) (mem : Mem UInt8) : State where
  reg
  ip
  code := ⟨0, 2 ^ 32 - 1, 0x9B, 0b1010⟩
  seg _ := flatDescriptor 0x93
  gdtBase := 0
  gdtLimit := 0
  cr0 := 0x80000011
  cr3 := 0x3000
  efer := 0x500
  interrupts := true
  down := false
  mem

theorem underFirmware_in64 (reg : Reg → UInt64) (ip : Nat) (mem : Mem UInt8) : In64 (underFirmware reg ip mem) := by
  show modeOf ((0x80000011 : UInt32).toNat.testBit 0) ((0x500 : UInt64).toNat.testBit 10)
    ⟨0, 2 ^ 32 - 1, 0x9B, 0b1010⟩ = _
  decide

/-- Where the call is made with a kernel at one megabyte. -/
theorem bootJumpToKernel_on_firmware : ∃ s, assembled.Called s ∧
    ∃ s', Reaches assembled.e64 assembled.e32 s s' ∧ s'.reg32 .rsp = 0x7C00 ∧
      (bootJumpToKernel assembled.blob (s.reg32 .rcx) (s.reg32 .rdx) (s.reg32 .r8) s.mem).On
        (assembled.Scratch s) s' := by
  generalize hs : underFirmware (fun | .rcx => 0x100000 | .rsp => 0x1F0000 | _ => 0) 0x200000
    (Mem.store (fun _ => 0) 0x200000 (assembled.e64.assemble assembled.jumpCode ++ assembled.bytes)) = s
  have hip : s.ip = 0x200000 := by rw [← hs]; rfl
  have hrsp : (s.reg .rsp).toNat = 0x1F0000 := by rw [← hs]; rfl
  have haddr : trampAddr = 0x1000 := rfl
  have hsmall := assembled.small
  have hcalled : assembled.Called s := by
    refine ⟨hs ▸ underFirmware_in64 _ _ _, hs ▸ rfl, hs ▸ Mem.holds_store _ _ _, ?_, ?_, ?_, ?_, ?_⟩ <;> omega
  exact ⟨_, hcalled, bootJumpToKernel_on assembled hcalled⟩

/-- From its call, the direct handoff comes to the kernel's first instruction, and leaves memory alone. -/
theorem reaches_handoff64 (e64 : Machine.Encoding Instr64) (e32 : Machine.Encoding Instr32) {s : State} (hin : In64 s)
    (hcode : (way64 e64).CodeAt s bootHandoff64Code) : ∃ s', Reaches e64 e32 s s' ∧ In64 s' ∧ s'.interrupts = false ∧
      s'.ip = (s.reg .rcx).toNat ∧ s'.reg .rdi = bangHandoffMagic ∧ s'.reg .rsi = s.reg .rdx ∧
      (s'.reg .rsp).toNat = 0x7C00 ∧ s'.mem = s.mem := by
  obtain ⟨hreach₁, hin₁, hcode₁, -⟩ := reaches_execAll64 e64 e32
    [.cli, .movImm .rsp 0x7C00, .movImm .rdi 0x42414E47, .mov .rsi .rdx] [.jmp .rcx, .hlt, .jmpShort 0xFD]
    (fun i hi => straight_onRegisters e64 (by revert i hi; decide) _ _) hin hcode (Nat.le_refl _) (Nat.le_refl _) rfl
  refine ⟨_, hreach₁.trans (reaches_step64 e64 e32 hin₁ hcode₁ rfl), hin₁.of_eq rfl rfl rfl, rfl, ?_, ?_, ?_, ?_, rfl⟩
  · simp [State.set, way64]
  · have hmagic : signExtend 0x42414E47 = bangHandoffMagic := by decide
    simpa [State.set, way64] using hmagic
  · simp [State.set, way64]
  · have hstack : (signExtend 0x7C00).toNat = 0x7C00 := by decide
    simpa [State.set, way64] using hstack

/-- The direct handoff does on the processor what the model says, with a stack of its own. -/
theorem bootHandoff64_on (e64 : Machine.Encoding Instr64) (e32 : Machine.Encoding Instr32) {s : State} (hin : In64 s)
    (hcode : (way64 e64).CodeAt s bootHandoff64Code) : ∃ s', Reaches e64 e32 s s' ∧ (s'.reg .rsp).toNat = 0x7C00 ∧
      (bootHandoff64 (s.reg .rcx) (s.reg .rdx) s.mem).On (fun _ => False) s' := by
  obtain ⟨s', hreach, hin', hint, hip, hrdi, hrsi, hrsp, hmem⟩ := reaches_handoff64 e64 e32 hin hcode
  exact ⟨s', hreach, hrsp, hin', hint, hip, hrdi, hrsi, fun x _ => by rw [hmem]⟩

theorem bootHandoff64_on_firmware : ∃ s, In64 s ∧ (way64 encoding64).CodeAt s bootHandoff64Code ∧
    ∃ s', Reaches encoding64 encoding32 s s' ∧ (s'.reg .rsp).toNat = 0x7C00 ∧
      (bootHandoff64 (s.reg .rcx) (s.reg .rdx) s.mem).On (fun _ => False) s' := by
  have hcode : (way64 encoding64).CodeAt (underFirmware (fun _ => 0) 0x200000
      (Mem.store (fun _ => 0) 0x200000 (encoding64.assemble bootHandoff64Code))) bootHandoff64Code :=
    Mem.holds_store _ _ _
  exact ⟨_, underFirmware_in64 _ _ _, hcode, bootHandoff64_on encoding64 encoding32 (underFirmware_in64 _ _ _) hcode⟩

end Bang
