/-
The copy of the blob on the processor, from the far return to the jump to the kernel: paging and long mode are
turned off in the order the processor allows, the flat segments are loaded, and the kernel's parameters are
taken from the slots. The processor writes to the copy's GDT on the way, where it marks what it has used.
-/
import Bang.Handoff.Assembly
import Bang.Machine.X86Rules

namespace Bang

open LittleEndian X86

/-- The processor as a Multiboot kernel expects it: flat segments, neither paging nor long mode, no interrupts. -/
structure Protected (s : State) : Prop where
  mode : s.mode = some .bits32
  paging : s.pg = false
  lme : s.lme = false
  lma : s.lma = false
  code : s.code = flatDescriptor 0x9B
  data : ∀ r, s.seg r = flatDescriptor 0x93
  interrupts : s.interrupts = false

namespace Assembled

variable (a : Assembled)

/-- Where the copy's GDT is. -/
def gdtCopy : Nat := trampAddr + a.gdtAt

/-- The bytes of the copy the processor marks descriptors in. -/
def Marked (x : Nat) : Prop := x = a.gdtCopy + 8 + 5 ∨ x = a.gdtCopy + 16 + 5

/-- The code `rest` of the copy is next; memory is as it was in `m`, but for the marks. -/
structure InCopy (m : Mem UInt8) (rest : List Instr32) (s : State) : Prop where
  in32 : In32 a.gdtCopy 23 s
  code : (way32 a.e32).CodeAt s rest
  ends : s.ip + a.e32.size rest = trampAddr + codeAt + a.e32.size a.blobCode
  codeEntry : ∃ access, (access = 0x9A ∨ access = 0x9B) ∧ s.mem.Holds (a.gdtCopy + 8) (flatBytes access)
  dataEntry : ∃ access, (access = 0x92 ∨ access = 0x93) ∧ s.mem.Holds (a.gdtCopy + 16) (flatBytes access)
  same : ∀ x, ¬ a.Marked x → s.mem x = m x

namespace InCopy

variable {a} {m : Mem UInt8} {rest : List Instr32} {s s' : State}

/-- The code of the copy is in front of its GDT. -/
theorem below (h : a.InCopy m rest s) : s.ip + a.e32.size rest ≤ a.gdtCopy := by
  have hends := h.ends
  unfold gdtCopy gdtAt
  omega

/-- Instructions that fall through, and write to memory at most to mark a descriptor. -/
theorem run (code : List Instr32) (h : a.InCopy m (code ++ rest) s) (hfalls : ∀ i ∈ code, i.falls = true)
    (hexec : (way32 a.e32).execAll code s = some s') (hmem : s'.mem = s.mem) :
    Reaches a.e64 a.e32 s s' ∧ a.InCopy m rest s' := by
  obtain ⟨hreach, hin, hcode, hip⟩ := reaches_execAll32 a.e64 a.e32 hfalls (.inl (Nat.le_refl _)) h.in32 h.code
    (Nat.le_refl _) h.below hexec
  have hends := h.ends
  rw [Machine.Encoding.size_append] at hends
  refine ⟨hreach, hin, hcode, by omega, ?_, ?_, ?_⟩
  · rw [hmem]
    exact h.codeEntry
  · rw [hmem]
    exact h.dataEntry
  · rw [hmem]
    exact h.same

/-- One instruction, which leaves memory alone. -/
theorem next {i : Instr32} (h : a.InCopy m (i :: rest) s)
    (hexec : exec32 i { s with ip := s.ip + (a.e32.encode i).length } = some s') (hin : In32 a.gdtCopy 23 s')
    (hip : s'.ip = s.ip + (a.e32.encode i).length) (hmem : s'.mem = s.mem) :
    Reaches a.e64 a.e32 s s' ∧ a.InCopy m rest s' := by
  have hends := h.ends
  rw [Machine.Encoding.size_cons] at hends
  have hcode : s.mem.Holds s.ip (a.e32.encode i ++ a.e32.assemble rest) := h.code
  refine ⟨reaches_step32 a.e64 a.e32 h.in32 h.code hexec, hin, ?_, by omega, ?_, ?_, ?_⟩
  · show s'.mem.Holds s'.ip (a.e32.assemble rest)
    rw [hmem, hip]
    exact hcode.right
  · rw [hmem]
    exact h.codeEntry
  · rw [hmem]
    exact h.dataEntry
  · rw [hmem]
    exact h.same

/-- Load one data segment. -/
theorem segment {r : Seg} (h : a.InCopy m (.movSeg r .eax :: rest) s) (hax : (s.reg .rax).toUInt16 = dataSelector) :
    ∃ ip mem, Reaches a.e64 a.e32 s { s with ip, mem, seg := Function.update s.seg r (flatDescriptor 0x93) } ∧
      a.InCopy m rest { s with ip, mem, seg := Function.update s.seg r (flatDescriptor 0x93) } := by
  obtain ⟨access, haccess, hheld⟩ := h.dataEntry
  obtain ⟨access', haccess', hheld'⟩ := h.codeEntry
  have hends := h.ends
  have hbelow := h.below
  rw [Machine.Encoding.size_cons] at hends hbelow
  have hload := loadSeg_flat (s := { s with ip := s.ip + (a.e32.encode (.movSeg r .eax)).length }) dataSelector r rfl
    (by decide) (h.in32.limit.symm ▸ by decide) haccess (h.in32.base.symm ▸ hheld)
  have hexec : exec32 (.movSeg r .eax) { s with ip := s.ip + (a.e32.encode (.movSeg r .eax)).length } =
      some { s with ip := s.ip + (a.e32.encode (.movSeg r .eax)).length,
                    seg := Function.update s.seg r (flatDescriptor 0x93),
                    mem := s.mem.store (a.gdtCopy + 16 + 5) [0x93] } := by
    rw [← h.in32.base]
    exact (congrArg (State.loadSeg _ r) hax).trans hload
  have hcode : s.mem.Holds s.ip (a.e32.encode (.movSeg r .eax) ++ a.e32.assemble rest) := h.code
  have hlen : (flatBytes access').length = 8 := rfl
  have hsize : a.e32.size rest = (a.e32.assemble rest).length := rfl
  refine ⟨_, _, reaches_step32 a.e64 a.e32 h.in32 h.code hexec,
    ⟨h.in32.pe, h.in32.default32, h.in32.long, h.in32.flat, h.in32.base, h.in32.limit⟩, ?_, ?_, ?_, ?_, ?_⟩
  · exact hcode.right.congr fun x hle hlt => Mem.store_below _ _ (by omega)
  · simp only
    omega
  · exact ⟨access', haccess', hheld'.store _ _ (.inl (by omega))⟩
  · exact ⟨0x93, .inr rfl, holds_touched hheld 0x93⟩
  · intro x hx
    rw [← h.same x hx]
    unfold Marked at hx
    exact Mem.sameOutside_store s.mem _ _ x (by rw [List.length_singleton]; omega)

/-- Load some data segments. -/
theorem segments (segs : List Seg) : ∀ s, a.InCopy m (segs.map (.movSeg · .eax) ++ rest) s →
    (s.reg .rax).toUInt16 = dataSelector →
    ∃ ip mem seg, Reaches a.e64 a.e32 s { s with ip, mem, seg } ∧ a.InCopy m rest { s with ip, mem, seg } ∧
      (∀ r ∈ segs, seg r = flatDescriptor 0x93) ∧ ∀ r, s.seg r = flatDescriptor 0x93 → seg r = flatDescriptor 0x93 := by
  induction segs with
  | nil =>
    intro s h _
    exact ⟨s.ip, s.mem, s.seg, .refl, h, (fun r hr => by cases hr), fun r hr => hr⟩
  | cons r segs ih =>
    intro s h hax
    obtain ⟨ip₁, mem₁, hreach₁, h₁⟩ := h.segment hax
    obtain ⟨ip₂, mem₂, seg₂, hreach₂, h₂, hloaded, hkept⟩ := ih _ h₁ hax
    refine ⟨ip₂, mem₂, seg₂, hreach₁.trans hreach₂, h₂, fun r' hr' => ?_, fun r' hr' => hkept r' ?_⟩
    · rcases List.mem_cons.1 hr' with rfl | hr'
      · exact hkept r' (Function.update_self ..)
      · exact hloaded r' hr'
    · by_cases heq : r' = r
      · subst heq
        exact Function.update_self ..
      · exact (Function.update_of_ne heq ..).trans hr'

/-- `loadDataSegments` loads all of them. -/
theorem dataSegments (h : a.InCopy m (loadDataSegments ++ rest) s) :
    ∃ ip mem seg rax, Reaches a.e64 a.e32 s { s with ip, mem, seg, reg := Function.update s.reg .rax rax } ∧
      a.InCopy m rest { s with ip, mem, seg, reg := Function.update s.reg .rax rax } ∧
      ∀ r, seg r = flatDescriptor 0x93 := by
  have hfirst : a.InCopy m
      (.mov16 .eax dataSelector :: ([Seg.ds, .es, .fs, .gs, .ss].map (.movSeg · .eax) ++ rest)) s := h
  obtain ⟨hreach₁, h₁⟩ := hfirst.next rfl
    ⟨h.in32.pe, h.in32.default32, h.in32.long, h.in32.flat, h.in32.base, h.in32.limit⟩ rfl rfl
  obtain ⟨ip, mem, seg, hreach₂, h₂, hloaded, -⟩ := segments _ _ h₁ (low16 _ _)
  refine ⟨ip, mem, seg, _, hreach₁.trans hreach₂, h₂, fun r => hloaded r ?_⟩
  cases r <;> decide

/-! ## The switches -/

/-- `cr0` is written with paging off and protection on. -/
theorem pagingOff (h : a.InCopy m (.toCr0 .eax :: rest) s) (hpe : (s.reg32 .rax).toNat.testBit 0 = true)
    (hpg : (s.reg32 .rax).toNat.testBit 31 = false) :
    ∃ ip, Reaches a.e64 a.e32 s { s with ip, cr0 := s.reg32 .rax, efer := s.efer &&& 0xFFFFFFFFFFFFFBFF } ∧
      a.InCopy m rest { s with ip, cr0 := s.reg32 .rax, efer := s.efer &&& 0xFFFFFFFFFFFFFBFF } := by
  refine ⟨_, h.next ?_ ⟨hpe, h.in32.default32, h.in32.long, h.in32.flat, h.in32.base, h.in32.limit⟩ rfl rfl⟩
  have hmode : ({ s with ip := s.ip + (a.e32.encode (.toCr0 .eax)).length } : State).mode ≠ some .bits64 := by
    have hin : In32 a.gdtCopy 23 { s with ip := s.ip + (a.e32.encode (.toCr0 .eax)).length } :=
      ⟨h.in32.pe, h.in32.default32, h.in32.long, h.in32.flat, h.in32.base, h.in32.limit⟩
    rw [hin.mode]
    decide
  have hpg : ¬ (s.reg32 .rax).toNat.testBit 31 = true := by simp [hpg]
  exact (if_neg hpg).trans (if_neg hmode)

end InCopy

/-- The bits of `cr0` that matter, with paging turned off. -/
theorem bits_cr0 (x : UInt32) : (x &&& 0x7FFFFFFF).toNat.testBit 31 = false ∧
    (x &&& 0x7FFFFFFF).toNat.testBit 0 = x.toNat.testBit 0 := by
  have h31 : (0x7FFFFFFF : UInt32).toNat.testBit 31 = false := by decide
  have h0 : (0x7FFFFFFF : UInt32).toNat.testBit 0 = true := by decide
  rw [UInt32.toNat_and, Nat.testBit_and, Nat.testBit_and, h31, h0, Bool.and_false, Bool.and_true]
  exact ⟨rfl, rfl⟩

/-- The bit of the switch for long mode in what is written back to `efer`. -/
theorem bits_efer (high low : UInt32) (efer : UInt64) :
    (((high.toUInt64 <<< 32 ||| (low &&& 0xFFFFFEFF).toUInt64) &&& 0xFFFFFFFFFFFFFBFF) |||
      (efer &&& 0x400)).toNat.testBit 8 = false := by
  have hmask : (0xFFFFFEFF : UInt32).toNat.testBit 8 = false := by decide
  have hlma : (0x400 : UInt64).toNat.testBit 8 = false := by decide
  have hshift : (high.toUInt64 <<< 32).toNat.testBit 8 = false := by
    rw [UInt64.toNat_shiftLeft, Nat.testBit_mod_two_pow]
    simp
  rw [UInt64.toNat_or, UInt64.toNat_and, UInt64.toNat_and, UInt64.toNat_or, UInt32.toNat_toUInt64, UInt32.toNat_and]
  simp only [Nat.testBit_or, Nat.testBit_and, hshift, hmask, hlma, Bool.and_false, Bool.or_false, Bool.false_and]

/-- The switch for long mode, and whether it is active, once paging is off. -/
theorem bits_unpaged (efer : UInt64) : (efer &&& 0xFFFFFFFFFFFFFBFF).toNat.testBit 10 = false ∧
    (efer &&& 0xFFFFFFFFFFFFFBFF).toNat.testBit 8 = efer.toNat.testBit 8 := by
  have h10 : (0xFFFFFFFFFFFFFBFF : UInt64).toNat.testBit 10 = false := by decide
  have h8 : (0xFFFFFFFFFFFFFBFF : UInt64).toNat.testBit 8 = true := by decide
  rw [UInt64.toNat_and, Nat.testBit_and, Nat.testBit_and, h10, h8, Bool.and_false, Bool.and_true]
  exact ⟨rfl, rfl⟩

/-! ## From the far return to the kernel -/

namespace InCopy

variable {a} {m : Mem UInt8} {rest : List Instr32} {s : State}

/-- Paging is turned off, and with it long mode is no longer active. -/
theorem unpaged (h : a.InCopy m ([.fromCr0 .eax, .andImm .eax 0x7FFFFFFF] ++ .toCr0 .eax :: rest) s) :
    ∃ s', Reaches a.e64 a.e32 s s' ∧ a.InCopy m rest s' ∧ s'.pg = false ∧ s'.lma = false ∧ s'.code = s.code ∧
      s'.interrupts = s.interrupts := by
  obtain ⟨hreach₁, h₁⟩ := h.run _ (by decide) rfl rfl
  have hpe : s.cr0.toNat.testBit 0 = true := h.in32.pe
  obtain ⟨hpg, hkept⟩ := bits_cr0 s.cr0
  obtain ⟨ip, hreach₂, h₂⟩ := h₁.pagingOff
    (by simpa [State.set32, State.set, State.reg32, Reg32.full, way32] using hkept.trans hpe)
    (by simpa [State.set32, State.set, State.reg32, Reg32.full, way32] using hpg)
  refine ⟨_, hreach₁.trans hreach₂, h₂, ?_, (bits_unpaged _).1, rfl, rfl⟩
  simpa [State.set32, State.set, State.reg32, Reg32.full, way32, State.pg] using hpg

/-- The fields the switches are in, and what the code between them leaves alone. -/
structure Alike (s s' : State) : Prop where
  cr0 : s'.cr0 = s.cr0
  code : s'.code = s.code
  interrupts : s'.interrupts = s.interrupts

theorem Alike.trans {s s' s'' : State} (h : Alike s s') (h' : Alike s' s'') : Alike s s'' :=
  ⟨h'.cr0.trans h.cr0, h'.code.trans h.code, h'.interrupts.trans h.interrupts⟩

/-- The number of `efer` in `ecx`. -/
theorem number (h : a.InCopy m ([.xor .eax .eax, .toCr3 .eax, .movImm .ecx 0xC0000080] ++ rest) s) :
    ∃ s', Reaches a.e64 a.e32 s s' ∧ a.InCopy m rest s' ∧ s'.reg32 .rcx = eferMsr ∧ s'.efer = s.efer ∧ Alike s s' := by
  obtain ⟨hreach, h'⟩ := h.run _ (by decide) rfl rfl
  exact ⟨_, hreach, h', by simp [State.reg32, State.set32, State.set, Reg32.full, eferMsr], rfl, rfl, rfl, rfl⟩

/-- `efer`, in two halves, without the switch for long mode. -/
theorem readEfer (h : a.InCopy m ([.rdmsr, .andImm .eax 0xFFFFFEFF] ++ rest) s) (hecx : s.reg32 .rcx = eferMsr) :
    ∃ s', Reaches a.e64 a.e32 s s' ∧ a.InCopy m rest s' ∧ s'.reg32 .rcx = eferMsr ∧
      s'.reg32 .rax = s.efer.toUInt32 &&& 0xFFFFFEFF ∧ s'.efer = s.efer ∧ Alike s s' := by
  obtain ⟨hreach₁, h₁⟩ := h.next (if_pos hecx)
    ⟨h.in32.pe, h.in32.default32, h.in32.long, h.in32.flat, h.in32.base, h.in32.limit⟩ rfl rfl
  obtain ⟨hreach₂, h₂⟩ := h₁.run [.andImm .eax 0xFFFFFEFF] (by decide) rfl rfl
  refine ⟨_, hreach₁.trans hreach₂, h₂, ?_, ?_, rfl, rfl, rfl, rfl⟩
  · rw [← hecx]
    simp [State.reg32, State.set32, State.set, Reg32.full, way32]
  · simp [State.reg32, State.set32, State.set, Reg32.full, way32, -UInt64.toUInt64_toUInt32]

/-- Long mode is turned off, which the processor allows once paging is off. -/
theorem notLong (h : a.InCopy m ([.xor .eax .eax, .toCr3 .eax, .movImm .ecx 0xC0000080] ++
    ([.rdmsr, .andImm .eax 0xFFFFFEFF] ++ .wrmsr :: rest)) s) (hpg : s.pg = false) :
    ∃ s', Reaches a.e64 a.e32 s s' ∧ a.InCopy m rest s' ∧ s'.lme = false ∧ Alike s s' := by
  obtain ⟨s₁, hreach₁, h₁, hecx₁, -, halike₁⟩ := h.number
  obtain ⟨s₂, hreach₂, h₂, hecx₂, heax, -, halike₂⟩ := h₁.readEfer hecx₁
  have halike := halike₁.trans halike₂
  have hpg₂ : ¬ s₂.pg = true := by
    unfold State.pg at hpg ⊢
    rw [halike.cr0, hpg]
    exact Bool.false_ne_true
  obtain ⟨hreach₃, h₃⟩ := h₂.next ((if_pos hecx₂).trans (if_neg fun hand => hpg₂ hand.1))
    ⟨h₂.in32.pe, h₂.in32.default32, h₂.in32.long, h₂.in32.flat, h₂.in32.base, h₂.in32.limit⟩ rfl rfl
  refine ⟨_, (hreach₁.trans hreach₂).trans hreach₃, h₃, ?_, halike.cr0, halike.code, halike.interrupts⟩
  have heax : ({ s₂ with ip := s₂.ip + (a.e32.encode .wrmsr).length } : State).reg32 .rax = _ := heax
  simp only [State.lme, heax]
  exact bits_efer _ _ _

/-- Protected mode, without paging. -/
theorem protect (h : a.InCopy m ([.fromCr0 .eax, .orImm .eax 1, .andImm .eax 0x7FFFFFFF] ++ .toCr0 .eax :: rest) s) :
    ∃ s', Reaches a.e64 a.e32 s s' ∧ a.InCopy m rest s' ∧ s'.pg = false ∧ s'.lma = false ∧ s'.lme = s.lme ∧
      s'.code = s.code ∧ s'.interrupts = s.interrupts := by
  obtain ⟨hreach₁, h₁⟩ := h.run _ (by decide) rfl rfl
  have hpg := (bits_cr0 (s.cr0 ||| 1)).1
  obtain ⟨ip, hreach₂, h₂⟩ := h₁.pagingOff (by simp [State.set32, State.set, State.reg32, Reg32.full, way32])
    (by simpa [State.set32, State.set, State.reg32, Reg32.full, way32] using hpg)
  refine ⟨_, hreach₁.trans hreach₂, h₂, ?_, (bits_unpaged _).1, (bits_unpaged _).2, rfl, rfl⟩
  simpa [State.set32, State.set, State.reg32, Reg32.full, way32, State.pg] using hpg

/-- The far jump goes to what is behind it. -/
theorem farJump (h : a.InCopy m (.ljmp codeSelector (UInt32.ofNat (trampAddr + a.pm32At)) :: pm32) s) :
    ∃ s', Reaches a.e64 a.e32 s s' ∧ a.InCopy m pm32 s' ∧ s'.code = flatDescriptor 0x9B ∧ s'.cr0 = s.cr0 ∧
      s'.efer = s.efer ∧ s'.interrupts = s.interrupts := by
  obtain ⟨access, haccess, hheld⟩ := h.codeEntry
  obtain ⟨access', haccess', hheld'⟩ := h.dataEntry
  obtain ⟨h32, hlong, hflat⟩ := flatDescriptor_32 0x9B
  have hends := h.ends
  have hbelow := h.below
  have hfar : (a.e32.encode (.ljmp codeSelector (UInt32.ofNat (trampAddr + a.pm32At)))).length = 7 := by
    rw [a.far]
    rfl
  have hsmall := a.small
  have hblob : a.e32.size a.blobCode = a.e32.size trampCode + (7 + a.e32.size pm32) := by
    rw [blobCode, Machine.Encoding.size_append, Machine.Encoding.size_cons, hfar]
  have hsize : a.e32.size pm32 = (a.e32.assemble pm32).length := rfl
  rw [Machine.Encoding.size_cons, hfar] at hends hbelow
  have haddr : trampAddr = 0x1000 := rfl
  have htarget : (UInt32.ofNat (trampAddr + a.pm32At)).toNat = s.ip + 7 := by
    have hlt : trampAddr + a.pm32At < 2 ^ 32 := by
      unfold Assembled.size gdtPtrAt gdtAt at hsmall
      unfold pm32At
      omega
    rw [UInt32.toNat_ofNat_of_lt' hlt]
    unfold pm32At
    omega
  have hload := loadCode_flat (s := { s with ip := s.ip + 7 }) codeSelector (s.ip + 7) rfl (by decide)
    (h.in32.limit.symm ▸ by decide) haccess (h.in32.base.symm ▸ hheld)
  have hexec : exec32 (.ljmp codeSelector (UInt32.ofNat (trampAddr + a.pm32At))) { s with ip := s.ip + 7 } =
      some { s with ip := s.ip + 7, code := flatDescriptor 0x9B, mem := s.mem.store (a.gdtCopy + 8 + 5) [0x9B] } := by
    rw [exec32, htarget, ← h.in32.base]
    exact hload
  have hcode : s.mem.Holds s.ip (a.e32.encode (.ljmp codeSelector _) ++ a.e32.assemble pm32) := h.code
  have hrest := hcode.right
  rw [hfar] at hrest
  refine ⟨{ s with ip := s.ip + 7, code := flatDescriptor 0x9B, mem := s.mem.store (a.gdtCopy + 8 + 5) [0x9B] },
    reaches_step32 a.e64 a.e32 h.in32 h.code (by rw [hfar]; exact hexec),
    ⟨⟨h.in32.pe, h32, hlong, hflat, h.in32.base, h.in32.limit⟩, ?_, ?_, ?_, ?_, ?_⟩, rfl, rfl, rfl, rfl⟩
  · exact hrest.congr fun x hle hlt => Mem.store_below _ _ (by omega)
  · simp only
    omega
  · exact ⟨0x9B, .inr rfl, holds_touched hheld 0x9B⟩
  · exact ⟨access', haccess', hheld'.store _ _ (.inr (by simp))⟩
  · intro x hx
    rw [← h.same x hx]
    unfold Marked at hx
    exact Mem.sameOutside_store s.mem _ _ x (by rw [List.length_singleton]; omega)

/-- One of the kernel's parameters, from its slot. -/
theorem parameter {dst : Reg32} {slot : Nat} {v : UInt32} (h : a.InCopy m (.load dst (UInt32.ofNat slot) :: rest) s)
    (hds : s.seg .ds = flatDescriptor 0x93) (hslot : slot + 4 ≤ trampAddr + codeAt) (hheld : m.Holds slot (u32 v)) :
    ∃ ip, Reaches a.e64 a.e32 s { s with ip, reg := Function.update s.reg dst.full v.toUInt64 } ∧
      a.InCopy m rest { s with ip, reg := Function.update s.reg dst.full v.toUInt64 } := by
  have hend : trampAddr + codeAt = 0x100E := rfl
  have haddr : (UInt32.ofNat slot).toNat = slot := UInt32.toNat_ofNat_of_lt' (show slot < 2 ^ 32 by omega)
  have hkept : s.mem.Holds slot (u32 v) := by
    refine hheld.congr fun x hle hlt => h.same x ?_
    rw [length_u32] at hlt
    unfold Marked gdtCopy gdtAt
    omega
  have hread : s.mem.read32 ((s.seg .ds).base + (UInt32.ofNat slot).toNat) = v := by
    rw [hds, haddr, show (flatDescriptor 0x93).base + slot = slot from Nat.zero_add slot]
    exact hkept.read32_eq
  have hlimit : (UInt32.ofNat slot).toNat + 3 ≤ (s.seg .ds).limit := by
    rw [hds, haddr]
    show slot + 3 ≤ 2 ^ 32 - 1
    omega
  refine ⟨_, h.next (i := .load dst (UInt32.ofNat slot)) ?_
    ⟨h.in32.pe, h.in32.default32, h.in32.long, h.in32.flat, h.in32.base, h.in32.limit⟩ rfl rfl⟩
  refine (if_pos hlimit).trans ?_
  simp only [hread]
  rfl

/-- The jump to the kernel, with its parameters from the slots. -/
theorem kernel {entry mbiAddr magic : UInt32} (h : a.InCopy m ([.movImm .esp 0x7C00] ++
      .load .eax (UInt32.ofNat slotMagic) :: .load .ebx (UInt32.ofNat slotMbi) :: .load .ecx (UInt32.ofNat slotEntry) ::
        .jmp .ecx :: rest) s)
    (hds : s.seg .ds = flatDescriptor 0x93)
    (hslots : m.Holds slotEntry (u32 entry) ∧ m.Holds slotMbi (u32 mbiAddr) ∧ m.Holds slotMagic (u32 magic)) :
    ∃ s', Reaches a.e64 a.e32 s s' ∧ s'.ip = entry.toNat ∧ s'.reg32 .rax = magic ∧ s'.reg32 .rbx = mbiAddr ∧
      s'.reg32 .rsp = 0x7C00 ∧ s'.seg = s.seg ∧ s'.efer = s.efer ∧ Alike s s' ∧ ∀ x, ¬ a.Marked x → s'.mem x = m x := by
  obtain ⟨hreach₁, h₁⟩ := h.run _ (by decide) rfl rfl
  obtain ⟨ip₂, hreach₂, h₂⟩ := h₁.parameter hds (by decide) hslots.2.2
  obtain ⟨ip₃, hreach₃, h₃⟩ := h₂.parameter hds (by decide) hslots.2.1
  obtain ⟨ip₄, hreach₄, h₄⟩ := h₃.parameter hds (by decide) hslots.1
  have hjump := reaches_step32 a.e64 a.e32 h₄.in32 h₄.code rfl
  refine ⟨_, (((hreach₁.trans hreach₂).trans hreach₃).trans hreach₄).trans hjump, ?_, ?_, ?_, ?_, rfl, rfl,
    ⟨rfl, rfl, rfl⟩, h₄.same⟩
  all_goals simp [State.reg32, State.set32, State.set, Reg32.full, way32, -UInt64.toUInt64_toUInt32]

end InCopy

/-! ## From the far return to the kernel -/

variable {a}

theorem InCopy.reaches {m : Mem UInt8} {s : State} {entry mbiAddr magic : UInt32} (h : a.InCopy m a.blobCode s)
    (hslots : m.Holds slotEntry (u32 entry) ∧ m.Holds slotMbi (u32 mbiAddr) ∧ m.Holds slotMagic (u32 magic))
    (hinterrupts : s.interrupts = false) :
    ∃ s', Reaches a.e64 a.e32 s s' ∧ Protected s' ∧ s'.ip = entry.toNat ∧ s'.reg32 .rax = magic ∧
      s'.reg32 .rbx = mbiAddr ∧ s'.reg32 .rsp = 0x7C00 ∧ ∀ x, ¬ a.Marked x → s'.mem x = m x := by
  obtain ⟨ip₁, mem₁, seg₁, rax₁, hreach₁, h₁, -⟩ := h.dataSegments
  obtain ⟨s₂, hreach₂, h₂, hpg₂, hlma₂, -, hint₂⟩ := h₁.unpaged
  obtain ⟨s₃, hreach₃, h₃, hlme₃, halike₃⟩ := h₂.notLong hpg₂
  obtain ⟨s₄, hreach₄, h₄, hpg₄, hlma₄, hlme₄, -, hint₄⟩ := h₃.protect
  obtain ⟨s₅, hreach₅, h₅, hcode₅, hcr0₅, hefer₅, hint₅⟩ := h₄.farJump
  obtain ⟨ip₆, mem₆, seg₆, rax₆, hreach₆, h₆, hseg₆⟩ := h₅.dataSegments
  obtain ⟨s₇, hreach₇, hip, heax, hebx, hesp, hseg₇, hefer₇, halike₇, hmem⟩ := h₆.kernel (hseg₆ .ds) hslots
  have hreach : Reaches a.e64 a.e32 s s₇ :=
    (((((hreach₁.trans hreach₂).trans hreach₃).trans hreach₄).trans hreach₅).trans hreach₆).trans hreach₇
  have hcr0 : s₇.cr0 = s₄.cr0 := halike₇.cr0.trans hcr0₅
  have hefer : s₇.efer = s₄.efer := hefer₇.trans hefer₅
  have hcode : s₇.code = flatDescriptor 0x9B := halike₇.code.trans hcode₅
  obtain ⟨h32, hlong, hflat⟩ := flatDescriptor_32 0x9B
  refine ⟨s₇, hreach, ⟨?_, ?_, ?_, ?_, hcode, fun r => ?_, ?_⟩, hip, heax, hebx, hesp, hmem⟩
  · have hpe : s₇.pe = true := by
      unfold State.pe
      rw [hcr0]
      exact h₄.in32.pe
    simp [State.mode, modeOf, hpe, hcode, h32, hlong, hflat]
  · unfold State.pg
    rw [hcr0]
    exact hpg₄
  · unfold State.lme
    rw [hefer]
    exact hlme₄.trans hlme₃
  · unfold State.lma
    rw [hefer]
    exact hlma₄
  · rw [hseg₇]
    exact hseg₆ r
  · rw [halike₇.interrupts]
    exact hint₅.trans (hint₄.trans (halike₃.interrupts.trans (hint₂.trans hinterrupts)))

end Assembled

end Bang
