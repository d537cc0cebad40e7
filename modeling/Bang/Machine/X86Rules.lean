/-
Rules for the processor of `Machine/X86.lean`: which instructions are straight-line code, what the processor
makes of straight-line code in either mode, and what the instructions do that have to do with memory, with
segments and with the switch for long mode.
-/
import Bang.Machine.X86
import Mathlib.Data.Nat.Bitwise

namespace X86

open LittleEndian

/-! ## Numbers -/

theorem signExtend_toNat {x : UInt32} (h : x.toNat < 2 ^ 31) : (signExtend x).toNat = x.toNat := by
  have hlt : x < 0x80000000 := UInt32.lt_iff_toNat_lt.2 h
  rw [signExtend, if_pos hlt, UInt32.toNat_toUInt64]

theorem toNat_ofNat_add {a : Nat} {x : UInt32} (hx : x.toNat < 2 ^ 31) (h : a + x.toNat < 2 ^ 64) :
    (UInt64.ofNat a + signExtend x).toNat = a + x.toNat := by
  rw [UInt64.toNat_add, signExtend_toNat hx, UInt64.toNat_ofNat_of_lt' (show a < 2 ^ 64 by omega), Nat.mod_eq_of_lt h]

theorem toNat_sub {x y : UInt64} (h : y.toNat ≤ x.toNat) : (x - y).toNat = x.toNat - y.toNat :=
  UInt64.toNat_sub_of_le x y (UInt64.le_iff_toNat_le.2 h)

/-- The lowest 16 bits of a register they were written to. -/
theorem low16 (x : UInt64) (imm : UInt16) : ((x &&& 0xFFFFFFFFFFFF0000) ||| imm.toUInt64).toUInt16 = imm := by
  have hmask : (0xFFFFFFFFFFFF0000 : UInt64).toUInt16 = 0 := rfl
  rw [UInt64.toUInt16_or, UInt64.toUInt16_and, hmask, UInt16.and_zero, UInt16.zero_or, UInt16.toUInt16_toUInt64]

/-! ## Strings -/

/-- Bytes copied upwards arrive as they were, where the two places are apart. -/
theorem copyUp_eq (n : Nat) : ∀ (src dst : Nat) (m : Mem UInt8), (dst + n ≤ src ∨ src + n ≤ dst) →
    copyUp n src dst m = m.store dst (m.load src n) := by
  induction n with
  | zero =>
    intro src dst m _
    exact (Mem.store_nil m dst).symm
  | succ n ih =>
    intro src dst m h
    have hload : (m.store dst [m src]).load (src + 1) n = m.load (src + 1) n := by
      refine List.ext_getElem (by simp) fun k hk hk' => ?_
      simp only [Mem.length_load] at hk
      simp only [Mem.load, List.getElem_map, List.getElem_range]
      rcases h with h | h
      · exact Mem.store_above _ _ (by simp; omega)
      · exact Mem.store_below _ _ (by omega)
    have hcons : m.load src (n + 1) = m src :: m.load (src + 1) n := by
      simp only [Mem.load, List.range_succ_eq_map, List.map_cons, List.map_map, Nat.add_zero]
      congr 1
      refine List.map_congr_left fun k _ => ?_
      simp only [Function.comp_apply, Nat.add_assoc, Nat.add_comm 1, Nat.succ_eq_add_one]
    rw [copyUp, ih (src + 1) (dst + 1) _ (by omega), hload, hcons]
    exact Mem.store_store m dst [m src] _

/-! ## Straight-line code in 64-bit mode -/

section
variable (e64 : Machine.Encoding Instr64) (e32 : Machine.Encoding Instr32)

def In64 (s : State) : Prop := s.mode = some .bits64

/-- The mode depends on the control registers and the code segment. -/
theorem In64.of_eq {s s' : State} (h : In64 s) (hcr0 : s'.cr0 = s.cr0) (hefer : s'.efer = s.efer)
    (hcode : s'.code = s.code) : In64 s' := by
  unfold In64 State.mode State.pe State.lma at *
  rw [hcr0, hefer, hcode]
  exact h

theorem In64.pe {s : State} (h : In64 s) : s.pe = true := by
  unfold In64 State.mode modeOf at h
  split at h
  · cases h
  · rename_i hpe
    simpa using hpe

/-- The instructions that change registers only. -/
def Instr64.onRegisters : Instr64 → Bool
  | .cli | .mov32 .. | .mov .. | .movImm .. | .lea .. | .sub .. | .addImm .. | .lgdt _ => true
  | _ => false

theorem straight_onRegisters {i : Instr64} (hi : i.onRegisters = true) (lo hi' : Nat) :
    (way64 e64).Straight In64 lo hi' i := by
  intro s s' hs h
  change exec64 i s = some s' at h
  cases i with
  | cli | mov32 | mov | movImm | lea | sub | addImm | lgdt =>
    simp only [exec64, Option.some.injEq] at h
    subst h
    exact ⟨hs.of_eq rfl rfl rfl, rfl, fun _ _ _ => rfl⟩
  | repMovsb | store32 | store64 | pushImm | push | retfq | jmp | hlt | jmpShort => cases hi

theorem reaches_execAll64 (code rest : List Instr64) {s s' : State} {lo hi : Nat}
    (hcode : ∀ i ∈ code, (way64 e64).Straight In64 lo hi i) (hs : In64 s)
    (hat : (way64 e64).CodeAt s (code ++ rest)) (hlo : lo ≤ s.ip) (hhi : s.ip + e64.size (code ++ rest) ≤ hi)
    (h : (way64 e64).execAll code s = some s') :
    Reaches e64 e32 s s' ∧ In64 s' ∧ (way64 e64).CodeAt s' rest ∧ s'.ip = s.ip + e64.size code := by
  refine (way64 e64).reaches_execAll (fun s hs => ?_) (fun _ _ hs => hs.of_eq rfl rfl rfl) code s s' rest hcode hs hat
    hlo hhi h
  unfold In64 at hs
  rw [step, hs]

/-- An instruction that is next, whatever it does. -/
theorem reaches_step64 {i : Instr64} {rest : List Instr64} {s s' : State} (hs : In64 s)
    (hat : (way64 e64).CodeAt s (i :: rest))
    (h : exec64 i { s with ip := s.ip + (e64.encode i).length } = some s') : Reaches e64 e32 s s' := by
  refine .single ?_
  unfold In64 at hs
  rw [step, hs]
  exact ((way64 e64).step_eq hat).trans h

/-! ## Straight-line 32-bit code -/

/-- 32-bit code runs, in the code segment it runs in, with the given table of descriptors. -/
structure In32 (base limit : Nat) (s : State) : Prop where
  pe : s.pe = true
  default32 : s.code.default32 = true
  long : s.code.long = false
  flat : s.code.flat = true
  base : s.gdtBase = base
  limit : s.gdtLimit = limit

theorem In32.mode {base limit : Nat} {s : State} (h : In32 base limit s) : s.mode = some .bits32 := by
  simp [State.mode, modeOf, h.pe, h.long, h.default32, h.flat]

/-- The instructions that neither jump nor write `cr0`. -/
def Instr32.falls : Instr32 → Bool
  | .mov16 .. | .movSeg .. | .fromCr0 _ | .toCr3 _ | .andImm .. | .orImm .. | .xor .. | .movImm .. | .rdmsr
  | .wrmsr | .load .. => true
  | _ => false

theorem loadSeg_some {s s' : State} {r : Seg} {selector : UInt16} (h : s.loadSeg r selector = some s') :
    ∃ d : Descriptor, 8 ≤ selector.toNat ∧ selector.toNat + 7 ≤ s.gdtLimit ∧
      s' = { s with seg := Function.update s.seg r d.touched,
                    mem := s.mem.store (s.gdtBase + selector.toNat + 5) [d.touched.access] } := by
  obtain ⟨a, ha, h⟩ := Option.bind_eq_some_iff.1 h
  unfold State.entry at ha
  split at ha
  · rename_i hsel
    cases ha
    simp only at h
    split at h
    · cases h
      exact ⟨_, hsel.2.1, hsel.2.2, rfl⟩
    · cases h
  · cases ha

/-- Such an instruction writes into the table of descriptors at most. -/
theorem straight_falls {i : Instr32} (hi : i.falls = true) {base limit lo hi' : Nat}
    (happart : hi' ≤ base ∨ base + limit < lo) : (way32 e32).Straight (In32 base limit) lo hi' i := by
  intro s s' hs h
  change exec32 i s = some s' at h
  cases i with
  | mov16 | fromCr0 | toCr3 | andImm | orImm | xor | movImm =>
    simp only [exec32, Option.some.injEq] at h
    subst h
    exact ⟨⟨hs.pe, hs.default32, hs.long, hs.flat, hs.base, hs.limit⟩, rfl, fun _ _ _ => rfl⟩
  | movSeg r src =>
    obtain ⟨d, hlow, hhigh, rfl⟩ := loadSeg_some h
    refine ⟨⟨hs.pe, hs.default32, hs.long, hs.flat, hs.base, hs.limit⟩, rfl, fun a hlo hhi => ?_⟩
    have hbase := hs.base
    have hlimit := hs.limit
    exact Mem.sameOutside_store s.mem _ _ a (by rw [List.length_singleton]; omega)
  | rdmsr =>
    simp only [exec32] at h
    split at h
    · cases h
      exact ⟨⟨hs.pe, hs.default32, hs.long, hs.flat, hs.base, hs.limit⟩, rfl, fun _ _ _ => rfl⟩
    · cases h
  | wrmsr =>
    simp only [exec32, writeEfer] at h
    split at h
    · split at h
      · cases h
      · cases h
        exact ⟨⟨hs.pe, hs.default32, hs.long, hs.flat, hs.base, hs.limit⟩, rfl, fun _ _ _ => rfl⟩
    · cases h
  | load dst addr =>
    simp only [exec32] at h
    split at h
    · cases h
      exact ⟨⟨hs.pe, hs.default32, hs.long, hs.flat, hs.base, hs.limit⟩, rfl, fun _ _ _ => rfl⟩
    · cases h
  | toCr0 | ljmp | jmp | hlt | jmpShort => cases hi

theorem reaches_execAll32 {base limit : Nat} {code rest : List Instr32} {s s' : State} {lo hi : Nat}
    (hfalls : ∀ i ∈ code, i.falls = true) (happart : hi ≤ base ∨ base + limit < lo) (hs : In32 base limit s)
    (hat : (way32 e32).CodeAt s (code ++ rest)) (hlo : lo ≤ s.ip) (hhi : s.ip + e32.size (code ++ rest) ≤ hi)
    (h : (way32 e32).execAll code s = some s') :
    Reaches e64 e32 s s' ∧ In32 base limit s' ∧ (way32 e32).CodeAt s' rest ∧ s'.ip = s.ip + e32.size code := by
  refine (way32 e32).reaches_execAll (fun s hs => ?_) ?_ code s s' rest
    (fun i hi => straight_falls e32 (hfalls i hi) happart) hs hat hlo hhi h
  · rw [step, hs.mode]
  · exact fun _ _ hs => ⟨hs.pe, hs.default32, hs.long, hs.flat, hs.base, hs.limit⟩

theorem reaches_step32 {base limit : Nat} {i : Instr32} {rest : List Instr32} {s s' : State} (hs : In32 base limit s)
    (hat : (way32 e32).CodeAt s (i :: rest))
    (h : exec32 i { s with ip := s.ip + (e32.encode i).length } = some s') : Reaches e64 e32 s s' := by
  refine .single ?_
  rw [step, hs.mode]
  exact ((way32 e32).step_eq hat).trans h

end

/-! ## Flat segments -/

/-- The bytes of a descriptor of all of the first four gigabytes, for 32-bit code or its data. -/
def flatBytes (access : UInt8) : List UInt8 := [0xFF, 0xFF, 0, 0, 0, access, 0xCF, 0]

/-- Such a descriptor. -/
def flatDescriptor (access : UInt8) : Descriptor := ⟨0, 2 ^ 32 - 1, access, 0xC⟩

theorem flatDescriptor_32 (access : UInt8) : (flatDescriptor access).default32 = true ∧
    (flatDescriptor access).long = false ∧ (flatDescriptor access).flat = true := by
  simp [flatDescriptor, Descriptor.default32, Descriptor.long, Descriptor.flat, Nat.testBit]

theorem read_flat {m : Mem UInt8} {a : Nat} {access : UInt8} (h : m.Holds a (flatBytes access)) :
    Descriptor.read m a = flatDescriptor access := by
  have hparts : m.Holds a ([0xFF, 0xFF] ++ [0, 0, 0, access, 0xCF, 0]) := h
  have hlow : m.load a 2 = [0xFF, 0xFF] := hparts.left.load_eq
  have hrest : m.Holds (a + 2) ([0, 0, 0] ++ [access, 0xCF, 0]) := hparts.right
  have hbase : m.load (a + 2) 3 = [0, 0, 0] := hrest.left.load_eq
  have haccess : m (a + 5) = access := h 5 (show 5 < 8 by decide)
  have hflags : m (a + 6) = 0xCF := h 6 (show 6 < 8 by decide)
  have htop : m (a + 7) = 0 := h 7 (show 7 < 8 by decide)
  unfold Descriptor.read
  rw [hlow, hbase, haccess, hflags, htop]
  rfl

/-- The bytes of a descriptor once the processor has marked it as used. -/
theorem holds_touched {m : Mem UInt8} {a : Nat} {access : UInt8} (h : m.Holds a (flatBytes access)) (access' : UInt8) :
    (m.store (a + 5) [access']).Holds a (flatBytes access') := by
  have hparts : m.Holds a ([0xFF, 0xFF, 0, 0, 0] ++ ([access] ++ [0xCF, 0])) := h
  refine (Mem.holds_append _ a [0xFF, 0xFF, 0, 0, 0] _).2 ⟨hparts.left.store _ _ (.inl (Nat.le_refl _)), ?_⟩
  exact (Mem.holds_append _ (a + 5) [access'] _).2 ⟨Mem.holds_store m _ _,
    hparts.right.right.store _ _ (.inr (Nat.le_refl _))⟩

/-- Go on in a flat code segment that the table describes. -/
theorem loadCode_flat {s : State} (selector : UInt16) (ip : Nat) (hsel : selector.toNat % 8 = 0)
    (hlow : 8 ≤ selector.toNat) (hhigh : selector.toNat + 7 ≤ s.gdtLimit) {access : UInt8}
    (haccess : access = 0x9A ∨ access = 0x9B) (hgdt : s.mem.Holds (s.gdtBase + selector.toNat) (flatBytes access)) :
    s.loadCode selector ip = some { s with ip, code := flatDescriptor 0x9B,
                                           mem := s.mem.store (s.gdtBase + selector.toNat + 5) [0x9B] } := by
  have hentry : s.entry selector = some (s.gdtBase + selector.toNat) := if_pos ⟨hsel, hlow, hhigh⟩
  have hbind : s.loadCode selector ip = (s.entry selector).bind _ := rfl
  rw [hbind, hentry, Option.bind_some, read_flat hgdt]
  rcases haccess with rfl | rfl <;> rfl

/-- Load a flat data segment that the table describes. -/
theorem loadSeg_flat {s : State} (selector : UInt16) (r : Seg) (hsel : selector.toNat % 8 = 0)
    (hlow : 8 ≤ selector.toNat) (hhigh : selector.toNat + 7 ≤ s.gdtLimit) {access : UInt8}
    (haccess : access = 0x92 ∨ access = 0x93) (hgdt : s.mem.Holds (s.gdtBase + selector.toNat) (flatBytes access)) :
    s.loadSeg r selector = some { s with seg := Function.update s.seg r (flatDescriptor 0x93),
                                         mem := s.mem.store (s.gdtBase + selector.toNat + 5) [0x93] } := by
  have hentry : s.entry selector = some (s.gdtBase + selector.toNat) := if_pos ⟨hsel, hlow, hhigh⟩
  have hbind : s.loadSeg r selector = (s.entry selector).bind _ := rfl
  rw [hbind, hentry, Option.bind_some, read_flat hgdt]
  rcases haccess with rfl | rfl <;> rfl

end X86
