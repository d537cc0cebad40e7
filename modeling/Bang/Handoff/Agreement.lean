/-
Whether a kernel is entered the way its file asks for: at the full entry point of its file header,
with the magic and the information structure of the Multiboot version detected in it, or with
neither when there is no Multiboot header.
-/
import Bang.Elf.Table
import Bang.Handoff.Main

namespace Bang

open LittleEndian

/-! ## What a file asks for -/

section
variable (machine : Machine) (p : Prepared)

/-- Protected mode, at the full entry point, with the magic and the full address of the structure
that was built; the memory is as the builder left it but for the trampoline's copy. -/
def EnteredWith (build : Option (Mem UInt8 × UInt32)) (magic : UInt32) (eEntry : UInt64) (e : Entered) : Prop :=
  ∃ eip ebx m built, e = .protected32 eip magic ebx m ∧ eip.toNat = eEntry.toNat ∧
    build = some (built, ebx) ∧ ebx.toNat = p.infoAt ∧
    built.SameOutside m trampAddr (trampAddr + machine.blob.bytes.length)

/-- The mode of the file's class, at the full entry point, with no Multiboot magic and no
information structure. -/
def EnteredWithout (elfClass : UInt8) (eEntry : UInt64) : Entered → Prop
  | .protected32 eip eax ebx _ =>
    elfClass = elfClass32 ∧ eip.toNat = eEntry.toNat ∧ eax ≠ mb1BootMagic ∧ eax ≠ mb2BootMagic ∧ ebx = 0
  | .long64 rip rdi rsi _ =>
    elfClass = elfClass64 ∧ rip = eEntry ∧ rdi ≠ mb1BootMagic.toUInt64 ∧ rdi ≠ mb2BootMagic.toUInt64 ∧ rsi = 0

/-- The handoff agrees with a file of the given class, header version and entry point. -/
structure Agrees (elfClass : UInt8) (mbVersion : UInt32) (eEntry : UInt64) (e : Entered) : Prop where
  multiboot1 : mbVersion = 1 → EnteredWith machine p (p.buildMb1 machine) mb1BootMagic eEntry e
  multiboot2 : mbVersion = 2 → EnteredWith machine p (p.buildMb2 machine) mb2BootMagic eEntry e
  neither : mbVersion = 0 → EnteredWithout elfClass eEntry e

end

/-! ## The cases of the handoff -/

theorem detectMultibootVersion_mem {file : Buffer} {v : UInt32} (h : detectMultibootVersion file = .ok v) :
    v = 0 ∨ v = 1 ∨ v = 2 := by
  unfold detectMultibootVersion at h
  obtain ⟨mb2, -, h⟩ := bind_ok h
  split at h
  · cases h; exact Or.inr (Or.inr rfl)
  · obtain ⟨mb1, -, h⟩ := bind_ok h
    split at h
    · cases h; exact Or.inr (Or.inl rfl)
    · cases h; exact Or.inl rfl

/-- The low half of an entry point is the entry point exactly when it is below four gigabytes. -/
theorem toUInt32_toNat_eq_iff (x : UInt64) : x.toUInt32.toNat = x.toNat ↔ x.toNat < 2 ^ 32 := by
  rw [UInt64.toNat_toUInt32]
  omega

section
variable {machine : Machine} {p : Prepared}

/-- A kernel entered with what was built for it agrees with its file when its entry point fits. -/
theorem enteredWith_iff {build : Option (Mem UInt8 × UInt32)} {m : Mem UInt8} {addr magic : UInt32}
    (hb : build = some (m, addr)) (haddr : addr.toNat = p.infoAt) (eEntry : UInt64) :
    EnteredWith machine p build magic eEntry (.protected32 eEntry.toUInt32 magic addr
      (copyTrampoline machine.blob eEntry.toUInt32 addr magic m)) ↔ eEntry.toNat < 2 ^ 32 := by
  rw [← toUInt32_toNat_eq_iff]
  constructor
  · rintro ⟨eip, ebx, m', built, he, heip, -⟩
    cases he
    exact heip
  · intro h
    exact ⟨_, _, _, m, rfl, h, hb, haddr, copyTrampoline_sameOutside _ _ _ _ _⟩

/-- A kernel with a Multiboot header is entered with what that version asks for. -/
theorem enter_multiboot (hs : p.Sound machine) (hmode : p.kernel.bootMode = .protected32) {version : UInt32}
    (hversion : p.kernel.mbVersion = version) :
    (version = 1 → ∃ e, enter machine p = some e ∧
      (EnteredWith machine p (p.buildMb1 machine) mb1BootMagic p.kernel.entryPoint e ↔
        p.kernel.entryPoint.toNat < 2 ^ 32)) ∧
    (version = 2 → ∃ e, enter machine p = some e ∧
      (EnteredWith machine p (p.buildMb2 machine) mb2BootMagic p.kernel.entryPoint e ↔
        p.kernel.entryPoint.toNat < 2 ^ 32)) := by
  subst hversion
  constructor
  · intro h1
    obtain ⟨m, addr, hb, haddr, -⟩ := hs.buildMb1
    have h32 : p.build32 machine = some (m, addr, mb1BootMagic) := by
      rw [Prepared.build32, if_pos h1, hb]; rfl
    exact ⟨_, enter_protected32 hmode h32, enteredWith_iff hb haddr _⟩
  · intro h2
    obtain ⟨m, addr, hb, haddr, -⟩ := hs.buildMb2
    have h32 : p.build32 machine = some (m, addr, mb2BootMagic) := by
      rw [Prepared.build32, if_neg (by rw [h2]; decide), hb]; rfl
    exact ⟨_, enter_protected32 hmode h32, enteredWith_iff hb haddr _⟩

/-- A kernel without a Multiboot header that is entered in long mode is handed nothing. -/
theorem enter_long64 (hmode : p.kernel.bootMode = .long64) (hversion : p.kernel.mbVersion = 0) :
    enter machine p = some (.long64 p.kernel.entryPoint bangHandoffMagic 0 p.afterModules) := by
  have h64 : p.build64 machine = some (p.afterModules, 0) := by
    rw [Prepared.build64, if_neg (by rw [hversion]; decide)]
  unfold enter
  rw [hmode]
  simp only [h64, Option.map_some]
  rfl

/-- A kernel without a Multiboot header that is entered in protected mode is handed the Multiboot2
magic, and a structure. -/
theorem enter_without_header (hs : p.Sound machine) (hmode : p.kernel.bootMode = .protected32)
    (hversion : p.kernel.mbVersion = 0) :
    ∃ eip ebx m, enter machine p = some (.protected32 eip mb2BootMagic ebx m) ∧ ebx.toNat = p.infoAt := by
  obtain ⟨m, addr, hb, haddr, -⟩ := hs.buildMb2
  have h32 : p.build32 machine = some (m, addr, mb2BootMagic) := by
    rw [Prepared.build32, if_neg (by rw [hversion]; decide), hb]; rfl
  exact ⟨_, _, _, enter_protected32 hmode h32, haddr⟩

end

/-! ## When the handoff agrees with the file -/

section
variable {σ : Type} {fw : Firmware σ} {machine : Machine}

/-- For every file that is loaded: the handoff agrees with it if and only if it has a Multiboot
header and an entry point below four gigabytes, or has none and is of the 64-bit class. -/
theorem agrees_iff {taken : σ → Nat → Prop} (hfw : fw.Lawful taken) {fileBuf : Buffer}
    {files : List ModuleFile} {firmware : σ} {memory : Mem UInt8} {p : Prepared}
    (h : prepare fw machine fileBuf files firmware memory = .ok (some p)) :
    ∃ elfClass mbVersion e, elfClassOf fileBuf = .ok elfClass ∧
      (elfClass = elfClass32 ∨ elfClass = elfClass64) ∧ detectMultibootVersion fileBuf = .ok mbVersion ∧
      enter machine p = some e ∧
      (Agrees machine p elfClass mbVersion ((classFor elfClass).fileHeader fileBuf).eEntry e ↔
        (mbVersion ≠ 0 ∧ ((classFor elfClass).fileHeader fileBuf).eEntry.toNat < 2 ^ 32) ∨
          (mbVersion = 0 ∧ elfClass = elfClass64)) := by
  obtain ⟨s, t, hkernel, -⟩ := prepare_ok h
  obtain ⟨elfClass, hclass, hcls, hversion, hmode, hload⟩ := loadKernel_ok hkernel
  obtain ⟨hentry, -⟩ := loadClass_ok hload
  have hs := prepare_sound hfw h
  suffices hagree : ∃ e, enter machine p = some e ∧
      (Agrees machine p elfClass p.kernel.mbVersion p.kernel.entryPoint e ↔
        (p.kernel.mbVersion ≠ 0 ∧ p.kernel.entryPoint.toNat < 2 ^ 32) ∨
          (p.kernel.mbVersion = 0 ∧ elfClass = elfClass64)) by
    obtain ⟨e, he, hiff⟩ := hagree
    rw [hentry] at hiff
    exact ⟨elfClass, _, e, hclass, hcls, hversion, he, hiff⟩
  rcases detectMultibootVersion_mem hversion with h0 | h1 | h2
  · by_cases h64 : elfClass = elfClass64
    · -- no header, 64-bit: entered in long mode with nothing
      have hmode : p.kernel.bootMode = .long64 := by rw [hmode, h0, h64]; rfl
      refine ⟨_, enter_long64 hmode h0, ?_⟩
      refine iff_of_true ⟨?_, ?_, ?_⟩ (Or.inr ⟨h0, h64⟩)
      · rw [h0]; intro hv; cases hv
      · rw [h0]; intro hv; cases hv
      · exact fun _ => ⟨h64, rfl, by decide, by decide, rfl⟩
    · -- no header, 32-bit: entered as a Multiboot2 kernel
      have hmode : p.kernel.bootMode = .protected32 := by
        rw [hmode, h0, bootModeOf, if_neg (by decide), if_neg h64]
      obtain ⟨eip, ebx, m, he, -⟩ := enter_without_header hs hmode h0
      refine ⟨_, he, iff_of_false ?_ ?_⟩
      · rintro ⟨-, -, hneither⟩
        exact (hneither h0).2.2.2.1 rfl
      · rintro (⟨hne, -⟩ | ⟨-, hne⟩)
        · exact hne h0
        · exact h64 hne
  · have hmode : p.kernel.bootMode = .protected32 := by rw [hmode, h1]; rfl
    obtain ⟨e, he, hiff⟩ := (enter_multiboot hs hmode h1).1 rfl
    refine ⟨e, he, ?_⟩
    rw [h1]
    constructor
    · exact fun ha => Or.inl ⟨by decide, hiff.1 (ha.multiboot1 rfl)⟩
    · rintro (⟨-, hlt⟩ | ⟨hv, -⟩)
      · exact ⟨fun _ => hiff.2 hlt, fun hv => (by cases hv), fun hv => (by cases hv)⟩
      · cases hv
  · have hmode : p.kernel.bootMode = .protected32 := by rw [hmode, h2]; rfl
    obtain ⟨e, he, hiff⟩ := (enter_multiboot hs hmode h2).2 rfl
    refine ⟨e, he, ?_⟩
    rw [h2]
    constructor
    · exact fun ha => Or.inl ⟨by decide, hiff.1 (ha.multiboot2 rfl)⟩
    · rintro (⟨-, hlt⟩ | ⟨hv, -⟩)
      · exact ⟨fun hv => (by cases hv), fun _ => hiff.2 hlt, fun hv => (by cases hv)⟩
      · cases hv

end

/-! ## Two kernels -/

/-- A machine with a trampoline of the usual size, no graphics and no ACPI tables. -/
def plainMachine : Machine where
  blob := ⟨List.replicate 162 0, 128, 154, by decide, List.length_replicate.symm⟩
  modNames := 0x7F000000
  modNames_fits := by decide
  queryGop := none
  findRsdp := none
  memoryMap := [⟨.conventional, 0x100000, 0x7000⟩]

/-- A Multiboot2 header of the shortest kind. -/
def mb2Header : List UInt8 := u32 mb2HeaderMagic ++ u32 0 ++ u32 16 ++ u32 (0 - mb2HeaderMagic - 16)

/-- A kernel with a Multiboot2 header, at the first multiple of eight behind its table. -/
theorem agrees_multiboot2 : ∃ p e,
    prepare bump plainMachine ⟨elf32Executable 32 1 (bssHeader32 0x100000 ++ [0, 0, 0, 0] ++ mb2Header), by decide⟩
      [] ⟨fun _ => false, 0x200000⟩ (fun _ => 0) = .ok (some p) ∧
    enter plainMachine p = some e ∧ Agrees plainMachine p elfClass32 2 0x100000 e := by
  have hrun : (prepare bump plainMachine
      ⟨elf32Executable 32 1 (bssHeader32 0x100000 ++ [0, 0, 0, 0] ++ mb2Header), by decide⟩
      [] ⟨fun _ => false, 0x200000⟩ (fun _ => 0)).map (fun r => r.map fun p => p.infoAt) =
        .ok (some 0x200000) := by decide +kernel
  obtain ⟨r, h, hr⟩ := map_ok hrun
  obtain ⟨p, rfl, -⟩ := Option.map_eq_some_iff.1 hr
  obtain ⟨elfClass, mbVersion, e, hclass, -, hversion, he, hiff⟩ := agrees_iff bump_lawful h
  have h32 : elfClass = elfClass32 := Except.ok.inj (hclass.symm.trans (by decide +kernel))
  have h2 : mbVersion = 2 := Except.ok.inj (hversion.symm.trans (by decide +kernel))
  subst h32 h2
  refine ⟨p, e, h, he, ?_⟩
  have hentry : ((classFor elfClass32).fileHeader
      ⟨elf32Executable 32 1 (bssHeader32 0x100000 ++ [0, 0, 0, 0] ++ mb2Header), by decide⟩).eEntry =
        0x100000 := by decide +kernel
  rw [hentry] at hiff
  exact hiff.2 (Or.inl ⟨by decide, by decide⟩)

/-- A 32-bit kernel without a Multiboot header: it is entered with the Multiboot2 magic and the
address of an information structure. -/
theorem multiboot2_without_header : ∃ p e,
    prepare bump plainMachine ⟨elf32Executable 32 1 (bssHeader32 0x100000), by decide⟩
      [] ⟨fun _ => false, 0x200000⟩ (fun _ => 0) = .ok (some p) ∧
    detectMultibootVersion ⟨elf32Executable 32 1 (bssHeader32 0x100000), by decide⟩ = .ok 0 ∧
    enter plainMachine p = some e ∧ (∃ eip ebx m, e = .protected32 eip mb2BootMagic ebx m ∧ ebx = 0x200000) ∧
    ¬ Agrees plainMachine p elfClass32 0 0x100000 e := by
  have hrun : (prepare bump plainMachine ⟨elf32Executable 32 1 (bssHeader32 0x100000), by decide⟩
      [] ⟨fun _ => false, 0x200000⟩ (fun _ => 0)).map (fun r => r.map fun p => (p.kernel, p.infoAt)) =
        .ok (some (⟨0x100000, 0, .protected32⟩, 0x200000)) := by decide +kernel
  obtain ⟨r, h, hr⟩ := map_ok hrun
  obtain ⟨p, rfl, hp⟩ := Option.map_eq_some_iff.1 hr
  have hkernel : p.kernel = ⟨0x100000, 0, .protected32⟩ := congrArg Prod.fst hp
  obtain ⟨eip, ebx, m, he, hebx⟩ := enter_without_header (prepare_sound bump_lawful h)
    (by rw [hkernel]) (by rw [hkernel])
  rw [show p.infoAt = 0x200000 from congrArg Prod.snd hp] at hebx
  refine ⟨p, _, h, by decide +kernel, he, ⟨eip, ebx, m, rfl, UInt32.toNat_inj.1 hebx⟩, ?_⟩
  rintro ⟨-, -, hneither⟩
  exact (hneither rfl).2.2.2.1 rfl

end Bang
