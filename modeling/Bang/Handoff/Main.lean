/-
Booting a Multiboot entry (`main` of `src/main.rs`), from the bytes of the kernel file to the first
instruction of the kernel. The memory here is the machine's without the program's own: its image,
heap and stack, which hold the file buffer, the module names and the two words the far return
pushes, are the firmware's choice and apart from what it hands out.
-/
import Bang.Elf.Kernel
import Bang.Handoff.Modules
import Bang.Handoff.Trampoline
import Bang.Multiboot.Mb1Build
import Bang.Multiboot.Mb2Build

namespace Bang

/-! ## Before boot services are exited -/

/-- Multiboot magic values passed to kernel in EAX. -/
def mb1BootMagic : UInt32 := 0x2BADB002
def mb2BootMagic : UInt32 := 0x36D76289

/-- The machine `main` runs on, besides its allocator and memory: the trampoline as it is linked,
where the buffer of names is, and what the firmware answers to the three questions `main` asks. -/
structure Machine where
  blob : Blob
  modNames : Nat
  modNames_fits : modNames + modNamesCap ≤ 2 ^ 64
  queryGop : Option FbInfo
  findRsdp : Option Rsdp
  memoryMap : List MemoryDescriptor

/-- The static buffer of names before the first module. -/
def Names.empty : Names := ⟨fun _ => 0, 0⟩

/-- What `main` has when it exits boot services, and the memory after each of the things placed.
`handed` are the runs of pages that were handed out for modules. -/
structure Prepared where
  kernel : KernelInfo
  placed : List Segment
  afterKernel : Mem UInt8
  mods : List LoadedModule
  names : Names
  handed : List (Nat × Nat)
  afterModules : Mem UInt8
  fb : Option FbInfo
  rsdp : Option Rsdp
  infoAt : Nat

section
variable {σ : Type} (fw : Firmware σ) (machine : Machine)

/-- Set aside the memory a kernel's boot information is written to. -/
def reserve (f : σ) : Option Nat × σ := fw.allocateBelow f 0xFFFFFFFF infoPages

/-- `main` up to `exit_boot_services`, with the files of the entry's modules directory, if it has
one; `none` is the status OUT_OF_RESOURCES. -/
def prepare (fileBuf : Buffer) (files : List ModuleFile) (firmware : σ) (memory : Mem UInt8) :
    Except Stop (Option Prepared) := do
  let (kernel, s) ← loadKernel fw fileBuf (.start firmware memory)
  let (mods, t) ← loadModules fw machine.modNames files ⟨s.firmware, s.memory, .empty, []⟩
  let fb := if kernel.mbVersion = 2 then machine.queryGop else none
  let rsdp := if kernel.mbVersion = 2 then machine.findRsdp else none
  pure <| (reserve fw t.firmware).1.map fun infoAt =>
    ⟨kernel, s.placed, s.memory, mods, t.names, t.handed, t.memory, fb, rsdp, infoAt⟩

/-! ## Entering the kernel -/

/-- `build_mb1_info` for what was prepared. -/
def Prepared.buildMb1 (p : Prepared) : Option (Mem UInt8 × UInt32) :=
  buildMb1Info p.infoAt p.names.memory machine.memoryMap (p.mods.map LoadedModule.info) p.afterModules

/-- `build_mb2_info` for what was prepared. -/
def Prepared.buildMb2 (p : Prepared) : Option (Mem UInt8 × UInt32) :=
  buildMb2Info p.infoAt p.names.memory machine.memoryMap p.fb (p.mods.map LoadedModule.info) p.rsdp
    p.afterModules

/-- The information structure for a kernel entered in protected mode: the memory with it, its
address and the magic that goes with it. -/
def Prepared.build32 (p : Prepared) : Option (Mem UInt8 × UInt32 × UInt32) :=
  if p.kernel.mbVersion = 1 then (p.buildMb1 machine).map fun (m, addr) => (m, addr, mb1BootMagic)
  else (p.buildMb2 machine).map fun (m, addr) => (m, addr, mb2BootMagic)

/-- The information structure for a kernel entered in long mode, if available: the memory, and its
address or 0. -/
def Prepared.build64 (p : Prepared) : Option (Mem UInt8 × UInt64) :=
  if p.kernel.mbVersion = 2 then (p.buildMb2 machine).map fun (m, addr) => (m, addr.toUInt64)
  else some (p.afterModules, 0)

/-- The rest of `main`; `none` would be a store outside the reserved memory. -/
def enter (p : Prepared) : Option Entered :=
  match p.kernel.bootMode with
  | .protected32 => (p.build32 machine).map fun (m, mbiAddr, magic) =>
    bootJumpToKernel machine.blob p.kernel.entryPoint.toUInt32 mbiAddr magic m
  | .long64 => (p.build64 machine).map fun (m, bootInfoPtr) =>
    bootHandoff64 p.kernel.entryPoint bootInfoPtr m

end

/-! ## What was prepared -/

section
variable {σ : Type} {fw : Firmware σ} {machine : Machine}

/-- The buffer of names before the first module is in order. -/
theorem Names.empty_ok (modNames : Nat) : Names.empty.Ok modNames := ⟨rfl, Nat.zero_le _⟩

/-- The stages of a preparation that succeeded. -/
theorem prepare_ok {fileBuf : Buffer} {files : List ModuleFile} {firmware : σ} {memory : Mem UInt8}
    {p : Prepared} (h : prepare fw machine fileBuf files firmware memory = .ok (some p)) :
    ∃ s t, loadKernel fw fileBuf (.start firmware memory) = .ok (p.kernel, s) ∧
      s.placed = p.placed ∧ s.memory = p.afterKernel ∧
      loadModules fw machine.modNames files ⟨s.firmware, p.afterKernel, .empty, []⟩ = .ok (p.mods, t) ∧
      t.names = p.names ∧ t.handed = p.handed ∧ t.memory = p.afterModules ∧
      (reserve fw t.firmware).1 = some p.infoAt := by
  unfold prepare at h
  obtain ⟨⟨kernel, s⟩, hkernel, h⟩ := bind_ok h
  obtain ⟨⟨mods, t⟩, hmods, h⟩ := bind_ok h
  obtain ⟨infoAt, hinfo, rfl⟩ := Option.map_eq_some_iff.1 (Except.ok.inj h)
  exact ⟨s, t, hkernel, rfl, rfl, hmods, rfl, rfl, rfl, hinfo⟩

/-- A module is loaded or skipped, and its name put where it can be read. -/
theorem loadModule_names {modNames : Nat} (hm : modNames + modNamesCap ≤ 2 ^ 64) {file : ModuleFile}
    {s s' : ModulesState σ} {mod : Option LoadedModule} (hs : s.names.Ok modNames)
    (h : loadModule fw modNames file s = .ok (mod, s')) :
    s'.names.Ok modNames ∧ ∀ lm ∈ mod, InNames modNames lm.info.namePtr := by
  unfold loadModule at h
  simp only at h
  split at h
  · cases h; exact ⟨hs, fun lm hlm => by cases hlm⟩
  split at h
  · cases h; exact ⟨hs, fun lm hlm => by cases hlm⟩
  · obtain ⟨data, -, h⟩ := bind_ok h
    split at h
    · cases h; exact ⟨hs, fun lm hlm => by cases hlm⟩
    · obtain ⟨ptr, names, hstore, hptr, hok⟩ := storeName_spec hm file.name hs
      rw [hstore] at h
      cases h
      exact ⟨hok, fun lm hlm => by cases hlm; exact hptr⟩

/-- The names of all loaded modules can be read. -/
theorem loadModules_names {modNames : Nat} (hm : modNames + modNamesCap ≤ 2 ^ 64) (files : List ModuleFile) :
    ∀ (s s' : ModulesState σ) (mods : List LoadedModule), s.names.Ok modNames →
      loadModules fw modNames files s = .ok (mods, s') →
      s'.names.Ok modNames ∧ ∀ lm ∈ mods, InNames modNames lm.info.namePtr := by
  induction files with
  | nil => intro s s' mods hs h; cases h; exact ⟨hs, fun lm hlm => by cases hlm⟩
  | cons file files ih =>
    intro s s' mods hs h
    rw [loadModules] at h
    obtain ⟨⟨mod, s₁⟩, hmod, h⟩ := bind_ok h
    obtain ⟨⟨mods₁, s₂⟩, hmods, h⟩ := bind_ok h
    cases h
    obtain ⟨hs₁, hptr⟩ := loadModule_names hm hs hmod
    obtain ⟨hs₂, hptrs⟩ := ih s₁ _ mods₁ hs₁ hmods
    refine ⟨hs₂, fun lm hlm => ?_⟩
    rcases List.mem_append.1 hlm with hlm | hlm
    · exact hptr lm (Option.mem_toList.1 hlm)
    · exact hptrs lm hlm

/-! ## Entering the kernel succeeds -/

/-- What `main` relies on when it exits boot services: the names of the modules can be read, and
the memory for the information structure is below four gigabytes. -/
structure Prepared.Sound (machine : Machine) (p : Prepared) : Prop where
  names : p.names.Ok machine.modNames
  named : ∀ lm ∈ p.mods, InNames machine.modNames lm.info.namePtr
  info : p.infoAt + infoSize ≤ 2 ^ 32

theorem prepare_sound {taken : σ → Nat → Prop} (hfw : fw.Lawful taken) {fileBuf : Buffer}
    {files : List ModuleFile} {firmware : σ} {memory : Mem UInt8} {p : Prepared}
    (h : prepare fw machine fileBuf files firmware memory = .ok (some p)) : p.Sound machine := by
  obtain ⟨s, t, -, -, -, hmods, hnames, -, -, hinfo⟩ := prepare_ok h
  obtain ⟨hok, hptrs⟩ := loadModules_names machine.modNames_fits files _ _ _ (Names.empty_ok _) hmods
  obtain ⟨-, hlimit, -⟩ := hfw.below_granted _ _ _ _ hinfo
  exact ⟨hnames ▸ hok, hptrs, hlimit⟩

namespace Prepared.Sound

variable {p : Prepared} (h : p.Sound machine)
include h

theorem nulTerminated : ∀ mi ∈ p.mods.map LoadedModule.info, p.names.memory.NulTerminated mi.namePtr.toNat := by
  intro mi hmi
  obtain ⟨lm, hlm, rfl⟩ := List.mem_map.1 hmi
  exact h.names.nulTerminated machine.modNames_fits (h.named lm hlm)

theorem infoAt_toNat : (UInt32.ofNat p.infoAt).toNat = p.infoAt := by
  have := h.info
  exact UInt32.toNat_ofNat_of_lt' (lt_of_lt_of_le (by rw [infoSize_eq]; omega) this)

/-- The builders succeed, return the full address of the reserved memory, and write nowhere else. -/
theorem buildMb1 : ∃ m addr, p.buildMb1 machine = some (m, addr) ∧ addr.toNat = p.infoAt ∧
    p.afterModules.SameOutside m p.infoAt (p.infoAt + infoSize) := by
  obtain ⟨m, hb, hsame, -⟩ := buildMb1Info_spec p.infoAt p.names.memory machine.memoryMap _
    p.afterModules h.nulTerminated
  exact ⟨m, _, hb, h.infoAt_toNat, hsame⟩

theorem buildMb2 : ∃ m addr, p.buildMb2 machine = some (m, addr) ∧ addr.toNat = p.infoAt ∧
    p.afterModules.SameOutside m p.infoAt (p.infoAt + infoSize) := by
  obtain ⟨m, hb, hsame, -⟩ := buildMb2Info_spec p.infoAt p.names.memory machine.memoryMap p.fb _ p.rsdp
    p.afterModules h.nulTerminated
  exact ⟨m, _, hb, h.infoAt_toNat, hsame⟩

theorem build32 : ∃ m addr magic, p.build32 machine = some (m, addr, magic) ∧ addr.toNat = p.infoAt ∧
    p.afterModules.SameOutside m p.infoAt (p.infoAt + infoSize) := by
  obtain ⟨m₁, a₁, hb₁, ha₁, hs₁⟩ := h.buildMb1
  obtain ⟨m₂, a₂, hb₂, ha₂, hs₂⟩ := h.buildMb2
  unfold Prepared.build32
  split
  · exact ⟨m₁, a₁, mb1BootMagic, by rw [hb₁]; rfl, ha₁, hs₁⟩
  · exact ⟨m₂, a₂, mb2BootMagic, by rw [hb₂]; rfl, ha₂, hs₂⟩

end Prepared.Sound

/-- A kernel entered in protected mode runs from the low half of its entry point, with the magic
and the address that go with what was built. -/
theorem enter_protected32 {p : Prepared} (hmode : p.kernel.bootMode = .protected32) {m : Mem UInt8}
    {addr magic : UInt32} (hb : p.build32 machine = some (m, addr, magic)) :
    enter machine p = some (.protected32 p.kernel.entryPoint.toUInt32 magic addr
      (copyTrampoline machine.blob p.kernel.entryPoint.toUInt32 addr magic m)) := by
  unfold enter
  rw [hmode]
  simp only [hb, Option.map_some, bootJumpToKernel_eq]

end

end Bang
