/-
The way of `main` into a Multiboot kernel, from the firmware to the processor: once boot services are exited
nothing but the information structure and the trampoline is written, and at the kernel's first instruction
everything that was placed is in memory, to be found from the registers the kernel is entered with.
-/
import Bang.Handoff.Enters
import Bang.Handoff.ModulePages
import Bang.Handoff.Preserved
import Bang.Multiboot.Mb1Decode
import Bang.Multiboot.Mb2Decode

namespace Bang

open LittleEndian TagChain X86

/-! ## Leaving for the kernel -/

/-- `main` calls `boot_jump_to_kernel` for what was prepared. In `own`, the program's own memory, is the stack,
and nothing that was placed. -/
structure Leaves (a : Assembled) (machine : Machine) (p : Prepared) (own : Nat → Prop) (s : State) : Prop where
  called : a.Called s
  blob : machine.blob = a.blob
  mode : p.kernel.bootMode = .protected32
  entry : s.reg32 .rcx = p.kernel.entryPoint.toUInt32
  built : ∃ built, p.build32 machine = some (built, s.reg32 .rdx, s.reg32 .r8) ∧ ∀ x, ¬ own x → s.mem x = built x
  stack : ∀ x, (s.reg .rsp).toNat - 16 ≤ x → x < (s.reg .rsp).toNat → own x
  apart : ∀ x, own x → ¬ p.InSegment x ∧ ¬ p.InModule x ∧ ¬ p.InInfo x

section
variable {machine : Machine} {p : Prepared} {a : Assembled} {own : Nat → Prop} {s : State}

/-- What was placed is preserved in any memory that is the same there. -/
theorem Preserved.congr (hlaid : p.Laid) {built m m' : Mem UInt8} (h : Preserved machine p built m)
    (hsame : ∀ x, p.InSegment x ∨ p.InModule x ∨ p.InInfo x → m' x = m x) : Preserved machine p built m' := by
  refine ⟨fun x hx => ?_, fun lm hlm => ?_, fun x hx => ?_, h.copy, h.apart⟩
  · rw [hsame x (.inl hx), h.segments x hx]
  · refine (h.modules lm hlm).congr fun x hle hlt => hsame x (.inr (.inl ⟨lm, hlm, hle, ?_⟩))
    rw [← (hlaid.mods lm hlm).1]
    exact hlt
  · rw [hsame x (.inr (.inr hx)), h.info x hx]

/-- The marks of the processor are in the copy. -/
theorem inCopy_of_marked (hblob : machine.blob = a.blob) {x : Nat} (h : a.Marked x) : machine.InCopy x := by
  have hsize : a.blob.bytes.length = a.gdtAt + 24 + 10 := a.length_bytes
  unfold Machine.InCopy
  unfold Assembled.Marked Assembled.gdtCopy at h
  rw [hblob, hsize]
  omega

/-- The kernel is reached, with everything that was placed. -/
theorem Leaves.reaches (h : Leaves a machine p own s) (hsound : p.Sound machine) (hlaid : p.Laid)
    (hclear : Clear machine p) : ∃ s' built, Reaches a.e64 a.e32 s s' ∧ Protected s' ∧
      s'.ip = p.kernel.entryPoint.toUInt32.toNat ∧ p.build32 machine = some (built, s'.reg32 .rbx, s'.reg32 .rax) ∧
      (s'.reg32 .rbx).toNat = p.infoAt ∧ Preserved machine p built s'.mem := by
  obtain ⟨built, hbuilt, hmem⟩ := h.built
  obtain ⟨built', addr, magic, hbuilt', haddr, hout⟩ := hsound.build32
  cases hbuilt.symm.trans hbuilt'
  obtain ⟨s', hreach, hprotected, hip, heax, hebx, -, hsame⟩ := h.called.reaches
  have hcopy := copyTrampoline_sameOutside a.blob (s.reg32 .rcx) (s.reg32 .rdx) (s.reg32 .r8)
  have hlen : machine.blob.bytes.length = a.blob.bytes.length := by rw [h.blob]
  refine ⟨s', built, hreach, hprotected, by rw [hip, h.entry], by rw [heax, hebx]; exact hbuilt,
    by rw [hebx]; exact haddr, ?_⟩
  have hpreserved : Preserved machine p built
      (copyTrampoline a.blob (s.reg32 .rcx) (s.reg32 .rdx) (s.reg32 .r8) built) :=
    hclear.preserved hlaid hout (by rw [hlen]; exact hcopy built)
  refine hpreserved.congr hlaid fun x hx => ?_
  -- `x` is of something placed, so neither of the copy nor of the program
  have hcopied : ¬ machine.InCopy x := fun hin => by
    obtain ⟨hseg, hmod, hinfo⟩ := hpreserved.copy x hin
    rcases hx with hx | hx | hx
    exacts [hseg hx, hmod hx, hinfo hx]
  have howned : ¬ own x := fun hin => by
    obtain ⟨hseg, hmod, hinfo⟩ := h.apart x hin
    rcases hx with hx | hx | hx
    exacts [hseg hx, hmod hx, hinfo hx]
  have hscratch : ¬ a.Scratch s x := by
    rintro (hmarked | ⟨hle, hlt⟩)
    · exact hcopied (inCopy_of_marked h.blob hmarked)
    · exact howned (h.stack x hle hlt)
  unfold Machine.InCopy at hcopied
  rw [hsame x hscratch, hcopy s.mem x (by omega), hcopy built x (by omega), hmem x howned]

end

/-! ## What is found from the registers -/

section
variable {machine : Machine} {p : Prepared} {built m : Mem UInt8} {addr : UInt32}

/-- A Multiboot2 kernel finds the tags. -/
theorem Prepared.Sound.readMb2 (hsound : p.Sound machine) (hb : p.buildMb2 machine = some (built, addr))
    (hinfo : ∀ x, p.InInfo x → m x = built x) : ∃ k,
      LongestFit p.names.memory machine.memoryMap (p.mods.map LoadedModule.info) k ∧
      readMb2Info m p.infoAt =
        some (mb2Expected p.names.memory machine.memoryMap p.fb (p.mods.map LoadedModule.info) p.rsdp k) := by
  obtain ⟨built', hb', -, htotal, hholds, hle⟩ := buildMb2Info_spec p.infoAt p.names.memory machine.memoryMap p.fb
    (p.mods.map LoadedModule.info) p.rsdp p.afterModules hsound.nulTerminated
  cases hb'.symm.trans hb
  obtain ⟨k, hk, he⟩ := mb2Layout_eq p.names.memory machine.memoryMap p.fb (p.mods.map LoadedModule.info) p.rsdp
  have hok : ∀ t ∈ mb2Layout p.names.memory machine.memoryMap p.fb (p.mods.map LoadedModule.info) p.rsdp, t.Ok := by
    intro t ht
    rcases mem_addTag ht with ht | rfl
    · exact (mb2Front_ok hsound.nulTerminated t ht).1
    · trivial
  have hin : ∀ x, p.infoAt ≤ x → x < p.infoAt + infoSize → m x = built x := fun x hx hx' => hinfo x ⟨hx, hx'⟩
  rw [span] at htotal hle
  have hread : m.read32 p.infoAt = built.read32 p.infoAt := by
    have hload := (built.holds_load p.infoAt 4).congr fun x hx hx' => hin x hx (by rw [Mem.length_load] at hx'; omega)
    have heq := hload.load_eq
    rw [Mem.length_load] at heq
    rw [Mem.read32, Mem.read32, heq]
  refine ⟨k, hk, ?_⟩
  rw [← he]
  exact readMb2Info_eq hok (size_lt hle) (by rw [hread]; exact htotal)
    (hholds.congr fun x hx hx' => hin x (by omega) (by omega))

/-- A Multiboot1 kernel finds the modules and the memory map. -/
theorem Prepared.Sound.readMb1 (hsound : p.Sound machine) (hb : p.buildMb1 machine = some (built, addr))
    (hinfo : ∀ x, p.InInfo x → m x = built x) (haddr : addr.toNat = p.infoAt)
    (hends : ∀ lm ∈ p.mods, lm.info.physStart.toNat + lm.info.size.toNat < 2 ^ 32) :
    readMb1Info m addr = some ⟨((p.mods.map LoadedModule.info).take maxModules).map (bootModule p.names.memory),
      (machine.memoryMap.take mb1MmapMax).map mb1Entry⟩ := by
  obtain ⟨built', hb', -, hparts⟩ := buildMb1Info_spec p.infoAt p.names.memory machine.memoryMap
    (p.mods.map LoadedModule.info) p.afterModules hsound.nulTerminated
  cases hb'.symm.trans hb
  have hparts' : Mb1Parts p.infoAt m
      (mb1Content p.infoAt p.names.memory machine.memoryMap (p.mods.map LoadedModule.info)) := by
    intro part
    have hstop := part.stop_le
    have hstart := part.start_le_stop
    have hfits := (hparts part).fits
    refine ⟨hfits, (hparts part).holds.congr fun x hx hx' => hinfo x ⟨by omega, ?_⟩⟩
    rw [List.length_append, List.length_replicate] at hx'
    omega
  have hmods : ∀ mi ∈ p.mods.map LoadedModule.info, mi.physStart.toNat + mi.size.toNat < 2 ^ 32 := by
    intro mi hmi
    obtain ⟨lm, hlm, rfl⟩ := List.mem_map.1 hmi
    exact hends lm hlm
  rw [readMb1Info, haddr, readMb1MmapList_eq hsound.info hparts',
    readMb1ModuleList_eq hsound.info hsound.nulTerminated hmods hparts']
  rfl

end

/-! ## Modules, from the directory to the kernel -/

/-- The file's bytes are in memory from `start` on. -/
def ModuleFile.At (file : ModuleFile) (m : Mem UInt8) (start : Nat) : Prop :=
  ∃ bs, file.content = some bs ∧ (bs.take file.fileSize.toNat).length = file.fileSize.toNat ∧
    m.Holds start (bs.take file.fileSize.toNat)

/-- A module tag leads to a file. -/
def Mb2Tag.LeadsTo (m : Mem UInt8) (tag : Mb2Tag) (file : ModuleFile) : Prop :=
  ∃ start stop name, tag = .module start stop name ∧ file.At m start.toNat ∧
    stop.toNat = (start.toNat + file.fileSize.toNat) % 2 ^ 32

/-- A module of a Multiboot1 structure leads to a file. -/
def BootModule.LeadsTo (m : Mem UInt8) (mod : BootModule) (file : ModuleFile) : Prop :=
  file.At m mod.start ∧ mod.stop = mod.start + file.fileSize.toNat

section
variable {σ : Type} {fw : Firmware σ} {taken : σ → Nat → Prop} {machine : Machine} {p : Prepared}

/-- The files the modules are of. -/
theorem prepare_files (hfw : fw.Lawful taken) {fileBuf : Buffer} {files : List ModuleFile} {firmware : σ}
    {memory : Mem UInt8} (h : prepare fw machine fileBuf files firmware memory = .ok (some p)) :
    (∃ chosen, chosen.Sublist files ∧ List.Forall₂ LoadedModule.Of chosen p.mods) ∧
      ∀ lm ∈ p.mods, lm.info.physStart.toNat < 2 ^ 32 ∧ lm.info.physStart.toNat + lm.data.length ≤ 2 ^ 32 := by
  obtain ⟨s, t, -, -, -, hmods, -, -, -, -⟩ := prepare_ok h
  obtain ⟨hfills, hchosen⟩ := loadModules_fills hfw files hmods
  refine ⟨hchosen, fun lm hlm => ?_⟩
  obtain ⟨-, hsome, hbelow, -, -⟩ := hfills.between lm hlm
  have hpages : lm.pages.length = lm.data.length + _ := List.length_append
  exact ⟨by omega, by omega⟩

/-- Each module is where its file is found. -/
theorem Preserved.files {built m : Mem UInt8} (h : Preserved machine p built m) {chosen : List ModuleFile}
    (hchosen : List.Forall₂ LoadedModule.Of chosen p.mods) :
    List.Forall₂ (fun file lm => lm.info.size = file.fileSize ∧ lm.data.length = file.fileSize.toNat ∧ lm ∈ p.mods ∧
      file.At m lm.info.physStart.toNat) chosen p.mods := by
  refine List.forall₂_iff_zip.2 ⟨hchosen.length_eq, fun {file lm} hzip => ?_⟩
  obtain ⟨hsize, hlength, bs, hcontent, hdata⟩ := List.forall₂_zip hchosen hzip
  have hlm := (List.of_mem_zip hzip).2
  exact ⟨hsize, hlength, hlm, bs, hcontent, by rw [← hdata, hlength], hdata ▸ h.modules lm hlm⟩

theorem prefix_ite {α : Type} {c : Prop} [Decidable c] {xs ys zs : List α} (h : xs <+: ys) :
    xs <+: if c then ys ++ zs else ys := by
  split
  · exact h.trans (List.prefix_append ys zs)
  · exact h

/-- The tags of the modules come behind that of the memory map. -/
theorem mb2Prefix_front (names : Mem UInt8) (map : List MemoryDescriptor) (fb : Option FbInfo)
    (modules : List ModuleInfo) (rsdp : Option Rsdp) (k : Nat) :
    mb2Prefix names map modules k <+: mb2Expected names map fb modules rsdp k := by
  unfold mb2Expected
  cases fb with
  | none =>
    cases rsdp with
    | none => exact prefix_ite List.prefix_rfl
    | some rsdp => exact prefix_ite (prefix_ite List.prefix_rfl)
  | some fb =>
    cases rsdp with
    | none => exact prefix_ite (prefix_ite List.prefix_rfl)
    | some rsdp => exact prefix_ite (prefix_ite (prefix_ite List.prefix_rfl))

/-- A Multiboot2 kernel in protected mode is started, at the low 32 bits of its entry point: from where its magic says
they are it reads the tags, and the module tags lead, in the order of the directory, to the files that were loaded. -/
theorem multiboot2_started (hfw : fw.Lawful taken) {fileBuf : Buffer} {files : List ModuleFile} {firmware : σ}
    {memory : Mem UInt8} (h : prepare fw machine fileBuf files firmware memory = .ok (some p))
    (hversion : p.kernel.mbVersion = 2) (hclear : Clear machine p) {a : Assembled} {own : Nat → Prop} {s : State}
    (hleaves : Leaves a machine p own s) :
    ∃ s' k mods rest, ∃ chosen : List ModuleFile, Reaches a.e64 a.e32 s s' ∧ Protected s' ∧
      s'.ip = p.kernel.entryPoint.toUInt32.toNat ∧ s'.reg32 .rax = mb2BootMagic ∧
      readMb2Info s'.mem (s'.reg32 .rbx).toNat = some (mapTag machine.memoryMap :: (mods ++ rest)) ∧
      LongestFit p.names.memory machine.memoryMap (p.mods.map LoadedModule.info) k ∧
      chosen.Sublist files ∧ chosen.length = p.mods.length ∧
      List.Forall₂ (Mb2Tag.LeadsTo s'.mem) mods (chosen.take k) ∧
      ∀ x, p.InSegment x → s'.mem x = p.afterKernel x := by
  have hsound := prepare_sound hfw h
  obtain ⟨⟨chosen, hsub, hall⟩, hbelow⟩ := prepare_files hfw h
  obtain ⟨s', built, hreach, hprotected, hip, hbuilt, hebx, hpreserved⟩ :=
    hleaves.reaches hsound (prepare_laid hfw h) hclear
  obtain ⟨⟨built', addr⟩, hb, heq⟩ : ∃ r, p.buildMb2 machine = some r ∧
      (r.1, r.2, mb2BootMagic) = (built, s'.reg32 .rbx, s'.reg32 .rax) := by
    rw [Prepared.build32, if_neg (by rw [hversion]; decide)] at hbuilt
    exact Option.map_eq_some_iff.1 hbuilt
  obtain ⟨hbuilt', -, hmagic⟩ : built' = built ∧ addr = s'.reg32 .rbx ∧ mb2BootMagic = s'.reg32 .rax := by
    simpa using heq
  obtain ⟨k, hk, hread⟩ := hsound.readMb2 hb (by rw [hbuilt']; exact hpreserved.info)
  obtain ⟨rest, hrest⟩ := mb2Prefix_front p.names.memory machine.memoryMap p.fb (p.mods.map LoadedModule.info) p.rsdp k
  refine ⟨s', k, _, rest, chosen, hreach, hprotected, hip, hmagic.symm, by rw [hebx, hread, ← hrest]; rfl, hk, hsub,
    hall.length_eq, ?_, hpreserved.segments⟩
  rw [← List.map_take, List.map_map, List.forall₂_map_left_iff]
  refine (List.forall₂_take k (hpreserved.files hall)).flip.imp fun lm file hat => ?_
  obtain ⟨hsize, hlength, hlm, hat⟩ := hat
  obtain ⟨hstart, hend⟩ := hbelow lm hlm
  have hlow : lm.info.physStart.toUInt32.toNat = lm.info.physStart.toNat := by
    rw [UInt64.toNat_toUInt32]
    omega
  refine ⟨_, _, _, rfl, by rw [hlow]; exact hat, ?_⟩
  rw [ModuleInfo.physEnd, UInt64.toNat_toUInt32, UInt64.toNat_add, hlow, hsize]
  omega

/-- So is a Multiboot1 kernel, unless a module ends with the first four gigabytes: the table of modules leads to
the first files that were loaded. -/
theorem multiboot1_started (hfw : fw.Lawful taken) {fileBuf : Buffer} {files : List ModuleFile} {firmware : σ}
    {memory : Mem UInt8} (h : prepare fw machine fileBuf files firmware memory = .ok (some p))
    (hversion : p.kernel.mbVersion = 1) (hclear : Clear machine p) {a : Assembled} {own : Nat → Prop} {s : State}
    (hleaves : Leaves a machine p own s)
    (hends : ∀ lm ∈ p.mods, lm.info.physStart.toNat + lm.info.size.toNat < 2 ^ 32) :
    ∃ s' mods, ∃ chosen : List ModuleFile, Reaches a.e64 a.e32 s s' ∧ Protected s' ∧
      s'.ip = p.kernel.entryPoint.toUInt32.toNat ∧ s'.reg32 .rax = mb1BootMagic ∧
      readMb1Info s'.mem (s'.reg32 .rbx) = some ⟨mods, (machine.memoryMap.take mb1MmapMax).map mb1Entry⟩ ∧
      chosen.Sublist files ∧ chosen.length = p.mods.length ∧
      List.Forall₂ (BootModule.LeadsTo s'.mem) mods (chosen.take maxModules) ∧
      ∀ x, p.InSegment x → s'.mem x = p.afterKernel x := by
  have hsound := prepare_sound hfw h
  obtain ⟨⟨chosen, hsub, hall⟩, -⟩ := prepare_files hfw h
  obtain ⟨s', built, hreach, hprotected, hip, hbuilt, hebx, hpreserved⟩ :=
    hleaves.reaches hsound (prepare_laid hfw h) hclear
  obtain ⟨⟨built', addr⟩, hb, heq⟩ : ∃ r, p.buildMb1 machine = some r ∧
      (r.1, r.2, mb1BootMagic) = (built, s'.reg32 .rbx, s'.reg32 .rax) := by
    rw [Prepared.build32, if_pos hversion] at hbuilt
    exact Option.map_eq_some_iff.1 hbuilt
  obtain ⟨hbuilt', haddr, hmagic⟩ : built' = built ∧ addr = s'.reg32 .rbx ∧ mb1BootMagic = s'.reg32 .rax := by
    simpa using heq
  subst hbuilt' haddr
  have hread := hsound.readMb1 hb hpreserved.info hebx hends
  refine ⟨s', _, chosen, hreach, hprotected, hip, hmagic.symm, hread, hsub, hall.length_eq, ?_, hpreserved.segments⟩
  rw [← List.map_take, List.map_map, List.forall₂_map_left_iff]
  refine (List.forall₂_take maxModules (hpreserved.files hall)).flip.imp fun lm file hat => ?_
  obtain ⟨hsize, -, -, hat⟩ := hat
  exact ⟨hat, by rw [← hsize]; rfl⟩

/-! ## Leaving for a kernel in long mode -/

/-- `main` calls `boot_handoff_64` for what was prepared; in `own`, the program's own memory, is nothing that was
placed. -/
structure Leaves64 (e64 : Machine.Encoding Instr64) (machine : Machine) (p : Prepared) (own : Nat → Prop) (s : State) :
    Prop where
  in64 : In64 s
  code : (way64 e64).CodeAt s bootHandoff64Code
  mode : p.kernel.bootMode = .long64
  entry : s.reg .rcx = p.kernel.entryPoint
  built : ∃ built, p.build64 machine = some (built, s.reg .rdx) ∧ ∀ x, ¬ own x → s.mem x = built x
  apart : ∀ x, own x → ¬ p.InSegment x ∧ ¬ p.InModule x ∧ ¬ p.InInfo x

/-- The kernel is reached; what was placed is as the builder left it, which wrote to the memory for the information
structure, if at all. -/
theorem Leaves64.reaches {e64 : Machine.Encoding Instr64} (e32 : Machine.Encoding Instr32) {own : Nat → Prop}
    {s : State} (h : Leaves64 e64 machine p own s) (hsound : p.Sound machine) :
    ∃ s' built, Reaches e64 e32 s s' ∧ s'.mode = some .bits64 ∧ s'.interrupts = false ∧
      s'.ip = p.kernel.entryPoint.toNat ∧ s'.reg .rdi = bangHandoffMagic ∧
      p.afterModules.SameOutside built p.infoAt (p.infoAt + infoSize) ∧
      (p.kernel.mbVersion = 2 → ∃ addr, p.buildMb2 machine = some (built, addr) ∧ (s'.reg .rsi).toNat = p.infoAt) ∧
      (p.kernel.mbVersion ≠ 2 → s'.reg .rsi = 0) ∧
      ∀ x, p.InSegment x ∨ p.InModule x ∨ p.InInfo x → s'.mem x = built x := by
  obtain ⟨s', hreach, hin, hint, hip, hrdi, hrsi, -, hmem⟩ := reaches_handoff64 e64 e32 h.in64 h.code
  obtain ⟨built, hbuilt, hown⟩ := h.built
  have hout : p.afterModules.SameOutside built p.infoAt (p.infoAt + infoSize) ∧
      (p.kernel.mbVersion = 2 → ∃ addr, p.buildMb2 machine = some (built, addr) ∧ (s.reg .rdx).toNat = p.infoAt) ∧
      (p.kernel.mbVersion ≠ 2 → s.reg .rdx = 0) := by
    unfold Prepared.build64 at hbuilt
    split at hbuilt
    · rename_i hversion
      obtain ⟨m, addr, hb, haddr, hsame⟩ := hsound.buildMb2
      rw [hb] at hbuilt
      obtain ⟨rfl, hrdx⟩ : m = built ∧ addr.toUInt64 = s.reg .rdx := by simpa using hbuilt
      exact ⟨hsame, fun _ => ⟨addr, hb, by rw [← hrdx, UInt32.toNat_toUInt64, haddr]⟩, fun hne => absurd hversion hne⟩
    · rename_i hversion
      obtain ⟨rfl, hrdx⟩ : p.afterModules = built ∧ 0 = s.reg .rdx := by simpa using hbuilt
      exact ⟨.refl _ _ _, fun htwo => absurd htwo hversion, fun _ => hrdx.symm⟩
  rw [← hrsi] at hout
  obtain ⟨hsame, hmb2, hnot⟩ := hout
  refine ⟨s', built, hreach, hin, hint, by rw [hip, h.entry], hrdi, hsame, hmb2, hnot, fun x hx => ?_⟩
  -- what was placed is none of the program's own memory
  rw [hmem]
  refine hown x fun hin => ?_
  obtain ⟨hseg, hmod, hinfo⟩ := h.apart x hin
  rcases hx with hx | hx | hx
  exacts [hseg hx, hmod hx, hinfo hx]

/-- Segments that do not wrap are kept by what is placed behind them and by the builder. -/
theorem Prepared.Laid.segments_kept (hlaid : p.Laid) {built : Mem UInt8}
    (hsame : p.afterModules.SameOutside built p.infoAt (p.infoAt + infoSize)) (hwraps : ∀ seg ∈ p.placed, ¬ seg.Wraps)
    {x : Nat} (hx : p.InSegment x) : built x = p.afterKernel x := by
  obtain ⟨seg, hseg, hc⟩ := hx
  have hruns := hlaid.segments seg hseg (hwraps seg hseg) x hc
  have hnotInfo : ¬ p.InInfo x := hruns _ (List.mem_cons_self ..)
  unfold Prepared.InInfo at hnotInfo
  rw [hsame x (by omega), hlaid.frame x fun r hr => hruns r (List.mem_cons_of_mem _ hr)]

/-- A kernel in long mode is started, wherever it was placed: at its full entry point, with the modules in
memory, with its segments unless one wraps, and with the tags if it is a Multiboot2 kernel. -/
theorem long64_started (hfw : fw.Lawful taken) {fileBuf : Buffer} {files : List ModuleFile} {firmware : σ}
    {memory : Mem UInt8} (h : prepare fw machine fileBuf files firmware memory = .ok (some p))
    {e64 : Machine.Encoding Instr64} (e32 : Machine.Encoding Instr32) {own : Nat → Prop} {s : State}
    (hleaves : Leaves64 e64 machine p own s) :
    ∃ s', Reaches e64 e32 s s' ∧ s'.mode = some .bits64 ∧ s'.interrupts = false ∧ s'.ip = p.kernel.entryPoint.toNat ∧
      s'.reg .rdi = bangHandoffMagic ∧
      (p.kernel.mbVersion = 2 → ∃ k, LongestFit p.names.memory machine.memoryMap (p.mods.map LoadedModule.info) k ∧
        readMb2Info s'.mem (s'.reg .rsi).toNat =
          some (mb2Expected p.names.memory machine.memoryMap p.fb (p.mods.map LoadedModule.info) p.rsdp k)) ∧
      (p.kernel.mbVersion ≠ 2 → s'.reg .rsi = 0) ∧
      (∃ chosen : List ModuleFile, chosen.Sublist files ∧
        List.Forall₂ (fun file lm => file.At s'.mem lm.info.physStart.toNat) chosen p.mods) ∧
      ((∀ seg ∈ p.placed, ¬ seg.Wraps) → ∀ x, p.InSegment x → s'.mem x = p.afterKernel x) := by
  have hsound := prepare_sound hfw h
  have hlaid := prepare_laid hfw h
  obtain ⟨⟨chosen, hsub, hall⟩, -⟩ := prepare_files hfw h
  obtain ⟨s', built, hreach, hmode, hint, hip, hrdi, hsame, hmb2, hnot, hkept⟩ := hleaves.reaches e32 hsound
  refine ⟨s', hreach, hmode, hint, hip, hrdi, fun htwo => ?_, hnot, ⟨chosen, hsub, ?_⟩, fun hwraps x hx => ?_⟩
  · obtain ⟨addr, hb, haddr⟩ := hmb2 htwo
    rw [haddr]
    exact hsound.readMb2 hb fun x hx => hkept x (.inr (.inr hx))
  · refine List.forall₂_iff_zip.2 ⟨hall.length_eq, fun {file lm} hzip => ?_⟩
    obtain ⟨-, hlength, bs, hcontent, hdata⟩ := List.forall₂_zip hall hzip
    have hlm := (List.of_mem_zip hzip).2
    obtain ⟨hlen, hholds, r, hr, hstart, hfits⟩ := hlaid.mods lm hlm
    refine ⟨bs, hcontent, by rw [← hdata, hlength], hdata ▸ hholds.congr fun x hle hlt => ?_⟩
    have hnotInfo : ¬ p.InInfo x := fun hi => hlaid.info x hi r hr ⟨by omega, by omega⟩
    unfold Prepared.InInfo at hnotInfo
    rw [hkept x (.inr (.inl ⟨lm, hlm, hle, by omega⟩)), hsame x (by omega)]
  · rw [hkept x (.inl hx), hlaid.segments_kept hsame hwraps hx]

end

/-! ## Three kernels -/

/-- A machine with the trampoline as it is assembled. -/
def linkedMachine : Machine := { plainMachine with blob := assembled.blob }

/-- The call from the third megabyte, where nothing was placed. -/
theorem leaves_linked {p : Prepared} (hsound : p.Sound linkedMachine) (hmode : p.kernel.bootMode = .protected32)
    (hlow : ∀ x, p.InSegment x ∨ p.InModule x ∨ p.InInfo x → x < 0x300000) :
    ∃ s, Leaves assembled linkedMachine p (0x300000 ≤ ·) s := by
  obtain ⟨built, addr, magic, hbuilt, -, -⟩ := hsound.build32
  generalize hs : underFirmware (fun
      | .rcx => p.kernel.entryPoint.toUInt32.toUInt64
      | .rdx => addr.toUInt64
      | .r8 => magic.toUInt64
      | .rsp => 0x3F0000
      | _ => 0) 0x400000 (built.store 0x400000 (assembled.e64.assemble assembled.jumpCode ++ assembled.bytes)) = s
  have hip : s.ip = 0x400000 := by rw [← hs]; rfl
  have hrsp : (s.reg .rsp).toNat = 0x3F0000 := by rw [← hs]; rfl
  have hentry : s.reg32 .rcx = p.kernel.entryPoint.toUInt32 := by rw [← hs]; exact UInt32.toUInt32_toUInt64 _
  have haddr : s.reg32 .rdx = addr := by rw [← hs]; exact UInt32.toUInt32_toUInt64 _
  have hmagic : s.reg32 .r8 = magic := by rw [← hs]; exact UInt32.toUInt32_toUInt64 _
  have htramp : trampAddr = 0x1000 := rfl
  have hsmall := assembled.small
  have hcalled : assembled.Called s := by
    refine ⟨hs ▸ underFirmware_in64 _ _ _, hs ▸ rfl, hs ▸ Mem.holds_store _ _ _, ?_, ?_, ?_, ?_, ?_⟩ <;> omega
  refine ⟨s, hcalled, rfl, hmode, hentry, ⟨built, by rw [haddr, hmagic]; exact hbuilt, fun x hx => ?_⟩,
    fun x hx _ => by omega, fun x hx => ⟨fun h => ?_, fun h => ?_, fun h => ?_⟩⟩
  · rw [← hs]
    exact Mem.store_below _ _ (by omega)
  · exact Nat.not_le.2 (hlow x (.inl h)) hx
  · exact Nat.not_le.2 (hlow x (.inr (.inl h))) hx
  · exact Nat.not_le.2 (hlow x (.inr (.inr h))) hx

/-- What was placed is low, and not where the trampoline goes, when it is of a page at one megabyte, a module of
three bytes at two, and an information structure there or behind it. -/
theorem low_of_placed {p : Prepared} (hplaced : ∀ seg ∈ p.placed, seg.paddr = 0x100000 ∧ seg.memsz = 0x1000)
    (hmods : ∀ lm ∈ p.mods, lm.info = ⟨0x7F000000, 0x200000, 3⟩) (hinfo : 0x200000 ≤ p.infoAt ∧ p.infoAt ≤ 0x201000) :
    (∀ x, p.InSegment x ∨ p.InModule x ∨ p.InInfo x → 0x100000 ≤ x ∧ x < 0x300000) ∧
      Clear linkedMachine p := by
  have hsize : assembled.blob.bytes.length < 0x10000 := by
    have hsmall := assembled.small
    have hlen : assembled.blob.bytes.length = assembled.size := assembled.length_bytes
    omega
  have hlow : ∀ x, p.InSegment x ∨ p.InModule x ∨ p.InInfo x → 0x100000 ≤ x ∧ x < 0x300000 := by
    rintro x (⟨seg, hseg, hc⟩ | ⟨lm, hmem, hc⟩ | hc)
    · obtain ⟨hpaddr, hmemsz⟩ := hplaced seg hseg
      unfold Segment.Covers at hc
      rw [hpaddr, hmemsz] at hc
      obtain ⟨hle, hlt⟩ : 0x100000 ≤ x ∧ x < 0x100000 + 0x1000 := hc
      omega
    · rw [hmods lm hmem] at hc
      obtain ⟨hle, hlt⟩ : 0x200000 ≤ x ∧ x < 0x200000 + 3 := hc
      omega
    · unfold Prepared.InInfo at hc
      rw [infoSize_eq] at hc
      omega
  have hnot : ∀ lo len, (∀ x, lo ≤ x → x < lo + len → 0x100000 ≤ x) →
      ¬ Meets lo len trampAddr linkedMachine.blob.bytes.length := by
    intro lo len hhigh hmeets
    obtain ⟨x, ⟨hle, hlt⟩, -, hlt'⟩ := meets_iff.1 hmeets
    have htramp : trampAddr = 0x1000 := rfl
    have := hhigh x hle hlt
    have hlen : linkedMachine.blob.bytes.length = assembled.blob.bytes.length := rfl
    omega
  refine ⟨hlow, fun seg hseg => ?_, fun lm hmem => ?_, ?_, fun seg hseg hw => ?_⟩
  · exact hnot _ _ fun x hle hlt => (hlow x (.inl ⟨seg, hseg, hle, hlt⟩)).1
  · exact hnot _ _ fun x hle hlt => (hlow x (.inr (.inl ⟨lm, hmem, hle, hlt⟩))).1
  · exact hnot _ _ fun x hle hlt => (hlow x (.inr (.inr ⟨hle, hlt⟩))).1
  · obtain ⟨hpaddr, hmemsz⟩ := hplaced seg hseg
    unfold Segment.Wraps at hw
    rw [hpaddr, hmemsz] at hw
    exact absurd hw (by decide)

/-- A Multiboot2 kernel at one megabyte, with a module. -/
theorem multiboot2_started_one_module : ∃ p s s' tags,
    prepare bump linkedMachine ⟨mb2Kernel 0x100000, by decide⟩ [⟨[0x61, 0], 3, some [1, 2, 3]⟩]
      ⟨fun _ => false, 0x200000⟩ (fun _ => 0) = .ok (some p) ∧
    Reaches assembled.e64 assembled.e32 s s' ∧ Protected s' ∧ s'.reg32 .rax = mb2BootMagic ∧
    readMb2Info s'.mem (s'.reg32 .rbx).toNat = some tags := by
  have hrun : (prepare bump linkedMachine ⟨mb2Kernel 0x100000, by decide⟩ [⟨[0x61, 0], 3, some [1, 2, 3]⟩]
      ⟨fun _ => false, 0x200000⟩ (fun _ => 0)).map (fun r => r.map fun p =>
        (p.kernel, p.placed, p.mods.map LoadedModule.info, p.infoAt)) =
      .ok (some (⟨0x100000, 2, .protected32⟩, [⟨0x100000, 0x1000, 0, 0⟩], [⟨0x7F000000, 0x200000, 3⟩], 0x201000)) := by
    decide +kernel
  obtain ⟨r, h, hr⟩ := map_ok hrun
  obtain ⟨p, rfl, hp⟩ := Option.map_eq_some_iff.1 hr
  simp only [Prod.mk.injEq] at hp
  obtain ⟨hkernel, hplaced, hmods, hinfo⟩ := hp
  have hone : ∀ lm ∈ p.mods, lm.info = ⟨0x7F000000, 0x200000, 3⟩ := fun lm hlm =>
    List.mem_singleton.1 (hmods ▸ List.mem_map_of_mem hlm)
  obtain ⟨hlow, hclear⟩ := low_of_placed (by simp [hplaced]) hone (by omega)
  obtain ⟨s, hleaves⟩ := leaves_linked (prepare_sound bump_lawful h) (by rw [hkernel]) fun x hx => (hlow x hx).2
  obtain ⟨s', _, _, _, _, hreach, hprotected, -, heax, hread, -⟩ :=
    multiboot2_started bump_lawful h (by rw [hkernel]) hclear hleaves
  exact ⟨p, s, s', _, h, hreach, hprotected, heax, hread⟩

/-- A Multiboot1 kernel there. -/
theorem multiboot1_started_one_module : ∃ p s s' view,
    prepare bump linkedMachine ⟨elf32Executable 32 1 (bssHeader32 0x100000 ++ u32 mb1HeaderMagic ++ u32 0 ++
      u32 (0 - mb1HeaderMagic)), by decide⟩ [⟨[0x61, 0], 3, some [1, 2, 3]⟩]
      ⟨fun _ => false, 0x200000⟩ (fun _ => 0) = .ok (some p) ∧
    Reaches assembled.e64 assembled.e32 s s' ∧ Protected s' ∧ s'.reg32 .rax = mb1BootMagic ∧
    readMb1Info s'.mem (s'.reg32 .rbx) = some view := by
  have hrun : (prepare bump linkedMachine ⟨elf32Executable 32 1 (bssHeader32 0x100000 ++ u32 mb1HeaderMagic ++ u32 0 ++
      u32 (0 - mb1HeaderMagic)), by decide⟩ [⟨[0x61, 0], 3, some [1, 2, 3]⟩]
      ⟨fun _ => false, 0x200000⟩ (fun _ => 0)).map (fun r => r.map fun p =>
        (p.kernel, p.placed, p.mods.map LoadedModule.info, p.infoAt)) =
      .ok (some (⟨0x100000, 1, .protected32⟩, [⟨0x100000, 0x1000, 0, 0⟩], [⟨0x7F000000, 0x200000, 3⟩], 0x201000)) := by
    decide +kernel
  obtain ⟨r, h, hr⟩ := map_ok hrun
  obtain ⟨p, rfl, hp⟩ := Option.map_eq_some_iff.1 hr
  simp only [Prod.mk.injEq] at hp
  obtain ⟨hkernel, hplaced, hmods, hinfo⟩ := hp
  have hone : ∀ lm ∈ p.mods, lm.info = ⟨0x7F000000, 0x200000, 3⟩ := fun lm hlm =>
    List.mem_singleton.1 (hmods ▸ List.mem_map_of_mem hlm)
  obtain ⟨hlow, hclear⟩ := low_of_placed (by simp [hplaced]) hone (by omega)
  obtain ⟨s, hleaves⟩ := leaves_linked (prepare_sound bump_lawful h) (by rw [hkernel]) fun x hx => (hlow x hx).2
  obtain ⟨s', _, _, hreach, hprotected, -, heax, hread, -⟩ :=
    multiboot1_started bump_lawful h (by rw [hkernel]) hclear hleaves fun lm hlm => by
      rw [hone lm hlm]
      decide
  exact ⟨p, s, s', _, h, hreach, hprotected, heax, hread⟩

/-- A 64-bit kernel of one clear page at `paddr`. -/
def plainKernel64 (paddr : UInt64) : List UInt8 :=
  [0x7F, 0x45, 0x4C, 0x46, 2, 1, 1] ++ List.replicate 9 0 ++ u16 etExec ++ u16 emX8664 ++ u32 1 ++ u64 paddr ++
    u64 64 ++ u64 0 ++ u32 0 ++ u16 64 ++ u16 56 ++ u16 1 ++ u16 0 ++ u16 0 ++ u16 0 ++
    (u32 ptLoad ++ u32 6 ++ u64 0 ++ u64 paddr ++ u64 paddr ++ u64 0 ++ u64 0x1000 ++ u64 0x1000)

/-- A 64-bit kernel at the address of the trampoline, without a Multiboot header. -/
theorem long64_started_low : ∃ p s s',
    prepare bump linkedMachine ⟨plainKernel64 0x1000, by decide⟩ [] ⟨fun _ => false, 0x200000⟩ (fun _ => 0) =
      .ok (some p) ∧
    Reaches encoding64 encoding32 s s' ∧ s'.mode = some .bits64 ∧ s'.ip = 0x1000 ∧ s'.reg .rsi = 0 ∧
    ∀ x, p.InSegment x → s'.mem x = p.afterKernel x := by
  have hrun : (prepare bump linkedMachine ⟨plainKernel64 0x1000, by decide⟩ [] ⟨fun _ => false, 0x200000⟩
      (fun _ => 0)).map (fun r => r.map fun p => (p.kernel, p.placed, p.mods.map LoadedModule.info, p.infoAt)) =
      .ok (some (⟨0x1000, 0, .long64⟩, [⟨0x1000, 0x1000, 0, 0⟩], [], 0x200000)) := by
    decide +kernel
  obtain ⟨r, h, hr⟩ := map_ok hrun
  obtain ⟨p, rfl, hp⟩ := Option.map_eq_some_iff.1 hr
  simp only [Prod.mk.injEq] at hp
  obtain ⟨hkernel, hplaced, hmods, hinfo⟩ := hp
  have hbuilt : p.build64 linkedMachine = some (p.afterModules, 0) := by
    rw [Prepared.build64, if_neg (by rw [hkernel]; decide)]
  have hlow : ∀ x, p.InSegment x ∨ p.InModule x ∨ p.InInfo x → x < 0x300000 := by
    rintro x (⟨seg, hseg, hc⟩ | ⟨lm, hlm, -⟩ | hc)
    · rw [hplaced] at hseg
      cases List.mem_singleton.1 hseg
      obtain ⟨hle, hlt⟩ : 0x1000 ≤ x ∧ x < 0x1000 + 0x1000 := hc
      omega
    · rw [List.map_eq_nil_iff.1 hmods] at hlm
      cases hlm
    · unfold Prepared.InInfo at hc
      rw [hinfo, infoSize_eq] at hc
      omega
  have hleaves : Leaves64 encoding64 linkedMachine p (0x300000 ≤ ·)
      (underFirmware (fun | .rcx => 0x1000 | _ => 0) 0x400000
        (p.afterModules.store 0x400000 (encoding64.assemble bootHandoff64Code))) := by
    refine ⟨underFirmware_in64 _ _ _, Mem.holds_store _ _ _, by rw [hkernel], by rw [hkernel]; rfl,
      ⟨p.afterModules, hbuilt, fun x hx => Mem.store_below _ _ (by omega)⟩,
      fun x hx => ⟨fun hc => ?_, fun hc => ?_, fun hc => ?_⟩⟩
    · exact Nat.not_le.2 (hlow x (.inl hc)) hx
    · exact Nat.not_le.2 (hlow x (.inr (.inl hc))) hx
    · exact Nat.not_le.2 (hlow x (.inr (.inr hc))) hx
  obtain ⟨s', hreach, hmode, -, hip, -, -, hrsi, -, hseg⟩ := long64_started bump_lawful h encoding32 hleaves
  refine ⟨p, _, s', h, hreach, hmode, by rw [hip, hkernel]; rfl, hrsi (by rw [hkernel]; decide),
    hseg fun seg hseg hw => ?_⟩
  rw [hplaced] at hseg
  rw [List.mem_singleton.1 hseg] at hw
  exact absurd hw (by decide)

end Bang
