/-
What a kernel entered in protected mode finds of what was placed for it: the firmware keeps
modules and the information structure apart from the segments and from one another, but the
trampoline is copied to its fixed address whatever is there.
-/
import Bang.Handoff.Agreement
import Bang.Handoff.Placement

namespace Bang

open LittleEndian

/-! ## What was placed, and where -/

section
variable (machine : Machine) (p : Prepared)

/-- A byte of a loaded segment. -/
def Prepared.InSegment (a : Nat) : Prop := ∃ seg ∈ p.placed, seg.Covers a

/-- A byte of a module. -/
def Prepared.InModule (a : Nat) : Prop :=
  ∃ lm ∈ p.mods, lm.info.physStart.toNat ≤ a ∧ a < lm.info.physStart.toNat + lm.info.size.toNat

/-- A byte of the memory for the information structure. -/
def Prepared.InInfo (a : Nat) : Prop := p.infoAt ≤ a ∧ a < p.infoAt + infoSize

/-- The runs of pages handed out after the kernel was loaded. -/
def Prepared.runs : List (Nat × Nat) := (p.infoAt, infoPages) :: p.handed

/-- A byte of the trampoline's copy. -/
def Machine.InCopy (a : Nat) : Prop := trampAddr ≤ a ∧ a < trampAddr + machine.blob.bytes.length

/-- At the first instruction of the kernel every byte that was placed has the value it was given:
the segments by `load_kernel`, the modules their files' bytes, the information structure by its
builder, which left `built`. The copy is on none of them, and no byte of a segment is given
another value by being handed out again. -/
structure Preserved (built m : Mem UInt8) : Prop where
  segments : ∀ a, p.InSegment a → m a = p.afterKernel a
  modules : ∀ lm ∈ p.mods, m.Holds lm.info.physStart.toNat lm.data
  info : ∀ a, p.InInfo a → m a = built a
  copy : ∀ a, machine.InCopy a → ¬ p.InSegment a ∧ ¬ p.InModule a ∧ ¬ p.InInfo a
  apart : ∀ a, p.InSegment a → ∀ r ∈ p.runs, ¬ InBytes r a

/-- The `len` bytes from `lo` on meet the `len'` bytes from `lo'` on. -/
def Meets (lo len lo' len' : Nat) : Prop := 0 < len ∧ 0 < len' ∧ lo < lo' + len' ∧ lo' < lo + len

instance (lo len lo' len' : Nat) : Decidable (Meets lo len lo' len') := inferInstanceAs (Decidable (_ ∧ _))

/-- Nothing was placed where the trampoline goes, and no segment that ends in the last page of the
address space, whose pages are not asked for, is in memory handed out later. -/
structure Clear : Prop where
  segments : ∀ seg ∈ p.placed, ¬ Meets seg.paddr.toNat seg.memsz.toNat trampAddr machine.blob.bytes.length
  modules : ∀ lm ∈ p.mods,
    ¬ Meets lm.info.physStart.toNat lm.info.size.toNat trampAddr machine.blob.bytes.length
  info : ¬ Meets p.infoAt infoSize trampAddr machine.blob.bytes.length
  wraps : ∀ seg ∈ p.placed, seg.Wraps → ∀ r ∈ p.runs,
    ¬ Meets seg.paddr.toNat seg.memsz.toNat r.1 (r.2 * pageSize)

end

theorem meets_iff {lo len lo' len' : Nat} :
    Meets lo len lo' len' ↔ ∃ a, (lo ≤ a ∧ a < lo + len) ∧ lo' ≤ a ∧ a < lo' + len' := by
  constructor
  · rintro ⟨h1, h2, h3, h4⟩
    exact ⟨max lo lo', ⟨by omega, by omega⟩, by omega, by omega⟩
  · rintro ⟨a, ⟨h1, h2⟩, h3, h4⟩
    exact ⟨by omega, by omega, by omega, by omega⟩

/-! ## What the firmware keeps apart -/

/-- What holds of everything prepared with a firmware that keeps its promises. -/
structure Prepared.Laid (p : Prepared) : Prop where
  frame : ∀ a, (∀ r ∈ p.handed, ¬ InBytes r a) → p.afterModules a = p.afterKernel a
  mods : ∀ lm ∈ p.mods, lm.data.length = lm.info.size.toNat ∧
    p.afterModules.Holds lm.info.physStart.toNat lm.data ∧
    ∃ r ∈ p.handed, r.1 = lm.info.physStart.toNat ∧ lm.data.length ≤ r.2 * pageSize
  info : ∀ a, p.InInfo a → ∀ r ∈ p.handed, ¬ InBytes r a
  segments : ∀ seg ∈ p.placed, ¬ seg.Wraps → ∀ a, seg.Covers a → ∀ r ∈ p.runs, ¬ InBytes r a

section
variable {σ : Type} {fw : Firmware σ} {machine : Machine} {p : Prepared}

theorem inInfo_iff (a : Nat) : p.InInfo a ↔ InBytes (p.infoAt, infoPages) a := Iff.rfl

theorem prepare_laid {taken : σ → Nat → Prop} (hfw : fw.Lawful taken) {fileBuf : Buffer}
    {files : List ModuleFile} {firmware : σ} {memory : Mem UInt8}
    (h : prepare fw machine fileBuf files firmware memory = .ok (some p)) : p.Laid := by
  obtain ⟨s, t, hkernel, hplaced, hmemory, hmods, -, hhanded, hafter, hinfo⟩ := prepare_ok h
  have hgranted := loadKernel_granted hfw hkernel
  obtain ⟨runs, hloads⟩ := loadModules_loads hfw files _ _ _ hmods
  have hruns : p.handed = runs := by rw [← hhanded, hloads.handed, List.nil_append]
  subst hruns
  obtain ⟨hdvd, hlimit, hfree⟩ := hfw.below_granted _ _ _ _ hinfo
  -- a byte of a page taken before the information structure's is not one of its bytes
  have hnotInfo : ∀ a, taken t.firmware (pageOf a) → ¬ InBytes (p.infoAt, infoPages) a :=
    fun a ha hin => hfree _ ((inRun_pageOf_iff (r := (p.infoAt, infoPages)) hdvd a).2 hin) ha
  have hin : ∀ r ∈ p.handed, ∀ a, InBytes r a → InRun r.1 r.2 (pageOf a) :=
    fun r hr a ha => (inRun_pageOf_iff (hloads.aligned r hr).1 a).2 ha
  refine ⟨fun a ha => ?_, fun lm hlm => ?_, fun a ha r hr hra => ?_, fun seg hseg hw a ha r hr hra => ?_⟩
  · rw [← hafter]
    exact hloads.frame a ha
  · rw [← hafter]
    exact hloads.mods lm hlm
  · exact hnotInfo a (hloads.fresh r hr _ (hin r hr a hra)).2 ((inInfo_iff a).1 ha)
  · have htaken : taken s.firmware (pageOf a) := hgranted.placed seg (hplaced ▸ hseg) hw a ha
    rcases List.mem_cons.1 hr with rfl | hr
    · exact hnotInfo a (hloads.mono _ htaken) hra
    · exact (hloads.fresh r hr _ (hin r hr a hra)).1 htaken

/-! ## The copy -/

/-- When nothing was placed where the trampoline goes, everything is preserved. -/
theorem Clear.preserved (hclear : Clear machine p) (hlaid : p.Laid) {built m : Mem UInt8}
    (hbuilt : p.afterModules.SameOutside built p.infoAt (p.infoAt + infoSize))
    (hcopy : built.SameOutside m trampAddr (trampAddr + machine.blob.bytes.length)) :
    Preserved machine p built m := by
  have hseg : ∀ a, machine.InCopy a → ¬ p.InSegment a :=
    fun a ha ⟨seg, hseg, hc⟩ => hclear.segments seg hseg (meets_iff.2 ⟨a, hc, ha⟩)
  have hmod : ∀ a, machine.InCopy a → ¬ p.InModule a :=
    fun a ha ⟨lm, hlm, hc⟩ => hclear.modules lm hlm (meets_iff.2 ⟨a, hc, ha⟩)
  have hinfo : ∀ a, machine.InCopy a → ¬ p.InInfo a :=
    fun a ha hc => hclear.info (meets_iff.2 ⟨a, hc, ha⟩)
  have hapart : ∀ a, p.InSegment a → ∀ r ∈ p.runs, ¬ InBytes r a := by
    rintro a ⟨seg, hseg, hc⟩ r hr hin
    by_cases hw : seg.Wraps
    · exact hclear.wraps seg hseg hw r hr (meets_iff.2 ⟨a, hc, hin⟩)
    · exact hlaid.segments seg hseg hw a hc r hr hin
  have hout : ∀ a, ¬ machine.InCopy a → m a = built a :=
    fun a ha => hcopy a (by unfold Machine.InCopy at ha; omega)
  have hkept : ∀ a, ¬ p.InInfo a → built a = p.afterModules a :=
    fun a ha => hbuilt a (by unfold Prepared.InInfo at ha; omega)
  refine ⟨fun a ha => ?_, fun lm hlm => ?_, fun a ha => hout a fun hc => hinfo a hc ha,
    fun a ha => ⟨hseg a ha, hmod a ha, hinfo a ha⟩, hapart⟩
  · calc m a = built a := hout a fun hc => hseg a hc ha
      _ = p.afterModules a := hkept a fun hi => hapart a ha _ (List.mem_cons_self ..) hi
      _ = p.afterKernel a := hlaid.frame a fun r hr => hapart a ha r (List.mem_cons_of_mem _ hr)
  · obtain ⟨hlen, hholds, r, hr, hstart, hfits⟩ := hlaid.mods lm hlm
    refine hholds.congr fun a h1 h2 => ?_
    have hin : p.InModule a := ⟨lm, hlm, h1, by omega⟩
    calc m a = built a := hout a fun hc => hmod a hc hin
      _ = p.afterModules a := hkept a fun hi => hlaid.info a hi r hr ⟨by omega, by omega⟩

/-- When everything is preserved, nothing was placed where the trampoline goes. -/
theorem Preserved.clear {built m : Mem UInt8} (h : Preserved machine p built m) : Clear machine p := by
  refine ⟨fun seg hseg hmeets => ?_, fun lm hlm hmeets => ?_, fun hmeets => ?_, fun seg hseg _ r hr hmeets => ?_⟩
  · obtain ⟨a, hc, ha⟩ := meets_iff.1 hmeets
    exact (h.copy a ha).1 ⟨seg, hseg, hc⟩
  · obtain ⟨a, hc, ha⟩ := meets_iff.1 hmeets
    exact (h.copy a ha).2.1 ⟨lm, hlm, hc⟩
  · obtain ⟨a, hc, ha⟩ := meets_iff.1 hmeets
    exact (h.copy a ha).2.2 hc
  · obtain ⟨a, hc, ha⟩ := meets_iff.1 hmeets
    exact h.apart a ⟨seg, hseg, hc⟩ r hr ha

/-- For everything prepared with a firmware that keeps its promises: entering the kernel preserves
what was placed if and only if nothing was placed where the trampoline goes and no segment that
wraps is in memory handed out later. While no segment wraps, none is in such memory. -/
theorem preserved_iff_clear {taken : σ → Nat → Prop} (hfw : fw.Lawful taken) {fileBuf : Buffer}
    {files : List ModuleFile} {firmware : σ} {memory : Mem UInt8}
    (h : prepare fw machine fileBuf files firmware memory = .ok (some p))
    (hmode : p.kernel.bootMode = .protected32) :
    ∃ built mbiAddr magic e, p.build32 machine = some (built, mbiAddr, magic) ∧ enter machine p = some e ∧
      (Preserved machine p built e.memory ↔ Clear machine p) ∧
      ((∀ seg ∈ p.placed, ¬ seg.Wraps) → ∀ a, p.InSegment a → ∀ r ∈ p.runs, ¬ InBytes r a) := by
  have hlaid := prepare_laid hfw h
  obtain ⟨built, mbiAddr, magic, hb, -, hbuilt⟩ := (prepare_sound hfw h).build32
  refine ⟨built, mbiAddr, magic, _, hb, enter_protected32 hmode hb, ⟨Preserved.clear, fun hclear => ?_⟩, ?_⟩
  · exact hclear.preserved hlaid hbuilt (copyTrampoline_sameOutside _ _ _ _ _)
  · rintro hw a ⟨seg, hseg, hc⟩ r hr
    exact hlaid.segments seg hseg (hw seg hseg) a hc r hr

end

/-! ## Two kernels -/

/-- A Multiboot2 kernel of one clear page at `paddr`. -/
def mb2Kernel (paddr : UInt32) : List UInt8 :=
  elf32Executable 32 1 (bssHeader32 paddr ++ [0, 0, 0, 0] ++ mb2Header)

/-- A kernel at one megabyte, with a module of three bytes. -/
theorem preserved_one_module : ∃ p built mbiAddr magic e,
    prepare bump plainMachine ⟨mb2Kernel 0x100000, by decide⟩ [⟨[0x61, 0], 3, some [1, 2, 3]⟩]
      ⟨fun _ => false, 0x200000⟩ (fun _ => 0) = .ok (some p) ∧
    p.mods.map LoadedModule.info = [⟨0x7F000000, 0x200000, 3⟩] ∧
    p.build32 plainMachine = some (built, mbiAddr, magic) ∧ enter plainMachine p = some e ∧
    Preserved plainMachine p built e.memory := by
  have hrun : (prepare bump plainMachine ⟨mb2Kernel 0x100000, by decide⟩ [⟨[0x61, 0], 3, some [1, 2, 3]⟩]
      ⟨fun _ => false, 0x200000⟩ (fun _ => 0)).map (fun r => r.map fun p =>
        (p.kernel.bootMode, p.placed, p.mods.map LoadedModule.info, p.infoAt)) =
      .ok (some (.protected32, [⟨0x100000, 0x1000, 0, 0⟩], [⟨0x7F000000, 0x200000, 3⟩], 0x201000)) := by
    decide +kernel
  obtain ⟨r, h, hr⟩ := map_ok hrun
  obtain ⟨p, rfl, hp⟩ := Option.map_eq_some_iff.1 hr
  simp only [Prod.mk.injEq] at hp
  obtain ⟨hmode, hplaced, hmods, hinfo⟩ := hp
  obtain ⟨built, mbiAddr, magic, e, hb, he, hiff, -⟩ := preserved_iff_clear bump_lawful h hmode
  refine ⟨p, built, mbiAddr, magic, e, h, hmods, hb, he, hiff.2 ⟨?_, ?_, ?_, ?_⟩⟩
  · rw [hplaced]; decide +kernel
  · intro lm hlm
    have hone := List.mem_map_of_mem (f := LoadedModule.info) hlm
    rw [hmods] at hone
    rw [List.mem_singleton.1 hone]; decide +kernel
  · rw [hinfo]; decide +kernel
  · rw [hplaced]
    intro seg hseg hw
    rw [List.mem_singleton.1 hseg] at hw
    exact absurd hw (by decide)

/-- A kernel at the address of the trampoline: its page was placed clear, and is not when the
kernel is entered. -/
theorem overwritten_by_trampoline : ∃ p built mbiAddr magic e,
    prepare bump plainMachine ⟨mb2Kernel 0x1000, by decide⟩ [] ⟨fun _ => false, 0x200000⟩ (fun _ => 0) =
      .ok (some p) ∧
    p.build32 plainMachine = some (built, mbiAddr, magic) ∧ enter plainMachine p = some e ∧
    p.InSegment 0x1004 ∧ p.afterKernel 0x1004 = 0 ∧ e.memory 0x1004 = 0x10 ∧
    ¬ Preserved plainMachine p built e.memory := by
  have hrun : (prepare bump plainMachine ⟨mb2Kernel 0x1000, by decide⟩ []
      ⟨fun _ => false, 0x200000⟩ (fun _ => 0)).map (fun r => r.map fun p =>
        (p.kernel.bootMode, p.kernel.entryPoint, p.placed, p.afterKernel 0x1004)) =
      .ok (some (.protected32, 0x100000, [⟨0x1000, 0x1000, 0, 0⟩], 0)) := by
    decide +kernel
  obtain ⟨r, h, hr⟩ := map_ok hrun
  obtain ⟨p, rfl, hp⟩ := Option.map_eq_some_iff.1 hr
  simp only [Prod.mk.injEq] at hp
  obtain ⟨hmode, hentry, hplaced, hclear⟩ := hp
  obtain ⟨built, mbiAddr, magic, hb, -⟩ := (prepare_sound bump_lawful h).build32
  have hseg : p.InSegment 0x1004 := by
    refine ⟨⟨0x1000, 0x1000, 0, 0⟩, by rw [hplaced]; exact List.mem_singleton_self _, by decide, by decide⟩
  have hbyte : copyTrampoline plainMachine.blob p.kernel.entryPoint.toUInt32 mbiAddr magic built 0x1004 = 0x10 := by
    rw [hentry]
    exact copyTrampoline_entry _ _ _ _ _ 2 (by decide)
  refine ⟨p, built, mbiAddr, magic, _, h, hb, enter_protected32 hmode hb, hseg, hclear, hbyte, fun hpres => ?_⟩
  have hsame : (0x10 : UInt8) = 0 := hbyte.symm.trans ((hpres.segments 0x1004 hseg).trans hclear)
  exact absurd hsame (by decide)

end Bang
