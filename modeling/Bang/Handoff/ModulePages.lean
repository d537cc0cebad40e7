/-
The pages of the modules over a whole run of `load_modules` (`src/modules.rs`): each module has its file's bytes
and zeros up to the end of its last page, and keeps them while the others are loaded. What memory held before
does not show through, and no module is on another or on anything that was allocated earlier.
-/
import Bang.Elf.Table
import Bang.Handoff.Placement
import Mathlib.Data.List.Forall2

namespace Bang

/-! ## A module in memory -/

/-- The bytes of a module's pages. -/
def LoadedModule.pages (lm : LoadedModule) : List UInt8 :=
  lm.data ++ List.replicate (modulePages lm.info.size * pageSize - lm.data.length) 0

/-- The module is that file: all of what its entry states, and nothing behind it. -/
structure LoadedModule.Of (file : ModuleFile) (lm : LoadedModule) : Prop where
  size : lm.info.size = file.fileSize
  length : lm.data.length = file.fileSize.toNat
  data : ∃ bs, file.content = some bs ∧ lm.data = bs.take file.fileSize.toNat

/-- The pages of two modules have no byte in common. -/
def LoadedModule.Apart (lm lm' : LoadedModule) : Prop :=
  lm.info.physStart.toNat + lm.pages.length ≤ lm'.info.physStart.toNat ∨
    lm'.info.physStart.toNat + lm'.pages.length ≤ lm.info.physStart.toNat

section
variable {σ : Type} (taken : σ → Nat → Prop)

/-- The pages of a module were free in one state of the firmware, and are taken in a later one. -/
structure LoadedModule.Between (f f' : σ) (lm : LoadedModule) : Prop where
  aligned : pageSize ∣ lm.info.physStart.toNat
  some : 0 < lm.pages.length
  below : lm.info.physStart.toNat + lm.pages.length ≤ 2 ^ 32
  length : lm.pages.length = modulePages lm.info.size * pageSize
  fresh : ∀ a, lm.info.physStart.toNat ≤ a → a < lm.info.physStart.toNat + lm.pages.length →
    ¬ taken f (pageOf a) ∧ taken f' (pageOf a)

/-- What loading `mods` has done on the way from `s` to `s'`. -/
structure Fills (s s' : ModulesState σ) (mods : List LoadedModule) : Prop where
  mono : ∀ q, taken s.firmware q → taken s'.firmware q
  kept : ∀ a, taken s.firmware (pageOf a) → s'.memory a = s.memory a
  between : ∀ lm ∈ mods, lm.Between taken s.firmware s'.firmware
  holds : ∀ lm ∈ mods, s'.memory.Holds lm.info.physStart.toNat lm.pages
  apart : mods.Pairwise LoadedModule.Apart

variable {taken}

/-- Pages that were taken and pages that were still free have no byte in common. -/
theorem LoadedModule.Between.apart {f₀ f f' : σ} {lm lm' : LoadedModule} (h : lm.Between taken f₀ f)
    (h' : lm'.Between taken f f') : lm.Apart lm' := by
  unfold LoadedModule.Apart
  by_contra hmeet
  have hlm := h.fresh (max lm.info.physStart.toNat lm'.info.physStart.toNat)
  have hlm' := h'.fresh (max lm.info.physStart.toNat lm'.info.physStart.toNat)
  have hsome := h.some
  have hsome' := h'.some
  exact (hlm' (by omega) (by omega)).1 (hlm (by omega) (by omega)).2

namespace Fills

variable {s s₁ s' : ModulesState σ} {mods mods' : List LoadedModule}

theorem nothing (hmono : ∀ q, taken s.firmware q → taken s'.firmware q)
    (hkept : ∀ a, taken s.firmware (pageOf a) → s'.memory a = s.memory a) : Fills taken s s' [] :=
  ⟨hmono, hkept, (fun lm hlm => by cases hlm), (fun lm hlm => by cases hlm), .nil⟩

theorem trans (h : Fills taken s s₁ mods) (h' : Fills taken s₁ s' mods') : Fills taken s s' (mods ++ mods') := by
  refine ⟨fun q hq => h'.mono q (h.mono q hq), fun a ha => ?_, fun lm hlm => ?_, fun lm hlm => ?_, ?_⟩
  · rw [h'.kept a (h.mono _ ha), h.kept a ha]
  · rcases List.mem_append.1 hlm with hlm | hlm
    · obtain ⟨haligned, hsome, hbelow, hlength, hfresh⟩ := h.between lm hlm
      exact ⟨haligned, hsome, hbelow, hlength, fun a hle hlt => ⟨(hfresh a hle hlt).1, h'.mono _ (hfresh a hle hlt).2⟩⟩
    · obtain ⟨haligned, hsome, hbelow, hlength, hfresh⟩ := h'.between lm hlm
      exact ⟨haligned, hsome, hbelow, hlength,
        fun a hle hlt => ⟨fun ht => (hfresh a hle hlt).1 (h.mono _ ht), (hfresh a hle hlt).2⟩⟩
  · rcases List.mem_append.1 hlm with hlm | hlm
    · exact (h.holds lm hlm).congr fun a hle hlt => h'.kept a ((h.between lm hlm).fresh a hle hlt).2
    · exact h'.holds lm hlm
  · exact List.pairwise_append.2 ⟨h.apart, h'.apart,
      fun lm hlm lm' hlm' => (h.between lm hlm).apart (h'.between lm' hlm')⟩

end Fills

/-! ## One file -/

variable {fw : Firmware σ} {modNames : Nat}

/-- The bytes of the file, over pages that were cleared. -/
theorem holds_pages (m : Mem UInt8) (a n : Nat) {data : List UInt8} (h : data.length ≤ n) :
    ((m.store a (List.replicate n 0)).store a data).Holds a (data ++ List.replicate (n - data.length) 0) := by
  refine (Mem.holds_append _ a _ _).2 ⟨Mem.holds_store _ _ _, ?_⟩
  have hclear : (m.store a (List.replicate n 0)).Holds a
      (List.replicate data.length 0 ++ List.replicate (n - data.length) 0) := by
    rw [List.replicate_append_replicate, Nat.add_sub_cancel' h]
    exact Mem.holds_store _ _ _
  have hrest := hclear.right
  rw [List.length_replicate] at hrest
  exact hrest.store _ _ (.inr (Nat.le_refl _))

/-- Other pages stay as they are. -/
theorem pages_frame (m : Mem UInt8) {r : Nat × Nat} {data : List UInt8} (h : data.length ≤ r.2 * pageSize) {a : Nat}
    (ha : ¬ InBytes r a) : ((m.store r.1 (List.replicate (r.2 * pageSize) 0)).store r.1 data) a = m a := by
  simp only [InBytes] at ha
  rw [Mem.sameOutside_store _ _ _ a (by omega), Mem.sameOutside_store _ _ _ a (by rw [List.length_replicate]; omega)]

/-- What a read gives that is as long as the file says it is. -/
theorem ModuleFile.read_all {file : ModuleFile} {room : Nat} {data : List UInt8} (h : file.read room = .ok data)
    (hlen : data.length = file.fileSize.toNat) :
    ∃ bs, file.content = some bs ∧ data = bs.take file.fileSize.toNat := by
  unfold ModuleFile.read at h
  split at h
  · rename_i bs hcontent
    cases h
    refine ⟨bs, hcontent, ?_⟩
    rw [← hlen]
    exact List.prefix_iff_eq_take.1 (List.take_prefix _ bs)
  · cases h

theorem loadModule_fills (hfw : fw.Lawful taken) {file : ModuleFile} {s s' : ModulesState σ} {mod : Option LoadedModule}
    (h : loadModule fw modNames file s = .ok (mod, s')) :
    Fills taken s s' mod.toList ∧ ∀ lm ∈ mod, lm.Of file := by
  unfold loadModule at h
  simp only at h
  split at h
  · cases h
    exact ⟨.nothing (fun _ hq => hq) fun _ _ => rfl, fun lm hlm => by cases hlm⟩
  rename_i hempty
  split at h
  · rename_i f hask
    cases h
    exact ⟨.nothing (fun q => (hfw.below_none hask q).2) fun _ _ => rfl, fun lm hlm => by cases hlm⟩
  · rename_i start f hask
    obtain ⟨hdvd, hlimit, htaken⟩ := allocateBelow_taken hfw hask
    obtain ⟨data, hread, h⟩ := bind_ok h
    have hroom := ModuleFile.length_read hread
    have hkept : ∀ a, taken s.firmware (pageOf a) →
        (s.memory.store start (List.replicate (modulePages file.fileSize * pageSize) 0)).store start data a =
          s.memory a := fun a ha =>
      pages_frame s.memory (r := (start, modulePages file.fileSize)) hroom fun hin =>
        ((htaken _).2 ((inRun_pageOf_iff hdvd a).2 hin)).1 ha
    split at h
    · cases h
      exact ⟨.nothing (fun q hq => (htaken q).1 hq) hkept, fun lm hlm => by cases hlm⟩
    · rename_i hlen
      obtain ⟨⟨ptr, names⟩, -, h⟩ := bind_ok h
      cases h
      rw [not_not] at hlen
      have hstart : (UInt64.ofNat start).toNat = start :=
        UInt64.toNat_ofNat_of_lt' (lt_of_le_of_lt (Nat.le_add_right ..) (lt_of_le_of_lt hlimit (by decide)))
      have hpages : (⟨⟨ptr, UInt64.ofNat start, file.fileSize⟩, data⟩ : LoadedModule).pages.length =
          modulePages file.fileSize * pageSize := by
        unfold LoadedModule.pages
        rw [List.length_append, List.length_replicate]
        exact Nat.add_sub_cancel' hroom
      refine ⟨⟨fun q hq => (htaken q).1 hq, hkept, fun lm hlm => ?_, fun lm hlm => ?_, List.pairwise_singleton _ _⟩,
        fun lm hlm => ?_⟩
      · cases List.mem_singleton.1 hlm
        refine ⟨hstart.symm ▸ hdvd, ?_, ?_, hpages, fun a hle hlt => ?_⟩
        · rw [hpages]
          have hsize : file.fileSize.toNat ≠ 0 := fun h0 => hempty (UInt64.toNat_inj.1 h0)
          omega
        · rw [hstart, hpages]
          exact hlimit
        · rw [hpages] at hlt
          rw [hstart] at hle hlt
          exact (htaken _).2 ((inRun_pageOf_iff (r := (start, modulePages file.fileSize)) hdvd a).2 ⟨hle, hlt⟩)
      · cases List.mem_singleton.1 hlm
        rw [hstart]
        exact holds_pages _ _ _ hroom
      · cases hlm
        exact ⟨rfl, hlen, ModuleFile.read_all hread hlen⟩

/-! ## All files -/

/-- Loading all modules, from any state. -/
theorem loadModules_fills (hfw : fw.Lawful taken) (files : List ModuleFile) : ∀ {s s' : ModulesState σ}
    {mods : List LoadedModule}, loadModules fw modNames files s = .ok (mods, s') →
      Fills taken s s' mods ∧ ∃ chosen, chosen.Sublist files ∧ List.Forall₂ LoadedModule.Of chosen mods := by
  induction files with
  | nil =>
    intro s s' mods h
    cases h
    exact ⟨.nothing (fun _ hq => hq) fun _ _ => rfl, [], .slnil, .nil⟩
  | cons file files ih =>
    intro s s' mods h
    rw [loadModules] at h
    obtain ⟨⟨mod, s₁⟩, hmod, h⟩ := bind_ok h
    obtain ⟨⟨mods₁, s₂⟩, hmods, h⟩ := bind_ok h
    cases h
    obtain ⟨hfills, hof⟩ := loadModule_fills hfw hmod
    obtain ⟨hfills₁, chosen, hsub, hall⟩ := ih hmods
    refine ⟨hfills.trans hfills₁, ?_⟩
    cases mod with
    | none => exact ⟨chosen, hsub.cons file, hall⟩
    | some lm => exact ⟨file :: chosen, hsub.cons_cons file, .cons (hof lm rfl) hall⟩

/-- From any state: the modules are files of the list, in its order; each has pages of its own below four
gigabytes, with the file's bytes and zeros behind them; and what had been allocated before is as it was. -/
theorem loadModules_pages (hfw : fw.Lawful taken) {files : List ModuleFile} {s s' : ModulesState σ}
    {mods : List LoadedModule} (h : loadModules fw modNames files s = .ok (mods, s')) :
    (∃ chosen, chosen.Sublist files ∧ List.Forall₂ LoadedModule.Of chosen mods) ∧
      (∀ lm ∈ mods, s'.memory.Holds lm.info.physStart.toNat lm.pages ∧ pageSize ∣ lm.info.physStart.toNat ∧
        pageSize ∣ lm.pages.length ∧ lm.info.physStart.toNat + lm.pages.length ≤ 2 ^ 32) ∧
      mods.Pairwise LoadedModule.Apart ∧
      ∀ a, taken s.firmware (pageOf a) → s'.memory a = s.memory a := by
  obtain ⟨hfills, hchosen⟩ := loadModules_fills hfw files h
  refine ⟨hchosen, fun lm hlm => ?_, hfills.apart, hfills.kept⟩
  obtain ⟨haligned, -, hbelow, hlength, -⟩ := hfills.between lm hlm
  exact ⟨hfills.holds lm hlm, haligned, Dvd.intro_left _ hlength.symm, hbelow⟩

end

/-- A module of three bytes, over memory that is not clear. -/
theorem loadModules_pages_three : ∃ mods s', loadModules bump 0x1000 [⟨[0x61, 0], 3, some [1, 2, 3]⟩]
      ⟨⟨fun _ => false, 0x200000⟩, fun _ => 0xFF, ⟨fun _ => 0, 0⟩, []⟩ = .ok (mods, s') ∧
    mods.map LoadedModule.info = [⟨0x1000, 0x200000, 3⟩] ∧
    ∀ lm ∈ mods, s'.memory.Holds lm.info.physStart.toNat lm.pages := by
  have hrun : (loadModules bump 0x1000 [⟨[0x61, 0], 3, some [1, 2, 3]⟩]
      ⟨⟨fun _ => false, 0x200000⟩, fun _ => 0xFF, ⟨fun _ => 0, 0⟩, []⟩).map (fun r => r.1.map LoadedModule.info) =
      .ok [⟨0x1000, 0x200000, 3⟩] := by
    decide +kernel
  obtain ⟨⟨mods, s'⟩, h, hmods⟩ := map_ok hrun
  exact ⟨mods, s', h, hmods, fun lm hlm => ((loadModules_pages bump_lawful h).2.1 lm hlm).1⟩

end Bang
