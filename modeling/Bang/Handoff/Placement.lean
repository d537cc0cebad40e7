/-
What loading modules does to the memory: it writes in the pages it is handed out and nowhere else,
and those were free before, so that neither the kernel nor a module loaded earlier is written over.
-/
import Bang.Elf.Granted
import Bang.Handoff.Modules

namespace Bang

/-! ## Runs of pages as bytes -/

/-- A byte of a run of pages. -/
def InBytes (r : Nat × Nat) (a : Nat) : Prop := r.1 ≤ a ∧ a < r.1 + r.2 * pageSize

theorem inRun_pageOf_iff {r : Nat × Nat} (h : pageSize ∣ r.1) (a : Nat) : InRun r.1 r.2 (pageOf a) ↔ InBytes r a :=
  inRun_page_iff h a

/-! ## Loading modules -/

section
variable {σ : Type} (taken : σ → Nat → Prop)

/-- What loading `mods` has done on the way from `s` to `s'`: `runs` were handed out, aligned, below
four gigabytes and of free pages; memory is written in them only; and every module is in one. -/
structure Loads (s s' : ModulesState σ) (mods : List LoadedModule) (runs : List (Nat × Nat)) : Prop where
  handed : s'.handed = s.handed ++ runs
  mono : ∀ q, taken s.firmware q → taken s'.firmware q
  aligned : ∀ r ∈ runs, pageSize ∣ r.1 ∧ r.1 + r.2 * pageSize ≤ 2 ^ 32
  fresh : ∀ r ∈ runs, ∀ q, InRun r.1 r.2 q → ¬ taken s.firmware q ∧ taken s'.firmware q
  frame : ∀ a, (∀ r ∈ runs, ¬ InBytes r a) → s'.memory a = s.memory a
  mods : ∀ lm ∈ mods, lm.data.length = lm.info.size.toNat ∧
    s'.memory.Holds lm.info.physStart.toNat lm.data ∧
    ∃ r ∈ runs, r.1 = lm.info.physStart.toNat ∧ lm.data.length ≤ r.2 * pageSize

variable {taken}

namespace Loads

variable {s s₁ s' : ModulesState σ} {mods mods' : List LoadedModule} {runs runs' : List (Nat × Nat)}

/-- Nothing handed out, and no module. -/
theorem nothing (hmono : ∀ q, taken s.firmware q → taken s'.firmware q) (hhanded : s'.handed = s.handed)
    (hmemory : s'.memory = s.memory) : Loads taken s s' [] [] :=
  ⟨by rw [hhanded, List.append_nil], hmono, (fun r hr => by cases hr), (fun r hr => by cases hr),
    fun a _ => by rw [hmemory], (fun lm hlm => by cases hlm)⟩

/-- A byte of a page that was taken before is not written. -/
theorem frame_taken (h : Loads taken s s' mods runs) {a : Nat} (ha : taken s.firmware (pageOf a)) :
    s'.memory a = s.memory a :=
  h.frame a fun r hr hin => (h.fresh r hr _ ((inRun_pageOf_iff (h.aligned r hr).1 a).2 hin)).1 ha

theorem trans (h : Loads taken s s₁ mods runs) (h' : Loads taken s₁ s' mods' runs') :
    Loads taken s s' (mods ++ mods') (runs ++ runs') := by
  refine ⟨by rw [h'.handed, h.handed, List.append_assoc], fun q hq => h'.mono q (h.mono q hq), fun r hr => ?_,
    fun r hr q hq => ?_, fun a ha => ?_, fun lm hlm => ?_⟩
  · rcases List.mem_append.1 hr with hr | hr
    · exact h.aligned r hr
    · exact h'.aligned r hr
  · rcases List.mem_append.1 hr with hr | hr
    · exact ⟨(h.fresh r hr q hq).1, h'.mono q (h.fresh r hr q hq).2⟩
    · exact ⟨fun ht => (h'.fresh r hr q hq).1 (h.mono q ht), (h'.fresh r hr q hq).2⟩
  · rw [h'.frame a fun r hr => ha r (List.mem_append_right _ hr),
      h.frame a fun r hr => ha r (List.mem_append_left _ hr)]
  · rcases List.mem_append.1 hlm with hlm | hlm
    · -- a module loaded earlier: its pages are taken
      obtain ⟨hlen, hholds, r, hr, hstart, hfits⟩ := h.mods lm hlm
      refine ⟨hlen, hholds.congr fun a h1 h2 => h'.frame_taken ?_, r, List.mem_append_left _ hr, hstart, hfits⟩
      exact (h.fresh r hr _ ((inRun_pageOf_iff (h.aligned r hr).1 a).2 ⟨by omega, by omega⟩)).2
    · obtain ⟨hlen, hholds, r, hr, hfits⟩ := h'.mods lm hlm
      exact ⟨hlen, hholds, r, List.mem_append_right _ hr, hfits⟩

end Loads

variable {fw : Firmware σ}

/-- Taking pages that were handed out: what was taken stays so, and the pages were free. -/
theorem allocateBelow_taken (hfw : fw.Lawful taken) {f f' : σ} {count a : Nat}
    (h : fw.allocateBelow f 0xFFFFFFFF count = (some a, f')) :
    pageSize ∣ a ∧ a + count * pageSize ≤ 2 ^ 32 ∧
      ∀ q, (taken f q → taken f' q) ∧ (InRun a count q → ¬ taken f q ∧ taken f' q) := by
  obtain ⟨hdvd, hlimit, hfree, htaken⟩ := hfw.below_some h
  exact ⟨hdvd, hlimit, fun q => ⟨fun hq => (htaken q).2 (.inl hq), fun hq => ⟨hfree q hq, (htaken q).2 (.inr hq)⟩⟩⟩

theorem ModuleFile.length_read {file : ModuleFile} {room : Nat} {data : List UInt8}
    (h : file.read room = .ok data) : data.length ≤ room := by
  unfold ModuleFile.read at h
  split at h
  · cases h; exact List.length_take_le ..
  · cases h

theorem loadModule_loads (hfw : fw.Lawful taken) {modNames : Nat} {file : ModuleFile} {s s' : ModulesState σ}
    {mod : Option LoadedModule} (h : loadModule fw modNames file s = .ok (mod, s')) :
    ∃ runs, Loads taken s s' mod.toList runs := by
  unfold loadModule at h
  simp only at h
  split at h
  · cases h
    exact ⟨[], .nothing (fun _ h => h) rfl rfl⟩
  split at h
  · rename_i f hask
    cases h
    exact ⟨[], .nothing (fun q => (hfw.below_none hask q).2) rfl rfl⟩
  · rename_i a f hask
    obtain ⟨hdvd, hlimit, htaken⟩ := allocateBelow_taken hfw hask
    obtain ⟨data, hread, h⟩ := bind_ok h
    have hdata := ModuleFile.length_read hread
    -- the two stores stay in the pages handed out
    have hsame : s.memory.SameOutside
        ((s.memory.store a (List.replicate (modulePages file.fileSize * pageSize) 0)).store a data)
        a (a + modulePages file.fileSize * pageSize) :=
      ((Mem.sameOutside_store s.memory a _).mono (le_refl a) (by rw [List.length_replicate])).store
        (le_refl a) (by omega)
    have hloads : ∀ (names : Names) (mods : List LoadedModule),
        (∀ lm ∈ mods, lm.data = data ∧ lm.info.physStart.toNat = a ∧ data.length = lm.info.size.toNat) →
        Loads taken s
          ⟨f, (s.memory.store a (List.replicate (modulePages file.fileSize * pageSize) 0)).store a data, names,
            s.handed ++ [(a, modulePages file.fileSize)]⟩ mods [(a, modulePages file.fileSize)] := by
      intro names mods hmods
      refine ⟨rfl, fun q hq => (htaken q).1 hq, fun r hr => ?_, fun r hr q hq => ?_, fun b hb => ?_, fun lm hlm => ?_⟩
      · cases List.mem_singleton.1 hr; exact ⟨hdvd, hlimit⟩
      · cases List.mem_singleton.1 hr; exact (htaken q).2 hq
      · refine hsame b ?_
        have := hb _ (List.mem_singleton_self _)
        simp only [InBytes] at this
        omega
      · obtain ⟨rfl, hstart, hsize⟩ := hmods lm hlm
        refine ⟨hsize, ?_, _, List.mem_singleton_self _, hstart.symm, hdata⟩
        rw [hstart]
        exact Mem.holds_store _ _ _
    split at h
    · cases h
      exact ⟨_, hloads _ _ (fun lm hlm => by cases hlm)⟩
    · rename_i hlen
      obtain ⟨⟨ptr, names⟩, -, h⟩ := bind_ok h
      cases h
      refine ⟨_, hloads _ _ fun lm hlm => ?_⟩
      cases List.mem_singleton.1 hlm
      exact ⟨rfl, UInt64.toNat_ofNat_of_lt' (lt_of_le_of_lt (Nat.le_add_right ..)
        (lt_of_le_of_lt hlimit (by decide))), not_not.1 hlen⟩

/-- Loading all modules, from any state. -/
theorem loadModules_loads (hfw : fw.Lawful taken) {modNames : Nat} (files : List ModuleFile) :
    ∀ (s s' : ModulesState σ) (mods : List LoadedModule), loadModules fw modNames files s = .ok (mods, s') →
      ∃ runs, Loads taken s s' mods runs := by
  induction files with
  | nil =>
    intro s s' mods h
    cases h
    exact ⟨[], .nothing (fun _ h => h) rfl rfl⟩
  | cons file files ih =>
    intro s s' mods h
    rw [loadModules] at h
    obtain ⟨⟨mod, s₁⟩, hmod, h⟩ := bind_ok h
    obtain ⟨⟨mods₁, s₂⟩, hmods, h⟩ := bind_ok h
    cases h
    obtain ⟨runs, hload⟩ := loadModule_loads hfw hmod
    obtain ⟨runs', hloads⟩ := ih s₁ _ mods₁ hmods
    exact ⟨_, hload.trans hloads⟩

end

end Bang
