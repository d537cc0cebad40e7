/-
What a kernel reads from a Multiboot2 information structure: decoding undoes the builder, with
truncation only by prefix; and the structure is terminated exactly when the parts do not fill
the reserved memory to its last byte.
-/
import Bang.Multiboot.Mb2Build

namespace Bang

open LittleEndian TagChain

/-! ## The modules that fit -/

/-- The memory map tag and the tags of the first `k` modules. -/
def mb2Prefix (names : Mem UInt8) (map : List MemoryDescriptor) (modules : List ModuleInfo) (k : Nat) :
    List Mb2Tag :=
  mapTag map :: (modules.take k).map (moduleTag names)

/-- The first `k` modules are the longest prefix of the list whose tags fit one after another. -/
structure LongestFit (names : Mem UInt8) (map : List MemoryDescriptor) (modules : List ModuleInfo)
    (k : Nat) : Prop where
  le : k ≤ modules.length
  fits : 8 + span (mb2Prefix names map modules k) ≤ infoSize
  next : ∀ h : k < modules.length,
    infoSize < 8 + span (mb2Prefix names map modules k) + (moduleTag names modules[k]).record.size

theorem addModules_spec (names : Mem UInt8) (modules : List ModuleInfo) :
    ∀ ts, 8 + span ts ≤ infoSize → ∃ k, k ≤ modules.length ∧
      addModules names ts modules = ts ++ (modules.take k).map (moduleTag names) ∧
      8 + span (ts ++ (modules.take k).map (moduleTag names)) ≤ infoSize ∧
      ∀ h : k < modules.length, infoSize <
        8 + span (ts ++ (modules.take k).map (moduleTag names)) + (moduleTag names modules[k]).record.size := by
  induction modules with
  | nil => intro ts h; exact ⟨0, le_refl _, by simp [addModules], by simpa using h, fun h => absurd h (by simp)⟩
  | cons mi mods ih =>
    intro ts h
    by_cases hfit : 8 + span ts + (moduleTag names mi).record.size ≤ infoSize
    · have hfit' : 8 + span (ts ++ [moduleTag names mi]) ≤ infoSize := by
        have := padded_fits hfit
        rw [span_append, span_singleton]; omega
      obtain ⟨k, hk, he, hs, hnext⟩ := ih _ hfit'
      refine ⟨k + 1, by simp; omega, ?_, ?_, fun hlt => ?_⟩
      · rw [addModules, if_pos hfit, he]; simp
      · simpa using hs
      · have := hnext (by simpa using hlt)
        simpa using this
    · refine ⟨0, Nat.zero_le _, by rw [addModules, if_neg hfit]; simp, by simpa using h, fun _ => ?_⟩
      simp only [List.take_zero, List.map_nil, List.append_nil, List.getElem_cons_zero]
      omega

theorem span_mapTag (map : List MemoryDescriptor) : span [mapTag map] = 16 + 24 * min map.length mb2MmapMax := by
  rw [span_singleton, alignUp_eight, mapTag_size]; omega

theorem mapTag_fits (map : List MemoryDescriptor) : 8 + span [mapTag map] ≤ infoSize := by
  rw [span_mapTag, infoSize_eq, mb2MmapMax]; omega

theorem addModules_longest (names : Mem UInt8) (map : List MemoryDescriptor) (modules : List ModuleInfo) :
    ∃ k, LongestFit names map modules k ∧
      addModules names [mapTag map] modules = mb2Prefix names map modules k := by
  obtain ⟨k, hk, he, hs, hn⟩ := addModules_spec names modules [mapTag map] (mapTag_fits map)
  exact ⟨k, ⟨hk, hs, hn⟩, he⟩

/-! ## Every tag of the layout is readable -/

theorem moduleTag_ok {names : Mem UInt8} {mi : ModuleInfo} (hn : names.NulTerminated mi.namePtr.toNat) :
    (moduleTag names mi).Ok := hn.cstr.2.1

theorem rsdpTag_ok (rsdp : Rsdp) : (rsdpTag rsdp).Ok := by
  have := rsdp.room
  unfold rsdpTag
  split <;> simp [Mb2Tag.Ok, this, rsdpV1, rsdpV2]

theorem mem_addTag {reserve : Nat} {ts : List Mb2Tag} {t u : Mb2Tag} (h : u ∈ addTag reserve ts t) :
    u ∈ ts ∨ u = t := by
  unfold addTag at h
  split at h
  · simpa using h
  · exact Or.inl h

/-- The tags before the terminator: the map, modules of the list, the framebuffer or the copy of
the root pointer. -/
theorem mem_mb2Front {names : Mem UInt8} {map : List MemoryDescriptor} {fb : Option FbInfo}
    {modules : List ModuleInfo} {rsdp : Option Rsdp} {t : Mb2Tag}
    (h : t ∈ mb2Front names map fb modules rsdp) :
    t = mapTag map ∨ (∃ mi ∈ modules, t = moduleTag names mi) ∨ (∃ f, t = .framebuffer f) ∨
      ∃ r, t = rsdpTag r := by
  obtain ⟨k, -, he⟩ := addModules_longest names map modules
  have hparts : ∀ u ∈ mb2Prefix names map modules k,
      u = mapTag map ∨ ∃ mi ∈ modules, u = moduleTag names mi := by
    intro u hu
    rcases List.mem_cons.1 hu with rfl | hu
    · exact Or.inl rfl
    · obtain ⟨mi, hmi, rfl⟩ := List.mem_map.1 hu
      exact Or.inr ⟨mi, List.mem_of_mem_take hmi, rfl⟩
  have hfb : ∀ u ∈ (fb.elim (mb2Prefix names map modules k) fun fb =>
      addTag 0 (mb2Prefix names map modules k) (.framebuffer fb)),
      u = mapTag map ∨ (∃ mi ∈ modules, u = moduleTag names mi) ∨ ∃ f, u = .framebuffer f := by
    intro u hu
    cases fb with
    | none => exact (hparts u hu).imp id Or.inl
    | some f =>
      rcases mem_addTag hu with hu | rfl
      · exact (hparts u hu).imp id Or.inl
      · exact Or.inr (Or.inr ⟨f, rfl⟩)
  simp only [mb2Front, he] at h
  cases rsdp with
  | none => exact (hfb t h).imp id (Or.imp id Or.inl)
  | some r =>
    rcases mem_addTag h with h | rfl
    · exact (hfb t h).imp id (Or.imp id Or.inl)
    · exact Or.inr (Or.inr (Or.inr ⟨r, rfl⟩))

theorem mb2Front_ok {names : Mem UInt8} {map : List MemoryDescriptor} {fb : Option FbInfo}
    {modules : List ModuleInfo} {rsdp : Option Rsdp}
    (hn : ∀ mi ∈ modules, names.NulTerminated mi.namePtr.toNat) :
    ∀ t ∈ mb2Front names map fb modules rsdp, t.Ok ∧ t.record.type ≠ 0 := by
  intro t ht
  rcases mem_mb2Front ht with rfl | ⟨mi, hmi, rfl⟩ | ⟨f, rfl⟩ | ⟨r, rfl⟩
  · exact ⟨rfl, by simp [mapTag, Mb2Tag.record]⟩
  · exact ⟨moduleTag_ok (hn mi hmi), by simp [moduleTag, Mb2Tag.record]⟩
  · exact ⟨trivial, by simp [Mb2Tag.record]⟩
  · refine ⟨rsdpTag_ok r, ?_⟩
    rw [rsdpTag_record]
    show (if r.len = rsdpV2 then mb2TagTypeAcpiNew else mb2TagTypeAcpiOld) ≠ 0
    split <;> simp [mb2TagTypeAcpiNew, mb2TagTypeAcpiOld]

theorem size_le_span {ts : List Mb2Tag} {t : Mb2Tag} (h : t ∈ ts) : t.record.size ≤ span ts := by
  induction ts with
  | nil => cases h
  | cons u ts ih =>
    have := le_alignUp 8 u.record.size
    rw [span_cons]
    rcases List.mem_cons.1 h with rfl | h
    · omega
    · have := ih h; omega

/-- Tags that fit state their sizes in 32 bits. -/
theorem size_lt {ts : List Mb2Tag} (hs : 8 + span ts ≤ infoSize) : ∀ t ∈ ts, t.record.size < 2 ^ 32 := by
  intro t ht
  have := size_le_span ht
  rw [infoSize_eq] at hs
  omega

/-! ## Decoding undoes the builder -/

/-- The tags a reader is to find, when `k` modules fit: the memory map, the modules, the
framebuffer if its 37 bytes fit, the copy of the root pointer if it and a terminating tag fit,
and the terminating tag if eight bytes remain. -/
def mb2Expected (names : Mem UInt8) (map : List MemoryDescriptor) (fb : Option FbInfo)
    (modules : List ModuleInfo) (rsdp : Option Rsdp) (k : Nat) : List Mb2Tag :=
  let ts := mb2Prefix names map modules k
  let ts := match fb with
    | none => ts
    | some fb => if 8 + span ts + 37 ≤ infoSize then ts ++ [.framebuffer fb] else ts
  let ts := match rsdp with
    | none => ts
    | some rsdp => if 8 + span ts + (8 + rsdp.len) + 8 ≤ infoSize then ts ++ [rsdpTag rsdp] else ts
  if 8 + span ts + 8 ≤ infoSize then ts ++ [.terminator] else ts

/-- All the parts in full: every descriptor, every module, the framebuffer, the root pointer. -/
def mb2Parts (names : Mem UInt8) (map : List MemoryDescriptor) (fb : Option FbInfo)
    (modules : List ModuleInfo) (rsdp : Option Rsdp) : List Mb2Tag :=
  .mmap 24 0 (map.map mmapEntry) :: (modules.map (moduleTag names) ++
    (fb.toList.map .framebuffer ++ rsdp.toList.map rsdpTag))

theorem mb2Layout_eq (names : Mem UInt8) (map : List MemoryDescriptor) (fb : Option FbInfo)
    (modules : List ModuleInfo) (rsdp : Option Rsdp) :
    ∃ k, LongestFit names map modules k ∧
      mb2Layout names map fb modules rsdp = mb2Expected names map fb modules rsdp k := by
  obtain ⟨k, hk, he⟩ := addModules_longest names map modules
  refine ⟨k, hk, ?_⟩
  unfold mb2Layout mb2Front mb2Expected
  rw [he]
  cases fb <;> cases rsdp <;>
    simp only [Option.elim_none, Option.elim_some, addTag, framebuffer_size, rsdpTag_size,
      terminator_size, Nat.add_zero]

/-! ## Nothing is left out when everything fits -/

theorem addTag_of_fits {reserve : Nat} {ts : List Mb2Tag} {t : Mb2Tag}
    (h : 8 + span (ts ++ [t]) + reserve ≤ infoSize) : addTag reserve ts t = ts ++ [t] := by
  have := le_alignUp 8 t.record.size
  rw [span_append, span_singleton] at h
  rw [addTag, if_pos (by omega)]

theorem elim_addTag_of_fits {α : Type} {reserve : Nat} {ts : List Mb2Tag} (o : Option α) (tag : α → Mb2Tag)
    (h : 8 + span (ts ++ o.toList.map tag) + reserve ≤ infoSize) :
    (o.elim ts fun x => addTag reserve ts (tag x)) = ts ++ o.toList.map tag := by
  cases o with
  | none => simp
  | some x => exact addTag_of_fits h

theorem addModules_of_fits (names : Mem UInt8) (modules : List ModuleInfo) :
    ∀ ts, 8 + span (ts ++ modules.map (moduleTag names)) ≤ infoSize →
      addModules names ts modules = ts ++ modules.map (moduleTag names) := by
  induction modules with
  | nil => intro ts _; simp [addModules]
  | cons mi mods ih =>
    intro ts h
    have hle := le_alignUp 8 (moduleTag names mi).record.size
    have hs : span (ts ++ (mi :: mods).map (moduleTag names)) = span ts +
        (alignUp 8 (moduleTag names mi).record.size + span (mods.map (moduleTag names))) := by
      rw [span_append, List.map_cons, span_cons]
    rw [addModules, if_pos (by omega), ih _ (by simpa using h)]
    simp

/-- When all the parts and a terminating tag fit, the layout is all the parts and the tag. -/
theorem mb2Layout_all {names : Mem UInt8} {map : List MemoryDescriptor} {fb : Option FbInfo}
    {modules : List ModuleInfo} {rsdp : Option Rsdp}
    (hall : 8 + span (mb2Parts names map fb modules rsdp) + 8 ≤ infoSize) :
    mb2Layout names map fb modules rsdp = mb2Parts names map fb modules rsdp ++ [.terminator] := by
  have hmap : .mmap 24 0 (map.map mmapEntry) = mapTag map := by
    have hfull : (Mb2Tag.mmap 24 0 (map.map mmapEntry)).record.size = 16 + 24 * map.length := by
      simp [Mb2Tag.record, Tag.size, Function.comp_def]; omega
    have hle := le_alignUp 8 (16 + 24 * map.length)
    rw [mb2Parts, span_cons, hfull, infoSize_eq] at hall
    rw [mapTag, List.take_of_length_le (by rw [mb2MmapMax]; omega)]
  have hparts : mb2Parts names map fb modules rsdp = [mapTag map] ++ modules.map (moduleTag names) ++
      fb.toList.map .framebuffer ++ rsdp.toList.map rsdpTag := by
    rw [mb2Parts, hmap]; simp
  have hspan : span (mb2Parts names map fb modules rsdp) =
      span ([mapTag map] ++ modules.map (moduleTag names) ++ fb.toList.map .framebuffer) +
        span (rsdp.toList.map rsdpTag) := by rw [hparts, span_append]
  have hfront : span ([mapTag map] ++ modules.map (moduleTag names) ++ fb.toList.map .framebuffer) =
      span ([mapTag map] ++ modules.map (moduleTag names)) + span (fb.toList.map .framebuffer) :=
    span_append ..
  unfold mb2Layout mb2Front
  simp only
  rw [addModules_of_fits names modules _ (by omega), elim_addTag_of_fits fb _ (by omega),
    elim_addTag_of_fits rsdp _ (by rw [span_append]; omega), ← hparts,
    addTag_of_fits (by rw [span_append, span_singleton, terminator_size, alignUp_eight]; omega)]

/-! ## The round trip -/

/-- The fields of a module tag lose no bits when the module ends below four gigabytes. -/
theorem module_lossless {mi : ModuleInfo} (h : mi.physStart.toNat + mi.size.toNat < 2 ^ 32) :
    mi.physStart.toUInt32.toNat = mi.physStart.toNat ∧
      mi.physEnd.toUInt32.toNat = mi.physStart.toNat + mi.size.toNat := by
  unfold ModuleInfo.physEnd
  simp only [UInt64.toNat_toUInt32, UInt64.toNat_add]
  omega

/-- Decoding undoes the builder: every store stays in the reserved memory, and a reader of the
structure finds exactly the expected tags, for the longest prefix of modules that fits, with
lossless module bounds; when everything and a terminating tag fit, it finds everything. -/
theorem readMb2Info_buildMb2Info (out : Nat) (names : Mem UInt8) (map : List MemoryDescriptor)
    (fb : Option FbInfo) (modules : List ModuleInfo) (rsdp : Option Rsdp) (m : Mem UInt8)
    (hn : ∀ mi ∈ modules, names.NulTerminated mi.namePtr.toNat)
    (hm : ∀ mi ∈ modules, mi.physStart.toNat + mi.size.toNat < 2 ^ 32) :
    ∃ m' k, buildMb2Info out names map fb modules rsdp m = some (m', UInt32.ofNat out) ∧
      m.SameOutside m' out (out + infoSize) ∧ LongestFit names map modules k ∧
      readMb2Info m' out = some (mb2Expected names map fb modules rsdp k) ∧
      (∀ mi ∈ modules, mi.physStart.toUInt32.toNat = mi.physStart.toNat ∧
        mi.physEnd.toUInt32.toNat = mi.physStart.toNat + mi.size.toNat) ∧
      (8 + span (mb2Parts names map fb modules rsdp) + 8 ≤ infoSize →
        readMb2Info m' out = some (mb2Parts names map fb modules rsdp ++ [.terminator])) := by
  obtain ⟨m', hb, hout, htotal, hholds, hle⟩ := buildMb2Info_spec out names map fb modules rsdp m hn
  obtain ⟨k, hk, he⟩ := mb2Layout_eq names map fb modules rsdp
  have hok : ∀ t ∈ mb2Layout names map fb modules rsdp, t.Ok := by
    intro t ht
    rcases mem_addTag ht with ht | rfl
    · exact (mb2Front_ok hn t ht).1
    · trivial
  have hread := readMb2Info_eq hok (size_lt hle) htotal hholds
  refine ⟨m', k, hb, hout, hk, by rw [← he]; exact hread, fun mi hmi => module_lossless (hm mi hmi), ?_⟩
  intro hall
  rw [← mb2Layout_all hall]
  exact hread

/-- One part of each kind: a reader finds them all, and the terminating tag. -/
theorem readMb2Info_one_of_each : ∃ m',
    buildMb2Info 0x100000 (Mem.store (fun _ => 0) 0x2000 [0x61]) [⟨.conventional, 0x1000, 1⟩]
      (some ⟨0x80000000, 4096, 1024, 768, 32, 1, 16, 8, 8, 8, 0, 8⟩) [⟨0x2000, 0x200000, 0x1000⟩]
      (some ⟨List.replicate 36 7, 36, rfl, Or.inr rfl⟩) (fun _ => 0) = some (m', 0x100000) ∧
    readMb2Info m' 0x100000 = some [.mmap 24 0 [⟨0x1000, 0x1000, 1⟩], .module 0x200000 0x201000 [0x61],
      .framebuffer ⟨0x80000000, 4096, 1024, 768, 32, 1, 16, 8, 8, 8, 0, 8⟩, .acpiNew (List.replicate 36 7),
      .terminator] := by
  obtain ⟨hnul, hname⟩ := Mem.cstr_store (fun _ => 0) 0x2000 (s := [0x61]) (by decide) rfl (by decide)
  obtain ⟨m', _, hb, -, -, -, -, hall⟩ := readMb2Info_buildMb2Info 0x100000
    (Mem.store (fun _ => 0) 0x2000 [0x61]) [⟨.conventional, 0x1000, 1⟩]
    (some ⟨0x80000000, 4096, 1024, 768, 32, 1, 16, 8, 8, 8, 0, 8⟩) [⟨0x2000, 0x200000, 0x1000⟩]
    (some ⟨List.replicate 36 7, 36, rfl, Or.inr rfl⟩) (fun _ => 0)
    (by intro mi h; rw [List.mem_singleton.1 h]; exact hnul)
    (by intro mi h; rw [List.mem_singleton.1 h]; decide)
  have hparts : mb2Parts (Mem.store (fun _ => 0) 0x2000 [0x61]) [⟨.conventional, 0x1000, 1⟩]
      (some ⟨0x80000000, 4096, 1024, 768, 32, 1, 16, 8, 8, 8, 0, 8⟩) [⟨0x2000, 0x200000, 0x1000⟩]
      (some ⟨List.replicate 36 7, 36, rfl, Or.inr rfl⟩) =
      [.mmap 24 0 [⟨0x1000, 0x1000, 1⟩], .module 0x200000 0x201000
        (Mem.cstr (Mem.store (fun _ => 0) 0x2000 [0x61]) 0x2000),
      .framebuffer ⟨0x80000000, 4096, 1024, 768, 32, 1, 16, 8, 8, 8, 0, 8⟩,
      .acpiNew (List.replicate 36 7)] := rfl
  rw [hparts, hname] at hall
  exact ⟨m', hb, hall (by simp [span_cons, Mb2Tag.record, Tag.size, Mb2MmapEntry.bytes, alignUp, infoSize_eq])⟩

end Bang
