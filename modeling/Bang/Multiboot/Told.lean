/-
What a kernel is told of the screen and of the ACPI tables, from the firmware's own answers (`query_gop` of
`src/gop.rs`, `find_rsdp` and `build_mb2_info` of `src/multiboot.rs`) to the tags a reader of the structure finds.
-/
import Bang.Multiboot.Mb2Decode
import Bang.Multiboot.RootPointer
import Bang.Multiboot.Screen

namespace Bang

/-! ## The tags a reader finds -/

section
variable {names : Mem UInt8} {map : List MemoryDescriptor} {fb : Option FbInfo} {modules : List ModuleInfo}
  {rsdp : Option Rsdp}

/-- A reader of what the builder leaves finds the tags of the layout. -/
theorem buildMb2Info_tags (out : Nat) (map : List MemoryDescriptor) (fb : Option FbInfo) (rsdp : Option Rsdp)
    (m : Mem UInt8) (hn : ∀ mi ∈ modules, names.NulTerminated mi.namePtr.toNat) :
    ∃ m', buildMb2Info out names map fb modules rsdp m = some (m', UInt32.ofNat out) ∧
      readMb2Info m' out = some (mb2Layout names map fb modules rsdp) := by
  obtain ⟨m', hbuild, -, htotal, hholds, hle⟩ := buildMb2Info_spec out names map fb modules rsdp m hn
  refine ⟨m', hbuild, readMb2Info_eq ?_ (size_lt hle) htotal hholds⟩
  intro t ht
  rcases mem_addTag ht with ht | rfl
  · exact (mb2Front_ok hn t ht).1
  · trivial

/-- The tags of the kinds `p`, where the map, the modules and the terminator are none of them. -/
theorem mb2Layout_filter {p : Mb2Tag → Bool} (hmap : p (mapTag map) = false)
    (hmodule : ∀ mi, p (moduleTag names mi) = false) (hend : p .terminator = false) :
    ((mb2Layout names map fb modules rsdp).filter p).Sublist
      ((fb.toList.map Mb2Tag.framebuffer ++ rsdp.toList.map rsdpTag).filter p) := by
  obtain ⟨k, -, he⟩ := addModules_longest names map modules
  have hfront : (mb2Prefix names map modules k).filter p = [] := by
    refine List.filter_eq_nil_iff.2 fun t ht => ?_
    rcases List.mem_cons.1 ht with rfl | ht
    · exact Bool.eq_false_iff.1 hmap
    · obtain ⟨mi, -, rfl⟩ := List.mem_map.1 ht
      exact Bool.eq_false_iff.1 (hmodule mi)
  have hadd : ∀ reserve ts t, ((addTag reserve ts t).filter p).Sublist (ts.filter p ++ [t].filter p) := by
    intro reserve ts t
    rw [← List.filter_append]
    unfold addTag
    split
    · exact .refl _
    · exact (List.sublist_append_left ..).filter p
  have helim : ∀ {α : Type} reserve ts (o : Option α) (tag : α → Mb2Tag),
      ((o.elim ts fun x => addTag reserve ts (tag x)).filter p).Sublist
        (ts.filter p ++ (o.toList.map tag).filter p) := by
    intro α reserve ts o tag
    cases o with
    | none => exact List.sublist_append_left ..
    | some x => exact hadd reserve ts (tag x)
  have hterminator : [Mb2Tag.terminator].filter p = [] := by rw [List.filter_cons_of_neg (by simp [hend])]; rfl
  unfold mb2Layout mb2Front
  simp only [he]
  refine (hadd _ _ _).trans ?_
  rw [hterminator, List.append_nil, List.filter_append]
  refine (helim _ _ _ _).trans (List.Sublist.append ((helim _ _ _ _).trans ?_) (.refl _))
  rw [hfront, List.nil_append]

/-- All of them, if everything fits. -/
theorem mb2Layout_filter_all {p : Mb2Tag → Bool} (hmap : p (.mmap 24 0 (map.map mmapEntry)) = false)
    (hmodule : ∀ mi, p (moduleTag names mi) = false) (hend : p .terminator = false)
    (hall : 8 + span (mb2Parts names map fb modules rsdp) + 8 ≤ infoSize) :
    (mb2Layout names map fb modules rsdp).filter p =
      (fb.toList.map Mb2Tag.framebuffer ++ rsdp.toList.map rsdpTag).filter p := by
  have hmodules : (modules.map (moduleTag names)).filter p = [] := by
    refine List.filter_eq_nil_iff.2 fun t ht => ?_
    obtain ⟨mi, -, rfl⟩ := List.mem_map.1 ht
    exact Bool.eq_false_iff.1 (hmodule mi)
  rw [mb2Layout_all hall, mb2Parts, List.filter_append, List.filter_cons_of_neg (by simp [hmap]), List.filter_append,
    hmodules, List.nil_append, List.filter_cons_of_neg (by simp [hend]), List.filter_nil, List.append_nil]

end

/-! ## The ACPI tables -/

/-- A tag with a copy of the root pointer. -/
def Mb2Tag.isAcpi : Mb2Tag → Bool
  | .acpiOld _ | .acpiNew _ => true
  | _ => false

theorem isAcpi_rsdpTag (rsdp : Rsdp) : (rsdpTag rsdp).isAcpi = true := by
  unfold rsdpTag
  split <;> rfl

theorem filter_isAcpi (fb : Option FbInfo) (rsdp : Option Rsdp) :
    (fb.toList.map Mb2Tag.framebuffer ++ rsdp.toList.map rsdpTag).filter Mb2Tag.isAcpi = rsdp.toList.map rsdpTag := by
  have hfb : (fb.toList.map Mb2Tag.framebuffer).filter Mb2Tag.isAcpi = [] := by cases fb <;> rfl
  rw [List.filter_append, hfb, List.nil_append]
  refine List.filter_eq_self.2 fun t ht => ?_
  obtain ⟨r, -, rfl⟩ := List.mem_map.1 ht
  exact isAcpi_rsdpTag r

/-- The root pointer that is passed on is the published one: no other tag is of its kinds, and if everything fits
there is one with it. -/
theorem acpi_told (out : Nat) {names : Mem UInt8} (map : List MemoryDescriptor) (fb : Option FbInfo)
    {modules : List ModuleInfo} (m : Mem UInt8) {entries : List ConfigTableEntry} {firmware : Mem UInt8}
    {rsdp : Option Rsdp} (hn : ∀ mi ∈ modules, names.NulTerminated mi.namePtr.toNat)
    (hfind : (findRsdp entries firmware).result = .ok rsdp) :
    ∃ m' ts, buildMb2Info out names map fb modules rsdp m = some (m', UInt32.ofNat out) ∧
      readMb2Info m' out = some ts ∧
      ((∀ a, ¬ Published entries firmware a) → ts.filter Mb2Tag.isAcpi = []) ∧
      ∀ a, Published entries firmware a →
        (ts.filter Mb2Tag.isAcpi).Sublist [rsdpTagAt firmware a] ∧
        (8 + span (mb2Parts names map fb modules rsdp) + 8 ≤ infoSize →
          ts.filter Mb2Tag.isAcpi = [rsdpTagAt firmware a]) := by
  obtain ⟨m', hbuild, hread⟩ := buildMb2Info_tags out map fb rsdp m hn
  have hsub : ((mb2Layout names map fb modules rsdp).filter Mb2Tag.isAcpi).Sublist (rsdp.toList.map rsdpTag) := by
    rw [← filter_isAcpi fb rsdp]
    exact mb2Layout_filter rfl (fun _ => rfl) rfl
  refine ⟨m', _, hbuild, hread, fun hnone => ?_, fun a ha => ?_⟩
  · cases rsdp with
    | none => exact List.sublist_nil.1 hsub
    | some r =>
      obtain ⟨a, ha⟩ := findRsdp_some hfind
      exact absurd ha (hnone a)
  · obtain ⟨r, hr, -⟩ := findRsdp_published ha
    cases hfind.symm.trans hr
    have htag := rsdpTag_eq ha hr
    refine ⟨htag ▸ hsub, fun hall => ?_⟩
    rw [mb2Layout_filter_all rfl (fun _ => rfl) rfl hall, filter_isAcpi, ← htag]
    rfl

/-- A root pointer of the second revision: a reader finds it, and no other. -/
theorem acpi_told_second : ∃ rsdp m' ts,
    (findRsdp [⟨acpiGuid, 0⟩, ⟨acpi2Guid, 0xE0000⟩] (Mem.store (fun _ => 0) 0xE0000 rsdpBytes)).result =
      .ok (some rsdp) ∧
    buildMb2Info 0x100000 (fun _ => 0) [] none [] (some rsdp) (fun _ => 0) = some (m', 0x100000) ∧
    readMb2Info m' 0x100000 = some ts ∧
    ts.filter Mb2Tag.isAcpi =
      [.acpiNew ((Mem.store (fun _ => 0) 0xE0000 rsdpBytes).load 0xE0000 rsdpV2)] := by
  obtain ⟨rsdp, hfind, -⟩ := findRsdp_published published_rsdpBytes
  obtain ⟨m', ts, hbuild, hread, -, htold⟩ := acpi_told 0x100000 [] none (fun _ => 0)
    (show ∀ mi ∈ ([] : List ModuleInfo), Mem.NulTerminated (fun _ => 0) mi.namePtr.toNat from nofun) hfind
  have hfits : 8 + span (mb2Parts (fun _ => 0) [] none [] (some rsdp)) + 8 ≤ infoSize := by
    have hle := rsdp.len_le
    show 8 + span [.mmap 24 0 [], rsdpTag rsdp] + 8 ≤ infoSize
    rw [span_cons, span_singleton, rsdpTag_size, TagChain.alignUp_eight, TagChain.alignUp_eight]
    show 8 + ((16 + 7) / 8 * 8 + _) + 8 ≤ 16384
    rw [rsdp.room] at hle
    have hle : rsdp.len ≤ 36 := hle
    omega
  have htag := (htold _ published_rsdpBytes).2 hfits
  rw [rsdpTagAt, rsdpExtent_rsdpBytes, if_neg (by decide)] at htag
  exact ⟨rsdp, m', ts, hfind, hbuild, hread, htag⟩

/-! ## The screen -/

/-- A tag with a framebuffer. -/
def Mb2Tag.isFramebuffer : Mb2Tag → Bool
  | .framebuffer _ => true
  | _ => false

theorem filter_isFramebuffer (fb : Option FbInfo) (rsdp : Option Rsdp) :
    (fb.toList.map Mb2Tag.framebuffer ++ rsdp.toList.map rsdpTag).filter Mb2Tag.isFramebuffer =
      fb.toList.map Mb2Tag.framebuffer := by
  have hrsdp : ∀ r, (rsdpTag r).isFramebuffer = false := by
    intro r
    unfold rsdpTag
    split <;> rfl
  have hfb : (fb.toList.map Mb2Tag.framebuffer).filter Mb2Tag.isFramebuffer = fb.toList.map Mb2Tag.framebuffer := by
    cases fb <;> rfl
  rw [List.filter_append, hfb, List.filter_eq_nil_iff.2, List.append_nil]
  intro t ht
  obtain ⟨r, -, rfl⟩ := List.mem_map.1 ht
  exact Bool.eq_false_iff.1 (hrsdp r)

/-- A framebuffer that is passed on is that of a mode that has one, and describes it exactly if the mode is plain;
and if everything fits, the framebuffer of such a mode is passed on. -/
theorem screen_told (out : Nat) {names : Mem UInt8} (map : List MemoryDescriptor) (mode : Option GraphicsMode)
    {modules : List ModuleInfo} (rsdp : Option Rsdp) (m : Mem UInt8)
    (hn : ∀ mi ∈ modules, names.NulTerminated mi.namePtr.toNat) :
    ∃ m' ts, buildMb2Info out names map (queryGop mode) modules rsdp m = some (m', UInt32.ofNat out) ∧
      readMb2Info m' out = some ts ∧
      (∀ fb, .framebuffer fb ∈ ts → ∃ g, mode = some g ∧ g.format ≠ .bltOnly ∧ (fb.Describes g ↔ g.Plain)) ∧
      (8 + span (mb2Parts names map (queryGop mode) modules rsdp) + 8 ≤ infoSize →
        ∀ g, mode = some g → g.format ≠ .bltOnly → ∃ fb, .framebuffer fb ∈ ts) := by
  obtain ⟨m', hbuild, hread⟩ := buildMb2Info_tags out map (queryGop mode) rsdp m hn
  refine ⟨m', _, hbuild, hread, fun fb hfb => ?_, fun hall g hg hformat => ?_⟩
  · have hmem : Mb2Tag.framebuffer fb ∈ (queryGop mode).toList.map Mb2Tag.framebuffer := by
      rw [← filter_isFramebuffer (queryGop mode) rsdp]
      exact (mb2Layout_filter (p := Mb2Tag.isFramebuffer) rfl (fun _ => rfl) rfl).subset
        (List.mem_filter.2 ⟨hfb, rfl⟩)
    obtain ⟨fb', hfb', heq⟩ := List.mem_map.1 hmem
    cases heq
    have hquery : queryGop mode = some fb := Option.mem_toList.1 hfb'
    obtain ⟨g, hg, hformat⟩ := queryGop_isSome.1 ⟨fb, hquery⟩
    subst hg
    exact ⟨g, rfl, hformat, queryGop_describes hquery⟩
  · obtain ⟨fb, hfb⟩ := queryGop_isSome.2 ⟨g, hg, hformat⟩
    have hmem : Mb2Tag.framebuffer fb ∈ (queryGop mode).toList.map Mb2Tag.framebuffer := by
      rw [hfb]
      exact List.mem_singleton.2 rfl
    rw [← filter_isFramebuffer (queryGop mode) rsdp, ← mb2Layout_filter_all rfl (fun _ => rfl) rfl hall] at hmem
    exact ⟨fb, (List.mem_filter.1 hmem).1⟩

/-- A screen of 1024 pixels by 768, blue first: what is passed on of it describes it. -/
theorem screen_told_bgr : ∃ m' ts fb, buildMb2Info 0x100000 (fun _ => 0) []
      (queryGop (some ⟨1024, 768, .bgr, ⟨0, 0, 0⟩, 1024, 0x80000000⟩)) [] none (fun _ => 0) = some (m', 0x100000) ∧
    readMb2Info m' 0x100000 = some ts ∧ .framebuffer fb ∈ ts ∧
    fb.Describes ⟨1024, 768, .bgr, ⟨0, 0, 0⟩, 1024, 0x80000000⟩ := by
  obtain ⟨m', ts, hbuild, hread, htold, hall⟩ := screen_told 0x100000 []
    (some ⟨1024, 768, .bgr, ⟨0, 0, 0⟩, 1024, 0x80000000⟩) none (fun _ => 0)
    (show ∀ mi ∈ ([] : List ModuleInfo), Mem.NulTerminated (fun _ => 0) mi.namePtr.toNat from nofun)
  obtain ⟨fb, hfb⟩ := hall (by decide +kernel) _ rfl (by decide)
  obtain ⟨g, hg, -, hdescribes⟩ := htold fb hfb
  cases hg
  exact ⟨m', ts, fb, hbuild, hread, hfb, hdescribes.2 ⟨fun _ _ => by decide, nofun⟩⟩

end Bang
