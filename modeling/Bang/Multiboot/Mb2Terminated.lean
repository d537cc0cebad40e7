/-
When a Multiboot2 information structure is terminated: walking its tags reaches the terminating
tag, right before `total_size`, except when the tags before it end on the last byte of the
reserved memory. Only the root pointer's tag leaves room for the terminator; the modules and the
framebuffer do not, and it is their sizes that decide.
-/
import Bang.Multiboot.Mb2Decode

namespace Bang

open LittleEndian TagChain

/-! ## A complete structure -/

/-- Walking the tags from offset 8 reaches a terminating tag (type 0, size 8) that lies in the
reserved memory and is followed exactly by `total_size`. -/
def Complete (m : Mem UInt8) (out : Nat) : Prop :=
  ∃ e, findLast 8 mb2TagTypeEnd m out infoSize 8 = some e ∧ m.read32 (out + e + 4) = 8 ∧
    e + 8 ≤ infoSize ∧ (m.read32 out).toNat = e + 8 ∧ (m.read32 out).toNat ≤ infoSize

/-- The structure is complete exactly when eight bytes remain behind the other tags. -/
theorem complete_iff_room (out : Nat) (names : Mem UInt8) (map : List MemoryDescriptor)
    (fb : Option FbInfo) (modules : List ModuleInfo) (rsdp : Option Rsdp) (m : Mem UInt8)
    (hn : ∀ mi ∈ modules, names.NulTerminated mi.namePtr.toNat) :
    ∃ m', buildMb2Info out names map fb modules rsdp m = some (m', UInt32.ofNat out) ∧
      (Complete m' out ↔ 8 + span (mb2Front names map fb modules rsdp) + 8 ≤ infoSize) := by
  obtain ⟨m', hb, -, htotal, hholds, hle⟩ := buildMb2Info_spec out names map fb modules rsdp m hn
  refine ⟨m', hb, ?_⟩
  have hadd : mb2Layout names map fb modules rsdp =
      if 8 + span (mb2Front names map fb modules rsdp) + 8 ≤ infoSize then
        mb2Front names map fb modules rsdp ++ [.terminator] else mb2Front names map fb modules rsdp := rfl
  have hfront : m'.Holds (out + 8) (encode 8 ((mb2Front names map fb modules rsdp).map Mb2Tag.record)) ∧
      8 + span (mb2Front names map fb modules rsdp) ≤ infoSize := by
    rw [hadd] at hholds hle
    split at hholds
    · rw [List.map_append, encode_append] at hholds
      exact ⟨hholds.left, by omega⟩
    · rename_i hno
      rw [if_neg hno] at hle
      exact ⟨hholds, hle⟩
  -- the walk passes over every tag before the terminator
  have hskip : findLast 8 mb2TagTypeEnd m' out infoSize 8 = findLast 8 mb2TagTypeEnd m' out infoSize
      (8 + span (mb2Front names map fb modules rsdp)) := by
    refine findLast_skip 8 mb2TagTypeEnd m' out infoSize _ ?_ 8 hfront.1 hfront.2
    intro t ht
    obtain ⟨u, hu, rfl⟩ := List.mem_map.1 ht
    exact ⟨size_lt hfront.2 u hu, (mb2Front_ok hn u hu).2⟩
  constructor
  · rintro ⟨e, he, -, -⟩
    by_contra hno
    rw [hskip, findLast_outside (by omega)] at he
    cases he
  · intro hroom
    rw [hadd, if_pos hroom] at hholds htotal
    rw [List.map_append, encode_append] at hholds
    have hend : m'.Holds (out + (8 + span (mb2Front names map fb modules rsdp)))
        (Mb2Tag.terminator.record.padded 8 ++ []) := by
      simpa [span, Nat.add_assoc] using hholds.right
    obtain ⟨h1, h2, -⟩ := read_opening hend (by decide)
    have h8 : span (mb2Front names map fb modules rsdp ++ [.terminator]) =
        span (mb2Front names map fb modules rsdp) + 8 := by
      rw [span_append, span_singleton, terminator_size]; rfl
    refine ⟨8 + span (mb2Front names map fb modules rsdp), ?_, UInt32.toNat_inj.mp h2, hroom, by omega,
      by omega⟩
    rw [hskip]
    exact findLast_found h1 hroom

/-! ## The condition on the inputs -/

/-- The padded size of a module's tag. -/
def moduleSpan (names : Mem UInt8) (mi : ModuleInfo) : Nat :=
  alignUp 8 (17 + (names.cstr mi.namePtr.toNat).length)

/-- Where the tags of the first `k` modules end: the fixed header, the memory map tag, and their
padded sizes. -/
def prefixEnd (names : Mem UInt8) (map : List MemoryDescriptor) (modules : List ModuleInfo) (k : Nat) : Nat :=
  24 + 24 * min map.length mb2MmapMax + ((modules.take k).map (moduleSpan names)).sum

/-- The parts leave room for the terminator: no prefix of the modules ends on the last byte of
the reserved memory, and neither does the framebuffer's tag behind one, unless one more module
fits in its place. -/
structure EndTagRoom (names : Mem UInt8) (map : List MemoryDescriptor) (fb : Option FbInfo)
    (modules : List ModuleInfo) : Prop where
  noFill : ∀ k ≤ modules.length, prefixEnd names map modules k ≠ infoSize
  noFillFb : fb.isSome → ∀ k ≤ modules.length, prefixEnd names map modules k + 40 = infoSize →
    ∃ h : k < modules.length, moduleSpan names modules[k] ≤ 40

theorem prefixEnd_eq (names : Mem UInt8) (map : List MemoryDescriptor) (modules : List ModuleInfo) (k : Nat) :
    prefixEnd names map modules k = 8 + span (mb2Prefix names map modules k) := by
  have hmods : ∀ l : List ModuleInfo,
      span (l.map (moduleTag names)) = (l.map (moduleSpan names)).sum := by
    intro l
    induction l with
    | nil => rfl
    | cons mi l ih =>
      rw [List.map_cons, span_cons, ih, List.map_cons, List.sum_cons, moduleTag_size, moduleSpan]
  rw [prefixEnd, mb2Prefix, ← List.singleton_append, span_append, span_mapTag, hmods]
  omega

theorem prefixEnd_succ (names : Mem UInt8) (map : List MemoryDescriptor) (modules : List ModuleInfo)
    {k : Nat} (h : k < modules.length) :
    prefixEnd names map modules (k + 1) = prefixEnd names map modules k + moduleSpan names modules[k] := by
  unfold prefixEnd
  rw [List.take_succ_eq_append_getElem h, List.map_append, List.sum_append]
  simp; omega

theorem prefixEnd_mono (names : Mem UInt8) (map : List MemoryDescriptor) (modules : List ModuleInfo)
    {j k : Nat} (hjk : j ≤ k) (hk : k ≤ modules.length) :
    prefixEnd names map modules j ≤ prefixEnd names map modules k := by
  induction k, hjk using Nat.le_induction with
  | base => exact le_refl _
  | succ k hjk ih =>
    have := prefixEnd_succ names map modules (k := k) (by omega)
    have := ih (by omega)
    omega

theorem moduleTag_size_le (names : Mem UInt8) (mi : ModuleInfo) :
    (moduleTag names mi).record.size ≤ moduleSpan names mi := by
  rw [moduleTag_size]; exact le_alignUp 8 _

theorem moduleSpan_pos (names : Mem UInt8) (mi : ModuleInfo) : 0 < moduleSpan names mi := by
  have := le_alignUp 8 (17 + (names.cstr mi.namePtr.toNat).length)
  unfold moduleSpan; omega

/-- A prefix that fits and that the next module would overflow is the longest that fits. -/
theorem LongestFit.unique {names : Mem UInt8} {map : List MemoryDescriptor} {modules : List ModuleInfo}
    {k j : Nat} (hk : LongestFit names map modules k) (hj : j ≤ modules.length)
    (hfits : prefixEnd names map modules j ≤ infoSize)
    (hnext : ∀ h : j < modules.length, infoSize < prefixEnd names map modules j + moduleSpan names modules[j]) :
    k = j := by
  have hle := hk.le
  have hkfits := hk.fits
  rw [← prefixEnd_eq] at hkfits
  rcases Nat.lt_trichotomy k j with hlt | heq | hgt
  · -- the module behind the longest prefix would still fit
    have h1 := hk.next (by omega)
    have h2 := moduleTag_size_le names modules[k]
    have h3 := prefixEnd_succ names map modules (k := k) (by omega)
    have h4 := prefixEnd_mono names map modules (show k + 1 ≤ j by omega) hj
    rw [← prefixEnd_eq] at h1
    omega
  · exact heq
  · have h1 := hnext (by omega)
    have h3 := prefixEnd_succ names map modules (k := j) (by omega)
    have h4 := prefixEnd_mono names map modules (show j + 1 ≤ k by omega) hle
    omega

/-- Where the tags before the terminator end, from where the modules that fit end. -/
theorem front_room {names : Mem UInt8} {map : List MemoryDescriptor} {fb : Option FbInfo}
    {modules : List ModuleInfo} {rsdp : Option Rsdp} {k : Nat}
    (he : addModules names [mapTag map] modules = mb2Prefix names map modules k)
    (hfits : prefixEnd names map modules k ≤ infoSize) :
    8 + span (mb2Front names map fb modules rsdp) + 8 ≤ infoSize ↔
      prefixEnd names map modules k ≠ infoSize ∧
        (fb.isSome → prefixEnd names map modules k + 40 ≠ infoSize) := by
  have h40 : alignUp 8 37 = 40 := rfl
  have hdvd := eight_dvd_span (mb2Prefix names map modules k)
  rw [prefixEnd_eq] at *
  -- the framebuffer's tag
  have hfb : 8 + span (fb.elim (mb2Prefix names map modules k) fun fb =>
        addTag 0 (mb2Prefix names map modules k) (.framebuffer fb)) + 8 ≤ infoSize ↔
      8 + span (mb2Prefix names map modules k) ≠ infoSize ∧
        (fb.isSome → 8 + span (mb2Prefix names map modules k) + 40 ≠ infoSize) := by
    cases fb with
    | none =>
      simp only [Option.elim_none, Option.isSome_none, Bool.false_eq_true, false_implies, and_true]
      rw [infoSize_eq] at *; omega
    | some f =>
      simp only [Option.elim_some, Option.isSome_some, forall_const, addTag, framebuffer_size]
      split
      · rw [span_append, span_singleton, framebuffer_size, h40]
        rw [infoSize_eq] at *; omega
      · rw [infoSize_eq] at *; omega
  -- the root pointer's tag never takes the last eight bytes
  rw [← hfb]
  unfold mb2Front
  simp only [he]
  cases rsdp with
  | none => rfl
  | some r =>
    simp only [Option.elim_some, addTag, rsdpTag_size]
    split
    · rename_i hroom
      have := eight_dvd_span (fb.elim (mb2Prefix names map modules k) fun fb =>
        addTag 0 (mb2Prefix names map modules k) (.framebuffer fb))
      rw [span_append, span_singleton, rsdpTag_size, alignUp_eight]
      simp only [addTag] at *
      rw [infoSize_eq] at *; omega
    · rfl

/-- The structure the builder leaves is complete exactly when its parts leave room for the
terminating tag. -/
theorem complete_iff_endTagRoom (out : Nat) (names : Mem UInt8) (map : List MemoryDescriptor)
    (fb : Option FbInfo) (modules : List ModuleInfo) (rsdp : Option Rsdp) (m : Mem UInt8)
    (hn : ∀ mi ∈ modules, names.NulTerminated mi.namePtr.toNat) :
    ∃ m', buildMb2Info out names map fb modules rsdp m = some (m', UInt32.ofNat out) ∧
      (Complete m' out ↔ EndTagRoom names map fb modules) := by
  obtain ⟨m', hb, hiff⟩ := complete_iff_room out names map fb modules rsdp m hn
  obtain ⟨k, hk, he⟩ := addModules_longest names map modules
  have hfits := hk.fits
  rw [← prefixEnd_eq] at hfits
  refine ⟨m', hb, hiff.trans ((front_room he hfits).trans ?_)⟩
  constructor
  · rintro ⟨h1, h2⟩
    refine ⟨fun j hj heq => ?_, fun hfb j hj heq => ?_⟩
    · have hkj := hk.unique hj (by omega) fun h => by have := moduleSpan_pos names modules[j]; omega
      subst hkj
      exact h1 heq
    · by_contra hno
      have hkj := hk.unique hj (by omega) fun h => by
        by_contra hle
        exact hno ⟨h, by omega⟩
      subst hkj
      exact h2 hfb heq
  · rintro ⟨h1, h2⟩
    refine ⟨h1 k hk.le, fun hfb heq => ?_⟩
    -- the module that would fit in the framebuffer's place contradicts the longest prefix
    obtain ⟨hlt, hspan⟩ := h2 hfb k hk.le heq
    have hnext := hk.next hlt
    have := moduleTag_size_le names modules[k]
    rw [← prefixEnd_eq] at hnext
    omega

/-- With 680 descriptors and a framebuffer everything is told, but no terminating tag follows: the
framebuffer's tag ends on the last byte. -/
theorem not_complete_of_full_map : ∃ m',
    buildMb2Info 0x100000 (fun _ => 0) (List.replicate 680 ⟨.conventional, 0x1000, 1⟩)
      (some ⟨0x80000000, 4096, 1024, 768, 32, 1, 16, 8, 8, 8, 0, 8⟩) [] none (fun _ => 0) =
        some (m', 0x100000) ∧ ¬ Complete m' 0x100000 := by
  obtain ⟨m', hb, hiff⟩ := complete_iff_room 0x100000 (fun _ => 0)
    (List.replicate 680 ⟨.conventional, 0x1000, 1⟩)
    (some ⟨0x80000000, 4096, 1024, 768, 32, 1, 16, 8, 8, 8, 0, 8⟩) [] none (fun _ => 0)
    (by intro mi h; cases h)
  refine ⟨m', hb, fun hc => ?_⟩
  have hend : prefixEnd (fun _ => 0) (List.replicate 680 ⟨.conventional, 0x1000, 1⟩) [] 0 = 16344 := by
    rw [prefixEnd, List.length_replicate]; rfl
  have hroom := (front_room (k := 0) rfl (by rw [hend, infoSize_eq]; omega)).1 (hiff.1 hc)
  exact hroom.2 rfl (by rw [hend, infoSize_eq])

/-- One descriptor and one module named `a`: the structure is complete. -/
theorem complete_one_module : ∃ m',
    buildMb2Info 0x100000 (Mem.store (fun _ => 0) 0x2000 [0x61]) [⟨.conventional, 0x1000, 1⟩] none
      [⟨0x2000, 0x200000, 0x1000⟩] none (fun _ => 0) = some (m', 0x100000) ∧ Complete m' 0x100000 := by
  obtain ⟨hnul, hname⟩ := Mem.cstr_store (fun _ => 0) 0x2000 (s := [0x61]) (by decide) rfl (by decide)
  obtain ⟨m', hb, hiff⟩ := complete_iff_endTagRoom 0x100000 (Mem.store (fun _ => 0) 0x2000 [0x61])
    [⟨.conventional, 0x1000, 1⟩] none [⟨0x2000, 0x200000, 0x1000⟩] none (fun _ => 0)
    (by intro mi h; rw [List.mem_singleton.1 h]; exact hnul)
  have hspan : moduleSpan (Mem.store (fun _ => 0) 0x2000 [0x61]) ⟨0x2000, 0x200000, 0x1000⟩ = 24 := by
    show alignUp 8 (17 + (Mem.cstr _ 0x2000).length) = 24
    rw [hname]; rfl
  refine ⟨m', hb, hiff.2 ⟨fun k hk => ?_, fun h => by cases h⟩⟩
  have hk : k = 0 ∨ k = 1 := by simp only [List.length_singleton] at hk; omega
  rcases hk with rfl | rfl
  · rw [prefixEnd, infoSize_eq]; decide
  · rw [prefixEnd, infoSize_eq, List.take_succ_cons, List.take_zero, List.map_singleton, hspan]; decide

end Bang
