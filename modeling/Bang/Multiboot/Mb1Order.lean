/-
Whether the order of the firmware's memory map matters to the memory sizes in a Multiboot1
structure. The lower size is a plain sum. The upper one leaves out what comes in front of the
descriptor at one megabyte, so it depends on the order unless that could not have changed it.
-/
import Bang.Multiboot.Mb1Sizes
import Mathlib.Algebra.BigOperators.Ring.List
import Mathlib.Data.List.TakeWhile

namespace Bang

/-! ## Independence of the order -/

/-- The builder stores the same sizes for every order of the memory map. -/
def SizesOrderFree (out : Nat) (names : Mem UInt8) (modules : List ModuleInfo) (m : Mem UInt8)
    (map : List MemoryDescriptor) : Prop :=
  ∀ map' : List MemoryDescriptor, map'.Perm map →
    mb1StoredSizes out names modules m map' = mb1StoredSizes out names modules m map

/-- No available memory of any length starts at one megabyte exactly. -/
def NothingOpensHigh (map : List MemoryDescriptor) : Prop :=
  ∀ desc ∈ map, desc.Available → desc.physStart = 0x100000 → desc.pageCount.toNat % 2 ^ 52 = 0

/-- All available memory above one megabyte comes in multiples of four terabytes, which leave the
32 bits of `mem_upper` as they are. -/
def HighLeavesUpper (map : List MemoryDescriptor) : Prop :=
  ∀ desc ∈ map, desc.Available → desc.physStart > 0x100000 → desc.pageCount.toNat % 2 ^ 30 = 0

/-! ## Sums in any order -/

theorem kilobytesOf_perm {map map' : List MemoryDescriptor} (h : map'.Perm map) :
    kilobytesOf map' = kilobytesOf map :=
  (h.map MemoryDescriptor.kilobytes).sum_eq

theorem kilobytesOf_append (map map' : List MemoryDescriptor) :
    kilobytesOf (map ++ map') = kilobytesOf map + kilobytesOf map' := by
  rw [kilobytesOf, List.map_append, List.sum_append, ← kilobytesOf, ← kilobytesOf]

theorem countedLow_eq {map : List MemoryDescriptor} (h : map.length ≤ mb1MmapMax) :
    countedLow map = map.filter MemoryDescriptor.isLow := by
  rw [countedLow, List.take_of_length_le h]

theorem countedHigh_eq {map : List MemoryDescriptor} (h : map.length ≤ mb1MmapMax) :
    countedHigh map = (map.dropWhile fun desc => !desc.opensHigh).filter MemoryDescriptor.isHigh := by
  rw [countedHigh, List.take_of_length_le h]

theorem NothingOpensHigh.not_opensHigh {map : List MemoryDescriptor} (h : NothingOpensHigh map)
    {desc : MemoryDescriptor} (hd : desc ∈ map) : ¬desc.opensHigh := by
  intro hopen
  obtain ⟨hav, hbase, hlen⟩ := of_decide_eq_true hopen
  have := h desc hd hav hbase
  rw [MemoryDescriptor.kilobytes_eq] at hlen
  omega

/-- If nothing opens the memory above one megabyte, nothing counts there. -/
theorem NothingOpensHigh.countedHigh_nil {map : List MemoryDescriptor} (h : NothingOpensHigh map)
    (hlen : map.length ≤ mb1MmapMax) : countedHigh map = [] := by
  rw [countedHigh_eq hlen, List.dropWhile_eq_nil_iff.2 fun desc hd => ?_, List.filter_nil]
  simpa using h.not_opensHigh hd

/-- Where the memory above one megabyte leaves `mem_upper` as it is, so does what the loop passes
over. -/
theorem HighLeavesUpper.countedHigh_mod {map : List MemoryDescriptor} (h : HighLeavesUpper map)
    (hlen : map.length ≤ mb1MmapMax) :
    kilobytesOf (countedHigh map) % 2 ^ 32 = kilobytesOf (map.filter MemoryDescriptor.isHigh) % 2 ^ 32 := by
  have hsplit : map.filter MemoryDescriptor.isHigh =
      (map.takeWhile fun desc => !desc.opensHigh).filter MemoryDescriptor.isHigh ++ countedHigh map := by
    rw [countedHigh_eq hlen, ← List.filter_append, List.takeWhile_append_dropWhile]
  have hpassed : 2 ^ 32 ∣ kilobytesOf
      ((map.takeWhile fun desc => !desc.opensHigh).filter MemoryDescriptor.isHigh) := by
    apply List.dvd_sum
    intro kb hkb
    obtain ⟨desc, hd, rfl⟩ := List.mem_map.1 hkb
    obtain ⟨hd, hhigh⟩ := List.mem_filter.1 hd
    obtain ⟨hav, hbase⟩ := of_decide_eq_true hhigh
    have hclosed : ¬desc.opensHigh := by simpa using List.mem_takeWhile_imp hd
    by_cases heq : desc.physStart = 0x100000
    · have hzero : desc.kilobytes = 0 := by
        by_contra hne
        exact hclosed (decide_eq_true ⟨hav, heq, hne⟩)
      rw [hzero]
      exact Nat.dvd_zero _
    · have hpages := h desc ((List.takeWhile_sublist _).subset hd) hav
        (UInt64.lt_of_le_of_ne (UInt64.not_lt.1 hbase) (Ne.symm heq))
      rw [MemoryDescriptor.kilobytes_eq]
      omega
  rw [hsplit, kilobytesOf_append]
  omega

/-- A descriptor that opens the memory above one megabyte counts, with all of that behind it. -/
theorem countedHigh_cons_open {desc : MemoryDescriptor} {map : List MemoryDescriptor} (h : desc.opensHigh)
    (hlen : (desc :: map).length ≤ mb1MmapMax) :
    kilobytesOf (countedHigh (desc :: map)) =
      desc.kilobytes + kilobytesOf (map.filter MemoryDescriptor.isHigh) := by
  rw [countedHigh_eq hlen, List.dropWhile_cons_of_neg (by rw [h]; decide), kilobytesOf_filter_cons,
    if_pos (MemoryDescriptor.isHigh_of_opensHigh h)]

/-- One that does not is passed over at the head of the map. -/
theorem countedHigh_cons_closed {desc : MemoryDescriptor} {map : List MemoryDescriptor} (h : ¬desc.opensHigh)
    (hlen : (desc :: map).length ≤ mb1MmapMax) : countedHigh (desc :: map) = countedHigh map := by
  have hlen' : map.length ≤ mb1MmapMax := le_trans (Nat.le_succ _) hlen
  rw [countedHigh_eq hlen, countedHigh_eq hlen', List.dropWhile_cons_of_pos (by simp only [h, Bool.not_false])]

/-! ## When the order does not matter -/

section Order

variable (out : Nat) (names : Mem UInt8) (modules : List ModuleInfo) (m : Mem UInt8)

/-- Two maps have the same sizes stored exactly when their sums agree as far as the fields go. -/
theorem mb1StoredSizes_eq_iff (map map' : List MemoryDescriptor) :
    mb1StoredSizes out names modules m map' = mb1StoredSizes out names modules m map ↔
      min 640 (kilobytesOf (countedLow map')) = min 640 (kilobytesOf (countedLow map)) ∧
        kilobytesOf (countedHigh map') % 2 ^ 32 = kilobytesOf (countedHigh map) % 2 ^ 32 := by
  obtain ⟨lower, upper, hs, hlower, hupper⟩ := mb1StoredSizes_spec out names modules m map
  obtain ⟨lower', upper', hs', hlower', hupper'⟩ := mb1StoredSizes_spec out names modules m map'
  rw [hs, hs', ← hlower, ← hlower', ← hupper, ← hupper', UInt32.toNat_inj, UInt32.toNat_inj, Option.some.injEq,
    Prod.mk.injEq]

theorem sizesOrderFree_of_left {map : List MemoryDescriptor} (hlen : map.length ≤ mb1MmapMax)
    (h : NothingOpensHigh map ∨ HighLeavesUpper map) : SizesOrderFree out names modules m map := by
  intro map' hperm
  have hlen' : map'.length ≤ mb1MmapMax := hperm.length_eq.trans_le hlen
  rw [mb1StoredSizes_eq_iff]
  constructor
  · rw [countedLow_eq hlen, countedLow_eq hlen', kilobytesOf_perm (hperm.filter _)]
  · rcases h with h | h
    · have h' : NothingOpensHigh map' := fun desc hd => h desc (hperm.mem_iff.1 hd)
      rw [h.countedHigh_nil hlen, h'.countedHigh_nil hlen']
    · have h' : HighLeavesUpper map' := fun desc hd => h desc (hperm.mem_iff.1 hd)
      rw [h.countedHigh_mod hlen, h'.countedHigh_mod hlen', kilobytesOf_perm (hperm.filter _)]

/-- Putting a descriptor above one megabyte in front of the one that opens that memory, or right
behind it, changes the sum by its length. -/
theorem SizesOrderFree.kilobytes_mod {map : List MemoryDescriptor} (hfree : SizesOrderFree out names modules m map)
    (hlen : map.length ≤ mb1MmapMax) {first desc : MemoryDescriptor} (hfirst : first ∈ map)
    (hopen : first.opensHigh) (hdesc : desc ∈ map) (hclosed : ¬desc.opensHigh) (hhigh : desc.isHigh) :
    desc.kilobytes % 2 ^ 32 = 0 := by
  have hne : desc ≠ first := fun heq => hclosed (heq ▸ hopen)
  obtain ⟨rest, hrest⟩ : ∃ rest, (first :: desc :: rest).Perm map :=
    ⟨(map.erase first).erase desc, ((List.perm_cons_erase hfirst).trans
      ((List.perm_cons_erase ((List.mem_erase_of_ne hne).2 hdesc)).cons first)).symm⟩
  have hlen₁ : (first :: desc :: rest).length ≤ mb1MmapMax := hrest.length_eq.trans_le hlen
  have hlen₂ : (desc :: first :: rest).length ≤ mb1MmapMax := hlen₁
  have hsame := (hfree _ ((List.Perm.swap first desc rest).trans hrest)).trans (hfree _ hrest).symm
  obtain ⟨-, hupper⟩ := (mb1StoredSizes_eq_iff out names modules m _ _).1 hsame
  rw [countedHigh_cons_closed hclosed hlen₂, countedHigh_cons_open hopen (le_trans (Nat.le_succ _) hlen₂),
    countedHigh_cons_open hopen hlen₁, kilobytesOf_filter_cons, if_pos hhigh] at hupper
  omega

end Order

/-- For every memory map that fits the structure, the order does not matter to the stored sizes
exactly when no memory of any length is available at one megabyte, or none above it changes the field. -/
theorem sizesOrderFree_iff (out : Nat) (names : Mem UInt8) (modules : List ModuleInfo) (m : Mem UInt8)
    (map : List MemoryDescriptor) (hlen : map.length ≤ 573) :
    SizesOrderFree out names modules m map ↔ NothingOpensHigh map ∨ HighLeavesUpper map := by
  refine ⟨fun hfree => ?_, sizesOrderFree_of_left out names modules m hlen⟩
  by_contra hneither
  push Not at hneither
  obtain ⟨hopens, hchanges⟩ := hneither
  simp only [NothingOpensHigh, HighLeavesUpper] at hopens hchanges
  push Not at hopens hchanges
  obtain ⟨first, hfirst, hav, hbase, hpages⟩ := hopens
  obtain ⟨desc, hdesc, hav', hbase', hpages'⟩ := hchanges
  have hopen : first.opensHigh :=
    decide_eq_true ⟨hav, hbase, by rw [MemoryDescriptor.kilobytes_eq]; omega⟩
  have hclosed : ¬desc.opensHigh := fun hc => by
    rw [(of_decide_eq_true hc).2.1] at hbase'
    exact absurd hbase' (by decide)
  have hhigh : desc.isHigh := decide_eq_true ⟨hav', UInt64.not_lt.2 (UInt64.le_of_lt hbase')⟩
  have := hfree.kilobytes_mod out names modules m hlen hfirst hopen hdesc hclosed hhigh
  rw [MemoryDescriptor.kilobytes_eq] at this
  omega

/-- Memory below one megabyte and memory at one megabyte, in either order. -/
theorem sizesOrderFree_low_high : SizesOrderFree 0x200000 (fun _ => 0) [] (fun _ => 0)
    [⟨.conventional, 0, 160⟩, ⟨.conventional, 0x100000, 256⟩] := by
  refine (sizesOrderFree_iff 0x200000 (fun _ => 0) [] (fun _ => 0) _ (by decide)).2 (Or.inr ?_)
  unfold HighLeavesUpper
  decide

/-- One megabyte at one megabyte and one at sixteen: sorted the map is stored as 2048 kilobytes,
the other way around as 1024. -/
theorem not_sizesOrderFree_swapped :
    NonOverlapping [⟨.conventional, 0x100000, 256⟩, ⟨.conventional, 0x1000000, 256⟩] ∧
    mb1StoredSizes 0x200000 (fun _ => 0) [] (fun _ => 0)
      [⟨.conventional, 0x100000, 256⟩, ⟨.conventional, 0x1000000, 256⟩] = some (0, 2048) ∧
    mb1StoredSizes 0x200000 (fun _ => 0) [] (fun _ => 0)
      [⟨.conventional, 0x1000000, 256⟩, ⟨.conventional, 0x100000, 256⟩] = some (0, 1024) ∧
    ¬SizesOrderFree 0x200000 (fun _ => 0) [] (fun _ => 0)
      [⟨.conventional, 0x100000, 256⟩, ⟨.conventional, 0x1000000, 256⟩] := by
  have hsorted : mb1StoredSizes 0x200000 (fun _ => 0) [] (fun _ => 0)
      [⟨.conventional, 0x100000, 256⟩, ⟨.conventional, 0x1000000, 256⟩] = some (0, 2048) := by
    rw [mb1StoredSizes_eq]
    decide
  have hswapped : mb1StoredSizes 0x200000 (fun _ => 0) [] (fun _ => 0)
      [⟨.conventional, 0x1000000, 256⟩, ⟨.conventional, 0x100000, 256⟩] = some (0, 1024) := by
    rw [mb1StoredSizes_eq]
    decide
  refine ⟨nonOverlapping_pair (by decide), hsorted, hswapped, fun hfree => ?_⟩
  have := hfree _ (List.Perm.swap _ _ _)
  rw [hsorted, hswapped] at this
  exact absurd this (by decide)

end Bang
