/-
Whether a kernel may use the memory that the sizes in a Multiboot1 structure promise: everything
below `mem_lower` kilobytes, and `mem_upper` kilobytes from one megabyte on. The sizes are sums
over the whole map, so they reach past the first hole as soon as memory behind it counts for more
than memory in front of it that did not count.
-/
import Bang.Multiboot.Mb1Sizes
import Mathlib.Tactic.Linarith

namespace Bang

/-! ## What the sizes promise -/

/-- The available memory of the map. -/
def availableOf (map : List MemoryDescriptor) : List MemoryDescriptor := map.filter (·.Available)

/-- Everything the sizes promise belongs to a descriptor of available memory. -/
structure SizesSafe (map : List MemoryDescriptor) (lower upper : UInt32) : Prop where
  low : ∀ a, a < lower.toNat * 1024 → ∃ desc ∈ map, desc.Available ∧ desc.extent.Covers a
  high : ∀ a, 0x100000 ≤ a → a < 0x100000 + upper.toNat * 1024 →
    ∃ desc ∈ map, desc.Available ∧ desc.extent.Covers a

/-- The first address from `lo` on that is not available memory. -/
def FirstHole (map : List MemoryDescriptor) (lo hole : Nat) : Prop :=
  Extent.FirstHole ((availableOf map).map MemoryDescriptor.extent) lo hole

/-- The descriptors of a list that start at `hole` or above. -/
def startingBehind (hole : Nat) (map : List MemoryDescriptor) : List MemoryDescriptor :=
  map.filter fun desc => hole ≤ desc.extent.start

/-- How many bytes of `[lo, hole)` the descriptors of a list describe. -/
def bytesWithin (lo hole : Nat) (map : List MemoryDescriptor) : Nat :=
  (map.map fun desc => desc.extent.within lo hole).sum

/-- Available memory the structure has no room to list. -/
def beyondRoom (map : List MemoryDescriptor) : List MemoryDescriptor := availableOf (map.drop mb1MmapMax)

/-- Available memory that does not count for `mem_upper`: what is listed before the descriptor at
one megabyte, what starts below one megabyte, and what there is no room to list. -/
def missedHigh (map : List MemoryDescriptor) : List MemoryDescriptor :=
  availableOf ((map.take mb1MmapMax).takeWhile fun desc => !desc.opensHigh) ++
    (((map.take mb1MmapMax).dropWhile fun desc => !desc.opensHigh).filter MemoryDescriptor.isLow ++
      beyondRoom map)

/-- If the first hole is below 640 kilobytes, the memory that counts behind it is made up for by
memory in front of it that there was no room to list. -/
def LowerFits (map : List MemoryDescriptor) : Prop :=
  ∀ hole, FirstHole map 0 hole → hole < 640 * 1024 →
    kilobytesOf (startingBehind hole (countedLow map)) * 1024 ≤ bytesWithin 0 hole (beyondRoom map)

/-- The memory that counts behind the first hole above one megabyte is made up for by memory in
front of it that does not count, and by the multiple of four terabytes that does not fit the
field. -/
def UpperFits (map : List MemoryDescriptor) : Prop :=
  ∀ hole, FirstHole map 0x100000 hole →
    kilobytesOf (startingBehind hole (countedHigh map)) * 1024 ≤
      bytesWithin 0x100000 hole (missedHigh map) + kilobytesOf (countedHigh map) / 2 ^ 32 * 2 ^ 42

/-! ## Counted and missed memory -/

theorem mem_availableOf {map : List MemoryDescriptor} {desc : MemoryDescriptor} :
    desc ∈ availableOf map ↔ desc ∈ map ∧ desc.Available := by
  rw [availableOf, List.mem_filter, decide_eq_true_eq]

theorem covered_available {map : List MemoryDescriptor} {a : Nat} :
    Extent.Covered ((availableOf map).map MemoryDescriptor.extent) a ↔
      ∃ desc ∈ map, desc.Available ∧ desc.extent.Covers a := by
  constructor
  · rintro ⟨e, he, ha⟩
    obtain ⟨desc, hd, rfl⟩ := List.mem_map.1 he
    obtain ⟨hmem, hav⟩ := mem_availableOf.1 hd
    exact ⟨desc, hmem, hav, ha⟩
  · rintro ⟨desc, hmem, hav, ha⟩
    exact ⟨desc.extent, List.mem_map_of_mem (mem_availableOf.2 ⟨hmem, hav⟩), ha⟩

theorem noOverlap_available {map : List MemoryDescriptor} (h : NonOverlapping map) :
    Extent.NoOverlap ((availableOf map).map MemoryDescriptor.extent) :=
  List.Pairwise.sublist (List.filter_sublist.map _) h

theorem bytesWithin_append (lo hole : Nat) (xs ys : List MemoryDescriptor) :
    bytesWithin lo hole (xs ++ ys) = bytesWithin lo hole xs + bytesWithin lo hole ys := by
  rw [bytesWithin, List.map_append, List.sum_append, ← bytesWithin, ← bytesWithin]

theorem bytesWithin_cons (lo hole : Nat) (desc : MemoryDescriptor) (map : List MemoryDescriptor) :
    bytesWithin lo hole (desc :: map) = desc.extent.within lo hole + bytesWithin lo hole map := by
  rw [bytesWithin, List.map_cons, List.sum_cons, ← bytesWithin]

theorem bytesWithin_filter_cons (lo hole : Nat) (p : MemoryDescriptor → Bool) (desc : MemoryDescriptor)
    (map : List MemoryDescriptor) : bytesWithin lo hole ((desc :: map).filter p) =
      (if p desc then desc.extent.within lo hole else 0) + bytesWithin lo hole (map.filter p) :=
  sum_filter_cons _ p desc map

/-- Available memory starts below one megabyte or not. -/
theorem bytesWithin_available (lo hole : Nat) (map : List MemoryDescriptor) :
    bytesWithin lo hole (availableOf map) =
      bytesWithin lo hole (map.filter MemoryDescriptor.isLow) +
        bytesWithin lo hole (map.filter MemoryDescriptor.isHigh) := by
  induction map with
  | nil => rfl
  | cons desc map ih =>
    have hsplit : (if desc.Available then desc.extent.within lo hole else 0) =
        (if desc.isLow then desc.extent.within lo hole else 0) +
          (if desc.isHigh then desc.extent.within lo hole else 0) := by
      simp only [MemoryDescriptor.isLow, MemoryDescriptor.isHigh, decide_eq_true_eq]
      by_cases hav : desc.Available
      · by_cases hlow : desc.physStart < 0x100000
        · rw [if_pos hav, if_pos ⟨hav, hlow⟩, if_neg fun h => h.2 hlow, Nat.add_zero]
        · rw [if_pos hav, if_neg fun h => hlow h.2, if_pos ⟨hav, hlow⟩, Nat.zero_add]
      · rw [if_neg hav, if_neg fun h => hav h.1, if_neg fun h => hav h.1]
    rw [availableOf] at ih ⊢
    rw [bytesWithin_filter_cons, bytesWithin_filter_cons, bytesWithin_filter_cons, ih]
    simp only [decide_eq_true_eq, hsplit]
    omega

theorem availableOf_append (xs ys : List MemoryDescriptor) :
    availableOf (xs ++ ys) = availableOf xs ++ availableOf ys :=
  List.filter_append ..

/-- All available memory, as far as the lower size goes. -/
theorem bytesWithin_low (lo hole : Nat) (map : List MemoryDescriptor) :
    bytesWithin lo hole (availableOf map) = bytesWithin lo hole (countedLow map) +
      (bytesWithin lo hole ((map.take mb1MmapMax).filter MemoryDescriptor.isHigh) +
        bytesWithin lo hole (beyondRoom map)) := by
  have hmap : availableOf map = availableOf (map.take mb1MmapMax) ++ beyondRoom map := by
    rw [beyondRoom, ← availableOf_append, List.take_append_drop]
  rw [hmap, bytesWithin_append, bytesWithin_available, countedLow, Nat.add_assoc]

/-- All available memory, as far as the upper size goes. -/
theorem bytesWithin_high (lo hole : Nat) (map : List MemoryDescriptor) :
    bytesWithin lo hole (availableOf map) =
      bytesWithin lo hole (countedHigh map) + bytesWithin lo hole (missedHigh map) := by
  have hmap : availableOf map = availableOf ((map.take mb1MmapMax).takeWhile fun desc => !desc.opensHigh) ++
      availableOf ((map.take mb1MmapMax).dropWhile fun desc => !desc.opensHigh) ++ beyondRoom map := by
    rw [beyondRoom, ← availableOf_append, List.takeWhile_append_dropWhile, ← availableOf_append,
      List.take_append_drop]
  rw [hmap, missedHigh, countedHigh]
  simp only [bytesWithin_append]
  rw [bytesWithin_available lo hole (List.dropWhile _ _)]
  omega

theorem mem_countedLow {map : List MemoryDescriptor} {desc : MemoryDescriptor} (h : desc ∈ countedLow map) :
    desc ∈ availableOf map := by
  obtain ⟨hmem, hlow⟩ := List.mem_filter.1 h
  exact mem_availableOf.2 ⟨List.mem_of_mem_take hmem, (of_decide_eq_true hlow).1⟩

theorem mem_countedHigh {map : List MemoryDescriptor} {desc : MemoryDescriptor} (h : desc ∈ countedHigh map) :
    desc ∈ availableOf map ∧ 0x100000 ≤ desc.extent.start := by
  obtain ⟨hmem, hhigh⟩ := List.mem_filter.1 h
  refine ⟨mem_availableOf.2 ⟨?_, (of_decide_eq_true hhigh).1⟩, MemoryDescriptor.start_of_isHigh hhigh⟩
  exact List.mem_of_mem_take ((List.dropWhile_sublist _).subset hmem)

/-! ## The distance to the first hole -/

section FirstHole

variable {map : List MemoryDescriptor} {lo hole : Nat}

/-- Memory that counts and starts in front of the hole counts for all of its bytes. -/
theorem bytesWithin_front (h : FirstHole map lo hole) (hfar : hole - lo < 2 ^ 64) {counted : List MemoryDescriptor}
    (hmem : ∀ desc ∈ counted, desc ∈ availableOf map) (hlo : ∀ desc ∈ counted, lo ≤ desc.extent.start) :
    kilobytesOf counted * 1024 =
      bytesWithin lo hole counted + kilobytesOf (startingBehind hole counted) * 1024 := by
  induction counted with
  | nil => rw [bytesWithin, startingBehind, List.map_nil, List.sum_nil, List.filter_nil, Nat.zero_add]
  | cons desc counted ih =>
    have hrest := ih (fun x hx => hmem x (List.mem_cons_of_mem _ hx))
      (fun x hx => hlo x (List.mem_cons_of_mem _ hx))
    have hstart := hlo desc (List.mem_cons_self ..)
    rw [startingBehind] at hrest ⊢
    rw [kilobytesOf_cons, bytesWithin_cons, kilobytesOf_filter_cons]
    simp only [decide_eq_true_eq]
    by_cases hfront : desc.extent.start < hole
    · have hin := List.mem_map_of_mem (f := MemoryDescriptor.extent) (hmem desc (List.mem_cons_self ..))
      have hstop := Extent.FirstHole.stop_le h hin hfront
      have hpages : desc.pageCount.toNat < 2 ^ 52 := by
        have : desc.extent.start + desc.pageCount.toNat * 4096 ≤ hole := hstop
        omega
      have hsize : desc.kilobytes * 1024 = desc.extent.size := by
        rw [MemoryDescriptor.kilobytes_eq, Nat.mod_eq_of_lt hpages]
        show 4 * desc.pageCount.toNat * 1024 = desc.pageCount.toNat * 4096
        ring
      rw [Extent.within_of_inside hstart hstop, if_neg (Nat.not_le.2 hfront)]
      linarith
    · rw [Extent.within_of_behind (Nat.not_lt.1 hfront), if_pos (Nat.not_lt.1 hfront)]
      linarith

/-- The distance to the hole is all the available memory in between. -/
theorem FirstHole.distance (h : FirstHole map lo hole) (hmap : NonOverlapping map) :
    lo + bytesWithin lo hole (availableOf map) = hole := by
  have := Extent.FirstHole.distance h (noOverlap_available hmap)
  rwa [List.map_map] at this

theorem FirstHole.available_iff (h : FirstHole map lo hole) (n : Nat) :
    (∀ a, lo ≤ a → a < lo + n → ∃ desc ∈ map, desc.Available ∧ desc.extent.Covers a) ↔ lo + n ≤ hole := by
  rw [← Extent.FirstHole.covered_iff h n]
  simp only [covered_available]

/-- The lower size is safe when the memory counted behind the hole is made up for. -/
theorem FirstHole.low_iff (h : FirstHole map 0 hole) (hmap : NonOverlapping map) :
    0 + min 640 (kilobytesOf (countedLow map)) * 1024 ≤ hole ↔
      (hole < 640 * 1024 →
        kilobytesOf (startingBehind hole (countedLow map)) * 1024 ≤ bytesWithin 0 hole (beyondRoom map)) := by
  by_cases hnear : hole < 640 * 1024
  swap
  · refine ⟨fun _ hlt => absurd hlt hnear, fun _ => ?_⟩
    have := Nat.mul_le_mul_right 1024 (Nat.min_le_left 640 (kilobytesOf (countedLow map)))
    omega
  have hdist := h.distance hmap
  have hfront := bytesWithin_front h (by omega) (fun desc hd => mem_countedLow hd) fun desc _ => Nat.zero_le _
  have hhigh : bytesWithin 0 hole ((map.take mb1MmapMax).filter MemoryDescriptor.isHigh) = 0 := by
    refine List.sum_eq_zero fun n hn => ?_
    obtain ⟨desc, hd, rfl⟩ := List.mem_map.1 hn
    have hstart := MemoryDescriptor.start_of_isHigh (List.mem_filter.1 hd).2
    exact Extent.within_of_behind (by omega)
  rw [bytesWithin_low, hhigh] at hdist
  have hmin : 0 + min 640 (kilobytesOf (countedLow map)) * 1024 ≤ hole ↔
      kilobytesOf (countedLow map) * 1024 ≤ hole := by
    rcases Nat.le_total 640 (kilobytesOf (countedLow map)) with hle | hle
    · rw [Nat.min_eq_left hle]
      have hcap := Nat.mul_le_mul_right 1024 hle
      exact iff_of_false (by omega) fun h => hnear.not_ge (le_trans hcap h)
    · rw [Nat.min_eq_right hle, Nat.zero_add]
  rw [hmin, hfront]
  constructor
  · intro hle _
    linarith
  · intro hbehind
    have := hbehind hnear
    linarith

/-- The upper size is safe when the memory counted behind the hole is made up for. -/
theorem FirstHole.high_iff (h : FirstHole map 0x100000 hole) (hmap : NonOverlapping map) :
    0x100000 + kilobytesOf (countedHigh map) % 2 ^ 32 * 1024 ≤ hole ↔
      kilobytesOf (startingBehind hole (countedHigh map)) * 1024 ≤
        bytesWithin 0x100000 hole (missedHigh map) + kilobytesOf (countedHigh map) / 2 ^ 32 * 2 ^ 42 := by
  have hsplit : kilobytesOf (countedHigh map) * 1024 =
      kilobytesOf (countedHigh map) / 2 ^ 32 * 2 ^ 42 + kilobytesOf (countedHigh map) % 2 ^ 32 * 1024 := by
    have := Nat.div_add_mod (kilobytesOf (countedHigh map)) (2 ^ 32)
    calc kilobytesOf (countedHigh map) * 1024
        = (2 ^ 32 * (kilobytesOf (countedHigh map) / 2 ^ 32) + kilobytesOf (countedHigh map) % 2 ^ 32) * 1024 := by
          rw [this]
      _ = _ := by ring
  by_cases hfar : hole - 0x100000 < 2 ^ 64
  · have hdist := h.distance hmap
    have hfront := bytesWithin_front h hfar (fun desc hd => (mem_countedHigh hd).1)
      fun desc hd => (mem_countedHigh hd).2
    rw [bytesWithin_high] at hdist
    constructor <;> intro <;> linarith
  · -- no descriptor starts behind a hole beyond the address space
    have hnone : startingBehind hole (countedHigh map) = [] := by
      refine List.filter_eq_nil_iff.2 fun desc _ => ?_
      have : desc.extent.start < 2 ^ 64 := desc.physStart.toNat_lt
      rw [decide_eq_true_eq]
      omega
    rw [hnone]
    constructor
    · intro _
      exact Nat.zero_le _
    · intro _
      have hroom : 0x100000 + 2 ^ 32 * 1024 ≤ hole :=
        (Nat.le_sub_iff_add_le' h.le).1 (le_trans (by decide) (Nat.not_lt.1 hfar))
      have hmod := Nat.mod_lt (kilobytesOf (countedHigh map)) (show 2 ^ 32 > 0 by decide)
      exact le_trans (Nat.add_le_add_left (Nat.mul_le_mul_right 1024 hmod.le) _) hroom

end FirstHole

/-- For every memory map of non-overlapping descriptors, the sizes the builder stores are safe
exactly when, on both sides of one megabyte, the memory that counts behind the first hole is made
up for by what does not count in front of it. -/
theorem sizesSafe_iff (out : Nat) (names : Mem UInt8) (modules : List ModuleInfo) (m : Mem UInt8)
    (map : List MemoryDescriptor) (hmap : NonOverlapping map) : ∃ lower upper : UInt32,
    mb1StoredSizes out names modules m map = some (lower, upper) ∧
      (SizesSafe map lower upper ↔ LowerFits map ∧ UpperFits map) := by
  obtain ⟨lower, upper, hstored, hlower, hupper⟩ := mb1StoredSizes_spec out names modules m map
  refine ⟨lower, upper, hstored, ?_⟩
  obtain ⟨low, hlow⟩ := Extent.exists_firstHole ((availableOf map).map MemoryDescriptor.extent) 0
  obtain ⟨high, hhigh⟩ := Extent.exists_firstHole ((availableOf map).map MemoryDescriptor.extent) 0x100000
  have hsafe : SizesSafe map lower upper ↔ 0 + min 640 (kilobytesOf (countedLow map)) * 1024 ≤ low ∧
      0x100000 + kilobytesOf (countedHigh map) % 2 ^ 32 * 1024 ≤ high := by
    rw [← FirstHole.available_iff hlow, ← FirstHole.available_iff hhigh, ← hlower, ← hupper]
    constructor
    · rintro ⟨hl, hh⟩
      exact ⟨fun a _ ha => hl a (by omega), hh⟩
    · rintro ⟨hl, hh⟩
      exact ⟨fun a ha => hl a (Nat.zero_le _) (by omega), hh⟩
  rw [hsafe, FirstHole.low_iff hlow hmap, FirstHole.high_iff hhigh hmap]
  constructor
  · rintro ⟨hl, hh⟩
    constructor
    · intro hole hhole
      rwa [hhole.unique hlow]
    · intro hole hhole
      rwa [hhole.unique hhigh]
  · rintro ⟨hl, hh⟩
    exact ⟨hl low hlow, hh high hhigh⟩

/-- Memory up to 640 kilobytes and one megabyte at one megabyte: all that is promised is there. -/
theorem sizesSafe_low_high :
    mb1StoredSizes 0x200000 (fun _ => 0) [] (fun _ => 0)
      [⟨.conventional, 0, 160⟩, ⟨.conventional, 0x100000, 256⟩] = some (640, 1024) ∧
    SizesSafe [⟨.conventional, 0, 160⟩, ⟨.conventional, 0x100000, 256⟩] 640 1024 := by
  obtain ⟨lower, upper, hstored, hiff⟩ := sizesSafe_iff 0x200000 (fun _ => 0) [] (fun _ => 0)
    [⟨.conventional, 0, 160⟩, ⟨.conventional, 0x100000, 256⟩] (nonOverlapping_pair (by decide))
  have hsizes : mb1StoredSizes 0x200000 (fun _ => 0) [] (fun _ => 0)
      [⟨.conventional, 0, 160⟩, ⟨.conventional, 0x100000, 256⟩] = some (640, 1024) := by
    rw [mb1StoredSizes_eq]
    decide
  obtain ⟨rfl, rfl⟩ := Prod.mk.inj (Option.some.inj (hstored.symm.trans hsizes))
  refine ⟨hsizes, hiff.2 ⟨fun hole h hlt => ?_, fun hole h => ?_⟩⟩
  · exact absurd (covered_available.2 ⟨⟨.conventional, 0, 160⟩, by decide, by decide, Nat.zero_le _, hlt⟩)
      h.uncovered
  · have hcounted : countedHigh [⟨.conventional, 0, 160⟩, ⟨.conventional, 0x100000, 256⟩] =
        [⟨.conventional, 0x100000, 256⟩] := by decide
    have hfront : ¬hole ≤ 0x100000 := fun hle =>
      h.uncovered (covered_available.2 ⟨⟨.conventional, 0x100000, 256⟩, by decide, by decide, h.le,
        lt_of_le_of_lt hle (by decide)⟩)
    have hnone : startingBehind hole [⟨.conventional, 0x100000, 256⟩] = [] :=
      List.filter_cons_of_neg (mt of_decide_eq_true hfront)
    rw [hcounted, hnone, kilobytesOf, List.map_nil, List.sum_nil, Nat.zero_mul]
    exact Nat.zero_le _

/-- One megabyte at one megabyte and one at sixteen: the structure promises two megabytes from one
megabyte on, and the second of them is a hole. -/
theorem not_sizesSafe_hole :
    NonOverlapping [⟨.conventional, 0x100000, 256⟩, ⟨.conventional, 0x1000000, 256⟩] ∧
    mb1StoredSizes 0x200000 (fun _ => 0) [] (fun _ => 0)
      [⟨.conventional, 0x100000, 256⟩, ⟨.conventional, 0x1000000, 256⟩] = some (0, 2048) ∧
    ¬SizesSafe [⟨.conventional, 0x100000, 256⟩, ⟨.conventional, 0x1000000, 256⟩] 0 2048 := by
  refine ⟨nonOverlapping_pair (by decide), ?_, fun hsafe => ?_⟩
  · rw [mb1StoredSizes_eq]
    decide
  · obtain ⟨desc, hmem, -, hcov⟩ := hsafe.high 0x200000 (by decide) (by decide)
    rcases List.mem_cons.1 hmem with rfl | hmem
    · exact absurd hcov (by decide)
    · rw [List.mem_singleton.1 hmem] at hcov
      exact absurd hcov (by decide)

end Bang
