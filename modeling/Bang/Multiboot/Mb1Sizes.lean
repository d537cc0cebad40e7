/-
The memory sizes in a Multiboot1 structure: which descriptors the loop over the memory map counts
for them, and what the builder stores for every map. The sums cannot wrap before they are narrowed
to the fields, because the loop stops at the room the structure has for the map.
-/
import Bang.Memory.Extents
import Bang.Multiboot.Mb1Decode

namespace Bang

/-! ## What the builder stores -/

/-- The sizes the loop over the memory map leaves. -/
def mb1Sizes (map : List MemoryDescriptor) : Mb1Sizes := (map.take mb1MmapMax).foldl Mb1Sizes.count ⟨0, 0⟩

/-- The sizes a kernel finds in the structure: `mem_lower` and `mem_upper`. -/
def mb1StoredSizes (out : Nat) (names : Mem UInt8) (modules : List ModuleInfo) (m : Mem UInt8)
    (map : List MemoryDescriptor) : Option (UInt32 × UInt32) :=
  (buildMb1Info out names map modules m).map fun r => (r.1.read32 (out + 4), r.1.read32 (out + 8))

theorem writeBytes_some (out : Nat) (m : Mem UInt8) (o : Nat) (bs : List UInt8) (h : o + bs.length ≤ infoSize) :
    writeBytes out m o bs = some (m.store (out + o) bs) :=
  Mem.storeIn_eq m (by omega) (by omega)

theorem mb1CopyName_some (out : Nat) (names : Mem UInt8) (name src : Nat) :
    ∀ (fuel len : Nat) (m : Mem UInt8), name + len + fuel ≤ infoSize →
      ∃ m', mb1CopyName out names name src fuel len m = some m' := by
  intro fuel
  induction fuel with
  | zero => intro len m _; exact ⟨m, rfl⟩
  | succ fuel ih =>
    intro len m hroom
    rw [mb1CopyName]
    split
    · exact ⟨m, rfl⟩
    · rw [writeBytes_some out m _ _ (by rw [List.length_singleton]; omega)]
      exact ih (len + 1) _ (by omega)

theorem mb1Modules_some (out : Nat) (names : Mem UInt8) (modules : List ModuleInfo) :
    ∀ (i : Nat) (m : Mem UInt8), i + modules.length ≤ maxModules →
      ∃ m', mb1Modules out names modules i m = some m' := by
  induction modules with
  | nil => intro i m _; exact ⟨m, rfl⟩
  | cons mi mods ih =>
    intro i m hi
    rw [List.length_cons] at hi
    have hslot : mb1NamesAt + i * mb1NameMax + 0 + (mb1NameMax - 1) ≤ infoSize := by
      simp only [mb1NamesAt, mb1ModulesAt, maxModules, multibootModuleSize, mb1NameMax, infoSize_eq] at *
      omega
    have hentry : mb1ModulesAt + i * multibootModuleSize + multibootModuleSize ≤ infoSize := by
      simp only [mb1ModulesAt, maxModules, multibootModuleSize, infoSize_eq] at *
      omega
    obtain ⟨m₁, hcopy⟩ := mb1CopyName_some out names (mb1NamesAt + i * mb1NameMax) mi.namePtr.toNat
      (mb1NameMax - 1) 0 m hslot
    have hwrite := writeBytes_some out m₁ (mb1ModulesAt + i * multibootModuleSize) (mb1Module out i mi).bytes
      (by rw [MultibootModule.length_bytes]; exact hentry)
    rw [mb1Modules]
    simp only [Option.bind_eq_bind, hcopy, Option.bind_some, hwrite]
    exact ih (i + 1) _ (by omega)

/-- Whatever the names hold, the builder finishes, and stores the sizes the loop left: at most
640 in `mem_lower`, and the low 32 bits in `mem_upper`. -/
theorem mb1StoredSizes_eq (out : Nat) (names : Mem UInt8) (modules : List ModuleInfo) (m : Mem UInt8)
    (map : List MemoryDescriptor) :
    mb1StoredSizes out names modules m map =
      some ((if (mb1Sizes map).memLower > 640 then 640 else (mb1Sizes map).memLower).toUInt32,
        (mb1Sizes map).memUpper.toUInt32) := by
  have hclear : writeBytes out m 0 (List.replicate infoSize 0) = some (m.store out (List.replicate infoSize 0)) :=
    writeBytes_some out m _ _ (by rw [List.length_replicate, Nat.zero_add])
  obtain ⟨m₁, hmap, -, -⟩ := mb1MmapEntries_spec out map _ _ 0 ⟨0, 0⟩ (mb1Parts_clear out m) rfl (Nat.zero_le _)
  obtain ⟨m₂, hmods⟩ := mb1Modules_some out names (modules.take (min modules.length maxModules)) 0 m₁
    (by rw [List.length_take]; omega)
  let info := mb1Info out (min modules.length maxModules) (0 + min map.length (mb1MmapMax - 0)) (mb1Sizes map)
  have hinfo := writeBytes_some out m₂ 0 info.bytes
    (by rw [MultibootInfo.length_bytes, infoSize_eq]; omega)
  have hbuild : buildMb1Info out names map modules m =
      some (m₂.store (out + 0) info.bytes, UInt32.ofNat out) := by
    unfold buildMb1Info
    simp only [Option.bind_eq_bind, hclear, Option.bind_some, hmap, hmods]
    exact congrArg (·.bind fun m' => some (m', UInt32.ofNat out)) hinfo
  obtain ⟨-, hlower, hupper, -⟩ := MultibootInfo.read (Mem.holds_store m₂ (out + 0) info.bytes)
  rw [mb1StoredSizes, hbuild]
  exact congrArg some (Prod.ext hlower hupper)

/-! ## What a descriptor counts for -/

namespace MemoryDescriptor

/-- Its type maps to available memory. -/
def Available (desc : MemoryDescriptor) : Prop := efiMemtypeToMb desc.ty = 1

instance (desc : MemoryDescriptor) : Decidable desc.Available := inferInstanceAs (Decidable (_ = _))

/-- The addresses a descriptor describes. -/
def extent (desc : MemoryDescriptor) : Extent := ⟨desc.physStart.toNat, desc.pageCount.toNat * 4096⟩

/-- Its length in kilobytes, as the loop computes it. -/
def kilobytes (desc : MemoryDescriptor) : Nat := (desc.pageCount * 4096 / 1024).toNat

/-- Available memory that starts below one megabyte. -/
def isLow (desc : MemoryDescriptor) : Bool := desc.Available ∧ desc.physStart < 0x100000

/-- Available memory that starts at one megabyte or above. -/
def isHigh (desc : MemoryDescriptor) : Bool := desc.Available ∧ ¬desc.physStart < 0x100000

/-- Available memory at one megabyte exactly, of some length: from it on the loop counts what is
above. -/
def opensHigh (desc : MemoryDescriptor) : Bool :=
  desc.Available ∧ desc.physStart = 0x100000 ∧ desc.kilobytes ≠ 0

theorem isHigh_of_opensHigh {desc : MemoryDescriptor} (h : desc.opensHigh) : desc.isHigh := by
  obtain ⟨hav, hbase, -⟩ := of_decide_eq_true h
  exact decide_eq_true ⟨hav, by rw [hbase]; decide⟩

theorem start_of_isHigh {desc : MemoryDescriptor} (h : desc.isHigh) : 0x100000 ≤ desc.extent.start :=
  UInt64.le_iff_toNat_le.1 (UInt64.not_lt.1 (of_decide_eq_true h).2)

theorem kilobytes_eq (desc : MemoryDescriptor) : desc.kilobytes = 4 * (desc.pageCount.toNat % 2 ^ 52) := by
  have h4096 : (4096 : UInt64).toNat = 4096 := rfl
  have h1024 : (1024 : UInt64).toNat = 1024 := rfl
  rw [kilobytes, UInt64.toNat_div, UInt64.toNat_mul, h4096, h1024]
  omega

theorem kilobytes_lt (desc : MemoryDescriptor) : desc.kilobytes < 2 ^ 54 := by
  rw [kilobytes_eq]
  omega

end MemoryDescriptor

/-- No two descriptors of the map describe the same address. -/
def NonOverlapping (map : List MemoryDescriptor) : Prop := Extent.NoOverlap (map.map MemoryDescriptor.extent)

theorem nonOverlapping_pair {d e : MemoryDescriptor} (h : d.extent.stop ≤ e.extent.start) :
    NonOverlapping [d, e] := by
  refine List.pairwise_cons.2 ⟨fun x hx a => ?_, List.pairwise_singleton _ _⟩
  rw [List.mem_singleton.1 hx]
  rintro ⟨⟨-, hd⟩, he, -⟩
  omega

/-! ## The sums of the loop -/

/-- The descriptors that count for `mem_lower`, of those the structure has room for. -/
def countedLow (map : List MemoryDescriptor) : List MemoryDescriptor :=
  (map.take mb1MmapMax).filter MemoryDescriptor.isLow

/-- The descriptors that count for `mem_upper`: the loop passes over them until one opens the
memory above one megabyte. -/
def countedHigh (map : List MemoryDescriptor) : List MemoryDescriptor :=
  ((map.take mb1MmapMax).dropWhile fun desc => !desc.opensHigh).filter MemoryDescriptor.isHigh

/-- The kilobytes of a list of descriptors. -/
def kilobytesOf (map : List MemoryDescriptor) : Nat := (map.map MemoryDescriptor.kilobytes).sum

theorem kilobytesOf_cons (desc : MemoryDescriptor) (map : List MemoryDescriptor) :
    kilobytesOf (desc :: map) = desc.kilobytes + kilobytesOf map := by
  rw [kilobytesOf, List.map_cons, List.sum_cons, ← kilobytesOf]

/-- What the head of a list adds to a sum over some of it. -/
theorem sum_filter_cons {α : Type} (f : α → Nat) (p : α → Bool) (x : α) (xs : List α) :
    (((x :: xs).filter p).map f).sum = (if p x then f x else 0) + ((xs.filter p).map f).sum := by
  by_cases h : p x
  · rw [List.filter_cons_of_pos h, List.map_cons, List.sum_cons, if_pos h]
  · rw [List.filter_cons_of_neg h, if_neg h, Nat.zero_add]

theorem kilobytesOf_filter_cons (p : MemoryDescriptor → Bool) (desc : MemoryDescriptor)
    (map : List MemoryDescriptor) : kilobytesOf ((desc :: map).filter p) =
      (if p desc then desc.kilobytes else 0) + kilobytesOf (map.filter p) :=
  sum_filter_cons _ p desc map

/-- Adding a descriptor's kilobytes to a sum that is far from wrapping. -/
theorem toNat_add_kilobytes {x : UInt64} (desc : MemoryDescriptor) (h : x.toNat + 2 ^ 54 ≤ 2 ^ 64) :
    (x + desc.pageCount * 4096 / 1024).toNat = x.toNat + desc.kilobytes := by
  have hkb := desc.kilobytes_lt
  rw [UInt64.toNat_add, ← MemoryDescriptor.kilobytes, Nat.mod_eq_of_lt (by omega)]

/-- What one step of the loop adds to the lower size. -/
theorem Mb1Sizes.memLower_count (s : Mb1Sizes) (desc : MemoryDescriptor)
    (h : s.memLower.toNat + 2 ^ 54 ≤ 2 ^ 64) :
    (s.count desc).memLower.toNat = s.memLower.toNat + (if desc.isLow then desc.kilobytes else 0) := by
  simp only [MemoryDescriptor.isLow, decide_eq_true_eq]
  by_cases hav : desc.Available
  · by_cases hlow : desc.physStart < 0x100000
    · rw [if_pos ⟨hav, hlow⟩, ← toNat_add_kilobytes desc h]
      simp only [Mb1Sizes.count, if_pos (show efiMemtypeToMb desc.ty = 1 from hav), if_pos hlow]
    · rw [if_neg fun hc => hlow hc.2]
      simp only [Mb1Sizes.count, if_pos (show efiMemtypeToMb desc.ty = 1 from hav), if_neg hlow]
      split <;> rfl
  · rw [if_neg fun hc => hav hc.1]
    simp only [Mb1Sizes.count, if_neg (show ¬efiMemtypeToMb desc.ty = 1 from hav)]
    rfl

/-- What one step adds to the upper size: above one megabyte the total so far decides. -/
theorem Mb1Sizes.memUpper_count (s : Mb1Sizes) (desc : MemoryDescriptor)
    (h : s.memUpper.toNat + 2 ^ 54 ≤ 2 ^ 64) :
    (s.count desc).memUpper.toNat = s.memUpper.toNat +
      (if desc.isHigh ∧ (desc.physStart = 0x100000 ∨ 0 < s.memUpper.toNat) then desc.kilobytes else 0) := by
  simp only [MemoryDescriptor.isHigh, decide_eq_true_eq]
  by_cases hav : desc.Available
  swap
  · rw [if_neg fun hc => hav hc.1.1]
    simp only [Mb1Sizes.count, if_neg (show ¬efiMemtypeToMb desc.ty = 1 from hav)]
    rfl
  have hav' : efiMemtypeToMb desc.ty = 1 := hav
  by_cases hlow : desc.physStart < 0x100000
  · rw [if_neg fun hc => hc.1.2 hlow]
    simp only [Mb1Sizes.count, if_pos hav', if_pos hlow]
    rfl
  have hcond : desc.physStart = 0x100000 ∨ (desc.physStart > 0x100000 ∧ s.memUpper > 0) ↔
      desc.physStart = 0x100000 ∨ 0 < s.memUpper.toNat := by
    have hpos : s.memUpper > 0 ↔ 0 < s.memUpper.toNat := UInt64.lt_iff_toNat_lt
    rw [← hpos]
    by_cases heq : desc.physStart = 0x100000
    · simp only [heq, true_or]
    · have hgt : desc.physStart > 0x100000 :=
        UInt64.lt_of_le_of_ne (UInt64.not_lt.1 hlow) (Ne.symm heq)
      simp only [heq, hgt, true_and, false_or]
  simp only [Mb1Sizes.count, if_pos hav', if_neg hlow, hcond]
  by_cases hadds : desc.physStart = 0x100000 ∨ 0 < s.memUpper.toNat
  · rw [if_pos hadds, if_pos ⟨⟨hav, hlow⟩, hadds⟩]
    exact toNat_add_kilobytes desc h
  · rw [if_neg hadds, if_neg fun hc => hadds hc.2]
    rfl

theorem foldl_memLower (map : List MemoryDescriptor) :
    ∀ s : Mb1Sizes, s.memLower.toNat + map.length * 2 ^ 54 ≤ 2 ^ 64 →
      (map.foldl Mb1Sizes.count s).memLower.toNat =
        s.memLower.toNat + kilobytesOf (map.filter MemoryDescriptor.isLow) := by
  induction map with
  | nil => intro s _; rfl
  | cons desc map ih =>
    intro s h
    rw [List.length_cons, Nat.add_mul, Nat.one_mul, ← Nat.add_assoc] at h
    have hkb := desc.kilobytes_lt
    have hstep := s.memLower_count desc (by omega)
    rw [List.foldl_cons, ih _ (by rw [hstep]; split <;> omega), hstep, kilobytesOf_filter_cons, Nat.add_assoc]

/-- Once the memory above one megabyte is open, everything above counts. -/
theorem foldl_memUpper_opened (map : List MemoryDescriptor) :
    ∀ s : Mb1Sizes, s.memUpper.toNat + map.length * 2 ^ 54 ≤ 2 ^ 64 → 0 < s.memUpper.toNat →
      (map.foldl Mb1Sizes.count s).memUpper.toNat =
        s.memUpper.toNat + kilobytesOf (map.filter MemoryDescriptor.isHigh) := by
  induction map with
  | nil => intro s _ _; rfl
  | cons desc map ih =>
    intro s h hpos
    rw [List.length_cons, Nat.add_mul, Nat.one_mul, ← Nat.add_assoc] at h
    have hkb := desc.kilobytes_lt
    have hstep := s.memUpper_count desc (by omega)
    simp only [hpos, or_true, and_true] at hstep
    rw [List.foldl_cons, ih _ (by rw [hstep]; split <;> omega) (by omega), hstep, kilobytesOf_filter_cons,
      Nat.add_assoc]

/-- Until then nothing does, and the descriptor that opens it is the first that counts. -/
theorem foldl_memUpper (map : List MemoryDescriptor) :
    ∀ s : Mb1Sizes, map.length * 2 ^ 54 ≤ 2 ^ 64 → s.memUpper.toNat = 0 →
      (map.foldl Mb1Sizes.count s).memUpper.toNat =
        kilobytesOf ((map.dropWhile fun desc => !desc.opensHigh).filter MemoryDescriptor.isHigh) := by
  induction map with
  | nil => intro s _ h; exact h
  | cons desc map ih =>
    intro s h hzero
    rw [List.length_cons, Nat.add_mul, Nat.one_mul] at h
    have hkb := desc.kilobytes_lt
    have hstep := s.memUpper_count desc (by omega)
    simp only [hzero, lt_irrefl, or_false, Nat.zero_add] at hstep
    rw [List.foldl_cons]
    by_cases hopen : desc.opensHigh
    · obtain ⟨-, hbase, hlen⟩ := of_decide_eq_true hopen
      have hhigh := MemoryDescriptor.isHigh_of_opensHigh hopen
      rw [if_pos ⟨hhigh, hbase⟩] at hstep
      rw [List.dropWhile_cons_of_neg (by rw [hopen]; decide), kilobytesOf_filter_cons, if_pos hhigh,
        foldl_memUpper_opened map _ (by rw [hstep]; omega) (by omega), hstep]
    · have hnone : (s.count desc).memUpper.toNat = 0 := by
        rw [hstep]
        split
        next hat =>
          by_contra hlen
          exact hopen (decide_eq_true ⟨(of_decide_eq_true hat.1).1, hat.2, hlen⟩)
        next => rfl
      rw [List.dropWhile_cons_of_pos (by simp only [hopen, Bool.not_false])]
      exact ih _ (le_trans (Nat.le_add_right _ _) h) hnone

/-! ## The sizes as sums -/

theorem mb1Sizes_toNat (map : List MemoryDescriptor) :
    (mb1Sizes map).memLower.toNat = kilobytesOf (countedLow map) ∧
      (mb1Sizes map).memUpper.toNat = kilobytesOf (countedHigh map) := by
  have hlen : (map.take mb1MmapMax).length * 2 ^ 54 ≤ 2 ^ 64 :=
    le_trans (Nat.mul_le_mul_right _ (List.length_take_le ..)) (by decide)
  constructor
  · have := foldl_memLower (map.take mb1MmapMax) ⟨0, 0⟩ ((Nat.zero_add _).trans_le hlen)
    rw [mb1Sizes, this]
    exact Nat.zero_add _
  · exact foldl_memUpper (map.take mb1MmapMax) ⟨0, 0⟩ hlen rfl

/-- The builder finishes, and stores the kilobytes of the descriptors that count: at most 640 below
one megabyte, and the low 32 bits of the sum above it. -/
theorem mb1StoredSizes_spec (out : Nat) (names : Mem UInt8) (modules : List ModuleInfo) (m : Mem UInt8)
    (map : List MemoryDescriptor) : ∃ lower upper : UInt32,
    mb1StoredSizes out names modules m map = some (lower, upper) ∧
      lower.toNat = min 640 (kilobytesOf (countedLow map)) ∧
      upper.toNat = kilobytesOf (countedHigh map) % 2 ^ 32 := by
  obtain ⟨hlower, hupper⟩ := mb1Sizes_toNat map
  refine ⟨_, _, mb1StoredSizes_eq out names modules m map, ?_, ?_⟩
  · have hgt : (mb1Sizes map).memLower > 640 ↔ 640 < (mb1Sizes map).memLower.toNat := UInt64.lt_iff_toNat_lt
    by_cases h : (mb1Sizes map).memLower > 640
    · have := hgt.1 h
      rw [if_pos h, Nat.min_eq_left (by omega)]
      rfl
    · have := mt hgt.2 h
      rw [if_neg h, UInt64.toNat_toUInt32, hlower, Nat.min_eq_right (by omega)]
      omega
  · rw [UInt64.toNat_toUInt32, hupper]

end Bang
