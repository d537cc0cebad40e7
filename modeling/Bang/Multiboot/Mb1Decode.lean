/-
What a kernel reads from a Multiboot1 information structure, following the addresses in it, and
that it finds what the builder was given: every module and every descriptor, up to the table
sizes of the format's layout.
-/
import Bang.Multiboot.Mb1Build

namespace Bang

open LittleEndian

/-! ## The reader -/

/-- A module as a kernel finds it: where it starts and ends, and its name. -/
structure BootModule where
  start : Nat
  stop : Nat
  name : List UInt8
  deriving DecidableEq, Repr

/-- What a kernel finds: the modules, and the memory map when there is one. -/
structure Mb1View where
  modules : List BootModule
  mmap : List MultibootMmapEntry
  deriving DecidableEq, Repr

/-- The `count` module entries at `a`, each with the string its pointer leads to. -/
def readMb1Modules (m : Mem UInt8) : (count : Nat) → (a : Nat) → List BootModule
  | 0, _ => []
  | count + 1, a =>
    ⟨(m.read32 a).toNat, (m.read32 (a + 4)).toNat, m.cstr (m.read32 (a + 8)).toNat⟩ ::
      readMb1Modules m count (a + 16)

/-- The memory map entries from `a` up to `stop`, each `size + 4` bytes behind the one before;
`none` when one is too small or reaches past `stop`. -/
def readMb1Mmap (m : Mem UInt8) (a stop : Nat) : Option (List MultibootMmapEntry) :=
  if a < stop then
    let size := (m.read32 a).toNat
    if 20 ≤ size ∧ a + (size + 4) ≤ stop then
      (readMb1Mmap m (a + (size + 4)) stop).map
        (⟨m.read32 a, m.read64 (a + 4), m.read64 (a + 12), m.read32 (a + 20)⟩ :: ·)
    else none
  else some []
termination_by stop - a
decreasing_by omega

/-- The modules of the structure at `a`: `mods_count` entries at `mods_addr`, if the flags promise
modules. -/
def readMb1ModuleList (m : Mem UInt8) (a : Nat) : List BootModule :=
  if m.read32 a &&& mbInfoMods ≠ 0 then
    readMb1Modules m (m.read32 (a + 20)).toNat (m.read32 (a + 24)).toNat
  else []

/-- The memory map of the structure at `a`: `mmap_length` bytes at `mmap_addr`, if the flags
promise a map. -/
def readMb1MmapList (m : Mem UInt8) (a : Nat) : Option (List MultibootMmapEntry) :=
  if m.read32 a &&& mbInfoMemMap ≠ 0 then
    let mmapAddr := (m.read32 (a + 48)).toNat
    readMb1Mmap m mmapAddr (mmapAddr + (m.read32 (a + 44)).toNat)
  else some []

/-- The structure at the address a kernel is handed. -/
def readMb1Info (m : Mem UInt8) (addr : UInt32) : Option Mb1View :=
  (readMb1MmapList m addr.toNat).map fun mmap => ⟨readMb1ModuleList m addr.toNat, mmap⟩

/-! ## Reading the parts -/

/-- A module as it was loaded: its bounds, and its name cut to 63 bytes. -/
def bootModule (names : Mem UInt8) (mi : ModuleInfo) : BootModule :=
  ⟨mi.physStart.toNat, mi.physStart.toNat + mi.size.toNat, (names.cstr mi.namePtr.toNat).take 63⟩

/-- Reading the packed structure gives its fields. -/
theorem MultibootInfo.read {m : Mem UInt8} {a : Nat} {e : MultibootInfo} (h : m.Holds a e.bytes) :
    m.read32 a = e.flags ∧ m.read32 (a + 4) = e.memLower ∧ m.read32 (a + 8) = e.memUpper ∧
      m.read32 (a + 20) = e.modsCount ∧ m.read32 (a + 24) = e.modsAddr ∧
      m.read32 (a + 44) = e.mmapLength ∧ m.read32 (a + 48) = e.mmapAddr := by
  unfold MultibootInfo.bytes at h
  obtain ⟨hflags, h⟩ := h.uncons32
  obtain ⟨hlower, h⟩ := h.uncons32
  obtain ⟨hupper, h⟩ := h.uncons32
  obtain ⟨-, h⟩ := h.uncons32
  obtain ⟨-, h⟩ := h.uncons32
  obtain ⟨hcount, h⟩ := h.uncons32
  obtain ⟨haddr, h⟩ := h.uncons32
  obtain ⟨-, h⟩ := h.uncons32
  obtain ⟨-, h⟩ := h.uncons32
  obtain ⟨-, h⟩ := h.uncons32
  obtain ⟨-, h⟩ := h.uncons32
  obtain ⟨hlen, h⟩ := h.uncons32
  exact ⟨hflags, hlower, hupper, hcount, haddr, hlen, h.read32_eq⟩

/-- The string in a module's slot is its name, cut to what the slot has room for. -/
theorem mb1Slot_cstr {m names : Mem UInt8} {a : Nat} {mi : ModuleInfo}
    (hn : names.NulTerminated mi.namePtr.toNat) (h : m.Holds a (mb1Slot names mi)) (ha : a < 2 ^ 32) :
    m.cstr a = (names.cstr mi.namePtr.toNat).take 63 := by
  have hlen : ((names.cstr mi.namePtr.toNat).take 63).length ≤ 63 := List.length_take_le ..
  have hsplit : mb1Slot names mi = ((names.cstr mi.namePtr.toNat).take 63 ++ [0]) ++
      List.replicate (63 - ((names.cstr mi.namePtr.toNat).take 63).length) 0 := by
    rw [List.append_assoc, List.singleton_append, ← List.replicate_succ]
    simp only [mb1Slot, mb1NameMax, Nat.reduceSub]
    congr 2; omega
  rw [hsplit] at h
  exact (h.left.cstr_eq (fun h0 => hn.cstr.2.1 (List.mem_of_mem_take h0)) (by omega)).2

/-- Reading the module table gives the modules. -/
theorem readMb1Modules_eq {out : Nat} {names m : Mem UInt8} (hout : out + infoSize ≤ 2 ^ 32)
    (modules : List ModuleInfo) (hn : ∀ mi ∈ modules, names.NulTerminated mi.namePtr.toNat)
    (hm : ∀ mi ∈ modules, mi.physStart.toNat + mi.size.toNat < 2 ^ 32) :
    ∀ i a, i + modules.length ≤ maxModules → m.Holds a (mb1Table out modules i) →
      m.Holds (out + (mb1NamesAt + i * mb1NameMax)) (modules.map (mb1Slot names)).flatten →
      readMb1Modules m modules.length a = modules.map (bootModule names) := by
  induction modules with
  | nil => intro i a _ _ _; rfl
  | cons mi mods ih =>
    intro i a hi htable hnames
    rw [List.length_cons] at hi
    have hslot : out + (mb1NamesAt + i * mb1NameMax) < 2 ^ 32 := by
      have : mb1NamesAt + i * mb1NameMax < infoSize := by
        simp only [mb1NamesAt, mb1ModulesAt, maxModules, multibootModuleSize, mb1NameMax] at *
        rw [infoSize_eq]; omega
      omega
    -- the entry
    have hentry := htable.left
    unfold MultibootModule.bytes at hentry
    obtain ⟨hstart, hentry⟩ := hentry.uncons32
    obtain ⟨hstop, hentry⟩ := hentry.uncons32
    obtain ⟨hstring, -⟩ := hentry.uncons32
    have hname := mb1Slot_cstr (hn mi (List.mem_cons_self ..)) hnames.left hslot
    have hbound := hm mi (List.mem_cons_self ..)
    have hstop' : mi.physEnd.toUInt32.toNat = mi.physStart.toNat + mi.size.toNat := by
      unfold ModuleInfo.physEnd
      simp only [UInt64.toNat_toUInt32, UInt64.toNat_add]
      omega
    -- the entries behind it
    have hrest := ih (fun x hx => hn x (List.mem_cons_of_mem _ hx))
      (fun x hx => hm x (List.mem_cons_of_mem _ hx)) (i + 1) (a + 16) (by omega)
      (by simpa [multibootModuleSize] using htable.right)
      (by
        have := hnames.right
        rw [mb1Slot_length] at this
        rw [show out + (mb1NamesAt + (i + 1) * mb1NameMax) =
          out + (mb1NamesAt + i * mb1NameMax) + mb1NameMax by ring]
        exact this)
    rw [List.length_cons, readMb1Modules, hrest, List.map_cons, hstart, hstop, hstring]
    congr 1
    simp only [mb1Module, bootModule, BootModule.mk.injEq]
    refine ⟨?_, hstop', ?_⟩
    · rw [UInt64.toNat_toUInt32]; omega
    · rw [UInt32.toNat_ofNat_of_lt' hslot]; exact hname

/-- Reading the memory map gives its entries. -/
theorem readMb1Mmap_eq {m : Mem UInt8} (descs : List MemoryDescriptor) :
    ∀ a, m.Holds a ((descs.map mb1Entry).map MultibootMmapEntry.bytes).flatten →
      readMb1Mmap m a (a + descs.length * multibootMmapEntrySize) = some (descs.map mb1Entry) := by
  induction descs with
  | nil => intro a _; rw [readMb1Mmap, if_neg (by simp)]; rfl
  | cons desc descs ih =>
    intro a h
    have hentry := h.left
    unfold MultibootMmapEntry.bytes at hentry
    obtain ⟨hsize, hentry⟩ := hentry.uncons32
    obtain ⟨hbase, hentry⟩ := hentry.uncons64
    obtain ⟨hlength, hentry⟩ := hentry.uncons64
    have hty := hentry.read32_eq
    have hrest := ih (a + 24) (by simpa [multibootMmapEntrySize] using h.right)
    have hstride : (m.read32 a).toNat = 20 := by rw [hsize]; rfl
    have hstop : a + (desc :: descs).length * multibootMmapEntrySize =
        a + 24 + descs.length * multibootMmapEntrySize := by
      simp only [List.length_cons, multibootMmapEntrySize]; ring
    rw [hstop, readMb1Mmap, if_pos (by omega)]
    simp only [hstride]
    rw [if_pos ⟨le_refl _, by omega⟩, hrest, hsize, hbase, hlength, hty]
    rfl

/-- The flags always promise a memory map, and modules exactly when there are some. -/
theorem mb1Info_flags (out modCount mmapCount : Nat) (s : Mb1Sizes) :
    ((mb1Info out modCount mmapCount s).flags &&& mbInfoMods ≠ 0 ↔ 0 < modCount) ∧
      (mb1Info out modCount mmapCount s).flags &&& mbInfoMemMap ≠ 0 := by
  by_cases h : 0 < modCount
  · simp only [mb1Info, h, iff_true]; decide
  · simp only [mb1Info, h, iff_false]; decide

section Content

variable {out : Nat} {names m : Mem UInt8} {map : List MemoryDescriptor} {modules : List ModuleInfo}

/-- Following the pointers of a finished structure gives the modules. -/
theorem readMb1ModuleList_eq (hout : out + infoSize ≤ 2 ^ 32)
    (hn : ∀ mi ∈ modules, names.NulTerminated mi.namePtr.toNat)
    (hm : ∀ mi ∈ modules, mi.physStart.toNat + mi.size.toNat < 2 ^ 32)
    (hparts : Mb1Parts out m (mb1Content out names map modules)) :
    readMb1ModuleList m out = (modules.take maxModules).map (bootModule names) := by
  obtain ⟨hflags, -, -, hcount, haddr, -, -⟩ := MultibootInfo.read (hparts .info).front
  have htake : (modules.take maxModules).length = min modules.length maxModules := by
    rw [List.length_take, Nat.min_comm]
  have hsub : ∀ mi ∈ modules.take maxModules, mi ∈ modules := fun mi h => List.mem_of_mem_take h
  have hpromise : m.read32 out &&& mbInfoMods ≠ 0 ↔ 0 < min modules.length maxModules := by
    rw [show m.read32 out = _ from hflags]
    exact (mb1Info_flags ..).1
  unfold readMb1ModuleList
  by_cases h0 : 0 < min modules.length maxModules
  · have hcount' : (m.read32 (out + 20)).toNat = (modules.take maxModules).length := by
      rw [show m.read32 (out + 20) = _ from hcount, htake]
      exact UInt32.toNat_ofNat_of_lt' (lt_of_le_of_lt (Nat.min_le_right ..) (by decide))
    have haddr' : (m.read32 (out + 24)).toNat = out + mb1ModulesAt := by
      rw [show m.read32 (out + 24) = _ from haddr]
      simp only [mb1Info, if_pos h0]
      exact UInt32.toNat_ofNat_of_lt' (lt_of_lt_of_le (Nat.add_lt_add_left (by decide) out) hout)
    have hnames : m.Holds (out + (mb1NamesAt + 0 * mb1NameMax))
        ((modules.take maxModules).map (mb1Slot names)).flatten := by
      rw [Nat.zero_mul]
      exact (hparts .names).front
    rw [if_pos (hpromise.2 h0), hcount', haddr']
    exact readMb1Modules_eq hout _ (fun mi h => hn mi (hsub mi h)) (fun mi h => hm mi (hsub mi h)) 0 _
      (by rw [htake]; omega) (hparts .modules).front hnames
  · rw [if_neg fun h => h0 (hpromise.1 h), List.length_eq_zero_iff.1 (htake.trans (by omega))]
    rfl

/-- Following the pointers of a finished structure gives the memory map. -/
theorem readMb1MmapList_eq (hout : out + infoSize ≤ 2 ^ 32)
    (hparts : Mb1Parts out m (mb1Content out names map modules)) :
    readMb1MmapList m out = some ((map.take mb1MmapMax).map mb1Entry) := by
  obtain ⟨hflags, -, -, -, -, hlen, haddr⟩ := MultibootInfo.read (hparts .info).front
  have hpromise : m.read32 out &&& mbInfoMemMap ≠ 0 := by
    rw [show m.read32 out = _ from hflags]
    exact (mb1Info_flags ..).2
  have haddr' : (m.read32 (out + 48)).toNat = out + mb1MmapAt := by
    rw [show m.read32 (out + 48) = _ from haddr]
    exact UInt32.toNat_ofNat_of_lt' (lt_of_lt_of_le (Nat.add_lt_add_left (by decide) out) hout)
  have hlen' : (m.read32 (out + 44)).toNat = (map.take mb1MmapMax).length * multibootMmapEntrySize := by
    rw [show m.read32 (out + 44) = _ from hlen, List.length_take, Nat.min_comm mb1MmapMax]
    exact UInt32.toNat_ofNat_of_lt'
      (lt_of_le_of_lt (Nat.mul_le_mul_right _ (Nat.min_le_right ..)) (by decide))
  unfold readMb1MmapList
  simp only [if_pos hpromise, haddr', hlen']
  exact readMb1Mmap_eq _ _ (hparts .mmap).front

end Content

/-! ## The round trip -/

/-- Decoding undoes the builder: every store stays in the reserved memory, every part keeps its
contents in a place of its own, and a kernel that follows the address it is handed finds the
first 32 modules with the first 63 bytes of their names and the first 573 descriptors. -/
theorem readMb1Info_buildMb1Info (out : Nat) (names : Mem UInt8) (map : List MemoryDescriptor)
    (modules : List ModuleInfo) (m : Mem UInt8) (hout : out + infoSize ≤ 2 ^ 32)
    (hn : ∀ mi ∈ modules, names.NulTerminated mi.namePtr.toNat)
    (hm : ∀ mi ∈ modules, mi.physStart.toNat + mi.size.toNat < 2 ^ 32) :
    ∃ m' addr, buildMb1Info out names map modules m = some (m', addr) ∧ addr.toNat = out ∧
      m.SameOutside m' out (out + infoSize) ∧
      (∀ p : Mb1Part, m'.Holds (out + p.start) (mb1Content out names map modules p) ∧
        p.start + (mb1Content out names map modules p).length ≤ p.stop ∧ p.stop ≤ infoSize ∧
        ∀ q, p ≠ q → p.stop ≤ q.start ∨ q.stop ≤ p.start) ∧
      readMb1Info m' addr = some
        ⟨(modules.take 32).map fun mi => ⟨mi.physStart.toNat, mi.physStart.toNat + mi.size.toNat,
            (names.cstr mi.namePtr.toNat).take 63⟩,
          (map.take 573).map fun desc => ⟨20, desc.physStart, desc.pageCount * 4096, efiMemtypeToMb desc.ty⟩⟩ ∧
      (m'.read32 addr.toNat &&& mbInfoMods ≠ 0 ↔ modules ≠ []) := by
  obtain ⟨m', hb, hsame, hparts⟩ := buildMb1Info_spec out names map modules m hn
  have haddr : (UInt32.ofNat out).toNat = out :=
    UInt32.toNat_ofNat_of_lt' (lt_of_lt_of_le (by rw [infoSize_eq]; omega) hout)
  refine ⟨m', UInt32.ofNat out, hb, haddr, hsame, fun p => ?_, ?_, ?_⟩
  · have hfits := (hparts p).fits
    have := p.start_le_stop
    exact ⟨(hparts p).front, by omega, p.stop_le, fun q hq => Mb1Part.disjoint hq⟩
  · rw [readMb1Info, haddr, readMb1MmapList_eq hout hparts, readMb1ModuleList_eq hout hn hm hparts]
    rfl
  · have hflags := (MultibootInfo.read (hparts .info).front).1
    rw [haddr, show m'.read32 out = _ from hflags, (mb1Info_flags ..).1]
    have hlen : modules ≠ [] ↔ 0 < modules.length := List.length_pos_iff.symm
    rw [hlen, maxModules]
    omega

/-- One descriptor and one module named `a`: a kernel finds both. -/
theorem readMb1Info_one_module : ∃ m' addr,
    buildMb1Info 0x100000 (Mem.store (fun _ => 0) 0x2000 [0x61]) [⟨.conventional, 0x1000, 1⟩]
      [⟨0x2000, 0x200000, 0x1000⟩] (fun _ => 0) = some (m', addr) ∧
    readMb1Info m' addr = some ⟨[⟨0x200000, 0x201000, [0x61]⟩], [⟨20, 0x1000, 0x1000, 1⟩]⟩ := by
  obtain ⟨hnul, hname⟩ := Mem.cstr_store (fun _ => 0) 0x2000 (s := [0x61]) (by decide) rfl (by decide)
  obtain ⟨m', addr, hb, -, -, -, hread, -⟩ := readMb1Info_buildMb1Info 0x100000
    (Mem.store (fun _ => 0) 0x2000 [0x61]) [⟨.conventional, 0x1000, 1⟩] [⟨0x2000, 0x200000, 0x1000⟩]
    (fun _ => 0) (by rw [infoSize_eq]; decide)
    (by intro mi h; rw [List.mem_singleton.1 h]; exact hnul)
    (by intro mi h; rw [List.mem_singleton.1 h]; decide)
  refine ⟨m', addr, hb, hread.trans ?_⟩
  show some (Mb1View.mk [⟨0x200000, 0x201000, (Mem.cstr _ 0x2000).take 63⟩] [⟨20, 0x1000, 0x1000, 1⟩]) = _
  rw [hname]
  rfl

end Bang
