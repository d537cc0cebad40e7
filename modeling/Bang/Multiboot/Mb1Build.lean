/-
The Multiboot1 builder fills four parts of the reserved memory that do not overlap: the structure,
the module table, the name slots and the memory map. One rule says what a store into a part does
to all of them; from it one lemma for each loop, and the contents of every part at the end.
-/
import Bang.Memory.Filled
import Bang.Multiboot.Mb1
import Mathlib.Logic.Function.Basic

namespace Bang

open LittleEndian

/-! ## The parts -/

/-- The parts of a Multiboot1 structure. -/
inductive Mb1Part
  | info | modules | names | mmap
  deriving DecidableEq

/-- Where a part starts in the reserved memory. -/
def Mb1Part.start : Mb1Part → Nat
  | .info => 0
  | .modules => mb1ModulesAt
  | .names => mb1NamesAt
  | .mmap => mb1MmapAt

/-- Where the room of a part ends. -/
def Mb1Part.stop : Mb1Part → Nat
  | .info => mb1ModulesAt
  | .modules => mb1NamesAt
  | .names => mb1MmapAt
  | .mmap => infoSize

theorem Mb1Part.start_le_stop (p : Mb1Part) : p.start ≤ p.stop := by cases p <;> decide

theorem Mb1Part.stop_le (p : Mb1Part) : p.stop ≤ infoSize := by cases p <;> decide

theorem Mb1Part.disjoint {p q : Mb1Part} (h : p ≠ q) : p.stop ≤ q.start ∨ q.stop ≤ p.start := by
  cases p <;> cases q <;> first | exact absurd rfl h | decide

/-- The parts of the reserved memory hold `c`, each from its start, and are clear behind it. -/
def Mb1Parts (out : Nat) (m : Mem UInt8) (c : Mb1Part → List UInt8) : Prop :=
  ∀ p : Mb1Part, m.Filled (out + p.start) (p.stop - p.start) 0 (c p)

theorem mb1Parts_clear (out : Nat) (m : Mem UInt8) :
    Mb1Parts out (m.store out (List.replicate infoSize 0)) fun _ => [] := by
  intro p
  have h1 := p.start_le_stop
  have h2 := p.stop_le
  exact Mem.filled_clear_part m 0 (by omega) (by omega)

/-- A store behind what a part holds fills that part further and leaves the others alone. -/
theorem Mb1Parts.write {out o : Nat} {m : Mem UInt8} {c : Mb1Part → List UInt8} (h : Mb1Parts out m c)
    (p : Mb1Part) (new : List UInt8) (hroom : p.start + (c p).length + new.length ≤ p.stop)
    (ho : o = p.start + (c p).length) :
    ∃ m', writeBytes out m o new = some m' ∧ Mb1Parts out m' (Function.update c p (c p ++ new)) ∧
      m.SameOutside m' out (out + infoSize) := by
  have h1 := p.start_le_stop
  have h2 := p.stop_le
  obtain ⟨m', hs, hf, hout⟩ : ∃ m', Mem.storeIn out (out + infoSize) m (out + o) new = some m' ∧ _ ∧ _ :=
    (h p).storeIn_within (by omega) (by omega) new (by omega) (by omega)
  refine ⟨m', hs, fun q => ?_, hout.mono (by omega) (by omega)⟩
  by_cases hq : q = p
  · subst hq
    rw [Function.update_self]
    exact hf
  · rw [Function.update_of_ne hq]
    have := Mb1Part.disjoint hq
    have := q.start_le_stop
    exact (h q).sameOutside hout (by omega)

/-- A part also reads as filled with some of the clear bytes behind what it holds. -/
theorem Mb1Parts.skip {out : Nat} {m : Mem UInt8} {c : Mb1Part → List UInt8} (h : Mb1Parts out m c)
    (p : Mb1Part) (n : Nat) (hroom : p.start + (c p).length + n ≤ p.stop) :
    Mb1Parts out m (Function.update c p (c p ++ List.replicate n 0)) := by
  intro q
  by_cases hq : q = p
  · subst hq
    rw [Function.update_self]
    exact (h q).skip n (by omega)
  · rw [Function.update_of_ne hq]
    exact h q

/-! ## The memory map -/

theorem mb1MmapEntries_spec (out : Nat) (map : List MemoryDescriptor) :
    ∀ (m : Mem UInt8) (c : Mb1Part → List UInt8) (mmapCount : Nat) (s : Mb1Sizes), Mb1Parts out m c →
      (c .mmap).length = mmapCount * multibootMmapEntrySize → mmapCount ≤ mb1MmapMax →
      ∃ m', mb1MmapEntries out map m mmapCount s = some (m', mmapCount + min map.length (mb1MmapMax - mmapCount),
          (map.take (mb1MmapMax - mmapCount)).foldl Mb1Sizes.count s) ∧
        Mb1Parts out m' (Function.update c .mmap (c .mmap ++
          (((map.take (mb1MmapMax - mmapCount)).map mb1Entry).map MultibootMmapEntry.bytes).flatten)) ∧
        m.SameOutside m' out (out + infoSize) := by
  induction map with
  | nil =>
    intro m c mmapCount s h _ _
    exact ⟨m, by simp [mb1MmapEntries], by simpa using h, .refl _ _ _⟩
  | cons desc descs ih =>
    intro m c mmapCount s h hlen hle
    by_cases hfull : mmapCount ≥ mb1MmapMax
    · have h0 : mb1MmapMax - mmapCount = 0 := by omega
      exact ⟨m, by rw [mb1MmapEntries, if_pos hfull, h0]; simp, by rw [h0]; simpa using h, .refl _ _ _⟩
    · have hstop : mb1MmapAt + mb1MmapMax * multibootMmapEntrySize ≤ infoSize := by decide
      have hroom : mb1MmapAt + mmapCount * multibootMmapEntrySize + multibootMmapEntrySize ≤ infoSize := by
        have hcount := Nat.mul_le_mul_right multibootMmapEntrySize (show mmapCount + 1 ≤ mb1MmapMax by omega)
        rw [Nat.add_mul, Nat.one_mul] at hcount
        omega
      obtain ⟨m₁, hs, hp, hout⟩ := h.write (o := mb1MmapAt + mmapCount * multibootMmapEntrySize) .mmap
        (mb1Entry desc).bytes
        (by rw [hlen, MultibootMmapEntry.length_bytes]; exact hroom) (by rw [hlen]; rfl)
      obtain ⟨m', hrec, hp', hout'⟩ := ih m₁ _ (mmapCount + 1) (s.count desc) hp
        (by rw [Function.update_self, List.length_append, hlen, MultibootMmapEntry.length_bytes]; ring)
        (by omega)
      have hnext : mb1MmapMax - mmapCount = mb1MmapMax - (mmapCount + 1) + 1 := by omega
      refine ⟨m', ?_, ?_, hout.trans hout'⟩
      · have hmin : mmapCount + 1 + min descs.length (mb1MmapMax - (mmapCount + 1)) =
            mmapCount + min (descs.length + 1) (mb1MmapMax - (mmapCount + 1) + 1) := by omega
        rw [mb1MmapEntries, if_neg hfull, Option.bind_eq_bind, hs, Option.bind_some, hrec, hnext, hmin]
        rfl
      · rw [hnext]
        simpa [List.append_assoc] using hp'

/-! ## The modules -/

/-- What a name slot holds: the name cut to 63 bytes, and clear bytes. -/
def mb1Slot (names : Mem UInt8) (mi : ModuleInfo) : List UInt8 :=
  let name := (names.cstr mi.namePtr.toNat).take (mb1NameMax - 1)
  name ++ List.replicate (mb1NameMax - name.length) 0

/-- The module table from module `i` on. -/
def mb1Table (out : Nat) : List ModuleInfo → Nat → List UInt8
  | [], _ => []
  | mi :: mods, i => (mb1Module out i mi).bytes ++ mb1Table out mods (i + 1)

theorem mb1Slot_length (names : Mem UInt8) (mi : ModuleInfo) : (mb1Slot names mi).length = mb1NameMax := by
  unfold mb1Slot
  rw [List.length_append, List.length_replicate, List.length_take]
  simp only [mb1NameMax]; omega

/-- Copying a name adds its first `fuel` bytes to the name slots. -/
theorem mb1CopyName_spec (out : Nat) (names : Mem UInt8) (name src : Nat) (s : List UInt8) :
    ∀ (fuel len : Nat) (m : Mem UInt8) (c : Mb1Part → List UInt8), names.Holds (src + len) (s ++ [0]) →
      0 ∉ s → Mb1Parts out m c → name + len = mb1NamesAt + (c .names).length →
      mb1NamesAt + (c .names).length + fuel ≤ mb1MmapAt →
      ∃ m', mb1CopyName out names name src fuel len m = some m' ∧
        Mb1Parts out m' (Function.update c .names (c .names ++ s.take fuel)) ∧
        m.SameOutside m' out (out + infoSize) := by
  induction s with
  | nil =>
    intro fuel len m c hs _ h _ _
    have h0 : names (src + len) = 0 := hs 0 (by simp)
    refine ⟨m, ?_, by simpa using h, .refl _ _ _⟩
    cases fuel with
    | zero => rfl
    | succ fuel => rw [mb1CopyName, if_pos h0]
  | cons b s ih =>
    intro fuel len m c hs hnz h hpos hroom
    cases fuel with
    | zero => exact ⟨m, rfl, by simpa using h, .refl _ _ _⟩
    | succ fuel =>
      have hb : names (src + len) = b := hs 0 (by simp)
      have hb0 : names (src + len) ≠ 0 := fun h0 => hnz (by rw [← hb, h0]; exact List.mem_cons_self ..)
      have hrest : names.Holds (src + (len + 1)) (s ++ [0]) := (show names.Holds (src + len) ([b] ++ (s ++ [0])) from hs).right
      obtain ⟨m₁, hs₁, hp, hout⟩ := h.write (o := name + len) .names [b]
        (by show mb1NamesAt + (c .names).length + 1 ≤ mb1MmapAt; omega) hpos
      obtain ⟨m', hrec, hp', hout'⟩ := ih fuel (len + 1) m₁ _ hrest
        (fun h0 => hnz (List.mem_cons_of_mem _ h0)) hp
        (by rw [Function.update_self, List.length_append, List.length_singleton]; omega)
        (by rw [Function.update_self, List.length_append, List.length_singleton]; omega)
      refine ⟨m', ?_, by simpa [List.append_assoc] using hp', hout.trans hout'⟩
      rw [mb1CopyName, if_neg hb0, Option.bind_eq_bind, hb, hs₁, Option.bind_some, hrec]

/-- The loop over the modules adds an entry to the table and a slot to the names for each. -/
theorem mb1Modules_spec (out : Nat) (names : Mem UInt8) (modules : List ModuleInfo)
    (hn : ∀ mi ∈ modules, names.NulTerminated mi.namePtr.toNat) :
    ∀ (i : Nat) (m : Mem UInt8) (c : Mb1Part → List UInt8), Mb1Parts out m c →
      (c .modules).length = i * multibootModuleSize → (c .names).length = i * mb1NameMax →
      i + modules.length ≤ maxModules →
      ∃ m', mb1Modules out names modules i m = some m' ∧
        Mb1Parts out m' (Function.update (Function.update c .names
          (c .names ++ (modules.map (mb1Slot names)).flatten)) .modules
          (c .modules ++ mb1Table out modules i)) ∧
        m.SameOutside m' out (out + infoSize) := by
  induction modules with
  | nil =>
    intro i m c h _ _ _
    exact ⟨m, rfl, by simpa [mb1Table] using h, .refl _ _ _⟩
  | cons mi mods ih =>
    intro i m c h hmods hnames hi
    have hmi := hn mi (List.mem_cons_self ..)
    have hi' : i < maxModules := by simp only [List.length_cons] at hi; omega
    have hslots : mb1NamesAt + i * mb1NameMax + mb1NameMax ≤ mb1MmapAt := by
      simp only [mb1MmapAt, mb1NameMax]; omega
    have hentries : mb1ModulesAt + i * multibootModuleSize + multibootModuleSize ≤ mb1NamesAt := by
      simp only [mb1NamesAt, multibootModuleSize]; omega
    -- the name, then the clear rest of its slot, then the entry
    obtain ⟨m₁, hs₁, hp₁, ho₁⟩ := mb1CopyName_spec out names (mb1NamesAt + i * mb1NameMax) mi.namePtr.toNat
      (names.cstr mi.namePtr.toNat) (mb1NameMax - 1) 0 m c hmi.holds hmi.cstr.2.1 h (by rw [hnames]; rfl)
      (by rw [hnames]; omega)
    have hp₂ := hp₁.skip .names (mb1NameMax - ((names.cstr mi.namePtr.toNat).take (mb1NameMax - 1)).length)
      (by
        rw [Function.update_self, List.length_append, hnames, List.length_take]
        show mb1NamesAt + _ + _ ≤ mb1MmapAt
        simp only [mb1NameMax] at *; omega)
    simp only [Function.update_self, Function.update_idem, List.append_assoc] at hp₂
    change Mb1Parts out m₁ (Function.update c .names (c .names ++ mb1Slot names mi)) at hp₂
    obtain ⟨m₃, hs₃, hp₃, ho₃⟩ := hp₂.write (o := mb1ModulesAt + i * multibootModuleSize) .modules
      (mb1Module out i mi).bytes
      (by rw [Function.update_of_ne (by decide), hmods, MultibootModule.length_bytes]; exact hentries)
      (by rw [Function.update_of_ne (by decide), hmods]; rfl)
    rw [Function.update_of_ne (by decide)] at hp₃
    obtain ⟨m', hrec, hp', ho'⟩ := ih (fun x hx => hn x (List.mem_cons_of_mem _ hx)) (i + 1) m₃ _ hp₃
      (by rw [Function.update_self, List.length_append, hmods, MultibootModule.length_bytes]; ring)
      (by rw [Function.update_of_ne (by decide), Function.update_self, List.length_append, hnames,
            mb1Slot_length]; ring)
      (by simp only [List.length_cons] at hi; omega)
    refine ⟨m', ?_, ?_, (ho₁.trans ho₃).trans ho'⟩
    · rw [mb1Modules]
      simp only [Option.bind_eq_bind, hs₁, Option.bind_some, hs₃, hrec]
    · have hc : ∀ p, Function.update (Function.update (Function.update (Function.update c .names
            (c .names ++ mb1Slot names mi)) .modules (c .modules ++ (mb1Module out i mi).bytes)) .names
            (c .names ++ mb1Slot names mi ++ (mods.map (mb1Slot names)).flatten)) .modules
            (c .modules ++ (mb1Module out i mi).bytes ++ mb1Table out mods (i + 1)) p =
          Function.update (Function.update c .names (c .names ++ ((mi :: mods).map (mb1Slot names)).flatten))
            .modules (c .modules ++ mb1Table out (mi :: mods) i) p := by
        intro p
        cases p <;> simp [Function.update, mb1Table, List.append_assoc]
      simp only [Function.update_self, Function.update_of_ne (show Mb1Part.names ≠ .modules by decide)] at hp'
      rw [funext hc] at hp'
      exact hp'

/-! ## The builder -/

/-- What the parts hold in the end. -/
def mb1Content (out : Nat) (names : Mem UInt8) (map : List MemoryDescriptor) (modules : List ModuleInfo) :
    Mb1Part → List UInt8
  | .info => (mb1Info out (min modules.length maxModules) (min map.length mb1MmapMax)
      ((map.take mb1MmapMax).foldl Mb1Sizes.count ⟨0, 0⟩)).bytes
  | .modules => mb1Table out (modules.take maxModules) 0
  | .names => ((modules.take maxModules).map (mb1Slot names)).flatten
  | .mmap => (((map.take mb1MmapMax).map mb1Entry).map MultibootMmapEntry.bytes).flatten

/-- The builder succeeds, writes inside the reserved memory only, and leaves every part with its
contents. -/
theorem buildMb1Info_spec (out : Nat) (names : Mem UInt8) (map : List MemoryDescriptor)
    (modules : List ModuleInfo) (m : Mem UInt8)
    (hn : ∀ mi ∈ modules, names.NulTerminated mi.namePtr.toNat) :
    ∃ m', buildMb1Info out names map modules m = some (m', UInt32.ofNat out) ∧
      m.SameOutside m' out (out + infoSize) ∧ Mb1Parts out m' (mb1Content out names map modules) := by
  have hclear : writeBytes out m 0 (List.replicate infoSize 0) =
      some (m.store out (List.replicate infoSize 0)) :=
    Mem.storeIn_eq m (by omega) (by rw [List.length_replicate]; omega)
  have ho₀ := (Mem.storeIn_some hclear).2
  obtain ⟨m₁, hs₁, hp₁, ho₁⟩ := mb1MmapEntries_spec out map _ _ 0 ⟨0, 0⟩ (mb1Parts_clear out m) rfl
    (Nat.zero_le _)
  obtain ⟨m₂, hs₂, hp₂, ho₂⟩ := mb1Modules_spec out names (modules.take (min modules.length maxModules))
    (fun mi h => hn mi (List.mem_of_mem_take h)) 0 m₁ _ hp₁ rfl rfl
    (by rw [List.length_take]; omega)
  obtain ⟨m₃, hs₃, hp₃, ho₃⟩ := hp₂.write (o := 0) .info
    (mb1Info out (min modules.length maxModules) (min map.length mb1MmapMax)
      ((map.take mb1MmapMax).foldl Mb1Sizes.count ⟨0, 0⟩)).bytes
    (by rw [MultibootInfo.length_bytes]; show 0 + 0 + 52 ≤ mb1ModulesAt; decide) rfl
  refine ⟨m₃, ?_, ((ho₀.trans ho₁).trans ho₂).trans ho₃, ?_⟩
  · unfold buildMb1Info
    simp only [Option.bind_eq_bind, hclear, Option.bind_some, hs₁, hs₂, Nat.zero_add, Nat.sub_zero, hs₃]
  · intro p
    have htake : modules.take (min modules.length maxModules) = modules.take maxModules := by
      rw [List.take_eq_take_iff]; omega
    have := hp₃ p
    cases p <;> simpa [Function.update, mb1Content, htake] using this

end Bang
