/-
The program header table: what the file header says it is, which entries the loader reads of it,
and when the two agree. The loader takes the entries to be as long as its own structure and stops
at the first that is not in the file; it never looks at `e_phentsize`, and never learns that it
stopped early.
-/
import Bang.Elf.Kernel
import Bang.Elf.Walk

namespace Bang

open LittleEndian

/-! ## The table as the file header describes it -/

/-- The program header at offset `off`, with the offset. -/
def ElfClass.entryAt (c : ElfClass) (fileBuf : Buffer) (off : Nat) : Nat × Phdr :=
  (off, c.phdr ((fileBuf.data.drop off).take c.phdrSize))

/-- All `e_phnum` entries, entry `i` at `e_phoff + i * e_phentsize`; `none` when the table does not
lie in the file, or its entries are too short for a program header. -/
def ElfClass.programHeaders (c : ElfClass) (fileBuf : Buffer) (ehdr : Ehdr) : Option (List (Nat × Phdr)) :=
  let phoff := ehdr.ePhoff.toNat
  let phnum := ehdr.ePhnum.toNat
  let phentsize := ehdr.ePhentsize.toNat
  if phnum = 0 then some []
  else if c.phdrSize ≤ phentsize ∧ phoff + phnum * phentsize ≤ fileBuf.size then
    some ((List.range phnum).map fun i => c.entryAt fileBuf (phoff + i * phentsize))
  else none

/-- The segment of a program header. -/
def Phdr.segment (p : Phdr) : Segment := ⟨p.pPaddr, p.pMemsz, p.pOffset, p.pFilesz⟩

/-- The segments of the PT_LOAD entries, in table order. -/
def loadable (entries : List (Nat × Phdr)) : List Segment :=
  (entries.filter fun e => e.2.pType = ptLoad).map fun e => e.2.segment

theorem loadable_append (xs ys : List (Nat × Phdr)) : loadable (xs ++ ys) = loadable xs ++ loadable ys := by
  simp [loadable]

/-! ## The entries the loader reads -/

section
variable {σ : Type} {fw : Firmware σ}

/-- Loading a segment reads no program header. -/
theorem Segment.load_entries (fw : Firmware σ) (fileBuf : Buffer) (seg : Segment) (s : LoadState σ) :
    (seg.load fw fileBuf s).2.entries = s.entries := by
  by_cases hwf : seg.WellFormed fileBuf
  · obtain ⟨-, hentries, -⟩ := requestAll_frame fw (seg.missing s.records) s
    rw [seg.load_wellFormed fw hwf]
    split <;> rename_i hr <;> rw [hr] at hentries <;> exact hentries
  · rw [seg.load_malformed fw hwf]

/-- The state that has read one more program header. -/
def LoadState.read (s : LoadState σ) (e : Nat × Phdr) : LoadState σ := { s with entries := s.entries ++ [e] }

/-- One round of the loop: the entry is not in the file and the loop ends, or it is read and, if
it is of type PT_LOAD, placed. -/
theorem loadSegments_step {c : ElfClass} {fileBuf : Buffer} {phoff n i : Nat} {s s' : LoadState σ}
    (hsize : c.phdrSize ≤ 56) (h : loadSegments fw c fileBuf phoff (n + 1) i s = .ok s') :
    (fileBuf.size < phoff + i * c.phdrSize + c.phdrSize ∧ s' = s) ∨
      (phoff + i * c.phdrSize + c.phdrSize ≤ fileBuf.size ∧
        ∃ e s₁, e = c.entryAt fileBuf (phoff + i * c.phdrSize) ∧
          loadSegments fw c fileBuf phoff n (i + 1) s₁ = .ok s' ∧
          ((e.2.pType ≠ ptLoad ∧ s₁ = s.read e) ∨
            (e.2.pType = ptLoad ∧ e.2.segment.load fw fileBuf (s.read e) = (true, s₁)))) := by
  have hfits : fileBuf.size < 2 ^ 63 := fileBuf.fits
  rw [loadSegments] at h
  simp only [ge_iff_le] at h
  by_cases hin : phoff + i * c.phdrSize + c.phdrSize ≤ fileBuf.size
  · refine Or.inr ⟨hin, c.entryAt fileBuf (phoff + i * c.phdrSize), ?_⟩
    rw [if_neg (by omega), if_neg (by omega)] at h
    obtain ⟨bs, hread, h⟩ := bind_ok h
    rw [Buffer.read_eq hin] at hread
    cases hread
    split at h
    · rename_i htype
      exact ⟨_, rfl, h, Or.inl ⟨htype, rfl⟩⟩
    · rename_i htype
      obtain ⟨_, hok, h⟩ := bind_ok h
      exact ⟨_, rfl, h, Or.inr ⟨not_not.1 htype, Prod.ext (assert_ok hok) rfl⟩⟩
  · refine Or.inl ⟨by omega, ?_⟩
    by_cases h1 : 2 ^ 64 ≤ phoff + i * c.phdrSize
    · rw [if_pos h1] at h
      cases h
      rfl
    · rw [if_neg h1, if_pos (by omega)] at h
      cases h
      rfl

/-- The entries number `i`, `i + 1`, … as the loader takes them to lie: one behind the other. -/
def ElfClass.readEntries (c : ElfClass) (fileBuf : Buffer) (phoff i m : Nat) : List (Nat × Phdr) :=
  (List.range' i m).map fun j => c.entryAt fileBuf (phoff + j * c.phdrSize)

/-- The loop reads entries up to the first that is not in the file, and places those of type
PT_LOAD. -/
theorem loadSegments_spec {c : ElfClass} {fileBuf : Buffer} {phoff : Nat} (hsize : c.phdrSize ≤ 56) (n : Nat) :
    ∀ (i : Nat) (s s' : LoadState σ), loadSegments fw c fileBuf phoff n i s = .ok s' →
      ∃ m ≤ n, (∀ j < m, phoff + (i + j) * c.phdrSize + c.phdrSize ≤ fileBuf.size) ∧
        (m < n → fileBuf.size < phoff + (i + m) * c.phdrSize + c.phdrSize) ∧
        s'.entries = s.entries ++ c.readEntries fileBuf phoff i m ∧
        s'.placed = s.placed ++ loadable (c.readEntries fileBuf phoff i m) := by
  induction n with
  | zero =>
    intro i s s' h
    cases h
    exact ⟨0, le_refl _, fun j hj => absurd hj (Nat.not_lt_zero j), fun h => absurd h (Nat.lt_irrefl 0),
      by simp [ElfClass.readEntries], by simp [ElfClass.readEntries, loadable]⟩
  | succ n ih =>
    intro i s s' h
    rcases loadSegments_step hsize h with ⟨hout, rfl⟩ | ⟨hin, e, s₁, rfl, hrest, hstep⟩
    · exact ⟨0, Nat.zero_le _, fun j hj => absurd hj (Nat.not_lt_zero j), fun _ => hout,
        by simp [ElfClass.readEntries], by simp [ElfClass.readEntries, loadable]⟩
    · -- the round itself
      have hround : s₁.entries = s.entries ++ [c.entryAt fileBuf (phoff + i * c.phdrSize)] ∧
          s₁.placed = s.placed ++ loadable [c.entryAt fileBuf (phoff + i * c.phdrSize)] := by
        rcases hstep with ⟨htype, rfl⟩ | ⟨htype, hload⟩
        · exact ⟨rfl, by simp [LoadState.read, loadable, htype]⟩
        · have hentries := Segment.load_entries fw fileBuf (c.entryAt fileBuf (phoff + i * c.phdrSize)).2.segment
            (s.read (c.entryAt fileBuf (phoff + i * c.phdrSize)))
          rw [hload] at hentries
          obtain ⟨-, _, -, rfl⟩ := Segment.load_true fw hload
          exact ⟨hentries, by simp [LoadState.read, loadable, htype]⟩
      obtain ⟨m, hm, hall, hnext, hentries, hplaced⟩ := ih (i + 1) s₁ s' hrest
      have hcons : c.readEntries fileBuf phoff i (m + 1) =
          [c.entryAt fileBuf (phoff + i * c.phdrSize)] ++ c.readEntries fileBuf phoff (i + 1) m := by
        rw [ElfClass.readEntries, List.range'_succ, List.map_cons]
        rfl
      refine ⟨m + 1, by omega, fun j hj => ?_, fun hlt => ?_, ?_, ?_⟩
      · cases j with
        | zero => exact hin
        | succ j =>
          have := hall j (by omega)
          rwa [show i + (j + 1) = i + 1 + j by omega]
      · rw [show i + (m + 1) = i + 1 + m by omega]
        exact hnext (by omega)
      · rw [hentries, hround.1, hcons, List.append_assoc]
      · rw [hplaced, hround.2, hcons, loadable_append, List.append_assoc]

end

/-! ## When the loader reads the table it is told of -/

/-- The tables the loader handles: empty, or inside the file with entries as long as its own
structure (or a single entry, for which a longer stride does not matter). -/
def ElfClass.Handled (c : ElfClass) (fileBuf : Buffer) (ehdr : Ehdr) : Prop :=
  ehdr.ePhnum.toNat = 0 ∨
    (ehdr.ePhoff.toNat + ehdr.ePhnum.toNat * ehdr.ePhentsize.toNat ≤ fileBuf.size ∧
      c.phdrSize ≤ ehdr.ePhentsize.toNat ∧
      (ehdr.ePhentsize.toNat = c.phdrSize ∨ ehdr.ePhnum.toNat = 1))

/-- Two readings of a table agree when the strides do, or there is at most one entry. -/
theorem readEntries_eq_iff (c : ElfClass) (fileBuf : Buffer) (phoff stride n : Nat) :
    (List.range n).map (fun i => c.entryAt fileBuf (phoff + i * stride)) = c.readEntries fileBuf phoff 0 n ↔
      n ≤ 1 ∨ stride = c.phdrSize := by
  rw [ElfClass.readEntries, ← List.range_eq_range']
  constructor
  · intro h
    by_contra hno
    have h1 : 1 < n := by omega
    have he := congrArg (fun l => l[1]?) h
    simp only [List.getElem?_map, List.getElem?_range h1, Option.map_some, ElfClass.entryAt, Nat.one_mul,
      Option.some.injEq, Prod.mk.injEq, Nat.add_left_cancel_iff] at he
    omega
  · rintro (h | rfl)
    · apply List.map_congr_left
      intro i hi
      rw [List.mem_range] at hi
      rw [show i = 0 by omega, Nat.zero_mul, Nat.zero_mul]
    · rfl

/-- What was read is the table the file header describes exactly when the loader handles it. -/
theorem programHeaders_eq_iff {c : ElfClass} {fileBuf : Buffer} {ehdr : Ehdr} {m : Nat}
    (hm : m ≤ ehdr.ePhnum.toNat)
    (hnext : m < ehdr.ePhnum.toNat → fileBuf.size < ehdr.ePhoff.toNat + m * c.phdrSize + c.phdrSize) :
    c.programHeaders fileBuf ehdr = some (c.readEntries fileBuf ehdr.ePhoff.toNat 0 m) ↔
      c.Handled fileBuf ehdr := by
  unfold ElfClass.programHeaders ElfClass.Handled
  by_cases h0 : ehdr.ePhnum.toNat = 0
  · have hm0 : m = 0 := by omega
    simp [h0, hm0, ElfClass.readEntries]
  simp only [h0, false_or, if_false]
  by_cases hfile : c.phdrSize ≤ ehdr.ePhentsize.toNat ∧
      ehdr.ePhoff.toNat + ehdr.ePhnum.toNat * ehdr.ePhentsize.toNat ≤ fileBuf.size
  · -- the described table is in the file: only the stride can differ
    rw [if_pos hfile, Option.some_inj]
    have hmn : m = ehdr.ePhnum.toNat := by
      by_contra hne
      have hlt : m < ehdr.ePhnum.toNat := by omega
      have h1 := hnext hlt
      have h2 : (m + 1) * c.phdrSize ≤ ehdr.ePhnum.toNat * ehdr.ePhentsize.toNat :=
        Nat.mul_le_mul hlt hfile.1
      rw [Nat.add_mul, Nat.one_mul] at h2
      omega
    subst hmn
    rw [readEntries_eq_iff]
    constructor
    · intro h
      exact ⟨hfile.2, hfile.1, by omega⟩
    · rintro ⟨-, -, h⟩
      omega
  · rw [if_neg hfile]
    constructor
    · intro h; cases h
    · rintro ⟨h1, h2, -⟩
      exact absurd ⟨h2, h1⟩ hfile

theorem classFor_phdrSize (elfClass : UInt8) : (classFor elfClass).phdrSize ≤ 56 := by
  unfold classFor
  split <;> decide

/-- A load that returns has read the table its file header describes, and placed exactly the
PT_LOAD entries of it, if and only if the loader handles that table. -/
theorem loadKernel_placed_iff {σ : Type} {fw : Firmware σ} {fileBuf : Buffer} {firmware : σ}
    {memory : Mem UInt8} {info : KernelInfo} {s' : LoadState σ}
    (h : loadKernel fw fileBuf (.start firmware memory) = .ok (info, s')) :
    ∃ elfClass, elfClassOf fileBuf = .ok elfClass ∧ (elfClass = elfClass32 ∨ elfClass = elfClass64) ∧
      ((∃ table, (classFor elfClass).programHeaders fileBuf ((classFor elfClass).fileHeader fileBuf) =
          some table ∧ s'.entries = table ∧ s'.placed = loadable table) ↔
        (classFor elfClass).Handled fileBuf ((classFor elfClass).fileHeader fileBuf)) := by
  obtain ⟨elfClass, hclass, hcls, -, -, hload⟩ := loadKernel_ok h
  obtain ⟨-, hsegments⟩ := loadClass_ok hload
  obtain ⟨m, hm, -, hnext, hentries, hplaced⟩ :=
    loadSegments_spec (classFor_phdrSize elfClass) _ 0 _ s' hsegments
  simp only [Nat.zero_add] at hnext
  refine ⟨elfClass, hclass, hcls, ?_⟩
  rw [← programHeaders_eq_iff hm hnext]
  constructor
  · rintro ⟨table, htable, he, -⟩
    rw [htable, ← he, hentries]
    rfl
  · intro htable
    exact ⟨_, htable, hentries, hplaced⟩

/-! ## Two kernel files -/

/-- An ELF32 executable: the file header, with its program header table right behind it. -/
def elf32Executable (phentsize phnum : UInt16) (phdrs : List UInt8) : List UInt8 :=
  [0x7F, 0x45, 0x4C, 0x46, 1, 1, 1] ++ List.replicate 9 0 ++ u16 etExec ++ u16 em386 ++ u32 1 ++
    u32 0x100000 ++ u32 52 ++ u32 0 ++ u32 0 ++ u16 52 ++ u16 phentsize ++ u16 phnum ++ u16 0 ++ u16 0 ++
    u16 0 ++ phdrs

/-- The program header of a page of clear memory at `paddr`. -/
def bssHeader32 (paddr : UInt32) : List UInt8 :=
  u32 ptLoad ++ u32 0 ++ u32 paddr ++ u32 paddr ++ u32 0 ++ u32 0x1000 ++ u32 6 ++ u32 0x1000

theorem map_ok {ε α β : Type} {x : Except ε α} {f : α → β} {b : β} (h : x.map f = .ok b) :
    ∃ a, x = .ok a ∧ f a = b := by
  cases x with
  | error e => cases h
  | ok a => cases h; exact ⟨a, rfl, rfl⟩

/-- A kernel with one segment, in a table the loader handles. -/
theorem placed_one_segment : ∃ info s',
    loadKernel bump ⟨elf32Executable 32 1 (bssHeader32 0x100000), by decide⟩
      (.start ⟨fun _ => false, 0⟩ fun _ => 0) = .ok (info, s') ∧
    s'.placed = [⟨0x100000, 0x1000, 0, 0⟩] := by
  have hrun : (loadKernel bump ⟨elf32Executable 32 1 (bssHeader32 0x100000), by decide⟩
      (.start ⟨fun _ => false, 0⟩ fun _ => 0)).map (fun _ => ()) = .ok () := by decide +kernel
  obtain ⟨⟨info, s'⟩, h, -⟩ := map_ok hrun
  obtain ⟨elfClass, hclass, -, hiff⟩ := loadKernel_placed_iff h
  have h32 : elfClass = elfClass32 := Except.ok.inj (hclass.symm.trans (by decide))
  subst h32
  obtain ⟨table, htable, -, hplaced⟩ := hiff.2 (Or.inr (by decide))
  refine ⟨info, s', h, hplaced.trans ?_⟩
  have : table = [(52, ⟨1, 0, 0x100000, 0, 0x1000⟩)] := Option.some_inj.1 (htable.symm.trans (by decide))
  rw [this]
  decide

/-- A kernel of two segments whose file lacks the last byte of its table: the table the header
describes does not exist, but the load returns, with one segment placed and one missing. -/
theorem loaded_without_table : ∃ info s',
    loadKernel bump
      ⟨elf32Executable 32 2 (bssHeader32 0x100000 ++ (bssHeader32 0x200000).take 31), by decide⟩
      (.start ⟨fun _ => false, 0⟩ fun _ => 0) = .ok (info, s') ∧
    s'.placed = [⟨0x100000, 0x1000, 0, 0⟩] ∧
    elf32.programHeaders
      ⟨elf32Executable 32 2 (bssHeader32 0x100000 ++ (bssHeader32 0x200000).take 31), by decide⟩
      (elf32.fileHeader
        ⟨elf32Executable 32 2 (bssHeader32 0x100000 ++ (bssHeader32 0x200000).take 31), by decide⟩) = none := by
  have hrun : (loadKernel bump
      ⟨elf32Executable 32 2 (bssHeader32 0x100000 ++ (bssHeader32 0x200000).take 31), by decide⟩
      (.start ⟨fun _ => false, 0⟩ fun _ => 0)).map (fun r => r.2.placed) =
        .ok [⟨0x100000, 0x1000, 0, 0⟩] := by decide +kernel
  obtain ⟨⟨info, s'⟩, h, hplaced⟩ := map_ok hrun
  exact ⟨info, s', h, hplaced, by decide +kernel⟩

end Bang
