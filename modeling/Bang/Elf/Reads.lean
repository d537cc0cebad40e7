/-
What a load reads of the kernel file. Every function of the loader that looks at the file stands here
once more, with the same steps and a list of the offsets and lengths it reads; the copy of a segment is
one read, of the range it copies. Without the list these are the loader's functions, and with it every
read is inside the file, whatever the file is.
-/
import Bang.Memory.Traced
import Bang.Elf.Kernel
import Bang.Elf.Walk
import Bang.Elf.Detect

namespace Bang

/-- A computation that reads the file: an offset and a length for each read. -/
abbrev Reading (α : Type) := Traced (Nat × Nat) Stop α

namespace Reading

/-! ## The loader, with what it reads -/

/-- The `n` bytes at offset `off`. -/
def read (file : Buffer) (off n : Nat) : Reading (List UInt8) := ⟨[(off, n)], file.read off n⟩

def u32 (file : Buffer) (off : Nat) : Reading UInt32 := ⟨[(off, 4)], file.u32 off⟩

def assert (condition : Bool) (message : String) : Reading Unit := Traced.lift (Bang.assert condition message)

def mb2HeaderAt (file : Buffer) (off : Nat) : Reading Bool := do
  let magic ← u32 file off
  if magic = mb2HeaderMagic then
    let arch ← u32 file (off + 4)
    let hlen ← u32 file (off + 8)
    let chksum ← u32 file (off + 12)
    pure (magic + arch + hlen + chksum == 0)
  else pure false

def mb1HeaderAt (file : Buffer) (off : Nat) : Reading Bool := do
  let magic ← u32 file off
  if magic = mb1HeaderMagic then
    let flags ← u32 file (off + 4)
    let chksum ← u32 file (off + 8)
    pure (magic + flags + chksum == 0)
  else pure false

def findMb2 (file : Buffer) (mb2Limit off : Nat) : Reading Bool :=
  if off + 16 ≤ mb2Limit then do
    if ← mb2HeaderAt file off then pure true else findMb2 file mb2Limit (off + 8)
  else pure false
termination_by mb2Limit - off
decreasing_by omega

def findMb1 (file : Buffer) (mb1Limit off : Nat) : Reading Bool :=
  if off + 12 ≤ mb1Limit then do
    if ← mb1HeaderAt file off then pure true else findMb1 file mb1Limit (off + 4)
  else pure false
termination_by mb1Limit - off
decreasing_by omega

def detectMultibootVersion (file : Buffer) : Reading UInt32 := do
  if ← findMb2 file (min file.size 32768) 0 then pure 2
  else if ← findMb1 file (min file.size 8192) 0 then pure 1
  else pure 0

/-- The bytes from `off` on compared with others, up to the first that differs. -/
def matchesAt (file : Buffer) : (off : Nat) → List UInt8 → Reading Bool
  | _, [] => pure true
  | off, b :: bs => do
    if (← read file off 1) = [b] then matchesAt file (off + 1) bs else pure false

/-- `file_size >= EI_NIDENT`, and only then the four bytes of the magic. -/
def elfMagic (fileBuf : Buffer) : Reading Bool :=
  if fileBuf.size ≥ eiNident then matchesAt fileBuf 0 [0x7F, 0x45, 0x4C, 0x46] else pure false

/-- `file_buf[4]`. -/
def elfClassOf (fileBuf : Buffer) : Reading UInt8 := do
  let bs ← read fileBuf 4 1
  pure (bs.headD 0)

section
variable {σ : Type} (fw : Firmware σ)

/-- What the copy stores is what it reads, the segment's bytes of the file. -/
def loadSegment (paddr memsz : UInt64) (fileBuf : Buffer) (offset filesz : UInt64) (s : LoadState σ) :
    Reading (Bool × LoadState σ) :=
  if filesz > memsz then pure (false, s)
  else if ¬ (offset.toNat + filesz.toNat < 2 ^ 64 ∧ offset.toNat + filesz.toNat ≤ fileBuf.size) then
    pure (false, s)
  else if paddr.toNat + memsz.toNat ≥ 2 ^ 64 then pure (false, s)
  else
    match pageWalk fw (pageLimit paddr memsz) (pageBase paddr) s with
    | (false, s) => pure (false, s)
    | (true, s) => do
      let bs ← read fileBuf offset.toNat filesz.toNat
      pure (true, { s with
        memory := storeSegment paddr memsz filesz bs s.memory
        placed := s.placed ++ [⟨paddr, memsz, offset, filesz⟩] })

def loadSegments (c : ElfClass) (fileBuf : Buffer) (phoff : Nat) :
    (n i : Nat) → LoadState σ → Reading (LoadState σ)
  | 0, _, s => pure s
  | n + 1, i, s =>
    let off := phoff + i * c.phdrSize
    if off ≥ 2 ^ 64 then pure s
    else if off + c.phdrSize ≥ 2 ^ 64 ∨ off + c.phdrSize > fileBuf.size then pure s
    else do
      let bs ← read fileBuf off c.phdrSize
      let phdr := c.phdr bs
      let s := { s with entries := s.entries ++ [(off, phdr)] }
      if phdr.pType ≠ ptLoad then loadSegments c fileBuf phoff n (i + 1) s
      else
        let (ok, s) ← loadSegment fw phdr.pPaddr phdr.pMemsz fileBuf phdr.pOffset phdr.pFilesz s
        let () ← assert ok "Malformed PT_LOAD segment in kernel.bin"
        loadSegments c fileBuf phoff n (i + 1) s

def loadClass (c : ElfClass) (fileBuf : Buffer) (s : LoadState σ) : Reading (UInt64 × LoadState σ) := do
  let () ← assert (fileBuf.size ≥ c.ehdrSize) c.truncated
  let bs ← read fileBuf 0 c.ehdrSize
  let ehdr := c.ehdr bs
  let () ← assert (ehdr.eType = etExec ∧ ehdr.eMachine = c.machine) c.notExecutable
  let s ← loadSegments fw c fileBuf ehdr.ePhoff.toNat ehdr.ePhnum.toNat 0 s
  pure (ehdr.eEntry, s)

def loadElf (fileBuf : Buffer) (elfClass : UInt8) (s : LoadState σ) : Reading (UInt64 × LoadState σ) :=
  if elfClass = elfClass32 then loadClass fw elf32 fileBuf s
  else if elfClass = elfClass64 then loadClass fw elf64 fileBuf s
  else Traced.lift (.error (.panic ("Unsupported ELF class: " ++ toString elfClass)))

def loadKernel (fileBuf : Buffer) (s : LoadState σ) : Reading (KernelInfo × LoadState σ) := do
  let () ← assert (← elfMagic fileBuf) "Not a valid ELF file"
  let mbVersion ← detectMultibootVersion fileBuf
  let elfClass ← elfClassOf fileBuf
  let (entryPoint, s) ← loadElf fw fileBuf elfClass s
  pure (⟨entryPoint, mbVersion, bootModeOf mbVersion elfClass⟩, s)

end

/-! ## Without the list -/

section
variable (file : Buffer)

@[simp] theorem read_result (off n : Nat) : (read file off n).result = file.read off n := rfl

@[simp] theorem u32_result (off : Nat) : (u32 file off).result = file.u32 off := rfl

@[simp] theorem assert_result (condition : Bool) (message : String) :
    (assert condition message).result = Bang.assert condition message := rfl

theorem mb2HeaderAt_result (off : Nat) : (mb2HeaderAt file off).result = Bang.mb2HeaderAt file off := by
  unfold mb2HeaderAt Bang.mb2HeaderAt
  simp only [Traced.bind_result, u32_result]
  congr 1
  funext magic
  split <;> simp only [Traced.bind_result, u32_result, Traced.pure_result]

theorem mb1HeaderAt_result (off : Nat) : (mb1HeaderAt file off).result = Bang.mb1HeaderAt file off := by
  unfold mb1HeaderAt Bang.mb1HeaderAt
  simp only [Traced.bind_result, u32_result]
  congr 1
  funext magic
  split <;> simp only [Traced.bind_result, u32_result, Traced.pure_result]

/-- Two searches that go on alike from a header to the next find alike. -/
theorem search_result (stride size : Nat) {limit : Nat} (hpos : 0 < stride) {header search : Nat → Reading Bool}
    {header' search' : Nat → Except Stop Bool}
    (heq : ∀ off, search off = if off + size ≤ limit then do
      if ← header off then pure true else search (off + stride) else pure false)
    (heq' : ∀ off, search' off = if off + size ≤ limit then do
      if ← header' off then pure true else search' (off + stride) else pure false)
    (hheader : ∀ off, (header off).result = header' off) (off : Nat) : (search off).result = search' off := by
  induction hleft : limit + 1 - (off + size) using Nat.strong_induction_on generalizing off with
  | _ left ih =>
    rw [heq, heq']
    by_cases hin : off + size ≤ limit
    · rw [if_pos hin, if_pos hin, Traced.bind_result, hheader]
      congr 1
      funext found
      cases found with
      | true => rfl
      | false => exact ih _ (by omega) (off + stride) rfl
    · rw [if_neg hin, if_neg hin]
      rfl

theorem findMb2_result (limit off : Nat) : (findMb2 file limit off).result = Bang.findMb2 file limit off :=
  search_result 8 16 (by decide) (fun off => by rw [findMb2]) (fun off => by rw [Bang.findMb2])
    (mb2HeaderAt_result file) off

theorem findMb1_result (limit off : Nat) : (findMb1 file limit off).result = Bang.findMb1 file limit off :=
  search_result 4 12 (by decide) (fun off => by rw [findMb1]) (fun off => by rw [Bang.findMb1])
    (mb1HeaderAt_result file) off

theorem detectMultibootVersion_result :
    (detectMultibootVersion file).result = Bang.detectMultibootVersion file := by
  unfold detectMultibootVersion Bang.detectMultibootVersion
  rw [Traced.bind_result, findMb2_result]
  congr 1
  funext found2
  cases found2 with
  | true => rfl
  | false =>
    show (findMb1 file (min file.size 8192) 0 >>= _).result = _
    rw [Traced.bind_result, findMb1_result]
    congr 1
    funext found1
    cases found1 <;> rfl

theorem matchesAt_result (bs : List UInt8) : ∀ off, off + bs.length ≤ file.size →
    (matchesAt file off bs).result = .ok (decide ((file.data.drop off).take bs.length = bs)) := by
  induction bs with
  | nil =>
    intro off _
    rfl
  | cons b bs ih =>
    intro off hin
    rw [List.length_cons] at hin
    have hlt : off < file.data.length := by
      show off < file.size
      omega
    have hdrop : file.data.drop off = file.data[off] :: file.data.drop (off + 1) := List.drop_eq_getElem_cons hlt
    have hread : file.read off 1 = .ok [file.data[off]] := by
      rw [Buffer.read_eq (by omega), hdrop]
      rfl
    unfold matchesAt
    rw [Traced.bind_result, read_result, hread, hdrop, List.length_cons, List.take_succ_cons]
    by_cases hb : file.data[off] = b
    · rw [hb]
      have hrest := ih (off + 1) (by omega)
      simpa [bind, Except.bind] using hrest
    · simp [hb, bind, Except.bind, pure]

theorem elfMagic_result : (elfMagic file).result = .ok (Bang.elfMagic file) := by
  unfold elfMagic Bang.elfMagic
  by_cases hsize : file.size ≥ eiNident
  · rw [if_pos hsize, matchesAt_result file _ 0 (le_trans (by decide) hsize)]
    simp [hsize]
  · rw [if_neg hsize]
    simp [hsize, pure]

theorem elfClassOf_result : (elfClassOf file).result = Bang.elfClassOf file := by
  unfold elfClassOf Bang.elfClassOf
  rw [Traced.bind_result, read_result]
  cases file.read 4 1 <;> rfl

variable {σ : Type} (fw : Firmware σ)

theorem loadSegment_result (paddr memsz offset filesz : UInt64) (s : LoadState σ) :
    (loadSegment fw paddr memsz file offset filesz s).result =
      .ok (Bang.loadSegment fw paddr memsz file offset filesz s) := by
  unfold loadSegment Bang.loadSegment
  split
  · rfl
  · split
    · rfl
    · rename_i hin
      split
      · rfl
      · rcases pageWalk fw (pageLimit paddr memsz) (pageBase paddr) s with ⟨granted, s₁⟩
        cases granted with
        | false => rfl
        | true =>
          show (read file offset.toNat filesz.toNat >>= _).result = _
          rw [Traced.bind_result, read_result, Buffer.read_eq (not_not.1 hin).2]
          rfl

theorem loadSegments_result (c : ElfClass) (phoff n : Nat) : ∀ i (s : LoadState σ),
    (loadSegments fw c file phoff n i s).result = Bang.loadSegments fw c file phoff n i s := by
  induction n with
  | zero =>
    intro i s
    rfl
  | succ n ih =>
    intro i s
    unfold loadSegments Bang.loadSegments
    simp only
    split
    · rfl
    · split
      · rfl
      · rw [Traced.bind_result, read_result]
        congr 1
        funext bs
        split
        · exact ih _ _
        · rw [Traced.bind_result, loadSegment_result]
          show ((assert _ _) >>= _).result = _
          rw [Traced.bind_result, assert_result]
          congr 1
          funext _
          exact ih _ _

theorem loadClass_result (c : ElfClass) (s : LoadState σ) :
    (loadClass fw c file s).result = Bang.loadClass fw c file s := by
  unfold loadClass Bang.loadClass
  simp only [Traced.bind_result, assert_result, read_result, loadSegments_result, Traced.pure_result]

theorem loadElf_result (elfClass : UInt8) (s : LoadState σ) :
    (loadElf fw file elfClass s).result = Bang.loadElf fw file elfClass s := by
  unfold loadElf Bang.loadElf
  split
  · exact loadClass_result file fw elf32 s
  · split
    · exact loadClass_result file fw elf64 s
    · rfl

theorem loadKernel_result (s : LoadState σ) : (loadKernel fw file s).result = Bang.loadKernel fw file s := by
  unfold loadKernel Bang.loadKernel
  simp only [Traced.bind_result, elfMagic_result, assert_result, detectMultibootVersion_result, elfClassOf_result,
    loadElf_result, Traced.pure_result]
  rfl

end

/-! ## Inside the file -/

/-- Every read is inside the file, and none stopped the computation. -/
def Inside (file : Buffer) {α : Type} (x : Reading α) : Prop :=
  Traced.Safe (fun r => r.1 + r.2 ≤ file.size) .outOfRange x

section
variable {file : Buffer}

theorem inside_read {off n : Nat} (h : off + n ≤ file.size) : Inside file (read file off n) := by
  constructor
  · intro r hr
    rw [List.mem_singleton.1 hr]
    exact h
  · rw [read_result, Buffer.read_eq h]
    intro hstop
    cases hstop

theorem inside_u32 {off : Nat} (h : off + 4 ≤ file.size) : Inside file (u32 file off) := by
  constructor
  · intro r hr
    rw [List.mem_singleton.1 hr]
    exact h
  · rw [u32_result, Buffer.u32_eq h]
    intro hstop
    cases hstop

theorem inside_assert (condition : Bool) (message : String) : Inside file (assert condition message) := by
  apply Traced.safe_lift
  cases condition with
  | true => intro h; cases h
  | false => intro h; cases h

theorem inside_pure {α : Type} (a : α) : Inside file (pure a : Reading α) := Traced.safe_pure a

theorem inside_mb2HeaderAt {off : Nat} (h : off + 16 ≤ file.size) : Inside file (mb2HeaderAt file off) := by
  unfold mb2HeaderAt
  refine (inside_u32 (by omega)).bind fun magic _ => ?_
  split
  · refine (inside_u32 (by omega)).bind fun arch _ => ?_
    refine (inside_u32 (by omega)).bind fun hlen _ => ?_
    exact (inside_u32 (by omega)).bind fun chksum _ => inside_pure _
  · exact inside_pure _

theorem inside_mb1HeaderAt {off : Nat} (h : off + 12 ≤ file.size) : Inside file (mb1HeaderAt file off) := by
  unfold mb1HeaderAt
  refine (inside_u32 (by omega)).bind fun magic _ => ?_
  split
  · refine (inside_u32 (by omega)).bind fun flags _ => ?_
    exact (inside_u32 (by omega)).bind fun chksum _ => inside_pure _
  · exact inside_pure _

/-- A search that looks only at headers in front of its limit reads only what they read. -/
theorem inside_search (stride size : Nat) {limit : Nat} (hpos : 0 < stride) {header search : Nat → Reading Bool}
    (heq : ∀ off, search off = if off + size ≤ limit then do
      if ← header off then pure true else search (off + stride) else pure false)
    (hheader : ∀ off, off + size ≤ limit → Inside file (header off)) (off : Nat) : Inside file (search off) := by
  induction hleft : limit + 1 - (off + size) using Nat.strong_induction_on generalizing off with
  | _ left ih =>
    rw [heq]
    by_cases hin : off + size ≤ limit
    · rw [if_pos hin]
      refine (hheader off hin).bind fun found _ => ?_
      cases found with
      | true => exact inside_pure _
      | false => exact ih _ (by omega) (off + stride) rfl
    · rw [if_neg hin]
      exact inside_pure _

theorem inside_findMb2 {limit : Nat} (hlimit : limit ≤ file.size) (off : Nat) : Inside file (findMb2 file limit off) :=
  inside_search 8 16 (by decide) (fun off => by rw [findMb2]) (fun _ h => inside_mb2HeaderAt (le_trans h hlimit)) off

theorem inside_findMb1 {limit : Nat} (hlimit : limit ≤ file.size) (off : Nat) : Inside file (findMb1 file limit off) :=
  inside_search 4 12 (by decide) (fun off => by rw [findMb1]) (fun _ h => inside_mb1HeaderAt (le_trans h hlimit)) off

theorem inside_detectMultibootVersion : Inside file (detectMultibootVersion file) := by
  unfold detectMultibootVersion
  refine (inside_findMb2 (Nat.min_le_left _ _) 0).bind fun found2 _ => ?_
  cases found2 with
  | true => exact inside_pure _
  | false =>
    refine (inside_findMb1 (Nat.min_le_left _ _) 0).bind fun found1 _ => ?_
    cases found1 <;> exact inside_pure _

theorem inside_matchesAt (bs : List UInt8) : ∀ off, off + bs.length ≤ file.size → Inside file (matchesAt file off bs) := by
  induction bs with
  | nil =>
    intro off _
    exact inside_pure _
  | cons b bs ih =>
    intro off h
    rw [List.length_cons] at h
    unfold matchesAt
    refine (inside_read (by omega)).bind fun x _ => ?_
    split
    · exact ih (off + 1) (by omega)
    · exact inside_pure _

theorem inside_elfMagic : Inside file (elfMagic file) := by
  unfold elfMagic
  split
  · rename_i hsize
    exact inside_matchesAt _ 0 (le_trans (by decide) hsize)
  · exact inside_pure _

/-- The byte of the class is read once the file is known to have it. -/
theorem inside_elfClassOf (h : Bang.elfMagic file = true) : Inside file (elfClassOf file) := by
  unfold elfClassOf
  unfold Bang.elfMagic at h
  have hsize : eiNident ≤ file.size := (of_decide_eq_true h).1
  exact (inside_read (le_trans (by decide) hsize)).bind fun bs _ => inside_pure _

variable {σ : Type} (fw : Firmware σ)

theorem inside_loadSegment (paddr memsz offset filesz : UInt64) (s : LoadState σ) :
    Inside file (loadSegment fw paddr memsz file offset filesz s) := by
  unfold loadSegment
  split
  · exact inside_pure _
  · split
    · exact inside_pure _
    · rename_i hin
      split
      · exact inside_pure _
      · split
        · exact inside_pure _
        · exact (inside_read (not_not.1 hin).2).bind fun _ _ => inside_pure _

theorem inside_loadSegments (c : ElfClass) (phoff n : Nat) : ∀ i (s : LoadState σ),
    Inside file (loadSegments fw c file phoff n i s) := by
  induction n with
  | zero =>
    intro i s
    exact inside_pure _
  | succ n ih =>
    intro i s
    unfold loadSegments
    simp only
    split
    · exact inside_pure _
    · split
      · exact inside_pure _
      · rename_i hin
        refine (inside_read (by omega)).bind fun bs _ => ?_
        split
        · exact ih _ _
        · refine (inside_loadSegment fw _ _ _ _ _).bind fun r _ => ?_
          exact (inside_assert _ _).bind fun _ _ => ih _ _

theorem inside_loadClass (c : ElfClass) (s : LoadState σ) : Inside file (loadClass fw c file s) := by
  unfold loadClass
  refine (inside_assert _ _).bind fun _ hsize => ?_
  have hsize : c.ehdrSize ≤ file.size := of_decide_eq_true (assert_ok hsize)
  refine (inside_read (by omega)).bind fun bs _ => ?_
  refine (inside_assert _ _).bind fun _ _ => ?_
  exact (inside_loadSegments fw c _ _ _ _).bind fun s _ => inside_pure _

theorem inside_loadElf (elfClass : UInt8) (s : LoadState σ) : Inside file (loadElf fw file elfClass s) := by
  unfold loadElf
  split
  · exact inside_loadClass fw elf32 s
  · split
    · exact inside_loadClass fw elf64 s
    · apply Traced.safe_lift
      intro h
      cases h

theorem inside_loadKernel (s : LoadState σ) : Inside file (loadKernel fw file s) := by
  unfold loadKernel
  refine inside_elfMagic.bind fun magic hmagic => ?_
  rw [elfMagic_result] at hmagic
  cases hmagic
  refine (inside_assert _ _).bind fun _ hassert => ?_
  refine inside_detectMultibootVersion.bind fun version _ => ?_
  refine (inside_elfClassOf (assert_ok hassert)).bind fun elfClass _ => ?_
  exact (inside_loadElf fw elfClass s).bind fun r _ => inside_pure _

end

end Reading

/-- Every read that loading a kernel makes of its file is inside the file, however long the file is and
whatever is in it; no read stops the load. -/
theorem loadKernel_reads_inside {σ : Type} (fw : Firmware σ) (fileBuf : Buffer) (s : LoadState σ) :
    (Reading.loadKernel fw fileBuf s).result = loadKernel fw fileBuf s ∧
      (∀ r ∈ (Reading.loadKernel fw fileBuf s).reads, r.1 + r.2 ≤ fileBuf.size) ∧
      loadKernel fw fileBuf s ≠ .error .outOfRange := by
  have hresult := Reading.loadKernel_result fileBuf fw s
  obtain ⟨hreads, hstop⟩ := @Reading.inside_loadKernel fileBuf _ fw s
  rw [hresult] at hstop
  exact ⟨hresult, hreads, hstop⟩

end Bang
