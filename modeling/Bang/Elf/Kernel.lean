/-
Loading a kernel (`load_kernel` of `src/elf.rs`) from the bytes of its file: the checks, the loop
over the program headers, which is the same code for both ELF classes, and the boot mode.
-/
import Bang.Elf.Segment

namespace Bang

/-- Boot mode determined by ELF class and multiboot headers. -/
inductive BootMode
  /-- Multiboot1 or Multiboot2 kernel: use the 32-bit trampoline. -/
  | protected32
  /-- ELF64 kernel without multiboot: use the 64-bit direct handoff. -/
  | long64
  deriving DecidableEq, Repr

/-- Result of loading a kernel. -/
structure KernelInfo where
  entryPoint : UInt64
  mbVersion : UInt32
  bootMode : BootMode
  deriving DecidableEq, Repr

section
variable {σ : Type} (fw : Firmware σ)

/-- The loop over the program headers, of which `n` are left and the next is number `i`. -/
def loadSegments (c : ElfClass) (fileBuf : Buffer) (phoff : Nat) :
    (n i : Nat) → LoadState σ → Except Stop (LoadState σ)
  | 0, _, s => .ok s
  | n + 1, i, s =>
    let off := phoff + i * c.phdrSize
    -- `checked_mul` and `checked_add`: past the address space
    if off ≥ 2 ^ 64 then .ok s
    -- past the end of the file
    else if off + c.phdrSize ≥ 2 ^ 64 ∨ off + c.phdrSize > fileBuf.size then .ok s
    else do
      let bs ← fileBuf.read off c.phdrSize
      let phdr := c.phdr bs
      let s := { s with entries := s.entries ++ [(off, phdr)] }
      if phdr.pType ≠ ptLoad then loadSegments c fileBuf phoff n (i + 1) s
      else
        let (ok, s) := loadSegment fw phdr.pPaddr phdr.pMemsz fileBuf phdr.pOffset phdr.pFilesz s
        let () ← assert ok "Malformed PT_LOAD segment in kernel.bin"
        loadSegments c fileBuf phoff n (i + 1) s

/-- One of the two branches over the ELF class: the file header, its checks, and the segments. -/
def loadClass (c : ElfClass) (fileBuf : Buffer) (s : LoadState σ) :
    Except Stop (UInt64 × LoadState σ) := do
  let () ← assert (fileBuf.size ≥ c.ehdrSize) c.truncated
  let bs ← fileBuf.read 0 c.ehdrSize
  let ehdr := c.ehdr bs
  let () ← assert (ehdr.eType = etExec ∧ ehdr.eMachine = c.machine) c.notExecutable
  let s ← loadSegments fw c fileBuf ehdr.ePhoff.toNat ehdr.ePhnum.toNat 0 s
  pure (ehdr.eEntry, s)

/-- `file_size >= EI_NIDENT`, and the four bytes of the magic. -/
def elfMagic (fileBuf : Buffer) : Bool :=
  fileBuf.size ≥ eiNident ∧ fileBuf.data.take 4 = [0x7F, 0x45, 0x4C, 0x46]

/-- `file_buf[4]`. -/
def elfClassOf (fileBuf : Buffer) : Except Stop UInt8 :=
  (fileBuf.read 4 1).map fun bs => bs.headD 0

/-- The boot mode of a kernel of the given version and class. -/
def bootModeOf (mbVersion : UInt32) (elfClass : UInt8) : BootMode :=
  if mbVersion > 0 then .protected32
  else if elfClass = elfClass64 then .long64
  -- 32-bit ELF without multiboot: still use trampoline, but no MBI
  else .protected32

/-- The branch over the ELF class: the entry point, and what loading changed. -/
def loadElf (fileBuf : Buffer) (elfClass : UInt8) (s : LoadState σ) : Except Stop (UInt64 × LoadState σ) :=
  if elfClass = elfClass32 then loadClass fw elf32 fileBuf s
  else if elfClass = elfClass64 then loadClass fw elf64 fileBuf s
  else .error (.panic ("Unsupported ELF class: " ++ toString elfClass))

/-- Load a kernel image from the bytes of its file. -/
def loadKernel (fileBuf : Buffer) (s : LoadState σ) : Except Stop (KernelInfo × LoadState σ) := do
  let () ← assert (elfMagic fileBuf) "Not a valid ELF file"
  let mbVersion ← detectMultibootVersion fileBuf
  let elfClass ← elfClassOf fileBuf
  let (entryPoint, s) ← loadElf fw fileBuf elfClass s
  pure (⟨entryPoint, mbVersion, bootModeOf mbVersion elfClass⟩, s)

/-! ## What a load that returns has done -/

theorem bind_ok {ε α β : Type} {x : Except ε α} {f : α → Except ε β} {b : β} (h : (x >>= f) = .ok b) :
    ∃ a, x = .ok a ∧ f a = .ok b := by
  cases x with
  | error e => cases h
  | ok a => exact ⟨a, rfl, h⟩

/-- One computation and then another, where the first succeeds. -/
theorem ok_bind {ε α β : Type} {x : Except ε α} {f : α → Except ε β} {a : α} {y : Except ε β} (hx : x = .ok a)
    (h : f a = y) : (x >>= f) = y := by
  rw [hx]
  exact h

theorem assert_ok {condition : Bool} {message : String} {u : Unit} (h : assert condition message = .ok u) :
    condition = true := by
  cases condition with
  | false => cases h
  | true => rfl

/-- The class a file is loaded as. -/
def classFor (elfClass : UInt8) : ElfClass := if elfClass = elfClass32 then elf32 else elf64

/-- The file header of a file of class `c`. -/
def ElfClass.fileHeader (c : ElfClass) (fileBuf : Buffer) : Ehdr := c.ehdr (fileBuf.data.take c.ehdrSize)

variable {fw}

theorem loadClass_ok {c : ElfClass} {fileBuf : Buffer} {s s' : LoadState σ} {entryPoint : UInt64}
    (h : loadClass fw c fileBuf s = .ok (entryPoint, s')) :
    entryPoint = (c.fileHeader fileBuf).eEntry ∧
      loadSegments fw c fileBuf (c.fileHeader fileBuf).ePhoff.toNat (c.fileHeader fileBuf).ePhnum.toNat 0 s =
        .ok s' := by
  unfold loadClass at h
  obtain ⟨_, hsize, h⟩ := bind_ok h
  have hsize : c.ehdrSize ≤ fileBuf.size := of_decide_eq_true (assert_ok hsize)
  obtain ⟨bs, hread, h⟩ := bind_ok h
  obtain ⟨_, -, h⟩ := bind_ok h
  obtain ⟨s₁, hsegments, h⟩ := bind_ok h
  rw [Buffer.read_eq (by omega)] at hread
  cases hread
  cases h
  exact ⟨rfl, hsegments⟩

theorem loadElf_ok {fileBuf : Buffer} {elfClass : UInt8} {s : LoadState σ} {r : UInt64 × LoadState σ}
    (h : loadElf fw fileBuf elfClass s = .ok r) :
    (elfClass = elfClass32 ∨ elfClass = elfClass64) ∧ loadClass fw (classFor elfClass) fileBuf s = .ok r := by
  unfold loadElf at h
  unfold classFor
  by_cases h32 : elfClass = elfClass32
  · rw [if_pos h32] at h ⊢
    exact ⟨Or.inl h32, h⟩
  · rw [if_neg h32] at h ⊢
    by_cases h64 : elfClass = elfClass64
    · rw [if_pos h64] at h
      exact ⟨Or.inr h64, h⟩
    · rw [if_neg h64] at h
      cases h

/-- A load that returns read one of the two classes, placed its segments, and reports the entry
point of the file header, the detected version and the boot mode that follows from the two. -/
theorem loadKernel_ok {fileBuf : Buffer} {s s' : LoadState σ} {info : KernelInfo}
    (h : loadKernel fw fileBuf s = .ok (info, s')) :
    ∃ elfClass, elfClassOf fileBuf = .ok elfClass ∧ (elfClass = elfClass32 ∨ elfClass = elfClass64) ∧
      detectMultibootVersion fileBuf = .ok info.mbVersion ∧
      info.bootMode = bootModeOf info.mbVersion elfClass ∧
      loadClass fw (classFor elfClass) fileBuf s = .ok (info.entryPoint, s') := by
  unfold loadKernel at h
  obtain ⟨_, -, h⟩ := bind_ok h
  obtain ⟨mbVersion, hversion, h⟩ := bind_ok h
  obtain ⟨elfClass, hclass, h⟩ := bind_ok h
  obtain ⟨⟨entryPoint, s₁⟩, hload, h⟩ := bind_ok h
  cases h
  obtain ⟨hcls, hload⟩ := loadElf_ok hload
  exact ⟨elfClass, hclass, hcls, hversion, rfl, hload⟩

end

end Bang
