/-
The page of `boot_params` that a Linux kernel is handed describes what was placed, byte for byte, when the
kernel is below 4 GiB: the field for its address has 32 bits, and a kernel that cannot be moved says itself
where it goes.
-/
import Bang.Linux.Placed

namespace Bang.Linux

open LittleEndian

section
variable {σ : Type}

/-! ## What the page says -/

/-- Offset `k` is in a field that `boot` writes: `RAMDISK_IMAGE` and `RAMDISK_SIZE` are, if an initrd was
placed. -/
def Handover.Written (h : Handover σ) (k : Nat) : Prop :=
  (code32Start ≤ k ∧ k < code32Start + 4) ∨ (cmdLinePtr ≤ k ∧ k < cmdLinePtr + 4) ∨ k = typeOfLoader ∨
    k = loadflags ∨ (h.ramdisk ≠ none ∧ ramdiskImage ≤ k ∧ k < ramdiskSize + 4)

/-- The byte of the page at offset `k`. -/
def Handover.byte (h : Handover σ) (k : Nat) : UInt8 := h.state.memory (h.params + k)

/-- The 32-bit number of the page at offset `o`. -/
def Handover.number (h : Handover σ) (o : Nat) : Nat := (h.state.memory.read32 (h.params + o)).toNat

/-- The page describes what was placed, with `flags` as the header's load flags. -/
structure Handover.Describes (h : Handover σ) (image : Buffer) (flags : UInt8) : Prop where
  kernel : h.number code32Start = h.kernelMem
  cmdline : h.number cmdLinePtr = h.cmdMem
  initrd : ∀ mem len, h.ramdisk = some (mem, len) → h.number ramdiskImage = mem ∧ h.number ramdiskSize = len
  loader : h.byte typeOfLoader = 0xFF
  flags : h.byte loadflags = flags ||| 1
  header : ∀ k, setupSects ≤ k → k < min (0x202 + (byteAt image 0x201).toNat) 4096 → ¬ h.Written k →
    h.byte k = byteAt image k
  rest : ∀ k < 4096, ¬ (setupSects ≤ k ∧ k < min (0x202 + (byteAt image 0x201).toNat) 4096) → ¬ h.Written k →
    h.byte k = 0

variable {fw : Firmware σ} {taken : σ → Nat → Prop} {readFile : CString16 → Option Buffer}

/-! ## What `boot` leaves in the page -/

/-- What holds of the page in every boot, wherever the kernel is. -/
structure Handover.Page (h : Handover σ) (image : Buffer) : Prop where
  kernel : h.state.memory.Holds (h.params + code32Start) (u32 (UInt32.ofNat h.kernelMem))
  cmdline : h.number cmdLinePtr = h.cmdMem
  initrd : ∀ mem len, h.ramdisk = some (mem, len) → h.number ramdiskImage = mem ∧ h.number ramdiskSize = len
  loader : h.byte typeOfLoader = 0xFF
  flags : h.byte loadflags = headerByte image loadflags ||| 1
  others : ∀ k < 4096, ¬ h.Written k → h.byte k = headerByte image k

theorem number_eq {h : Handover σ} {o n : Nat} (hn : n < 2 ^ 32)
    (hholds : h.state.memory.Holds (h.params + o) (u32 (UInt32.ofNat n))) : h.number o = n := by
  rw [Handover.number, hholds.read32_eq, UInt32.toNat_ofNat_of_lt' hn]

/-- The steps of a boot that gets as far as the kernel. -/
theorem boot_ok {kernelPath : CString16} {initrdPath : Option CString16} {cmdline : Str} {s : State σ}
    {h : Handover σ} {image : Buffer} (hread : readFile kernelPath = some image)
    (hboot : boot fw readFile kernelPath initrdPath cmdline s = .ok h) :
    ∃ s₁ s₂ s₃ s₄ m, readSetup image = .ok (setupOf image) ∧
      placeKernel fw (setupOf image) s = .ok (h.kernelMem, s₁) ∧
      bootParams fw image { s₁ with memory := copyKernel (setupOf image) h.kernelMem s₁.memory } = .ok (h.params, s₂) ∧
      placeCmdline fw image cmdline h.params s₂ = .ok (h.cmdMem, s₃) ∧
      placeInitrd fw readFile initrdPath h.params s₃ = .ok (h.ramdisk, s₄) ∧
      finishParams h.params h.kernelMem s₄.memory = .ok m ∧ h.state = { s₄ with memory := m } := by
  unfold boot at hboot
  rw [hread] at hboot
  obtain ⟨setup, hsetup, hboot⟩ := bind_ok hboot
  obtain ⟨⟨kernelMem, s₁⟩, hkernel, hboot⟩ := bind_ok hboot
  obtain ⟨⟨params, s₂⟩, hparams, hboot⟩ := bind_ok hboot
  obtain ⟨⟨cmdMem, s₃⟩, hcmdline, hboot⟩ := bind_ok hboot
  obtain ⟨⟨ramdisk, s₄⟩, hinitrd, hboot⟩ := bind_ok hboot
  obtain ⟨m, hfinish, hboot⟩ := bind_ok hboot
  have heq := (readSetup_ok hsetup).1
  subst heq
  obtain rfl := Except.ok.inj hboot
  exact ⟨s₁, s₂, s₃, s₄, m, hsetup, hkernel, hparams, hcmdline, hinitrd, hfinish, rfl⟩

/-- The page of every boot that gets as far as the kernel. -/
theorem boot_page (hfw : fw.Lawful taken) (hnull : fw.NonNull) {kernelPath : CString16}
    {initrdPath : Option CString16} {cmdline : Str} {s : State σ} {h : Handover σ} {image : Buffer}
    (hread : readFile kernelPath = some image)
    (hboot : boot fw readFile kernelPath initrdPath cmdline s = .ok h) : h.Page image := by
  obtain ⟨s₁, s₂, s₃, s₄, m, -, -, hparams, hcmdline, hinitrd, hfinish, hstate⟩ := boot_ok hread hboot
  obtain ⟨haligned, hpage, hheader⟩ := bootParams_ok hfw hnull hparams
  obtain ⟨hcmdMem, hpage₃, hcmdline, hsame₃⟩ := placeCmdline_ok hfw hnull haligned hpage hcmdline
  obtain ⟨hinitrd, hsame₄⟩ := placeInitrd_ok hfw hnull haligned hpage₃ hinitrd
  obtain ⟨hloader, hflags, hkernel, hsame⟩ := finishParams_ok hfinish
  have hbyte : ∀ k, h.byte k = m (h.params + k) := fun k => by rw [Handover.byte, hstate]
  simp only [typeOfLoader, loadflags, code32Start, ramdiskImage, ramdiskSize, cmdLinePtr] at *
  refine ⟨by rw [hstate]; exact hkernel, number_eq hcmdMem ?_, fun mem len hsome => ?_, (hbyte _).trans hloader,
    ?_, fun k hk hout => ?_⟩
  · rw [hstate]
    refine holds_of_same hcmdline fun k (_ : 0x228 ≤ k) (_ : k < 0x228 + 4) => ?_
    exact (hsame k (by omega)).trans (hsame₄ k (by omega) (by omega))
  · obtain ⟨hmem, hlen, himage, hsize⟩ := hinitrd mem len hsome
    refine ⟨number_eq hmem ?_, number_eq hlen ?_⟩
    · rw [hstate]
      exact holds_of_same himage fun k (_ : 0x218 ≤ k) (_ : k < 0x218 + 4) => hsame k (by omega)
    · rw [hstate]
      exact holds_of_same hsize fun k (_ : 0x21C ≤ k) (_ : k < 0x21C + 4) => hsame k (by omega)
  · refine (hbyte _).trans (hflags.trans ?_)
    rw [hsame₄ _ (by omega) (by omega), hsame₃ _ (by omega) (by omega), hheader _ (by omega)]
    rfl
  · have hnot : ¬ ((0x214 ≤ k ∧ k < 0x214 + 4) ∨ (0x228 ≤ k ∧ k < 0x228 + 4) ∨ k = 0x210 ∨ k = 0x211 ∨
        (h.ramdisk ≠ none ∧ 0x218 ≤ k ∧ k < 0x21C + 4)) := hout
    have hramdisk : h.ramdisk = none ∨ k < 0x218 ∨ 0x21C + 4 ≤ k := by
      by_contra hin
      rw [not_or] at hin
      exact hnot (.inr (.inr (.inr (.inr ⟨hin.1, by omega⟩))))
    rw [hbyte, hsame k (by omega), hsame₄ k hk hramdisk, hsame₃ k hk (by omega), hheader k hk]

/-! ## When it describes what was placed -/

/-- The page describes what was placed if the address of the kernel has 32 bits. -/
theorem Handover.Page.describes {h : Handover σ} {image : Buffer} (hpage : h.Page image)
    (hsize : 0x1000 ≤ image.size) (flags : UInt8) :
    h.Describes image flags ↔ h.kernelMem < 2 ^ 32 ∧ headerByte image loadflags ||| 1 = flags ||| 1 := by
  have hend : hdrEnd image (byteAt image 0x201) = min (0x202 + (byteAt image 0x201).toNat) 4096 := by
    unfold hdrEnd headerMagic
    omega
  constructor
  · intro hdescribes
    refine ⟨?_, hpage.flags.symm.trans hdescribes.flags⟩
    rw [← hdescribes.kernel]
    exact UInt32.toNat_lt _
  · rintro ⟨hkernel, hflags⟩
    refine ⟨number_eq hkernel hpage.kernel, hpage.cmdline, hpage.initrd, hpage.loader, hpage.flags.trans hflags,
      fun k hlo hhi hout => ?_, fun k hk hno hout => ?_⟩
    · rw [hpage.others k (by omega) hout, headerByte, hend, if_pos ⟨hlo, hhi⟩]
    · rw [hpage.others k hk hout, headerByte, hend, if_neg hno]

/-- The kernel is below 4 GiB if it can be moved there, or says to go there. -/
theorem kernelMem_lt_iff (hfw : fw.Lawful taken) (hnull : fw.NonNull) {image : Buffer} {kernelMem : Nat}
    {s s' : State σ} (hsetup : readSetup image = .ok (setupOf image))
    (h : placeKernel fw (setupOf image) s = .ok (kernelMem, s')) :
    kernelMem < 2 ^ 32 ↔ byteAt image relocatable ≠ 0 ∨ (at64 image.data prefAddress).toNat < 2 ^ 32 := by
  by_cases hrelocatable : byteAt image relocatable = 0
  · have hfixed := placeKernel_fixed (decide_eq_false (not_not_intro hrelocatable)) h
    rw [hfixed]
    exact ⟨.inr, fun hor => hor.resolve_left (not_not_intro hrelocatable)⟩
  · refine ⟨fun _ => .inl hrelocatable, fun _ => ?_⟩
    obtain ⟨-, -, hkernel⟩ := readSetup_ok hsetup
    have hlength := length_kernelBytes image
    have hle : (setupOf image).kernelBytes.length ≤ (setupOf image).need := Nat.le_max_right ..
    have hneed := need_lt image
    have halignment := alignment_lt image
    obtain ⟨a, pages, hgranted, -, hroom, -⟩ :=
      placeKernel_relocatable hfw hnull (decide_eq_true hrelocatable) (by omega) h
    have hlow := hgranted.low.2
    omega

theorem zero_or_one_iff (x : UInt8) : (0 : UInt8) ||| 1 = x ||| 1 ↔ x = 0 ∨ x = 1 := by
  rcases x with ⟨⟨x⟩⟩
  revert x
  decide +kernel

/-- The load flags of the header are those of the file, with bit 0 set, if it reaches them or they are clear
but for bit 0. -/
theorem headerByte_loadflags_iff {image : Buffer} (hsize : 0x1000 ≤ image.size) :
    headerByte image loadflags ||| 1 = byteAt image loadflags ||| 1 ↔
      0x10 ≤ (byteAt image 0x201).toNat ∨ byteAt image loadflags = 0 ∨ byteAt image loadflags = 1 := by
  unfold headerByte hdrEnd headerMagic
  split
  · rename_i hin
    unfold loadflags at hin
    exact ⟨fun _ => .inl (by omega), fun _ => rfl⟩
  · rename_i hout
    have hshort : ¬ 0x10 ≤ (byteAt image 0x201).toNat := by
      unfold setupSects loadflags at hout
      omega
    rw [zero_or_one_iff, or_iff_right hshort]

/-- The page of `boot_params` describes what was placed exactly when the kernel can be moved or says to go
below 4 GiB. The load flags are the header's, of which a header that stops in front of them has none; to be
the file's byte there, they have to be within the header, or 0 or 1. -/
theorem describes_iff (hfw : fw.Lawful taken) (hnull : fw.NonNull) {kernelPath : CString16}
    {initrdPath : Option CString16} {cmdline : Str} {s : State σ} {h : Handover σ} {image : Buffer}
    (hread : readFile kernelPath = some image)
    (hboot : boot fw readFile kernelPath initrdPath cmdline s = .ok h) :
    (h.Describes image (headerByte image loadflags) ↔
      byteAt image relocatable ≠ 0 ∨ (at64 image.data prefAddress).toNat < 2 ^ 32) ∧
    (h.Describes image (byteAt image loadflags) ↔
      (byteAt image relocatable ≠ 0 ∨ (at64 image.data prefAddress).toNat < 2 ^ 32) ∧
        (0x10 ≤ (byteAt image 0x201).toNat ∨ byteAt image loadflags = 0 ∨ byteAt image loadflags = 1)) := by
  obtain ⟨s₁, s₂, s₃, s₄, m, hsetup, hkernel, -⟩ := boot_ok hread hboot
  have hpage := boot_page hfw hnull hread hboot
  have hsize := (readSetup_ok hsetup).2.1
  rw [hpage.describes hsize, hpage.describes hsize, kernelMem_lt_iff hfw hnull hsetup hkernel]
  exact ⟨and_iff_left rfl, and_congr_right fun _ => headerByte_loadflags_iff hsize⟩

end

/-! ## Two kernels -/

/-- A small bzImage that can be moved or not, and prefers `high` times 4 GiB. -/
def bzImage (relocatable high : UInt8) : Buffer where
  data := (List.range 4096).map fun i =>
    ([(0x1F1, 1), (0x1FE, 0x55), (0x1FF, 0xAA), (0x201, 0x66), (0x202, 0x48), (0x203, 0x64), (0x204, 0x72),
      (0x205, 0x53), (0x206, 0x0F), (0x207, 0x02), (0x211, 0x01), (0x231, 0x10), (0x234, relocatable),
      (0x236, 0x08), (0x25C, high)].lookup i).getD 0
  fits := by simp

/-- The files of a volume with a kernel and an initrd. -/
def linuxFiles (kernel : Buffer) (path : CString16) : Option Buffer :=
  if path = cstr16 "\\vmlinuz" then some kernel
  else if path = cstr16 "\\initrd" then some ⟨[1, 2, 3], by simp⟩
  else none

/-- A boot of that volume, from a memory that is clear. -/
def bootLinux (kernel : Buffer) (initrdPath : Option CString16) : Except Failure (Handover Bump) :=
  boot bump.nonNull (linuxFiles kernel) (cstr16 "\\vmlinuz") initrdPath "quiet".toList
    ⟨⟨fun _ => false, 0x10000⟩, fun _ => 0, []⟩

/-- A kernel that can be moved, with an initrd. -/
theorem describes_relocatable : ∃ h, bootLinux (bzImage 1 1) (some (cstr16 "\\initrd")) = .ok h ∧
    h.Describes (bzImage 1 1) (headerByte (bzImage 1 1) loadflags) := by
  have hboot : (bootLinux (bzImage 1 1) (some (cstr16 "\\initrd"))).isOk = true := by decide +kernel
  cases h : bootLinux (bzImage 1 1) (some (cstr16 "\\initrd")) with
  | error e => rw [h] at hboot; cases hboot
  | ok handover =>
    exact ⟨handover, rfl, (describes_iff bump_lawful.nonNull bump.nonNull_nonNull (if_pos rfl) h).1.2
      (.inl (by decide +kernel))⟩

/-- A kernel that has to go to 4 GiB: the field for its address is 0. -/
theorem not_describes_high : ∃ h, bootLinux (bzImage 0 1) none = .ok h ∧
    h.kernelMem = 2 ^ 32 ∧ h.number code32Start = 0 ∧ ∀ flags, ¬ h.Describes (bzImage 0 1) flags := by
  have hboot : (bootLinux (bzImage 0 1) none).toOption.map (fun h => (h.kernelMem, h.number code32Start)) =
      some (2 ^ 32, 0) := by decide +kernel
  cases h : bootLinux (bzImage 0 1) none with
  | error e => rw [h] at hboot; cases hboot
  | ok handover =>
    rw [h] at hboot
    obtain ⟨hkernel, hnumber⟩ := Prod.mk.inj (Option.some.inj hboot)
    refine ⟨handover, rfl, hkernel, hnumber, fun flags hdescribes => ?_⟩
    have hsame := hdescribes.kernel
    rw [hkernel, hnumber] at hsame
    cases hsame

end Bang.Linux
