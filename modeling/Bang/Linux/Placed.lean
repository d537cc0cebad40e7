/-
What the steps of booting Linux do, one lemma for each: where the firmware's pages are, and what is
written to the page of `boot_params` and what is not.
-/
import Bang.Elf.Walk
import Bang.Linux.Boot

namespace Bang.Linux

open LittleEndian

/-! ## Pages -/

theorem le_divCeil (n : Nat) : n ≤ divCeil n pageSize * pageSize := by
  unfold divCeil pageSize
  split <;> omega

/-- Two runs with no page in common are one behind the other. -/
theorem runs_apart {a b m n : Nat} (ha : pageSize ∣ a) (hb : pageSize ∣ b) (hm : 0 < m) (hn : 0 < n)
    (h : ∀ q, InRun a m q → ¬ InRun b n q) : a + m * pageSize ≤ b ∨ b + n * pageSize ≤ a := by
  obtain ⟨x, rfl⟩ := ha
  obtain ⟨y, rfl⟩ := hb
  by_contra hnot
  rw [not_or] at hnot
  -- the later of the two first pages is in both runs
  have hpage := h (pageSize * max x y)
  unfold InRun pageSize at hpage
  unfold pageSize at hnot
  refine hpage ⟨max x y - x, by omega, by omega⟩ ⟨max x y - y, by omega, by omega⟩

section
variable {σ : Type} {fw : Firmware σ} {taken : σ → Nat → Prop}

/-- What an allocation below 4 GiB gives: aligned pages that were free, with room for the bytes asked for. -/
structure Granted (taken : σ → Nat → Prop) (bytes a pages : Nat) (s s' : State σ) : Prop where
  memory : s'.memory = s.memory
  granted : s'.granted = s.granted ++ [(a, pages)]
  nonNull : a ≠ 0
  aligned : pageSize ∣ a
  room : bytes ≤ pages * pageSize
  low : 0 < pages ∧ a + pages * pageSize ≤ 2 ^ 32
  free : ∀ q, InRun a pages q → ¬ taken s.firmware q
  taken_iff : ∀ q, taken s'.firmware q ↔ taken s.firmware q ∨ InRun a pages q

theorem Granted.lt {bytes a pages : Nat} {s s' : State σ} (h : Granted taken bytes a pages s s') : a < 2 ^ 32 := by
  obtain ⟨hpages, hlow⟩ := h.low
  unfold pageSize at hlow
  omega

theorem allocLow_some (hfw : fw.Lawful taken) (hnull : fw.NonNull) {bytes a : Nat} {s s' : State σ}
    (h : allocLow fw bytes s = (some a, s')) : ∃ pages, Granted taken bytes a pages s s' := by
  unfold allocLow at h
  simp only at h
  split at h
  · cases h
  · rename_i p f hask
    cases h
    obtain ⟨hdvd, hlow, hfree, htaken⟩ := hfw.below_some hask
    refine ⟨_, rfl, rfl, ?_, hdvd, ?_, ⟨Nat.lt_of_lt_of_le Nat.one_pos (le_max_right _ _), ?_⟩, hfree, htaken⟩
    · rintro rfl
      exact hnull _ _ _ (by rw [hask])
    · exact (le_divCeil bytes).trans (Nat.mul_le_mul_right _ (le_max_left _ _))
    · -- the pages are aligned, so that the byte at 4 GiB is not among them
      obtain ⟨k, rfl⟩ := hdvd
      unfold pageSize at hlow ⊢
      omega

/-- A refusal takes no page. -/
theorem allocLow_none (hfw : fw.Lawful taken) {bytes : Nat} {s s' : State σ}
    (h : allocLow fw bytes s = (none, s')) :
    s'.memory = s.memory ∧ ∀ q, taken s'.firmware q ↔ taken s.firmware q := by
  unfold allocLow at h
  simp only at h
  split at h
  · rename_i f hask
    cases h
    exact ⟨rfl, hfw.below_none hask⟩
  · cases h

/-- The memory of a page that was taken is not in pages handed out later. -/
theorem Granted.outside {bytes a pages p : Nat} {s s' : State σ} (h : Granted taken bytes a pages s s')
    (hp : pageSize ∣ p) (hpage : taken s.firmware p) : p + pageSize ≤ a ∨ a + pages * pageSize ≤ p := by
  have hapart := runs_apart h.aligned hp h.low.1 Nat.one_pos fun q hin hone => ?_
  · omega
  · obtain ⟨k, hk, rfl⟩ := hone
    obtain rfl : k = 0 := by omega
    exact h.free p (by rwa [Nat.zero_mul, Nat.add_zero] at hin) hpage

/-- What is stored in pages handed out is not seen in a page that was taken before. -/
theorem Granted.store_page {bytes a pages p : Nat} {s s' : State σ} (h : Granted taken bytes a pages s s')
    (hp : pageSize ∣ p) (hpage : taken s.firmware p) (m : Mem UInt8) {bs : List UInt8} (hbs : bs.length ≤ bytes)
    {k : Nat} (hk : k < 4096) : m.store a bs (p + k) = m (p + k) := by
  have hroom := h.room
  have houtside := h.outside hp hpage
  unfold pageSize at hroom houtside
  rcases houtside with hbelow | habove
  · exact Mem.store_below m bs (by omega)
  · exact Mem.store_above m bs (by omega)

/-! ## The kernel -/

/-- The next multiple is the first that is not below. -/
theorem nextMultipleOf_spec {a k : Nat} (hk : 0 < k) (h : a + k ≤ 2 ^ 64) :
    a ≤ nextMultipleOf a k ∧ nextMultipleOf a k < a + k ∧ k ∣ nextMultipleOf a k := by
  have hmod := Nat.mod_lt a hk
  unfold nextMultipleOf
  split
  · rename_i hzero
    exact ⟨Nat.le_refl _, by omega, Nat.dvd_of_mod_eq_zero hzero⟩
  · have hsum : a + (k - a % k) = k * (a / k + 1) := by
      have hdiv := Nat.div_add_mod a k
      rw [Nat.mul_succ]
      omega
    rw [Nat.mod_eq_of_lt (by omega)]
    refine ⟨Nat.le_add_right .., by omega, ?_⟩
    rw [hsum]
    exact Nat.dvd_mul_right ..

/-- How many bytes of kernel there are behind the setup sectors. -/
theorem length_kernelBytes (image : Buffer) :
    (setupOf image).kernelBytes.length = image.size - kernelOffset (byteAt image setupSects) :=
  List.length_drop

/-- A kernel needs less than half of the address space: it has 32 bits for what it needs, or fits in a buffer. -/
theorem need_lt (image : Buffer) : (setupOf image).need < 2 ^ 63 := by
  have hinit : (setupOf image).initSize < 2 ^ 32 := UInt32.toNat_lt _
  have hlength := length_kernelBytes image
  have hfits := image.fits
  have hsize : image.size = image.data.length := rfl
  unfold Setup.need
  omega

theorem alignment_lt (image : Buffer) : (setupOf image).alignment < 2 ^ 32 := UInt32.toNat_lt _

/-- A kernel that can be moved is aligned, and lies in the pages it was given, with room for what it needs. -/
theorem placeKernel_relocatable (hfw : fw.Lawful taken) (hnull : fw.NonNull) {setup : Setup} {kernelMem : Nat}
    {s s' : State σ} (hrelocatable : setup.relocatable = true) (hsum : setup.need + setup.alignment < 2 ^ 64)
    (h : placeKernel fw setup s = .ok (kernelMem, s')) :
    ∃ a pages, Granted taken (setup.need + setup.alignment) a pages s s' ∧ a ≤ kernelMem ∧
      kernelMem + setup.need ≤ a + pages * pageSize ∧ (setup.alignment ≠ 0 → setup.alignment ∣ kernelMem) := by
  unfold placeKernel at h
  rw [if_pos hrelocatable, Nat.mod_eq_of_lt hsum] at h
  split at h
  · rename_i a s₁ hask
    cases h
    obtain ⟨pages, hgranted⟩ := allocLow_some hfw hnull hask
    have hroom := hgranted.room
    have hlow := hgranted.low.2
    refine ⟨a, pages, hgranted, ?_⟩
    split
    · have hpos : 0 < setup.alignment := by omega
      -- the alignment has room in the pages, so that the sum is far from wrapping
      obtain ⟨hle, hlt, hdvd⟩ := nextMultipleOf_spec hpos (show a + setup.alignment ≤ 2 ^ 64 by omega)
      exact ⟨hle, by omega, fun _ => hdvd⟩
    · refine ⟨Nat.le_refl _, by omega, fun hne => ?_⟩
      have hone : setup.alignment = 1 := by omega
      rw [hone]
      exact Nat.one_dvd a
  · cases h

/-- A kernel that cannot is where it says. -/
theorem placeKernel_fixed {setup : Setup} {kernelMem : Nat} {s s' : State σ} (hfixed : setup.relocatable = false)
    (h : placeKernel fw setup s = .ok (kernelMem, s')) : kernelMem = setup.prefAddress := by
  unfold placeKernel at h
  rw [if_neg (by rw [hfixed]; exact Bool.false_ne_true)] at h
  simp only at h
  split at h
  · cases h; rfl
  · cases h

/-! ## The steps -/

theorem bootParams_steps {image : Buffer} {params : Nat} {s s' : State σ}
    (h : bootParams fw image s = .ok (params, s')) : ∃ s₁ header m, allocLow fw 4096 s = (some params, s₁) ∧
      slice image setupSects (hdrEnd image (byteAt image 0x201)) = .ok header ∧
      put params setupSects header (s₁.memory.store params (List.replicate 4096 0)) = .ok m ∧
      s' = { s₁ with memory := m } := by
  unfold bootParams at h
  split at h
  · cases h
  · rename_i a s₁ hask
    obtain ⟨b, hb, h⟩ := bind_ok h
    obtain ⟨header, hheader, h⟩ := bind_ok h
    obtain ⟨m, hput, h⟩ := bind_ok h
    cases h
    cases u8At_ok hb
    exact ⟨s₁, header, m, hask, hheader, hput, rfl⟩

theorem placeCmdline_steps {image : Buffer} {cmdline : Str} {params cmdMem : Nat} {s s' : State σ}
    (h : placeCmdline fw image cmdline params s = .ok (cmdMem, s')) :
    ∃ cl s₁ m, cutCmdline cmdline (at32 image.data cmdlineSize).toNat = .ok cl ∧
      allocLow fw ((utf8 cl).length + 1) s = (some cmdMem, s₁) ∧
      putU32 params cmdLinePtr (UInt32.ofNat cmdMem) (s₁.memory.store cmdMem (utf8 cl ++ [0])) = .ok m ∧
      s' = { s₁ with memory := m } := by
  unfold placeCmdline at h
  obtain ⟨size, hsize, h⟩ := bind_ok h
  obtain ⟨cl, hcl, h⟩ := bind_ok h
  split at h
  · cases h
  · rename_i a s₁ hask
    obtain ⟨m, hput, h⟩ := bind_ok h
    cases h
    cases u32At_ok hsize
    rw [Mem.store_store] at hput
    exact ⟨cl, s₁, m, hcl, hask, hput, rfl⟩

/-- There is no initrd, or there is no memory for it, or it is placed. -/
theorem placeInitrd_steps {readFile : CString16 → Option Buffer} {initrdPath : Option CString16} {params : Nat}
    {ramdisk : Option (Nat × Nat)} {s s' : State σ}
    (h : placeInitrd fw readFile initrdPath params s = .ok (ramdisk, s')) :
    (ramdisk = none ∧ (s' = s ∨ ∃ bytes, allocLow fw bytes s = (none, s'))) ∨
      ∃ (initrd : Buffer) (mem : Nat) (s₁ : State σ) (m m' : Mem UInt8), ramdisk = some (mem, initrd.size) ∧
        allocLow fw initrd.size s = (some mem, s₁) ∧
        putU32 params ramdiskImage (UInt32.ofNat mem) (s₁.memory.store mem initrd.data) = .ok m ∧
        putU32 params ramdiskSize (UInt32.ofNat initrd.size) m = .ok m' ∧ s' = { s₁ with memory := m' } := by
  unfold placeInitrd at h
  split at h
  · cases h
    exact .inl ⟨rfl, .inl rfl⟩
  split at h
  · cases h
    exact .inl ⟨rfl, .inl rfl⟩
  rename_i initrd _
  split at h
  · rename_i s₁ hask
    cases h
    exact .inl ⟨rfl, .inr ⟨_, hask⟩⟩
  · rename_i a s₁ hask
    obtain ⟨m, himage, h⟩ := bind_ok h
    obtain ⟨m', hsize, h⟩ := bind_ok h
    cases h
    exact .inr ⟨initrd, a, s₁, m, m', rfl, hask, himage, hsize, rfl⟩

/-! ## The page of `boot_params` -/

theorem put_ok {params o : Nat} {bs : List UInt8} {m m' : Mem UInt8} (h : put params o bs m = .ok m') :
    m'.Holds (params + o) bs ∧ ∀ k, k < o ∨ o + bs.length ≤ k → m' (params + k) = m (params + k) := by
  unfold put at h
  split at h
  · cases h
    refine ⟨Mem.holds_store _ _ _, fun k hk => Mem.sameOutside_store _ _ _ _ ?_⟩
    omega
  · cases h

theorem putByte_ok {params o : Nat} {b : UInt8} {m m' : Mem UInt8} (h : put params o [b] m = .ok m') :
    m' (params + o) = b ∧ ∀ k, k ≠ o → m' (params + k) = m (params + k) := by
  obtain ⟨hholds, hsame⟩ := put_ok h
  refine ⟨hholds 0 Nat.one_pos, fun k hk => hsame k ?_⟩
  rw [List.length_singleton]
  omega

theorem putU32_ok {params o : Nat} {v : UInt32} {m m' : Mem UInt8} (h : putU32 params o v m = .ok m') :
    m'.Holds (params + o) (u32 v) ∧ ∀ k, k < o ∨ o + 4 ≤ k → m' (params + k) = m (params + k) := by
  obtain ⟨hholds, hsame⟩ := put_ok h
  rw [length_u32] at hsame
  exact ⟨hholds, hsame⟩

/-- A field of the page stays as it is while its four bytes do. -/
theorem holds_of_same {params o : Nat} {v : UInt32} {m m' : Mem UInt8} (h : m.Holds (params + o) (u32 v))
    (hsame : ∀ k, o ≤ k → k < o + 4 → m' (params + k) = m (params + k)) : m'.Holds (params + o) (u32 v) := by
  intro i hi
  have hi4 : i < 4 := by rwa [length_u32] at hi
  rw [Nat.add_assoc, hsame (o + i) (by omega) (by omega), ← Nat.add_assoc]
  exact h i hi

/-- What a page with the header of an image in it holds at offset `k`. -/
def headerByte (image : Buffer) (k : Nat) : UInt8 :=
  if setupSects ≤ k ∧ k < hdrEnd image (byteAt image 0x201) then byteAt image k else 0

/-- The page is taken, and holds the header and zeros. -/
theorem bootParams_ok (hfw : fw.Lawful taken) (hnull : fw.NonNull) {image : Buffer} {params : Nat} {s s' : State σ}
    (h : bootParams fw image s = .ok (params, s')) :
    pageSize ∣ params ∧ taken s'.firmware params ∧ ∀ k < 4096, s'.memory (params + k) = headerByte image k := by
  obtain ⟨s₁, header, m, hask, hslice, hput, rfl⟩ := bootParams_steps h
  obtain ⟨hlo, hhi, hheader⟩ := slice_ok hslice
  obtain ⟨pages, hgranted⟩ := allocLow_some hfw hnull hask
  refine ⟨hgranted.aligned, (hgranted.taken_iff _).2 (.inr ⟨0, hgranted.low.1, by omega⟩), fun k hk => ?_⟩
  have hsize : image.data.length = image.size := rfl
  have hlength := slice_length hslice
  obtain ⟨hholds, hsame⟩ := put_ok hput
  rw [hlength] at hsame
  unfold headerByte
  split
  · rename_i hin
    obtain ⟨j, rfl⟩ : ∃ j, k = setupSects + j := ⟨k - setupSects, by omega⟩
    have hbyte : header[j]? = some (byteAt image (setupSects + j)) := by
      rw [hheader, List.getElem?_take_of_lt (by omega), List.getElem?_drop, byteAt,
        List.getD_eq_getElem?_getD, List.getElem?_eq_getElem (by omega), Option.getD_some]
    rw [← Nat.add_assoc, ← Option.some_inj, ← hbyte, List.getElem?_eq_getElem (by omega)]
    exact congrArg some (hholds j (by omega))
  · rename_i hout
    refine (hsame k (by omega)).trans ?_
    exact (Mem.holds_replicate _ _ _ _).1 (Mem.holds_store _ _ _) k hk

/-- The command line has an address below 4 GiB, which is put in its field of the page. -/
theorem placeCmdline_ok (hfw : fw.Lawful taken) (hnull : fw.NonNull) {image : Buffer} {cmdline : Str}
    {params cmdMem : Nat} {s s' : State σ} (hparams : pageSize ∣ params) (hpage : taken s.firmware params)
    (h : placeCmdline fw image cmdline params s = .ok (cmdMem, s')) :
    cmdMem < 2 ^ 32 ∧ taken s'.firmware params ∧
      s'.memory.Holds (params + cmdLinePtr) (u32 (UInt32.ofNat cmdMem)) ∧
      ∀ k < 4096, k < cmdLinePtr ∨ cmdLinePtr + 4 ≤ k → s'.memory (params + k) = s.memory (params + k) := by
  obtain ⟨cl, s₁, m, -, hask, hput, rfl⟩ := placeCmdline_steps h
  obtain ⟨pages, hgranted⟩ := allocLow_some hfw hnull hask
  obtain ⟨hholds, hsame⟩ := putU32_ok hput
  refine ⟨hgranted.lt, (hgranted.taken_iff _).2 (.inl hpage), hholds, fun k hk hout => ?_⟩
  refine (hsame k hout).trans ?_
  rw [hgranted.store_page hparams hpage _ (by simp) hk, hgranted.memory]

/-- An initrd that was placed has an address and a length below 4 GiB, which are put in their fields. -/
theorem placeInitrd_ok (hfw : fw.Lawful taken) (hnull : fw.NonNull) {readFile : CString16 → Option Buffer}
    {initrdPath : Option CString16} {params : Nat} {ramdisk : Option (Nat × Nat)} {s s' : State σ}
    (hparams : pageSize ∣ params) (hpage : taken s.firmware params)
    (h : placeInitrd fw readFile initrdPath params s = .ok (ramdisk, s')) :
    (∀ mem len, ramdisk = some (mem, len) → mem < 2 ^ 32 ∧ len < 2 ^ 32 ∧
        s'.memory.Holds (params + ramdiskImage) (u32 (UInt32.ofNat mem)) ∧
        s'.memory.Holds (params + ramdiskSize) (u32 (UInt32.ofNat len))) ∧
      ∀ k < 4096, ramdisk = none ∨ k < ramdiskImage ∨ ramdiskSize + 4 ≤ k →
        s'.memory (params + k) = s.memory (params + k) := by
  rcases placeInitrd_steps h with ⟨rfl, hnone⟩ | ⟨initrd, a, s₁, m, m', rfl, hask, himage, hsize, rfl⟩
  · refine ⟨(fun _ _ hsome => by cases hsome), fun k _ _ => ?_⟩
    rcases hnone with rfl | ⟨bytes, hask⟩
    · rfl
    · rw [(allocLow_none hfw hask).1]
  · obtain ⟨pages, hgranted⟩ := allocLow_some hfw hnull hask
    obtain ⟨himage, hsameImage⟩ := putU32_ok himage
    obtain ⟨hsize, hsameSize⟩ := putU32_ok hsize
    simp only [ramdiskImage, ramdiskSize] at himage hsameImage hsize hsameSize ⊢
    refine ⟨fun mem len hsome => ?_, fun k hk hout => ?_⟩
    · cases hsome
      refine ⟨hgranted.lt, ?_, holds_of_same himage fun k _ _ => hsameSize k (by omega), hsize⟩
      -- the pages do not start at 0, so that less than 4 GiB are left
      have hroom := hgranted.room
      have hlow := hgranted.low.2
      have hnonNull := hgranted.nonNull
      omega
    · rcases hout with hnone | hout
      · cases hnone
      · refine (hsameSize k (by omega)).trans ?_
        rw [hsameImage k (by omega), hgranted.store_page hparams hpage _ (Nat.le_refl _) hk, hgranted.memory]

/-- The last three fields of the page. -/
theorem finishParams_ok {params kernelMem : Nat} {m m' : Mem UInt8} (h : finishParams params kernelMem m = .ok m') :
    m' (params + typeOfLoader) = 0xFF ∧ m' (params + loadflags) = m (params + loadflags) ||| 1 ∧
      m'.Holds (params + code32Start) (u32 (UInt32.ofNat kernelMem)) ∧
      ∀ k, k < typeOfLoader ∨ k = loadflags + 1 ∨ k = loadflags + 2 ∨ code32Start + 4 ≤ k →
        m' (params + k) = m (params + k) := by
  unfold finishParams at h
  obtain ⟨m₁, hloader, h⟩ := bind_ok h
  obtain ⟨m₂, hflags, h⟩ := bind_ok h
  obtain ⟨hloader, hsameLoader⟩ := putByte_ok hloader
  obtain ⟨hflags, hsameFlags⟩ := putByte_ok hflags
  obtain ⟨hkernel, hsameKernel⟩ := putU32_ok h
  simp only [typeOfLoader, loadflags, code32Start] at *
  refine ⟨?_, ?_, hkernel, fun k hk => ?_⟩
  · rw [hsameKernel _ (by omega), hsameFlags _ (by omega), hloader]
    rfl
  · rw [hsameKernel _ (by omega), hflags, hsameLoader _ (by omega)]
    rfl
  · rw [hsameKernel k (by omega), hsameFlags k (by omega), hsameLoader k (by omega)]

end

end Bang.Linux
