/-
Where `boot` jumps to. The offset of the entry is a field of the file that no check looks at: an image is
started whatever the field says, and the jump is to the kernel that was copied exactly when the entry, one
sector behind the offset, is within its bytes.
-/
import Bang.Linux.Params

namespace Bang

open LittleEndian

/-! ## A file with another field -/

/-- The same file with a number in the four bytes at offset `o`. -/
def Buffer.set32 (file : Buffer) (o : Nat) (v : UInt32) : Buffer where
  data := (file.data.take o ++ LittleEndian.u32 v ++ file.data.drop (o + 4)).take file.data.length
  fits := Nat.lt_of_le_of_lt (List.length_take_le _ _) file.fits

section
variable (file : Buffer) (o : Nat) (v : UInt32)

theorem Buffer.size_set32 : (file.set32 o v).size = file.size := by
  show ((file.data.take o ++ LittleEndian.u32 v ++ file.data.drop (o + 4)).take file.data.length).length = file.data.length
  simp
  omega

theorem Buffer.set32_getElem? {i : Nat} (h : i < o ∨ o + 4 ≤ i) : (file.set32 o v).data[i]? = file.data[i]? := by
  show ((file.data.take o ++ LittleEndian.u32 v ++ file.data.drop (o + 4)).take file.data.length)[i]? = _
  rw [List.getElem?_take]
  split
  · rename_i hlt
    have hlen : (file.data.take o ++ LittleEndian.u32 v).length = min o file.data.length + 4 := by simp
    rcases h with h | h
    · rw [List.append_assoc, List.getElem?_append_left (by rw [List.length_take]; omega), List.getElem?_take_of_lt h]
    · rw [List.getElem?_append_right (by omega), hlen, List.getElem?_drop]
      congr 1
      omega
  · rw [List.getElem?_eq_none (by omega)]

/-- Apart from the field, the files are the same. -/
theorem Buffer.set32_apart {lo n : Nat} (h : lo + n ≤ o ∨ o + 4 ≤ lo) :
    ((file.set32 o v).data.drop lo).take n = (file.data.drop lo).take n := by
  apply List.ext_getElem?
  intro i
  rw [List.getElem?_take, List.getElem?_take]
  split
  · rw [List.getElem?_drop, List.getElem?_drop, Buffer.set32_getElem? file o v (by omega)]
  · rfl

/-- The field is the number. -/
theorem Buffer.set32_field (h : o + 4 ≤ file.size) : at32 (file.set32 o v).data o = v := by
  have hsize : file.size = file.data.length := rfl
  have hfield : ((file.set32 o v).data.drop o).take 4 = LittleEndian.u32 v := by
    show ((((file.data.take o ++ LittleEndian.u32 v) ++ file.data.drop (o + 4)).take file.data.length).drop o).take 4 = _
    have hlen : (file.data.take o).length = o := List.length_take_of_le (by omega)
    apply List.ext_getElem?
    intro i
    rw [List.getElem?_take]
    split
    · rw [List.getElem?_drop, List.getElem?_take_of_lt (by omega), List.append_assoc,
        List.getElem?_append_right (by omega), hlen, Nat.add_sub_cancel_left,
        List.getElem?_append_left (by rw [length_u32]; assumption)]
    · rw [List.getElem?_eq_none (by rw [length_u32]; omega)]
  rw [at32, hfield, word32_u32]

end

namespace Linux

theorem ok_of_isOk {ε α : Type} {x : Except ε α} (h : x.isOk = true) : ∃ a, x = .ok a := by
  rcases x with e | a
  · cases h
  · exact ⟨a, rfl⟩

/-- A slice apart from the field. -/
theorem slice_set32 {image : Buffer} {o : Nat} {v : UInt32} {lo hi : Nat} (h : hi ≤ o ∨ o + 4 ≤ lo) :
    slice (image.set32 o v) lo hi = slice image lo hi := by
  unfold slice
  rw [Buffer.size_set32]
  split
  · rw [Buffer.set32_apart]
    omega
  · rfl

theorem byteAt_set32 {image : Buffer} {o i : Nat} {v : UInt32} (h : i < o ∨ o + 4 ≤ i) :
    byteAt (image.set32 o v) i = byteAt image i := by
  unfold byteAt
  rw [List.getD_eq_getElem?_getD, List.getD_eq_getElem?_getD, Buffer.set32_getElem? _ _ _ h]

/-- The checks do not look at the offset of the entry. -/
theorem readSetup_set32 {image : Buffer} {setup : Setup} (h : readSetup image = .ok setup) (v : UInt32) :
    readSetup (image.set32 handoverOffset v) = .ok { setup with handoverOffset := v.toNat } := by
  have hsame : ∀ lo n, lo + n ≤ handoverOffset ∨ handoverOffset + 4 ≤ lo →
      slice (image.set32 handoverOffset v) lo (lo + n) = slice image lo (lo + n) := fun lo n hout => slice_set32 hout
  obtain ⟨-, hsize, hkernel⟩ := readSetup_ok h
  have hfield : u32At (image.set32 handoverOffset v) handoverOffset = .ok v := by
    have hin : handoverOffset + 4 ≤ image.size := le_trans (by decide) hsize
    unfold u32At slice
    rw [if_pos ⟨Nat.le_add_right .., by rw [Buffer.size_set32]; exact hin⟩, Nat.add_sub_cancel_left]
    exact congrArg Except.ok (image.set32_field handoverOffset v hin)
  have hdrop : ∀ sects, (image.set32 handoverOffset v).data.drop (kernelOffset sects) =
      image.data.drop (kernelOffset sects) := by
    intro sects
    have hbehind : handoverOffset + 4 ≤ kernelOffset sects := by
      unfold kernelOffset handoverOffset
      split
      · decide
      · rename_i hne
        have hpos : sects.toNat ≠ 0 := fun hzero => hne (UInt8.toNat_inj.1 hzero)
        omega
    have hall := image.set32_apart handoverOffset v (n := image.size) (.inr hbehind)
    rwa [List.take_of_length_le, List.take_of_length_le] at hall
    · rw [List.length_drop]
      exact Nat.sub_le _ _
    · rw [List.length_drop]
      exact (Nat.sub_le _ _).trans (Nat.le_of_eq (Buffer.size_set32 ..))
  unfold readSetup at h ⊢
  -- read by read: each but one is of other bytes than the field
  obtain ⟨_, h1, h⟩ := bind_ok h
  obtain ⟨_, h2, h⟩ := bind_ok h
  obtain ⟨_, h3, h⟩ := bind_ok h
  obtain ⟨_, h4, h⟩ := bind_ok h
  obtain ⟨_, h5, h⟩ := bind_ok h
  obtain ⟨_, h6, h⟩ := bind_ok h
  obtain ⟨_, h7, h⟩ := bind_ok h
  obtain ⟨_, h8, h⟩ := bind_ok h
  obtain ⟨_, h9, h⟩ := bind_ok h
  obtain ⟨_, h10, h⟩ := bind_ok h
  obtain ⟨_, h11, h⟩ := bind_ok h
  obtain ⟨_, h12, h⟩ := bind_ok h
  obtain ⟨_, h13, h⟩ := bind_ok h
  obtain ⟨_, h14, h⟩ := bind_ok h
  obtain ⟨_, h15, h⟩ := bind_ok h
  obtain rfl := Except.ok.inj h
  unfold u8At u16At u32At u64At at *
  refine ok_bind (by rw [Buffer.size_set32]; exact h1) ?_
  refine ok_bind (by rw [hsame _ _ (by decide)]; exact h2) ?_
  refine ok_bind (by rw [hsame _ _ (by decide)]; exact h3) ?_
  refine ok_bind h4 ?_
  refine ok_bind (by rw [hsame _ _ (by decide)]; exact h5) ?_
  refine ok_bind h6 ?_
  refine ok_bind (by rw [hsame _ _ (by decide)]; exact h7) ?_
  refine ok_bind h8 ?_
  refine ok_bind hfield ?_
  refine ok_bind (by rw [hsame _ _ (by decide)]; exact h10) ?_
  refine ok_bind (by rw [Buffer.size_set32]; exact h11) ?_
  refine ok_bind (by rw [hsame _ _ (by decide)]; exact h12) ?_
  refine ok_bind (by rw [hsame _ _ (by decide)]; exact h13) ?_
  refine ok_bind (by rw [hsame _ _ (by decide)]; exact h14) ?_
  refine ok_bind (by rw [hsame _ _ (by decide)]; exact h15) ?_
  rw [hdrop]
  rfl

/-! ## Another field, the same boot -/

section
variable {σ : Type} {fw : Firmware σ}

/-- Two states that the firmware cannot tell apart. -/
structure Like (s s' : State σ) : Prop where
  firmware : s'.firmware = s.firmware
  granted : s'.granted = s.granted

theorem allocLow_like {bytes : Nat} {r : Option Nat} {s s' t : State σ} (hlike : Like s s')
    (h : allocLow fw bytes s = (r, t)) : ∃ t', allocLow fw bytes s' = (r, t') ∧ Like t t' := by
  unfold allocLow at h ⊢
  simp only at h ⊢
  rw [hlike.firmware]
  rcases hask : fw.allocateBelow s.firmware 0x100000000 (max (divCeil bytes 4096) 1) with ⟨_ | a, f⟩ <;> rw [hask] at h
  · obtain ⟨rfl, rfl⟩ := Prod.mk.inj h
    exact ⟨_, rfl, rfl, hlike.granted⟩
  · obtain ⟨rfl, rfl⟩ := Prod.mk.inj h
    exact ⟨_, rfl, rfl, congrArg (· ++ _) hlike.granted⟩

theorem put_like {params o : Nat} {bs bs' : List UInt8} {m m₁ : Mem UInt8} (h : put params o bs m = .ok m₁)
    (hlen : bs'.length = bs.length) (m' : Mem UInt8) : ∃ m₁', put params o bs' m' = .ok m₁' := by
  unfold put at h ⊢
  rw [hlen]
  split at h
  · rename_i hin
    exact ⟨_, if_pos hin⟩
  · cases h

theorem bootParams_like {image : Buffer} {v : UInt32} {params : Nat} {s s' t : State σ} (hlike : Like s s')
    (h : bootParams fw image s = .ok (params, t)) :
    ∃ t', bootParams fw (image.set32 handoverOffset v) s' = .ok (params, t') ∧ Like t t' := by
  unfold bootParams at h ⊢
  split at h
  · cases h
  · rename_i a t₁ hask
    obtain ⟨b, hb, h⟩ := bind_ok h
    obtain ⟨header, hheader, h⟩ := bind_ok h
    obtain ⟨m, hput, h⟩ := bind_ok h
    obtain ⟨rfl, rfl⟩ := Prod.mk.inj (Except.ok.inj h)
    obtain ⟨t₁', hask', hlike'⟩ := allocLow_like hlike hask
    have hb' : u8At (image.set32 handoverOffset v) 0x201 = .ok b := by
      unfold u8At
      rw [slice_set32 (by decide)]
      exact hb
    -- the field may be in the header that is copied, but the header is as long as before
    have hend : hdrEnd (image.set32 handoverOffset v) b = hdrEnd image b := by
      unfold hdrEnd
      rw [Buffer.size_set32]
    obtain ⟨hlo, hhi, -⟩ := slice_ok hheader
    have hheader' : slice (image.set32 handoverOffset v) setupSects (hdrEnd (image.set32 handoverOffset v) b) = .ok _ :=
      if_pos ⟨hend ▸ hlo, by rw [hend, Buffer.size_set32]; exact hhi⟩
    obtain ⟨m', hput'⟩ := put_like hput
      ((slice_length hheader').trans (by rw [hend, slice_length hheader])) (t₁'.memory.store a (List.replicate 4096 0))
    rw [hask']
    exact ⟨{ t₁' with memory := m' }, ok_bind hb' (ok_bind hheader' (ok_bind hput' rfl)), hlike'.firmware, hlike'.granted⟩

theorem placeCmdline_like {image : Buffer} {v : UInt32} {cmdline : Str} {params cmdMem : Nat} {s s' t : State σ}
    (hlike : Like s s') (h : placeCmdline fw image cmdline params s = .ok (cmdMem, t)) :
    ∃ t', placeCmdline fw (image.set32 handoverOffset v) cmdline params s' = .ok (cmdMem, t') ∧ Like t t' := by
  unfold placeCmdline at h ⊢
  obtain ⟨size, hsize, h⟩ := bind_ok h
  obtain ⟨cl, hcl, h⟩ := bind_ok h
  have hsize' : u32At (image.set32 handoverOffset v) cmdlineSize = .ok size := by
    unfold u32At
    rw [slice_set32 (by decide)]
    exact hsize
  split at h
  · cases h
  · rename_i a t₁ hask
    obtain ⟨m, hput, h⟩ := bind_ok h
    obtain ⟨rfl, rfl⟩ := Prod.mk.inj (Except.ok.inj h)
    obtain ⟨t₁', hask', hlike'⟩ := allocLow_like hlike hask
    obtain ⟨m', hput'⟩ := put_like hput rfl ((t₁'.memory.store a (utf8 cl)).store (a + (utf8 cl).length) [0])
    refine ⟨{ t₁' with memory := m' }, ok_bind hsize' (ok_bind hcl ?_), hlike'.firmware, hlike'.granted⟩
    rw [hask']
    exact ok_bind hput' rfl

theorem placeInitrd_like {readFile readFile' : CString16 → Option Buffer} {initrdPath : Option CString16}
    {params : Nat} {ramdisk : Option (Nat × Nat)} {s s' t : State σ} (hlike : Like s s')
    (hsizes : ∀ path, (readFile' path).map Buffer.size = (readFile path).map Buffer.size)
    (h : placeInitrd fw readFile initrdPath params s = .ok (ramdisk, t)) :
    ∃ t', placeInitrd fw readFile' initrdPath params s' = .ok (ramdisk, t') ∧ Like t t' := by
  unfold placeInitrd at h ⊢
  rcases initrdPath with _ | path
  · obtain ⟨rfl, rfl⟩ := Prod.mk.inj (Except.ok.inj h)
    exact ⟨_, rfl, hlike⟩
  have hsame := hsizes path
  dsimp only at h ⊢
  rcases hread : readFile path with _ | initrd <;> rcases hread' : readFile' path with _ | initrd' <;>
    rw [hread, hread'] at hsame <;> rw [hread] at h
  · obtain ⟨rfl, rfl⟩ := Prod.mk.inj (Except.ok.inj h)
    exact ⟨_, rfl, hlike⟩
  · cases hsame
  · cases hsame
  · have hsize : initrd'.size = initrd.size := Option.some.inj hsame
    dsimp only at h ⊢
    rw [hsize]
    split at h
    · rename_i t₁ hask
      obtain ⟨rfl, rfl⟩ := Prod.mk.inj (Except.ok.inj h)
      obtain ⟨t₁', hask', hlike'⟩ := allocLow_like hlike hask
      rw [hask']
      exact ⟨_, rfl, hlike'⟩
    · rename_i a t₁ hask
      obtain ⟨m₁, himage, h⟩ := bind_ok h
      obtain ⟨m₂, hlength, h⟩ := bind_ok h
      obtain ⟨rfl, rfl⟩ := Prod.mk.inj (Except.ok.inj h)
      obtain ⟨t₁', hask', hlike'⟩ := allocLow_like hlike hask
      obtain ⟨m₁', himage'⟩ := put_like himage rfl (t₁'.memory.store a initrd'.data)
      obtain ⟨m₂', hlength'⟩ := put_like hlength rfl m₁'
      rw [hask']
      exact ⟨{ t₁' with memory := m₂' }, ok_bind himage' (ok_bind hlength' rfl), hlike'.firmware, hlike'.granted⟩

theorem finishParams_like {params kernelMem : Nat} {m m₁ : Mem UInt8} (h : finishParams params kernelMem m = .ok m₁)
    (m' : Mem UInt8) : ∃ m₁', finishParams params kernelMem m' = .ok m₁' := by
  unfold finishParams at h ⊢
  obtain ⟨_, hloader, h⟩ := bind_ok h
  obtain ⟨_, hflags, h⟩ := bind_ok h
  obtain ⟨m₂, hloader'⟩ := put_like hloader rfl m'
  obtain ⟨m₃, hflags'⟩ := put_like hflags
    (show [m₂ (params + loadflags) ||| loadflagLoadedHigh].length = _ from rfl) m₂
  obtain ⟨m₄, hkernel'⟩ := put_like h rfl m₃
  exact ⟨m₄, ok_bind hloader' (ok_bind hflags' hkernel')⟩

/-! ## The jump -/

/-- The jump is to one of the kernel's bytes, where they were copied to. -/
def Handover.InKernel (h : Handover σ) (image : Buffer) : Prop :=
  ∃ i < (setupOf image).kernelBytes.length, h.entry = (h.kernelMem + i) % 2 ^ 64

theorem boot_entry {readFile : CString16 → Option Buffer} {kernelPath : CString16} {initrdPath : Option CString16}
    {cmdline : Str} {s : State σ} {h : Handover σ} {image : Buffer} (hread : readFile kernelPath = some image)
    (hboot : boot fw readFile kernelPath initrdPath cmdline s = .ok h) :
    h.entry = (h.kernelMem + (at32 image.data handoverOffset).toNat + handover64Offset) % 2 ^ 64 := by
  unfold boot at hboot
  rw [hread] at hboot
  obtain ⟨setup, hsetup, hboot⟩ := bind_ok hboot
  obtain ⟨⟨kernelMem, s₁⟩, -, hboot⟩ := bind_ok hboot
  obtain ⟨⟨params, s₂⟩, -, hboot⟩ := bind_ok hboot
  obtain ⟨⟨cmdMem, s₃⟩, -, hboot⟩ := bind_ok hboot
  obtain ⟨⟨ramdisk, s₄⟩, -, hboot⟩ := bind_ok hboot
  obtain ⟨m, -, hboot⟩ := bind_ok hboot
  obtain rfl := (readSetup_ok hsetup).1
  obtain rfl := Except.ok.inj hboot
  rfl

/-- An entry that far behind the kernel's start is in the kernel if the kernel is longer. -/
theorem Handover.inKernel_of_entry {h : Handover σ} {image : Buffer} {offset : UInt32}
    (hentry : h.entry = (h.kernelMem + offset.toNat + handover64Offset) % 2 ^ 64) :
    h.InKernel image ↔ offset.toNat + handover64Offset < image.size - kernelOffset (byteAt image setupSects) := by
  have hoffset := offset.toNat_lt
  have hfits := image.fits
  have hsize : image.size = image.data.length := rfl
  unfold Handover.InKernel
  rw [length_kernelBytes, hentry, Nat.add_assoc]
  constructor
  · rintro ⟨i, hi, hsame⟩
    have hsector : handover64Offset = 512 := rfl
    have heq : offset.toNat + handover64Offset = i := by omega
    rw [heq]
    exact hi
  · intro hin
    exact ⟨_, hin, rfl⟩

/-- A boot that succeeds succeeds with any other offset in the field. -/
theorem boot_set32 {readFile readFile' : CString16 → Option Buffer} {kernelPath : CString16}
    {initrdPath : Option CString16} {cmdline : Str} {s : State σ} {h : Handover σ} {image : Buffer}
    (hread : readFile kernelPath = some image) (hboot : boot fw readFile kernelPath initrdPath cmdline s = .ok h)
    {v : UInt32} (hread' : readFile' kernelPath = some (image.set32 handoverOffset v))
    (hsizes : ∀ path, (readFile' path).map Buffer.size = (readFile path).map Buffer.size) :
    ∃ h', boot fw readFile' kernelPath initrdPath cmdline s = .ok h' ∧ h'.kernelMem = h.kernelMem := by
  obtain ⟨s₁, s₂, s₃, s₄, m, hsetup, hkernel, hparams, hcmdline, hinitrd, hfinish, -⟩ := boot_ok hread hboot
  obtain ⟨s₂', hparams', hlike₂⟩ := bootParams_like (v := v) ⟨rfl, rfl⟩ hparams
  obtain ⟨s₃', hcmdline', hlike₃⟩ := placeCmdline_like (v := v) hlike₂ hcmdline
  obtain ⟨s₄', hinitrd', hlike₄⟩ := placeInitrd_like hlike₃ hsizes hinitrd
  obtain ⟨m', hfinish'⟩ := finishParams_like hfinish s₄'.memory
  unfold boot
  rw [hread']
  refine ⟨_, ok_bind (readSetup_set32 hsetup v) (ok_bind hkernel (ok_bind hparams' (ok_bind hcmdline'
    (ok_bind hinitrd' (ok_bind hfinish' rfl))))), rfl⟩

/-- The jump of an image that is started is to the kernel exactly when the entry is within the kernel's bytes; and
the same image with any other offset is started too, wherever its entry is. -/
theorem inKernel_iff {readFile : CString16 → Option Buffer} {kernelPath : CString16} {initrdPath : Option CString16}
    {cmdline : Str} {s : State σ} {h : Handover σ} {image : Buffer} (hread : readFile kernelPath = some image)
    (hboot : boot fw readFile kernelPath initrdPath cmdline s = .ok h) :
    (h.InKernel image ↔ (at32 image.data handoverOffset).toNat + handover64Offset <
      image.size - kernelOffset (byteAt image setupSects)) ∧
    ∀ (v : UInt32) (readFile' : CString16 → Option Buffer),
      readFile' kernelPath = some (image.set32 handoverOffset v) →
      (∀ path, (readFile' path).map Buffer.size = (readFile path).map Buffer.size) →
      ∃ h', boot fw readFile' kernelPath initrdPath cmdline s = .ok h' ∧
        (h'.InKernel (image.set32 handoverOffset v) ↔
          v.toNat + handover64Offset < image.size - kernelOffset (byteAt image setupSects)) := by
  refine ⟨Handover.inKernel_of_entry (boot_entry hread hboot), fun v readFile' hread' hsizes => ?_⟩
  obtain ⟨_, _, _, _, _, hsetup, -⟩ := boot_ok hread hboot
  obtain ⟨-, hsize, -⟩ := readSetup_ok hsetup
  obtain ⟨h', hboot', -⟩ := boot_set32 hread hboot hread' hsizes
  refine ⟨h', hboot', ?_⟩
  have hentry := boot_entry hread' hboot'
  rw [image.set32_field _ _ (le_trans (by decide) hsize)] at hentry
  rw [Handover.inKernel_of_entry hentry, Buffer.size_set32, byteAt_set32 (.inl (by decide))]

end

/-- The small kernel, with its entry in front of its last sector. -/
theorem inKernel_bzImage : ∃ h, bootLinux ((bzImage 1 0).set32 handoverOffset 0x800) none = .ok h ∧
    h.InKernel ((bzImage 1 0).set32 handoverOffset 0x800) := by
  have hstarts : (bootLinux ((bzImage 1 0).set32 handoverOffset 0x800) none).isOk = true := by decide +kernel
  obtain ⟨h, hboot⟩ := ok_of_isOk hstarts
  exact ⟨h, hboot, (inKernel_iff (if_pos rfl) hboot).1.2 (by decide +kernel)⟩

/-- The same kernel with its entry 4 MiB behind its start: it is started, and the jump is not to it. -/
theorem not_inKernel_far : ∃ h, bootLinux ((bzImage 1 0).set32 handoverOffset 0x400000) none = .ok h ∧
    ¬ h.InKernel ((bzImage 1 0).set32 handoverOffset 0x400000) := by
  have hstarts : (bootLinux ((bzImage 1 0).set32 handoverOffset 0x400000) none).isOk = true := by decide +kernel
  obtain ⟨h, hboot⟩ := ok_of_isOk hstarts
  refine ⟨h, hboot, ?_⟩
  rw [Handover.inKernel_of_entry (boot_entry (if_pos rfl) hboot)]
  decide +kernel

end Linux

end Bang
