/-
The command line a Linux kernel is given. It is cut at the kernel's limit in bytes, and where the limit falls
within a character the cut stops the bootloader; everywhere else the longest prefix that fits is in memory at
the jump, with a NUL behind it.
-/
import Bang.Linux.Frames
import Bang.Linux.Entry
import Bang.Memory.CString

namespace Bang.Linux

open LittleEndian

/-! ## Texts and their bytes -/

@[simp] theorem utf8_cons (c : Char) (s : Str) : utf8 (c :: s) = String.utf8EncodeChar c ++ utf8 s := rfl

theorem length_utf8_cons (c : Char) (s : Str) : (utf8 (c :: s)).length = c.utf8Size + (utf8 s).length := by
  rw [utf8_cons, List.length_append, String.length_utf8EncodeChar]

theorem utf8_append (s t : Str) : utf8 (s ++ t) = utf8 s ++ utf8 t := List.flatMap_append

/-- Byte `n` of a text is in front of a character of it, or behind the last. -/
def IsCharBoundary (s : Str) (n : Nat) : Prop := ∃ p, p <+: s ∧ (utf8 p).length = n

/-- The longest of a text's prefixes that have at most `n` bytes. -/
structure LongestPrefix (s : Str) (n : Nat) (p : Str) : Prop where
  isPrefix : p <+: s
  fits : (utf8 p).length ≤ n
  longest : ∀ q, q <+: s → (utf8 q).length ≤ n → (utf8 q).length ≤ (utf8 p).length

/-- What `truncate` does: it cuts at a boundary, and stops anywhere else. -/
theorem truncate_spec (s : Str) : ∀ n, n ≤ (utf8 s).length →
    (∃ p, truncate s n = .ok p ∧ p <+: s ∧ (utf8 p).length = n) ∨
      (∃ message, truncate s n = .error (.stop (.panic message))) ∧ ¬ IsCharBoundary s n := by
  induction s with
  | nil =>
    intro n hn
    obtain rfl : n = 0 := Nat.le_zero.1 hn
    exact .inl ⟨[], rfl, List.nil_prefix, rfl⟩
  | cons c s ih =>
    intro n hn
    rw [length_utf8_cons] at hn
    rcases n with _ | n
    · exact .inl ⟨[], rfl, List.nil_prefix, rfl⟩
    · unfold truncate
      split
      · rename_i hfits
        -- a cut behind the first character is one of the rest, by as many bytes less
        rcases ih (n + 1 - c.utf8Size) (by omega) with ⟨p, htruncate, hfront, hlen⟩ | ⟨⟨message, htruncate⟩, hnot⟩
        · rw [htruncate]
          refine .inl ⟨c :: p, rfl, List.cons_prefix_cons.2 ⟨rfl, hfront⟩, ?_⟩
          rw [length_utf8_cons]
          omega
        · rw [htruncate]
          refine .inr ⟨⟨message, rfl⟩, ?_⟩
          rintro ⟨q, hq, hlen⟩
          rcases q with _ | ⟨d, q⟩
          · cases hlen
          · obtain ⟨rfl, hrest⟩ := List.cons_prefix_cons.1 hq
            rw [length_utf8_cons] at hlen
            exact hnot ⟨q, hrest, by omega⟩
      · rename_i hover
        refine .inr ⟨⟨_, rfl⟩, ?_⟩
        rintro ⟨q, hq, hlen⟩
        rcases q with _ | ⟨d, q⟩
        · cases hlen
        · obtain ⟨rfl, -⟩ := List.cons_prefix_cons.1 hq
          rw [length_utf8_cons] at hlen
          omega

/-! ## The command line there should be -/

/-- All of the configured command line if there is no limit or it is within it, and else the longest prefix that is. -/
def WantedCmdline (cmdline : Str) (max : Nat) (cl : Str) : Prop :=
  if max = 0 ∨ (utf8 cmdline).length ≤ max then cl = cmdline else LongestPrefix cmdline max cl

/-- The limit is none, or is not reached, or does not fall within a character. -/
def CutsBetween (cmdline : Str) (max : Nat) : Prop :=
  max = 0 ∨ (utf8 cmdline).length ≤ max ∨ IsCharBoundary cmdline max

/-- The command line is cut as it should be, unless it stops the bootloader. -/
theorem cutCmdline_spec (cmdline : Str) (max : Nat) :
    (∃ cl, cutCmdline cmdline max = .ok cl ∧ WantedCmdline cmdline max cl ∧ CutsBetween cmdline max) ∨
      (∃ message, cutCmdline cmdline max = .error (.stop (.panic message))) ∧ ¬ CutsBetween cmdline max := by
  unfold cutCmdline WantedCmdline CutsBetween
  split
  · rename_i hcut
    rcases truncate_spec cmdline max (Nat.le_of_lt hcut.2) with ⟨p, htruncate, hfront, hlen⟩ | ⟨hstops, hnot⟩
    · refine .inl ⟨p, htruncate, ?_, .inr (.inr ⟨p, hfront, hlen⟩)⟩
      rw [if_neg (by omega)]
      exact ⟨hfront, Nat.le_of_eq hlen, fun q _ hq => hlen.symm ▸ hq⟩
    · refine .inr ⟨hstops, ?_⟩
      rintro (hzero | hle | hboundary)
      · omega
      · omega
      · exact hnot hboundary
  · rename_i hwhole
    refine .inl ⟨cmdline, rfl, ?_, ?_⟩
    · rw [if_pos (by omega)]
    · omega

/-! ## NULs -/

/-- The only character with a zero byte is NUL. -/
theorem zero_mem_utf8EncodeChar {c : Char} : (0 : UInt8) ∈ String.utf8EncodeChar c ↔ c = '\x00' := by
  constructor
  · intro h
    have hbyte : ∀ n : Nat, (0 : UInt8) = UInt8.ofNat n → n % 256 = 0 := fun n hn => (congrArg UInt8.toNat hn).symm
    have hvalue : c.val.toNat = 0 := by
      unfold String.utf8EncodeChar at h
      dsimp only at h
      split at h
      · have := hbyte _ (List.mem_singleton.1 h)
        omega
      · -- every byte of a longer encoding has its high bit set
        exfalso
        split at h
        · simp only [List.mem_cons, List.not_mem_nil, or_false] at h
          rcases h with h | h <;> have := hbyte _ h <;> omega
        · split at h
          · simp only [List.mem_cons, List.not_mem_nil, or_false] at h
            rcases h with h | h | h <;> have := hbyte _ h <;> omega
          · simp only [List.mem_cons, List.not_mem_nil, or_false] at h
            rcases h with h | h | h | h <;> have := hbyte _ h <;> omega
    exact Char.ext (UInt32.toNat_inj.1 hvalue)
  · rintro rfl
    decide

theorem zero_mem_utf8 {s : Str} : (0 : UInt8) ∈ utf8 s ↔ '\x00' ∈ s := by
  unfold utf8
  rw [List.mem_flatMap]
  constructor
  · rintro ⟨c, hc, hzero⟩
    rw [← zero_mem_utf8EncodeChar.1 hzero]
    exact hc
  · intro h
    exact ⟨_, h, zero_mem_utf8EncodeChar.2 rfl⟩

/-! ## What is in memory at the jump -/

section
variable {σ : Type} {fw : Firmware σ} {taken : σ → Nat → Prop} {readFile : CString16 → Option Buffer}
  {kernelPath : CString16} {initrdPath : Option CString16} {cmdline : Str} {image : Buffer}

theorem boot_cmdline (hfw : fw.Lawful taken) (hnull : fw.NonNull) {s : State σ} {h : Handover σ}
    (hread : readFile kernelPath = some image) (hboot : boot fw readFile kernelPath initrdPath cmdline s = .ok h) :
    ∃ cl, cutCmdline cmdline (at32 image.data cmdlineSize).toNat = .ok cl ∧
      h.state.memory.Holds h.cmdMem (utf8 cl ++ [0]) ∧ h.cmdMem + (utf8 cl).length < 2 ^ 64 := by
  obtain ⟨s₁, s₂, s₃, s₄, m, -, -, hparams, hcmdline, hinitrd, hfinish, hstate⟩ := boot_ok hread hboot
  obtain ⟨n, hpage, -⟩ := bootParams_spares hfw hnull hparams
  obtain ⟨-, cl, hcl, pages, hheld, hroom, hlow, hplaced⟩ := placeCmdline_spares hfw hnull hcmdline
  obtain ⟨hapart, hholds⟩ := hplaced n hpage
  have hlater := (placeInitrd_spares hfw hnull hinitrd).write (finishParams_same hfinish)
  refine ⟨cl, hcl, ?_, by omega⟩
  rw [hstate]
  refine hlater.holds hheld hapart (Nat.le_refl _) ?_ hholds
  rw [List.length_append, List.length_singleton]
  omega

/-- Read up to the first NUL, the command line is all there exactly when it has none itself. -/
theorem cstr_iff {m : Mem UInt8} {p : Nat} {cl : Str} (hholds : m.Holds p (utf8 cl ++ [0]))
    (hp : p + (utf8 cl).length < 2 ^ 64) : m.cstr p = utf8 cl ↔ '\x00' ∉ cl := by
  have hnul : m.NulTerminated p := ⟨(utf8 cl).length, hp, hholds.right 0 Nat.one_pos⟩
  rw [← zero_mem_utf8]
  constructor
  · intro hsame
    rw [← hsame]
    exact hnul.cstr.2.1
  · intro hzero
    exact (hholds.cstr_eq hzero hp).2

/-! ## No stop -/

theorem put_eq {params o : Nat} {bs : List UInt8} (h : o + bs.length ≤ 4096) (m : Mem UInt8) :
    put params o bs m = .ok (m.store (params + o) bs) :=
  if_pos h

theorem putU32_eq {params o : Nat} (v : UInt32) (h : o + 4 ≤ 4096) (m : Mem UInt8) :
    putU32 params o v m = .ok (m.store (params + o) (u32 v)) :=
  put_eq (by rw [length_u32]; exact h) m

theorem slice_eq {b : Buffer} {lo hi : Nat} (hlo : lo ≤ hi) (hhi : hi ≤ b.size) :
    slice b lo hi = .ok ((b.data.drop lo).take (hi - lo)) :=
  if_pos ⟨hlo, hhi⟩

theorem u32At_eq {b : Buffer} {o : Nat} (h : o + 4 ≤ b.size) : u32At b o = .ok (at32 b.data o) := by
  unfold u32At
  rw [slice_eq (Nat.le_add_right ..) h, Nat.add_sub_cancel_left]
  rfl

theorem placeInitrd_succeeds (fw : Firmware σ) (readFile : CString16 → Option Buffer) (initrdPath : Option CString16)
    (params : Nat) (s : State σ) :
    ∃ r, placeInitrd fw readFile initrdPath params s = .ok r := by
  unfold placeInitrd
  split
  · exact ⟨_, rfl⟩
  · split
    · exact ⟨_, rfl⟩
    · split
      · exact ⟨_, rfl⟩
      · exact ⟨_, ok_bind (putU32_eq _ (by decide) _) (ok_bind (putU32_eq _ (by decide) _) rfl)⟩

theorem finishParams_succeeds (params kernelMem : Nat) (m : Mem UInt8) :
    ∃ m', finishParams params kernelMem m = .ok m' :=
  ⟨_, ok_bind (put_eq (by decide) _) (ok_bind (put_eq (show loadflags + 1 ≤ 4096 by decide) _)
    (putU32_eq _ (by decide) _))⟩

/-- The command line is placed, or there is no memory for it, or the cut stops the bootloader. -/
theorem placeCmdline_cases (fw : Firmware σ) (cmdline : Str) (hsize : 0x1000 ≤ image.size) (params : Nat)
    (s : State σ) :
    (∃ cl, cutCmdline cmdline (at32 image.data cmdlineSize).toNat = .ok cl ∧
        ((∃ r, placeCmdline fw image cmdline params s = .ok r) ∨
          placeCmdline fw image cmdline params s = .error (.status .outOfResources))) ∨
      ∃ e, cutCmdline cmdline (at32 image.data cmdlineSize).toNat = .error e ∧
        placeCmdline fw image cmdline params s = .error e := by
  have hlimit : u32At image cmdlineSize = .ok (at32 image.data cmdlineSize) := u32At_eq (le_trans (by decide) hsize)
  unfold placeCmdline
  rcases hcut : cutCmdline cmdline (at32 image.data cmdlineSize).toNat with e | cl
  · refine .inr ⟨e, rfl, ok_bind hlimit ?_⟩
    rw [hcut]
    rfl
  · refine .inl ⟨cl, rfl, ?_⟩
    rcases hask : allocLow fw ((utf8 cl).length + 1) s with ⟨_ | cmdMem, s'⟩
    · refine .inr (ok_bind hlimit (ok_bind hcut ?_))
      rw [hask]
    · refine .inl ⟨(cmdMem, { s' with memory := ((s'.memory.store cmdMem (utf8 cl)).store
        (cmdMem + (utf8 cl).length) [0]).store (params + cmdLinePtr) (u32 (UInt32.ofNat cmdMem)) }),
        ok_bind hlimit (ok_bind hcut ?_)⟩
      rw [hask]
      exact ok_bind (putU32_eq _ (by decide) _) rfl

/-! ## The command line and the limit -/

section
variable (fw readFile kernelPath initrdPath cmdline image)

/-- The bootloader does not stop, and where the kernel is started the command line it should have is in memory, with a
NUL behind it. -/
structure PlacesCmdline (s : State σ) : Prop where
  goesOn : ∀ why, boot fw readFile kernelPath initrdPath cmdline s ≠ .error (.stop why)
  placed : ∀ h, boot fw readFile kernelPath initrdPath cmdline s = .ok h →
    ∃ cl, WantedCmdline cmdline (at32 image.data cmdlineSize).toNat cl ∧
      h.state.memory.Holds h.cmdMem (utf8 cl ++ [0])

end

/-- How a boot ends once there are pages for the kernel and for `boot_params`. -/
theorem boot_cases (initrdPath : Option CString16) (cmdline : Str) {s s₁ s₂ : State σ} {setup : Setup}
    {kernelMem params : Nat}
    (hread : readFile kernelPath = some image) (hsetup : readSetup image = .ok setup)
    (hkernel : placeKernel fw setup s = .ok (kernelMem, s₁))
    (hparams : bootParams fw image { s₁ with memory := copyKernel setup kernelMem s₁.memory } = .ok (params, s₂)) :
    (∃ cl, cutCmdline cmdline (at32 image.data cmdlineSize).toNat = .ok cl ∧
        ((∃ h, boot fw readFile kernelPath initrdPath cmdline s = .ok h) ∨
          boot fw readFile kernelPath initrdPath cmdline s = .error (.status .outOfResources))) ∨
      ∃ e, cutCmdline cmdline (at32 image.data cmdlineSize).toNat = .error e ∧
        boot fw readFile kernelPath initrdPath cmdline s = .error e := by
  have hsize := (readSetup_ok hsetup).2.1
  unfold boot
  rw [hread]
  rcases placeCmdline_cases fw cmdline hsize params s₂ with
    ⟨cl, hcut, ⟨⟨cmdMem, s₃⟩, hplaced⟩ | hfull⟩ | ⟨e, hcut, hstops⟩
  · obtain ⟨⟨ramdisk, s₄⟩, hinitrd⟩ := placeInitrd_succeeds fw readFile initrdPath params s₃
    obtain ⟨m, hfinish⟩ := finishParams_succeeds params kernelMem s₄.memory
    exact .inl ⟨cl, hcut, .inl ⟨_, ok_bind hsetup (ok_bind hkernel (ok_bind hparams (ok_bind hplaced
      (ok_bind hinitrd (ok_bind hfinish rfl)))))⟩⟩
  · refine .inl ⟨cl, hcut, .inr (ok_bind hsetup (ok_bind hkernel (ok_bind hparams ?_)))⟩
    dsimp only
    rw [hfull]
    rfl
  · refine .inr ⟨e, hcut, ok_bind hsetup (ok_bind hkernel (ok_bind hparams ?_))⟩
    dsimp only
    rw [hstops]
    rfl

/-- The bootloader gives a kernel it has pages for the command line it should, exactly when the kernel's limit does
not fall within a character. What is read of it up to the first NUL is all of it unless it has one itself. -/
theorem placesCmdline_iff (hfw : fw.Lawful taken) (hnull : fw.NonNull) {s s₁ s₂ : State σ} {setup : Setup}
    {kernelMem params : Nat} (hread : readFile kernelPath = some image) (hsetup : readSetup image = .ok setup)
    (hkernel : placeKernel fw setup s = .ok (kernelMem, s₁))
    (hparams : bootParams fw image { s₁ with memory := copyKernel setup kernelMem s₁.memory } = .ok (params, s₂)) :
    (PlacesCmdline fw readFile kernelPath initrdPath cmdline image s ↔
      CutsBetween cmdline (at32 image.data cmdlineSize).toNat) ∧
    ∀ h, boot fw readFile kernelPath initrdPath cmdline s = .ok h →
      ∃ cl, WantedCmdline cmdline (at32 image.data cmdlineSize).toNat cl ∧
        (h.state.memory.cstr h.cmdMem = utf8 cl ↔ '\x00' ∉ cl) := by
  have hwanted : ∀ h, boot fw readFile kernelPath initrdPath cmdline s = .ok h →
      ∃ cl, WantedCmdline cmdline (at32 image.data cmdlineSize).toNat cl ∧
        h.state.memory.Holds h.cmdMem (utf8 cl ++ [0]) ∧ h.cmdMem + (utf8 cl).length < 2 ^ 64 := by
    intro h hboot
    obtain ⟨cl, hcut, hholds, hlow⟩ := boot_cmdline hfw hnull hread hboot
    rcases cutCmdline_spec cmdline (at32 image.data cmdlineSize).toNat with ⟨cl', hcut', hwanted, -⟩ | ⟨⟨_, hstops⟩, -⟩
    · obtain rfl := Except.ok.inj (hcut.symm.trans hcut')
      exact ⟨cl, hwanted, hholds, hlow⟩
    · rw [hstops] at hcut
      cases hcut
  refine ⟨⟨fun hplaces => ?_, fun hcuts => ⟨fun why hstop => ?_, fun h hboot => ?_⟩⟩, fun h hboot => ?_⟩
  · -- a cut within a character stops the bootloader, whatever the firmware has left
    rcases cutCmdline_spec cmdline (at32 image.data cmdlineSize).toNat with ⟨cl, -, -, hcuts⟩ | ⟨⟨message, hstops⟩, -⟩
    · exact hcuts
    · exfalso
      rcases boot_cases initrdPath cmdline hread hsetup hkernel hparams with ⟨cl, hcut, -⟩ | ⟨e, hcut, hboot⟩
      · rw [hstops] at hcut
        cases hcut
      · rw [hstops] at hcut
        obtain rfl := Except.error.inj hcut
        exact hplaces.goesOn _ hboot
  · rcases boot_cases initrdPath cmdline hread hsetup hkernel hparams with
      ⟨cl, -, ⟨h, hboot⟩ | hboot⟩ | ⟨e, hcut, -⟩
    · rw [hboot] at hstop
      cases hstop
    · rw [hboot] at hstop
      cases hstop
    · rcases cutCmdline_spec cmdline (at32 image.data cmdlineSize).toNat with ⟨cl, hcut', -, -⟩ | ⟨-, hnot⟩
      · rw [hcut'] at hcut
        cases hcut
      · exact hnot hcuts
  · obtain ⟨cl, hcl, hholds, -⟩ := hwanted h hboot
    exact ⟨cl, hcl, hholds⟩
  · obtain ⟨cl, hcl, hholds, hlow⟩ := hwanted h hboot
    exact ⟨cl, hcl, cstr_iff hholds hlow⟩

end

/-- The small kernel with a limit of three bytes for its command line. -/
def shortCmdline : Buffer := (bzImage 1 0).set32 cmdlineSize 3

/-- A limit behind the third letter: the command line is cut there. -/
theorem placesCmdline_quiet : PlacesCmdline bump.nonNull (linuxFiles shortCmdline) (cstr16 "\\vmlinuz") none
    "quiet".toList shortCmdline ⟨⟨fun _ => false, 0x10000⟩, fun _ => 0, []⟩ := by
  have hlimit : at32 shortCmdline.data cmdlineSize = 3 := by decide +kernel
  have hplaced : (do
      let setup ← readSetup shortCmdline
      let (kernelMem, s) ← placeKernel bump.nonNull setup ⟨⟨fun _ => false, 0x10000⟩, fun _ => 0, []⟩
      bootParams bump.nonNull shortCmdline { s with memory := copyKernel setup kernelMem s.memory }).isOk = true := by
    decide +kernel
  obtain ⟨⟨params, s₂⟩, hok⟩ := ok_of_isOk hplaced
  obtain ⟨setup, hsetup, hok⟩ := bind_ok hok
  obtain ⟨⟨kernelMem, s₁⟩, hkernel, hparams⟩ := bind_ok hok
  refine (placesCmdline_iff bump_lawful.nonNull bump.nonNull_nonNull (if_pos rfl) hsetup hkernel hparams).1.2 ?_
  rw [hlimit]
  exact .inr (.inr ⟨"qui".toList, ⟨"et".toList, rfl⟩, by decide⟩)

/-- A limit within a letter of two bytes: the bootloader stops. -/
theorem not_placesCmdline_accent : ¬ PlacesCmdline bump.nonNull (linuxFiles shortCmdline) (cstr16 "\\vmlinuz") none
    "ééé".toList shortCmdline ⟨⟨fun _ => false, 0x10000⟩, fun _ => 0, []⟩ := by
  intro h
  have hstops : (match boot bump.nonNull (linuxFiles shortCmdline) (cstr16 "\\vmlinuz") none "ééé".toList
      ⟨⟨fun _ => false, 0x10000⟩, fun _ => 0, []⟩ with
    | .error e => some e
    | .ok _ => none) = some (.stop (.panic "assertion failed: self.is_char_boundary(new_len)")) := by decide +kernel
  rcases hboot : boot bump.nonNull (linuxFiles shortCmdline) (cstr16 "\\vmlinuz") none "ééé".toList
      ⟨⟨fun _ => false, 0x10000⟩, fun _ => 0, []⟩ with e | handover <;> rw [hboot] at hstops
  · exact h.goesOn _ (hboot.trans (congrArg Except.error (Option.some.inj hstops)))
  · cases hstops

end Bang.Linux
