/-
What booting Linux leaves alone. Pages the firmware has handed out are not handed out again, so that a later
step writes to pages of its own and to the page of `boot_params`, and to no other: the kernel and the command
line are in memory at the jump as they were put there.
-/
import Bang.Linux.Params

namespace Bang.Linux

open LittleEndian

section
variable {σ : Type} {fw : Firmware σ} {taken : σ → Nat → Prop}

/-- A run of pages that were handed out. -/
structure Held (taken : σ → Nat → Prop) (a pages : Nat) (s : State σ) : Prop where
  aligned : pageSize ∣ a
  pos : 0 < pages
  taken : ∀ q, InRun a pages q → taken s.firmware q

theorem Granted.held {bytes a pages : Nat} {s s' : State σ} (h : Granted taken bytes a pages s s') :
    Held taken a pages s' :=
  ⟨h.aligned, h.low.1, fun q hq => (h.taken_iff q).2 (.inr hq)⟩

theorem Held.granted {b n bytes a pages : Nat} {s s' : State σ} (hheld : Held taken b n s)
    (h : Granted taken bytes a pages s s') : Held taken b n s' :=
  ⟨hheld.aligned, hheld.pos, fun q hq => (h.taken_iff q).2 (.inl (hheld.taken q hq))⟩

/-- Writes change nothing about what was handed out. -/
theorem Held.store {a pages : Nat} {s : State σ} (h : Held taken a pages s) (m : Mem UInt8) :
    Held taken a pages { s with memory := m } :=
  ⟨h.aligned, h.pos, h.taken⟩

/-- Pages handed out later are others. -/
theorem Held.apart {b n bytes a pages : Nat} {s s' : State σ} (hheld : Held taken b n s)
    (h : Granted taken bytes a pages s s') : a + pages * pageSize ≤ b ∨ b + n * pageSize ≤ a :=
  runs_apart h.aligned hheld.aligned h.low.1 hheld.pos fun q hq hq' => h.free q hq (hheld.taken q hq')

/-! ## What a step leaves alone -/

/-- A step that leaves alone all the pages that were handed out before, but for the page at `params`. -/
def Spares (taken : σ → Nat → Prop) (params : Nat) (s s' : State σ) : Prop :=
  ∀ b n, Held taken b n s → params + pageSize ≤ b ∨ b + n * pageSize ≤ params →
    Held taken b n s' ∧ ∀ i, b ≤ i → i < b + n * pageSize → s'.memory i = s.memory i

theorem Spares.refl {params : Nat} (s : State σ) : Spares taken params s s :=
  fun _ _ hheld _ => ⟨hheld, fun _ _ _ => rfl⟩

theorem Spares.trans {params : Nat} {s s' s'' : State σ} (h : Spares taken params s s')
    (h' : Spares taken params s' s'') : Spares taken params s s'' := by
  intro b n hheld hapart
  obtain ⟨hheld', hsame⟩ := h b n hheld hapart
  obtain ⟨hheld'', hsame'⟩ := h' b n hheld' hapart
  exact ⟨hheld'', fun i hlo hhi => (hsame' i hlo hhi).trans (hsame i hlo hhi)⟩

/-- A region in pages that are spared holds what it held. -/
theorem Spares.holds {params b n a : Nat} {bs : List UInt8} {s s' : State σ} (h : Spares taken params s s')
    (hheld : Held taken b n s) (hapart : params + pageSize ≤ b ∨ b + n * pageSize ≤ params) (hlo : b ≤ a)
    (hhi : a + bs.length ≤ b + n * pageSize) (hholds : s.memory.Holds a bs) : s'.memory.Holds a bs :=
  hholds.congr fun i hi hi' => (h b n hheld hapart).2 i (by omega) (by omega)

/-- Writes to pages of the step's own. -/
theorem Granted.spares {bytes a pages : Nat} {s s' : State σ} (h : Granted taken bytes a pages s s')
    {m : Mem UInt8} (hm : s.memory.SameOutside m a (a + pages * pageSize)) (params : Nat) :
    Spares taken params s { s' with memory := m } := by
  intro b n hheld _
  have hapart := hheld.apart h
  have hheld' := hheld.granted h
  exact ⟨hheld'.store m, fun i hlo hhi => hm i (by omega)⟩

/-- Writes to the page at `params`. -/
theorem Spares.write {params : Nat} {s s' : State σ} (h : Spares taken params s s') {m : Mem UInt8}
    (hm : s'.memory.SameOutside m params (params + pageSize)) : Spares taken params s { s' with memory := m } := by
  refine h.trans fun b n hheld hapart => ?_
  exact ⟨hheld.store m, fun i hlo hhi => hm i (by omega)⟩

theorem put_same {params o : Nat} {bs : List UInt8} {m m' : Mem UInt8} (h : put params o bs m = .ok m') :
    m.SameOutside m' params (params + pageSize) := by
  unfold put at h
  split at h
  · rename_i hin
    cases h
    refine (Mem.sameOutside_store _ _ _).mono (Nat.le_add_right ..) ?_
    unfold pageSize
    omega
  · cases h

/-! ## The steps -/

/-- The page of `boot_params` is a page of its own. -/
theorem bootParams_spares (hfw : fw.Lawful taken) (hnull : fw.NonNull) {image : Buffer} {params : Nat}
    {s s' : State σ} (h : bootParams fw image s = .ok (params, s')) :
    ∃ pages, Held taken params pages s' ∧ ∀ b n, Held taken b n s →
      (params + pageSize ≤ b ∨ b + n * pageSize ≤ params) ∧ Held taken b n s' ∧
        ∀ i, b ≤ i → i < b + n * pageSize → s'.memory i = s.memory i := by
  obtain ⟨s₁, header, m, hask, -, hput, rfl⟩ := bootParams_steps h
  obtain ⟨pages, hgranted⟩ := allocLow_some hfw hnull hask
  have hpage : pageSize ≤ pages * pageSize := hgranted.room
  have hwrites : s.memory.SameOutside m params (params + pages * pageSize) := by
    have hclear := Mem.sameOutside_store s₁.memory params (List.replicate 4096 0)
    rw [List.length_replicate, hgranted.memory] at hclear
    rw [hgranted.memory] at hput
    exact (hclear.mono (Nat.le_refl _) (Nat.add_le_add_left hpage _)).trans
      ((put_same hput).mono (Nat.le_refl _) (Nat.add_le_add_left hpage _))
  refine ⟨pages, hgranted.held.store m, fun b n hb => ?_⟩
  have hapart := hb.apart hgranted
  have hpage' : params + pageSize ≤ b ∨ b + n * pageSize ≤ params := by omega
  obtain ⟨hb', hsame⟩ := hgranted.spares hwrites params b n hb hpage'
  exact ⟨hpage', hb', hsame⟩

/-- The command line is written to pages of its own, and ends with a NUL. -/
theorem placeCmdline_spares (hfw : fw.Lawful taken) (hnull : fw.NonNull) {image : Buffer} {cmdline : Str}
    {params cmdMem : Nat} {s s' : State σ} (h : placeCmdline fw image cmdline params s = .ok (cmdMem, s')) :
    Spares taken params s s' ∧ ∃ cl, cutCmdline cmdline (at32 image.data cmdlineSize).toNat = .ok cl ∧
      ∃ pages, Held taken cmdMem pages s' ∧ (utf8 cl).length + 1 ≤ pages * pageSize ∧
        cmdMem + pages * pageSize ≤ 2 ^ 32 ∧ ∀ n, Held taken params n s →
          (params + pageSize ≤ cmdMem ∨ cmdMem + pages * pageSize ≤ params) ∧
            s'.memory.Holds cmdMem (utf8 cl ++ [0]) := by
  obtain ⟨cl, s₁, m, hcl, hask, hput, rfl⟩ := placeCmdline_steps h
  obtain ⟨pages, hgranted⟩ := allocLow_some hfw hnull hask
  rw [hgranted.memory] at hput
  have hlen : (utf8 cl ++ [0]).length = (utf8 cl).length + 1 := List.length_append
  have hroom := hgranted.room
  have hstored := Mem.sameOutside_store s.memory cmdMem (utf8 cl ++ [0])
  rw [hlen] at hstored
  refine ⟨?_, cl, hcl, pages, hgranted.held.store m, hroom, hgranted.low.2, fun n hparams => ?_⟩
  · have hspares := hgranted.spares (hstored.mono (Nat.le_refl _) (Nat.add_le_add_left hroom _)) params
    exact hspares.write (put_same hput)
  · have hapart := hparams.apart hgranted
    have hpos : pageSize ≤ n * pageSize := Nat.le_mul_of_pos_left _ hparams.pos
    -- the field for its address is in the page, so that the text is left alone
    have hout : params + pageSize ≤ cmdMem ∨ cmdMem + pages * pageSize ≤ params := by omega
    refine ⟨hout, (Mem.holds_store s.memory cmdMem (utf8 cl ++ [0])).sameOutside (put_same hput) ?_⟩
    rw [hlen]
    omega

theorem placeInitrd_spares (hfw : fw.Lawful taken) (hnull : fw.NonNull) {readFile : CString16 → Option Buffer}
    {initrdPath : Option CString16} {params : Nat} {ramdisk : Option (Nat × Nat)} {s s' : State σ}
    (h : placeInitrd fw readFile initrdPath params s = .ok (ramdisk, s')) : Spares taken params s s' := by
  rcases placeInitrd_steps h with ⟨-, rfl | ⟨bytes, hask⟩⟩ | ⟨initrd, a, s₁, m, m', -, hask, himage, hsize, rfl⟩
  · exact .refl _
  · obtain ⟨hmemory, htaken⟩ := allocLow_none hfw hask
    intro b n hheld _
    exact ⟨⟨hheld.aligned, hheld.pos, fun q hq => (htaken q).2 (hheld.taken q hq)⟩, fun i _ _ => by rw [hmemory]⟩
  · obtain ⟨pages, hgranted⟩ := allocLow_some hfw hnull hask
    have hstored := Mem.sameOutside_store s.memory a initrd.data
    rw [hgranted.memory] at himage
    have hspares := hgranted.spares (hstored.mono (Nat.le_refl _) (Nat.add_le_add_left hgranted.room _)) params
    exact (hspares.write (put_same himage)).write (put_same hsize)

theorem finishParams_same {params kernelMem : Nat} {m m' : Mem UInt8} (h : finishParams params kernelMem m = .ok m') :
    m.SameOutside m' params (params + pageSize) := by
  unfold finishParams at h
  obtain ⟨m₁, hloader, h⟩ := bind_ok h
  obtain ⟨m₂, hflags, h⟩ := bind_ok h
  exact ((put_same hloader).trans (put_same hflags)).trans (put_same h)

end

end Bang.Linux
