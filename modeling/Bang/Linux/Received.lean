/-
What a Linux kernel receives (`boot` of `src/linux.rs`): the kernel, the page of `boot_params`, the command line and
the initrd are in pages of their own, nothing else of memory has changed, and who reads the page finds the command
line and the initrd. Every access on the way there is good.
-/
import Bang.Linux.Accesses

namespace Bang.Linux

open LittleEndian

/-! ## Runs of pages -/

/-- Address `i` is in a run of pages. -/
def InPages (r : Nat × Nat) (i : Nat) : Prop := r.1 ≤ i ∧ i < r.1 + r.2 * pageSize

/-- `n` bytes from `a` are in a run of pages. -/
def Within (r : Nat × Nat) (a n : Nat) : Prop := r.1 ≤ a ∧ a + n ≤ r.1 + r.2 * pageSize

/-- Two runs of pages, one behind the other. -/
def RunsApart (r r' : Nat × Nat) : Prop := r.1 + r.2 * pageSize ≤ r'.1 ∨ r'.1 + r'.2 * pageSize ≤ r.1

section
variable {σ : Type} {fw : Firmware σ} {taken : σ → Nat → Prop}

/-- A part of a boot to which `runs` were handed out: each is apart from the others and from all that was taken
before, and no memory has changed but in them and in the runs `own` handed out earlier. -/
structure Owns (taken : σ → Nat → Prop) (own : List (Nat × Nat)) (s s' : State σ) (runs : List (Nat × Nat)) : Prop where
  granted : s'.granted = s.granted ++ runs
  held : ∀ r ∈ runs, Held taken r.1 r.2 s'
  apart : runs.Pairwise RunsApart
  keeps : ∀ b n, Held taken b n s → Held taken b n s' ∧ ∀ r ∈ runs, RunsApart (b, n) r
  same : ∀ i, (∀ r ∈ own ++ runs, ¬ InPages r i) → s'.memory i = s.memory i

theorem Owns.refl (own : List (Nat × Nat)) (s : State σ) : Owns taken own s s [] :=
  ⟨(List.append_nil _).symm, nofun, .nil, fun _ _ h => ⟨h, nofun⟩, fun _ _ => rfl⟩

/-- A part of a boot and the next, which may write to what was handed out to the first. -/
theorem Owns.trans {own own' runs runs' : List (Nat × Nat)} {s s' s'' : State σ} (h : Owns taken own s s' runs)
    (h' : Owns taken own' s' s'' runs') (hown : own' ⊆ own ++ runs) : Owns taken own s s'' (runs ++ runs') := by
  refine ⟨?_, fun r hr => ?_, ?_, fun b n hheld => ?_, fun i hi => ?_⟩
  · rw [h'.granted, h.granted, List.append_assoc]
  · rcases List.mem_append.1 hr with hr | hr
    · exact (h'.keeps _ _ (h.held r hr)).1
    · exact h'.held r hr
  · refine List.pairwise_append.2 ⟨h.apart, h'.apart, fun r hr r' hr' => ?_⟩
    exact (h'.keeps _ _ (h.held r hr)).2 r' hr'
  · obtain ⟨hheld', hapart⟩ := h.keeps b n hheld
    obtain ⟨hheld'', hapart'⟩ := h'.keeps b n hheld'
    refine ⟨hheld'', fun r hr => ?_⟩
    rcases List.mem_append.1 hr with hr | hr
    · exact hapart r hr
    · exact hapart' r hr
  · refine (h'.same i fun r hr => ?_).trans (h.same i fun r hr => ?_)
    · rcases List.mem_append.1 hr with hr | hr
      · rcases List.mem_append.1 (hown hr) with hr | hr
        · exact hi r (List.mem_append_left _ hr)
        · exact hi r (List.mem_append_right _ (List.mem_append_left _ hr))
      · exact hi r (List.mem_append_right _ (List.mem_append_right _ hr))
    · rcases List.mem_append.1 hr with hr | hr
      · exact hi r (List.mem_append_left _ hr)
      · exact hi r (List.mem_append_right _ (List.mem_append_left _ hr))

/-- Writes to runs that were handed out earlier. -/
theorem Owns.write {own : List (Nat × Nat)} (s : State σ) {m : Mem UInt8}
    (hm : ∀ i, (∀ r ∈ own, ¬ InPages r i) → m i = s.memory i) : Owns taken own s { s with memory := m } [] :=
  ⟨(List.append_nil _).symm, nofun, .nil, fun _ _ hheld => ⟨hheld.store m, nofun⟩,
    fun i hi => hm i fun r hr => hi r (List.mem_append_left _ hr)⟩

/-- An allocation, and writes to the pages of it. -/
theorem Granted.owns {bytes a pages : Nat} {s s' : State σ} (h : Granted taken bytes a pages s s')
    {own : List (Nat × Nat)} {m : Mem UInt8}
    (hm : ∀ i, (∀ r ∈ own ++ [(a, pages)], ¬ InPages r i) → m i = s.memory i) :
    Owns taken own s { s' with memory := m } [(a, pages)] := by
  refine ⟨h.granted, fun r hr => ?_, List.pairwise_singleton .., fun b n hheld => ?_, hm⟩
  · rw [List.mem_singleton.1 hr]
    exact h.held.store m
  · refine ⟨(hheld.granted h).store m, fun r hr => ?_⟩
    rw [List.mem_singleton.1 hr]
    exact (hheld.apart h).symm

/-- Memory that is the same outside of a run in the list. -/
theorem same_of_mem {runs : List (Nat × Nat)} {r : Nat × Nat} (hr : r ∈ runs) {m m' : Mem UInt8} {lo hi : Nat}
    (h : m.SameOutside m' lo hi) (hlo : r.1 ≤ lo) (hhi : hi ≤ r.1 + r.2 * pageSize) {i : Nat}
    (hi' : ∀ r ∈ runs, ¬ InPages r i) : m' i = m i := by
  have hout := hi' r hr
  unfold InPages at hout
  exact h i (by omega)

/-! ## The steps -/

theorem placeKernel_keeps (hfw : fw.Lawful taken) (hnull : fw.NonNull) {setup : Setup} {kernelMem : Nat}
    {s s' : State σ} (h : placeKernel fw setup s = .ok (kernelMem, s')) {q : Nat} (hq : taken s.firmware q) :
    taken s'.firmware q := by
  unfold placeKernel at h
  split at h
  · split at h
    · rename_i a t hask
      cases h
      obtain ⟨pages, hgranted⟩ := allocLow_some hfw hnull hask
      exact (hgranted.taken_iff q).2 (.inl hq)
    · cases h
  · dsimp only at h
    split at h
    · rename_i f hask
      cases h
      have htaken := hfw.at_taken s.firmware setup.prefAddress (divCeil setup.need 4096) q
      rw [hask] at htaken
      exact htaken.2 (.inl hq)
    · cases h

/-- The kernel's pages are handed out to it, and it is written to them. -/
theorem placeKernel_owns (hfw : fw.Lawful taken) (hnull : fw.NonNull) {image : Buffer} {kernelMem : Nat}
    {s s' : State σ} (hpages : ∀ q, ¬ taken s.firmware q → pageSize ∣ q)
    (hkernel : kernelOffset (byteAt image setupSects) < image.size)
    (h : placeKernel fw (setupOf image) s = .ok (kernelMem, s')) :
    ∃ r, Within r kernelMem (setupOf image).need ∧
      Owns taken [] s { s' with memory := copyKernel (setupOf image) kernelMem s'.memory } [r] := by
  obtain ⟨a, pages, hregion⟩ := placeKernel_region hfw hnull hkernel h
  have hlow := hregion.low
  have hhigh := hregion.high
  have hlen : (setupOf image).kernelBytes.length ≤ (setupOf image).need := Nat.le_max_right ..
  have hcopied : s.memory.SameOutside (copyKernel (setupOf image) kernelMem s'.memory) kernelMem
      (kernelMem + (setupOf image).need) := by
    have hclear := Mem.sameOutside_store s'.memory kernelMem (List.replicate (setupOf image).need 0)
    rw [List.length_replicate, hregion.memory] at hclear
    unfold copyKernel
    rw [hregion.memory]
    exact hclear.trans ((Mem.sameOutside_store _ _ _).mono (Nat.le_refl _) (by omega))
  refine ⟨(a, pages), ⟨hlow, hhigh⟩, hregion.granted, fun r hr => ?_, List.pairwise_singleton .., fun b n hheld => ?_,
    fun i hi => same_of_mem (List.mem_singleton.2 rfl) hcopied hlow hhigh hi⟩
  · rw [List.mem_singleton.1 hr]
    exact (hregion.held hpages).store _
  · refine ⟨⟨hheld.aligned, hheld.pos, fun q hq => placeKernel_keeps hfw hnull h (hheld.taken q hq)⟩, fun r hr => ?_⟩
    rw [List.mem_singleton.1 hr]
    exact runs_apart hheld.aligned (hregion.held hpages).aligned hheld.pos hregion.pos fun q hq hq' =>
      hregion.free q hq' (hheld.taken q hq)

theorem bootParams_owns (hfw : fw.Lawful taken) (hnull : fw.NonNull) {image : Buffer} {params : Nat}
    {s s' : State σ} (h : bootParams fw image s = .ok (params, s')) : Owns taken [] s s' [(params, 1)] := by
  have hrun := bootParams_granted h
  obtain ⟨s₁, header, m, hask, -, hput, rfl⟩ := bootParams_steps h
  obtain ⟨pages, hgranted⟩ := allocLow_some hfw hnull hask
  obtain rfl : pages = 1 := by
    have hsame := List.append_cancel_left (hgranted.granted.symm.trans hrun)
    exact (Prod.mk.inj (List.head_eq_of_cons_eq hsame)).2
  have hclear := Mem.sameOutside_store s₁.memory params (List.replicate 4096 0)
  rw [List.length_replicate, hgranted.memory] at hclear
  rw [hgranted.memory] at hput
  have hwrites : s.memory.SameOutside m params (params + 1 * pageSize) := by
    rw [Nat.one_mul]
    exact hclear.trans (put_same hput)
  exact hgranted.owns fun i hi => same_of_mem (List.mem_singleton.2 rfl) hwrites (Nat.le_refl _) (Nat.le_refl _) hi

/-- A write to the page of `boot_params`. -/
theorem page_same {params : Nat} {m m' : Mem UInt8} (h : m.SameOutside m' params (params + pageSize))
    {runs : List (Nat × Nat)} {i : Nat} (hi : ∀ r ∈ (params, 1) :: runs, ¬ InPages r i) : m' i = m i :=
  same_of_mem (List.mem_cons_self ..) h (Nat.le_refl _) (by rw [Nat.one_mul]) hi

theorem placeCmdline_owns (hfw : fw.Lawful taken) (hnull : fw.NonNull) {image : Buffer} {cmdline : Str}
    {params cmdMem : Nat} {s s' : State σ} (h : placeCmdline fw image cmdline params s = .ok (cmdMem, s')) :
    ∃ cl r, cutCmdline cmdline (at32 image.data cmdlineSize).toNat = .ok cl ∧
      Within r cmdMem ((utf8 cl).length + 1) ∧ Owns taken [(params, 1)] s s' [r] := by
  obtain ⟨cl, s₁, m, hcl, hask, hput, rfl⟩ := placeCmdline_steps h
  obtain ⟨pages, hgranted⟩ := allocLow_some hfw hnull hask
  rw [hgranted.memory] at hput
  have hroom := Nat.add_le_add_left hgranted.room cmdMem
  have hstored := Mem.sameOutside_store s.memory cmdMem (utf8 cl ++ [0])
  rw [List.length_append, List.length_singleton] at hstored
  refine ⟨cl, (cmdMem, pages), hcl, ⟨Nat.le_refl _, hroom⟩, hgranted.owns fun i hi => ?_⟩
  exact (page_same (put_same hput) hi).trans
    (same_of_mem (List.mem_cons_of_mem _ (List.mem_singleton.2 rfl)) hstored (Nat.le_refl _) hroom hi)

/-- There is no initrd, or it is the file's bytes, in pages of its own. -/
theorem placeInitrd_owns (hfw : fw.Lawful taken) (hnull : fw.NonNull) {readFile : CString16 → Option Buffer}
    {initrdPath : Option CString16} {params : Nat} {ramdisk : Option (Nat × Nat)} {s s' : State σ}
    (h : placeInitrd fw readFile initrdPath params s = .ok (ramdisk, s')) :
    (ramdisk = none ∧ Owns taken [(params, 1)] s s' []) ∨
      ∃ path initrd mem r, initrdPath = some path ∧ readFile path = some initrd ∧ ramdisk = some (mem, initrd.size) ∧
        Within r mem initrd.size ∧ Owns taken [(params, 1)] s s' [r] ∧
        ∀ n, Held taken params n s → s'.memory.Holds mem initrd.data := by
  unfold placeInitrd at h
  split at h
  · cases h
    exact .inl ⟨rfl, .refl _ _⟩
  rename_i path
  split at h
  · cases h
    exact .inl ⟨rfl, .refl _ _⟩
  rename_i initrd hread
  split at h
  · rename_i s₁ hask
    cases h
    obtain ⟨hmemory, htaken⟩ := allocLow_none hfw hask
    refine .inl ⟨rfl, ?_, nofun, .nil, fun b n hheld => ⟨⟨hheld.aligned, hheld.pos, fun q hq => ?_⟩, nofun⟩, ?_⟩
    · rw [List.append_nil, allocLow_refused hask]
    · exact (htaken q).2 (hheld.taken q hq)
    · exact fun i _ => congrFun hmemory i
  · rename_i a s₁ hask
    obtain ⟨m, himage, h⟩ := bind_ok h
    obtain ⟨m', hsize, h⟩ := bind_ok h
    cases h
    obtain ⟨pages, hgranted⟩ := allocLow_some hfw hnull hask
    rw [hgranted.memory] at himage
    have hlen : initrd.data.length = initrd.size := rfl
    have hroom := Nat.add_le_add_left hgranted.room a
    have hstored := Mem.sameOutside_store s.memory a initrd.data
    rw [hlen] at hstored
    have hfields := (put_same himage).trans (put_same hsize)
    refine .inr ⟨path, initrd, a, (a, pages), rfl, hread, rfl, ⟨Nat.le_refl _, hroom⟩, hgranted.owns fun i hi => ?_,
      fun n hparams => ?_⟩
    · exact (page_same hfields hi).trans
        (same_of_mem (List.mem_cons_of_mem _ (List.mem_singleton.2 rfl)) hstored (Nat.le_refl _) hroom hi)
    · -- the fields are in the page, which is not among the initrd's
      have hapart := hparams.apart hgranted
      have hpos : pageSize ≤ n * pageSize := Nat.le_mul_of_pos_left _ hparams.pos
      exact (Mem.holds_store s.memory a initrd.data).sameOutside hfields (by omega)

/-! ## At the jump -/

/-- What is where: the pages of the kernel, of `boot_params`, of the command line and, if there is one, of the
initrd. -/
def Handover.Pages (h : Handover σ) (image : Buffer) (cl : Str) (runs : List (Nat × Nat)) : Prop :=
  ∃ kernel cmdline ramdisk, runs = kernel :: (h.params, 1) :: cmdline :: ramdisk ∧
    Within kernel h.kernelMem (setupOf image).need ∧ Within cmdline h.cmdMem ((utf8 cl).length + 1) ∧
    ramdisk.length = h.ramdisk.toList.length ∧ ∀ r ∈ ramdisk, ∀ x ∈ h.ramdisk, Within r x.1 x.2

/-- What a kernel finds by the page of `boot_params`. -/
structure Handover.Finds (h : Handover σ) (readFile : CString16 → Option Buffer) (initrdPath : Option CString16)
    (cl : Str) : Prop where
  cmdline : h.state.memory.load (h.number cmdLinePtr) ((utf8 cl).length + 1) = utf8 cl ++ [0]
  initrd : h.ramdisk ≠ none → ∃ path initrd, initrdPath = some path ∧ readFile path = some initrd ∧
    h.state.memory.load (h.number ramdiskImage) (h.number ramdiskSize) = initrd.data

/-- At the jump, the kernel and what it is told are in pages that are apart from one another and from all that was
taken before, memory outside of them is as it was, and the kernel finds its command line and the bytes of the
initrd. -/
theorem boot_received (hfw : fw.Lawful taken) (hnull : fw.NonNull) {readFile : CString16 → Option Buffer}
    {kernelPath : CString16} {initrdPath : Option CString16} {cmdline : Str} {s : State σ} {h : Handover σ}
    {image : Buffer} (hpages : ∀ q, ¬ taken s.firmware q → pageSize ∣ q) (hread : readFile kernelPath = some image)
    (hboot : boot fw readFile kernelPath initrdPath cmdline s = .ok h) :
    ∃ cl runs, cutCmdline cmdline (at32 image.data cmdlineSize).toNat = .ok cl ∧ h.Pages image cl runs ∧
      Owns taken [] s h.state runs ∧ h.state.memory.Holds h.kernelMem (setupOf image).region ∧
      h.Finds readFile initrdPath cl := by
  have hpage := boot_page hfw hnull hread hboot
  obtain ⟨a, pages, hkernelIn⟩ := boot_kernel hfw hnull hpages hread hboot
  obtain ⟨cl, hcl, hcmd, -⟩ := boot_cmdline hfw hnull hread hboot
  obtain ⟨s₁, s₂, s₃, s₄, m, hsetup, hkernel, hparams, hcmdline, hinitrd, hfinish, hstate⟩ := boot_ok hread hboot
  obtain ⟨k, hk, howns₁⟩ := placeKernel_owns hfw hnull hpages (readSetup_ok hsetup).2.2 hkernel
  have howns₂ := bootParams_owns hfw hnull hparams
  obtain ⟨cl', c, hcl', hc, howns₃⟩ := placeCmdline_owns hfw hnull hcmdline
  cases hcl.symm.trans hcl'
  have howns₅ : Owns taken [(h.params, 1)] s₄ h.state [] := by
    rw [hstate]
    exact .write s₄ fun i hi => page_same (finishParams_same hfinish) hi
  have hbefore := (howns₁.trans howns₂ (List.nil_subset _)).trans howns₃ (by simp)
  have hparamsHeld : Held taken h.params 1 s₃ := hbefore.held (h.params, 1) (by simp)
  have hfound := hcmd.load_eq
  rw [List.length_append, List.length_singleton, ← hpage.cmdline] at hfound
  rcases placeInitrd_owns hfw hnull hinitrd with
    ⟨hnone, howns₄⟩ | ⟨path, initrd, mem, r, hpath, hfile, hramdisk, hr, howns₄, hholds⟩
  · refine ⟨cl, [k] ++ [(h.params, 1)] ++ [c] ++ [] ++ [], hcl, ⟨k, c, [], rfl, hk, hc, by rw [hnone]; rfl, nofun⟩,
      (hbefore.trans howns₄ (by simp)).trans howns₅ (by simp), hkernelIn.holds, hfound, fun hsome => ?_⟩
    exact absurd hnone hsome
  · obtain ⟨himage, hsize⟩ := hpage.initrd mem initrd.size hramdisk
    refine ⟨cl, [k] ++ [(h.params, 1)] ++ [c] ++ [r] ++ [], hcl, ⟨k, c, [r], rfl, hk, hc, by rw [hramdisk]; rfl, ?_⟩,
      (hbefore.trans howns₄ (by simp)).trans howns₅ (by simp), hkernelIn.holds, hfound, fun _ => ?_⟩
    · intro r' hr' x hx
      rw [hramdisk] at hx
      cases hx
      rw [List.mem_singleton.1 hr']
      exact hr
    · refine ⟨path, initrd, hpath, hfile, ?_⟩
      rw [himage, hsize]
      -- the last writes are to the page, which is apart from the initrd's
      have hapart := (howns₄.keeps _ _ hparamsHeld).2 r (List.mem_singleton.2 rfl)
      have hlast : h.state.memory.Holds mem initrd.data := by
        rw [hstate]
        refine (hholds 1 hparamsHeld).sameOutside (finishParams_same hfinish) ?_
        have hlen : initrd.data.length = initrd.size := rfl
        unfold RunsApart at hapart
        unfold Within at hr
        omega
      exact hlast.load_eq

/-- Whatever the file says, every read of it is inside it, every size fits and every write is inside the pages that
were allocated for it, outside of which memory is as it was; and where the kernel is started, it is in its pages with
clear bytes behind it, and aligned if it can be moved. -/
theorem boot_accesses (hfw : fw.Lawful taken) (hnull : fw.NonNull) {readFile : CString16 → Option Buffer}
    {kernelPath : CString16} {cmdline : Str} {s : State σ} {image : Buffer}
    (hpages : ∀ q, ¬ taken s.firmware q → pageSize ∣ q) (hread : readFile kernelPath = some image)
    (hcmdline : (utf8 cmdline).length < 2 ^ 63) (initrdPath : Option CString16) :
    (Accessing.boot fw readFile kernelPath initrdPath cmdline s).result =
        boot fw readFile kernelPath initrdPath cmdline s ∧
      (∀ x ∈ (Accessing.boot fw readFile kernelPath initrdPath cmdline s).reads, x.Good image) ∧
      boot fw readFile kernelPath initrdPath cmdline s ≠ .error (.stop .outOfRange) ∧
      ∀ h, boot fw readFile kernelPath initrdPath cmdline s = .ok h → (∃ a pages, h.KernelIn image s a pages) ∧
        ∃ runs, h.state.granted = s.granted ++ runs ∧
          ∀ i, (∀ r ∈ runs, ¬ InPages r i) → h.state.memory i = s.memory i := by
  have hresult := Accessing.boot_result fw readFile kernelPath initrdPath cmdline s
  have hfine := Accessing.fine_boot hfw hnull hread hcmdline initrdPath s
  refine ⟨hresult, hfine.reads, ?_, fun h hboot => ⟨boot_kernel hfw hnull hpages hread hboot, ?_⟩⟩
  · rw [← hresult]
    exact hfine.result
  · obtain ⟨cl, runs, -, -, howns, -, -⟩ := boot_received hfw hnull hpages hread hboot
    exact ⟨runs, howns.granted, howns.same⟩

/-! ## Without the initrd -/

/-- A boot with an initrd and one without: they jump to the same place, and what is in memory differs in the initrd
and its two fields at most. -/
structure Handover.SameBut (h h' : Handover σ) : Prop where
  entry : h'.entry = h.entry
  params : h'.params = h.params
  kernelMem : h'.kernelMem = h.kernelMem
  cmdMem : h'.cmdMem = h.cmdMem
  memory : ∀ i, (∀ x ∈ h.ramdisk, i < x.1 ∨ x.1 + x.2 ≤ i) →
    (i < h.params + ramdiskImage ∨ h.params + ramdiskSize + 4 ≤ i) → h'.state.memory i = h.state.memory i

theorem put_store {params o : Nat} {bs : List UInt8} {m m' : Mem UInt8} (h : put params o bs m = .ok m') :
    m' = m.store (params + o) bs := by
  unfold put at h
  split at h
  · exact (Except.ok.inj h).symm
  · cases h

theorem allocLow_memory {bytes : Nat} {a : Option Nat} {s s' : State σ} (h : allocLow fw bytes s = (a, s')) :
    s'.memory = s.memory := by
  unfold allocLow at h
  simp only at h
  split at h <;> cases h <;> rfl

/-- What an initrd that was placed changes: its own bytes and its two fields. -/
theorem placeInitrd_same {readFile : CString16 → Option Buffer} {initrdPath : Option CString16} {params : Nat}
    {ramdisk : Option (Nat × Nat)} {s s' : State σ} (hfw : fw.Lawful taken)
    (h : placeInitrd fw readFile initrdPath params s = .ok (ramdisk, s')) {i : Nat}
    (hout : ∀ x ∈ ramdisk, i < x.1 ∨ x.1 + x.2 ≤ i)
    (hfields : i < params + ramdiskImage ∨ params + ramdiskSize + 4 ≤ i) : s'.memory i = s.memory i := by
  rcases placeInitrd_steps h with ⟨-, rfl | ⟨bytes, hask⟩⟩ | ⟨initrd, a, s₁, m, m', rfl, hask, himage, hsize, rfl⟩
  · rfl
  · rw [(allocLow_none hfw hask).1]
  · have hlen : initrd.data.length = initrd.size := rfl
    have hout := hout (a, initrd.size) rfl
    simp only [ramdiskImage, ramdiskSize] at *
    show m' i = s.memory i
    rw [put_store hsize, Mem.sameOutside_store _ _ _ i (by rw [length_u32]; omega), put_store himage,
      Mem.sameOutside_store _ _ _ i (by rw [length_u32]; omega), Mem.sameOutside_store _ _ _ i (by omega),
      (allocLow_memory hask)]

/-- The last fields are the same where the memory and the load flags before were. -/
theorem finishParams_congr {params kernelMem : Nat} {m m' n n' : Mem UInt8}
    (h : finishParams params kernelMem m = .ok n) (h' : finishParams params kernelMem m' = .ok n')
    (hflags : m' (params + loadflags) = m (params + loadflags)) {i : Nat} (hi : m' i = m i) : n' i = n i := by
  unfold finishParams at h h'
  obtain ⟨m₁, hloader, h⟩ := bind_ok h
  obtain ⟨m₂, hflags₂, h⟩ := bind_ok h
  obtain ⟨m₁', hloader', h'⟩ := bind_ok h'
  obtain ⟨m₂', hflags₂', h'⟩ := bind_ok h'
  have hsame : ∀ j, m' j = m j → m₁' j = m₁ j := by
    intro j hj
    rw [put_store hloader, put_store hloader']
    exact Mem.store_congr _ _ hj
  rw [put_store hflags₂'] at h'
  rw [put_store hflags₂, ← hsame _ hflags] at h
  rw [put_store h, put_store h']
  exact Mem.store_congr _ _ (Mem.store_congr _ _ (hsame i hi))

/-- `boot` up to the initrd. -/
def bootFront (fw : Firmware σ) (readFile : CString16 → Option Buffer) (kernelPath : CString16) (cmdline : Str)
    (s : State σ) : Except Failure (Setup × Nat × Nat × Nat × State σ) :=
  match readFile kernelPath with
  | none => .error (.status .notFound)
  | some image => do
    let setup ← readSetup image
    let (kernelMem, s) ← placeKernel fw setup s
    let s := { s with memory := copyKernel setup kernelMem s.memory }
    let (params, s) ← bootParams fw image s
    let (cmdMem, s) ← placeCmdline fw image cmdline params s
    pure (setup, kernelMem, params, cmdMem, s)

/-- `boot` from the initrd on. -/
def bootRest (fw : Firmware σ) (readFile : CString16 → Option Buffer) (initrdPath : Option CString16)
    (front : Setup × Nat × Nat × Nat × State σ) : Except Failure (Handover σ) := do
  let (setup, kernelMem, params, cmdMem, s) := front
  let (ramdisk, s) ← placeInitrd fw readFile initrdPath params s
  let m ← finishParams params kernelMem s.memory
  pure ⟨(kernelMem + setup.handoverOffset + handover64Offset) % 2 ^ 64, params, { s with memory := m },
    kernelMem, cmdMem, ramdisk⟩

theorem boot_eq (fw : Firmware σ) (readFile : CString16 → Option Buffer) (kernelPath : CString16)
    (initrdPath : Option CString16) (cmdline : Str) (s : State σ) :
    boot fw readFile kernelPath initrdPath cmdline s =
      bootFront fw readFile kernelPath cmdline s >>= bootRest fw readFile initrdPath := by
  unfold boot bootFront bootRest
  cases readFile kernelPath with
  | none => rfl
  | some image => simp only [bind_assoc, pure_bind]

/-- An initrd is never what a boot fails for: with it or without it the kernel is started or not for the same reason,
at the same place, and with the same memory but for the initrd and its two fields. -/
theorem boot_initrd_optional (hfw : fw.Lawful taken) (hnull : fw.NonNull) (readFile : CString16 → Option Buffer)
    (kernelPath : CString16) (initrdPath : Option CString16) (cmdline : Str) (s : State σ) :
    (∀ e, boot fw readFile kernelPath initrdPath cmdline s = .error e ↔
        boot fw readFile kernelPath none cmdline s = .error e) ∧
      ∀ h, boot fw readFile kernelPath initrdPath cmdline s = .ok h →
        ∃ h', boot fw readFile kernelPath none cmdline s = .ok h' ∧ h.SameBut h' := by
  have hrest : ∀ path x, ∃ h, bootRest fw readFile path x = .ok h := by
    rintro path ⟨setup, kernelMem, params, cmdMem, s⟩
    obtain ⟨⟨ramdisk, s₁⟩, hinitrd⟩ := placeInitrd_succeeds fw readFile path params s
    obtain ⟨m, hfinish⟩ := finishParams_succeeds params kernelMem s₁.memory
    exact ⟨_, ok_bind hinitrd (ok_bind hfinish rfl)⟩
  rw [boot_eq, boot_eq]
  constructor
  · intro e
    rcases bootFront fw readFile kernelPath cmdline s with e' | x
    · exact Iff.rfl
    · obtain ⟨h, hok⟩ := hrest initrdPath x
      obtain ⟨h', hok'⟩ := hrest none x
      exact iff_of_false (fun he => by cases hok.symm.trans he) fun he => by cases hok'.symm.trans he
  · intro h hboot
    obtain ⟨x, hfront, hboot⟩ := bind_ok hboot
    obtain ⟨h', hboot'⟩ := hrest none x
    refine ⟨h', ok_bind hfront hboot', ?_⟩
    -- the page is taken when the initrd is placed, so that the load flags are not the initrd's
    have hpage : pageSize ∣ x.2.2.1 ∧ taken x.2.2.2.2.firmware x.2.2.1 := by
      unfold bootFront at hfront
      split at hfront
      · cases hfront
      obtain ⟨setup, -, hfront⟩ := bind_ok hfront
      obtain ⟨⟨kernelMem, s₁⟩, -, hfront⟩ := bind_ok hfront
      obtain ⟨⟨params, s₂⟩, hparams, hfront⟩ := bind_ok hfront
      obtain ⟨⟨cmdMem, s₃⟩, hcmdline, hfront⟩ := bind_ok hfront
      cases hfront
      obtain ⟨haligned, htaken, -⟩ := bootParams_ok hfw hnull hparams
      exact ⟨haligned, (placeCmdline_ok hfw hnull haligned htaken hcmdline).2.1⟩
    obtain ⟨setup, kernelMem, params, cmdMem, s₃⟩ := x
    obtain ⟨haligned, htaken⟩ := hpage
    obtain ⟨⟨ramdisk, s₄⟩, hinitrd, hboot⟩ := bind_ok hboot
    obtain ⟨m, hfinish, hboot⟩ := bind_ok hboot
    obtain ⟨⟨ramdisk', s₄'⟩, hinitrd', hboot'⟩ := bind_ok hboot'
    obtain ⟨m', hfinish', hboot'⟩ := bind_ok hboot'
    obtain rfl := Except.ok.inj hboot
    obtain rfl := Except.ok.inj hboot'
    cases hinitrd'
    refine ⟨rfl, rfl, rfl, rfl, fun i hout hfields => ?_⟩
    have hflags := (placeInitrd_ok hfw hnull haligned htaken hinitrd).2 loadflags (by decide) (.inr (.inl (by decide)))
    exact finishParams_congr hfinish hfinish' hflags.symm (placeInitrd_same hfw hinitrd hout hfields).symm

end

/-! ## A small kernel -/

/-- The small kernel that can be moved, on a firmware with pages at multiples of the page size only. -/
theorem boot_accesses_bzImage : ∃ h, boot bump.nonNull (linuxFiles (bzImage 1 0)) (cstr16 "\\vmlinuz")
      (some (cstr16 "\\initrd")) "quiet".toList ⟨⟨fun q => decide (q % 4096 ≠ 0), 0x10000⟩, fun _ => 0, []⟩ = .ok h ∧
    4096 ∣ h.kernelMem ∧ h.state.memory.Holds h.kernelMem (setupOf (bzImage 1 0)).kernelBytes := by
  have hstarts : (boot bump.nonNull (linuxFiles (bzImage 1 0)) (cstr16 "\\vmlinuz") (some (cstr16 "\\initrd"))
      "quiet".toList ⟨⟨fun q => decide (q % 4096 ≠ 0), 0x10000⟩, fun _ => 0, []⟩).isOk = true := by decide +kernel
  obtain ⟨h, hboot⟩ := ok_of_isOk hstarts
  have hpages : ∀ q, ¬ decide (q % 4096 ≠ 0) = true → pageSize ∣ q := fun q hq =>
    Nat.dvd_of_mod_eq_zero (not_not.1 fun hne => hq (decide_eq_true hne))
  have hread : linuxFiles (bzImage 1 0) (cstr16 "\\vmlinuz") = some (bzImage 1 0) := if_pos rfl
  have hcmdline : (utf8 "quiet".toList).length < 2 ^ 63 := by decide
  have haccesses := boot_accesses (s := ⟨⟨fun q => decide (q % 4096 ≠ 0), 0x10000⟩, fun _ => 0, []⟩)
    bump_lawful.nonNull bump.nonNull_nonNull hpages hread hcmdline (some (cstr16 "\\initrd"))
  obtain ⟨⟨a, pages, hkernel⟩, -⟩ := haccesses.2.2.2 h hboot
  have halignment : (setupOf (bzImage 1 0)).alignment = 4096 := by decide +kernel
  refine ⟨h, hboot, ?_, hkernel.holds.left⟩
  rw [← halignment]
  exact hkernel.aligned (by decide +kernel) (by decide +kernel)

/-- The small kernel that can be moved, with an initrd that is named and not there: it is started as without one. -/
theorem boot_initrd_optional_missing : ∃ h h',
    boot bump.nonNull (linuxFiles (bzImage 1 0)) (cstr16 "\\vmlinuz") (some (cstr16 "\\none")) "quiet".toList
      ⟨⟨fun _ => false, 0x10000⟩, fun _ => 0, []⟩ = .ok h ∧
    bootLinux (bzImage 1 0) none = .ok h' ∧ h'.entry = h.entry := by
  have hstarts : (boot bump.nonNull (linuxFiles (bzImage 1 0)) (cstr16 "\\vmlinuz") (some (cstr16 "\\none"))
      "quiet".toList ⟨⟨fun _ => false, 0x10000⟩, fun _ => 0, []⟩).isOk = true := by decide +kernel
  obtain ⟨h, hboot⟩ := ok_of_isOk hstarts
  obtain ⟨h', hboot', hsame⟩ := (boot_initrd_optional bump_lawful.nonNull bump.nonNull_nonNull _ _ _ _ _).2 h hboot
  exact ⟨h, h', hboot, hboot', hsame.entry⟩

end Bang.Linux
