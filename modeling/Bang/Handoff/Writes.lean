/-
Where `main` writes on its way into a kernel: in pages that were free when it started and that the firmware has
granted it since, and where the trampoline's copy goes, which it asks nobody for. What was in use before, by the
firmware or by the program itself, is as it was, unless a segment ends in the last page of the address space.
-/
import Bang.Elf.LastWriter
import Bang.Handoff.Preserved

namespace Bang

section
variable {σ : Type} {fw : Firmware σ} (taken : σ → Nat → Prop)

/-! ## The kernel -/

/-- What loading a kernel has done since the firmware was `f` and memory `m`. -/
structure LoadWrites (f : σ) (m : Mem UInt8) (s : LoadState σ) : Prop where
  mono : ∀ q, taken f q → taken s.firmware q
  records : ∀ r ∈ s.records.runs, ∀ q, InRun r.1 r.2 q → ¬ taken f q
  memory : (∀ seg ∈ s.placed, ¬ seg.Wraps) → ∀ a, taken f (pageOf a) → s.memory a = m a

variable {taken} {f : σ} {m : Mem UInt8}

/-- Runs of pages that are granted were free before. -/
theorem requestAll_fresh (hfw : fw.Lawful taken) (runs : List (Nat × Nat)) : ∀ s s' : LoadState σ,
    (∀ q, taken f q → taken s.firmware q) → (∀ r ∈ s.records.runs, ∀ q, InRun r.1 r.2 q → ¬ taken f q) →
    requestAll fw runs s = (true, s') →
    (∀ q, taken f q → taken s'.firmware q) ∧ (∀ r ∈ s'.records.runs, ∀ q, InRun r.1 r.2 q → ¬ taken f q) ∧
      ∀ r ∈ runs, ∀ q, InRun r.1 r.2 q → ¬ taken f q := by
  induction runs with
  | nil =>
    intro s s' hmono hrecords h
    cases h
    exact ⟨hmono, hrecords, fun r hr => by cases hr⟩
  | cons r runs ih =>
    obtain ⟨page, run⟩ := r
    intro s s' hmono hrecords h
    rw [requestAll] at h
    rcases hask : fw.allocateAt s.firmware page run with ⟨granted, f'⟩
    rw [hask] at h
    cases granted with
    | false => cases h
    | true =>
      have hfree : ∀ q, InRun page run q → ¬ taken f q := fun q hq ht =>
        (hfw.at_granted s.firmware page run).1 (by rw [hask]) q hq (hmono q ht)
      have htaken : ∀ q, taken f q → taken f' q := by
        intro q hq
        have hat := hfw.at_taken s.firmware page run q
        rw [hask] at hat
        exact hat.2 (.inl (hmono q hq))
      obtain ⟨hmono', hrecords', hruns⟩ := ih _ s' htaken (fun r hr q hq => by
        rcases mem_recordAllocation hr with hr | rfl
        · exact hrecords r hr q hq
        · exact hfree q hq) h
      refine ⟨hmono', hrecords', fun r hr q hq => ?_⟩
      rcases List.mem_cons.1 hr with rfl | hr
      · exact hfree q hq
      · exact hruns r hr q hq

/-- The bytes of a placed segment are written, and no others. -/
theorem Segment.copy_frame {fileBuf : Buffer} {seg : Segment} (h : seg.WellFormed fileBuf) (m : Mem UInt8) {a : Nat}
    (ha : ¬ seg.Covers a) : seg.copy fileBuf m a = m a := by
  have hout : ¬ (seg.piece fileBuf).Covers a := (Segment.piece_covers h a).not.2 ha
  unfold Mem.Piece.Covers at hout
  rw [Segment.copy_eq h]
  exact Mem.sameOutside_store m _ _ a (by omega)

/-- Placing a segment writes in pages that were free, unless it wraps. -/
theorem Segment.load_writes (hfw : fw.Lawful taken) {fileBuf : Buffer} {seg : Segment} {s s' : LoadState σ}
    (hgranted : Granted taken s) (hs : LoadWrites taken f m s) (h : seg.load fw fileBuf s = (true, s')) :
    LoadWrites taken f m s' := by
  obtain ⟨hwf, s₁, hrequest, rfl⟩ := Segment.load_true fw h
  obtain ⟨hmono, hrecords, hruns⟩ := requestAll_fresh hfw _ s s₁ hs.mono hs.records hrequest
  refine ⟨hmono, hrecords, fun hwraps a ha => ?_⟩
  have hlast : ¬ seg.Wraps := hwraps seg (List.mem_append_right _ (List.mem_singleton_self seg))
  -- a page of the segment is one it asks for, or one that was granted to an earlier segment
  have hpages : ∀ q, seg.Pages q → ¬ taken f q := by
    intro q hq
    have hdvd : pageSize ∣ q := by
      obtain ⟨k, rfl, -⟩ := hq
      exact Nat.dvd_add (pageBase_dvd _) (Nat.dvd_mul_left ..)
    by_cases hrec : pageAllocated s.records q = true
    · obtain ⟨r, hr, hin⟩ := (pageAllocated_iff_inRun hgranted.aligned hdvd).1 hrec
      exact hs.records r hr q hin
    · obtain ⟨r, hr, hin⟩ := Segment.missing_cover hq (Bool.eq_false_iff.2 hrec)
      exact hruns r hr q hin
  have hout : ¬ seg.Covers a := fun hc => hpages _ (Segment.pages_of_covers hlast hc) ha
  exact (Segment.copy_frame hwf s.memory hout).trans
    (hs.memory (fun x hx => hwraps x (List.mem_append_left _ hx)) a ha)

/-- So does the loop over the program headers. -/
theorem loadSegments_writes (hfw : fw.Lawful taken) {c : ElfClass} {fileBuf : Buffer} {phoff : Nat}
    (hsize : c.phdrSize ≤ 56) (n : Nat) : ∀ (i : Nat) (s s' : LoadState σ), Granted taken s → LoadWrites taken f m s →
      loadSegments fw c fileBuf phoff n i s = .ok s' → LoadWrites taken f m s' := by
  induction n with
  | zero =>
    intro i s s' _ hs h
    cases h
    exact hs
  | succ n ih =>
    intro i s s' hgranted hs h
    rcases loadSegments_step hsize h with ⟨-, rfl⟩ | ⟨-, e, s₁, -, hrest, hstep⟩
    · exact hs
    · have hread : Granted taken (s.read e) := ⟨hgranted.aligned, hgranted.records, hgranted.placed⟩
      have hwrites : LoadWrites taken f m (s.read e) := ⟨hs.mono, hs.records, hs.memory⟩
      rcases hstep with ⟨-, rfl⟩ | ⟨-, hload⟩
      · exact ih (i + 1) _ s' hread hwrites hrest
      · exact ih (i + 1) s₁ s' (Segment.load_taken hfw hread hload).1 (Segment.load_writes hfw hread hwrites hload)
          hrest

theorem loadKernel_writes (hfw : fw.Lawful taken) {fileBuf : Buffer} {info : KernelInfo} {s' : LoadState σ}
    (h : loadKernel fw fileBuf (.start f m) = .ok (info, s')) : LoadWrites taken f m s' := by
  obtain ⟨elfClass, -, -, -, -, hload⟩ := loadKernel_ok h
  obtain ⟨-, hsegments⟩ := loadClass_ok hload
  exact loadSegments_writes hfw (classFor_phdrSize elfClass) _ 0 _ s' (granted_start taken f m)
    ⟨fun _ hq => hq, (fun r hr => by cases hr), fun _ _ _ => rfl⟩ hsegments

/-! ## All of `main` -/

/-- From the start of `main` to the first instruction of the kernel, memory that was in use at the start is not
written, unless a segment wraps, except where the trampoline goes on its way into protected mode. -/
theorem enter_writes (hfw : fw.Lawful taken) {machine : Machine} {fileBuf : Buffer} {files : List ModuleFile}
    {p : Prepared} {e : Entered} (h : prepare fw machine fileBuf files f m = .ok (some p))
    (he : enter machine p = some e)
    (hwraps : ∀ seg ∈ p.placed, ¬ seg.Wraps) {a : Nat} (ha : taken f (pageOf a))
    (hcopy : p.kernel.bootMode = .protected32 → ¬ machine.InCopy a) : e.memory a = m a := by
  have hsound := prepare_sound hfw h
  obtain ⟨s, t, hkernel, hplaced, hmemory, hmods, -, -, hafter, hinfo⟩ := prepare_ok h
  have hwrites := loadKernel_writes hfw hkernel
  obtain ⟨runs, hloads⟩ := loadModules_loads hfw files _ _ _ hmods
  have hmodules : p.afterModules a = m a := by
    rw [← hafter, hloads.frame_taken (hwrites.mono _ ha)]
    show p.afterKernel a = m a
    rw [← hmemory]
    exact hwrites.memory (hplaced ▸ hwraps) a ha
  -- the memory for the information structure was free as well
  have hout : ¬ p.InInfo a := by
    obtain ⟨hdvd, -, hfree⟩ := hfw.below_granted _ _ _ _ hinfo
    exact fun hin => hfree _ ((inRun_pageOf_iff (r := (p.infoAt, infoPages)) hdvd a).2 ((inInfo_iff a).1 hin))
      (hloads.mono _ (hwrites.mono _ ha))
  unfold Prepared.InInfo at hout
  cases hmode : p.kernel.bootMode with
  | protected32 =>
    obtain ⟨built, addr, magic, hb, -, hsame⟩ := hsound.build32
    cases (enter_protected32 hmode hb).symm.trans he
    have hnot := hcopy hmode
    unfold Machine.InCopy at hnot
    exact (copyTrampoline_sameOutside _ _ _ _ _ a (by omega)).trans ((hsame a (by omega)).trans hmodules)
  | long64 =>
    unfold enter at he
    rw [hmode] at he
    obtain ⟨⟨built, ptr⟩, hb, rfl⟩ := Option.map_eq_some_iff.1 he
    refine Eq.trans ?_ hmodules
    show built a = p.afterModules a
    unfold Prepared.build64 at hb
    split at hb
    · obtain ⟨built', addr, hb', -, hsame⟩ := hsound.buildMb2
      rw [hb'] at hb
      cases hb
      exact hsame a (by omega)
    · cases hb
      rfl

end

end Bang
