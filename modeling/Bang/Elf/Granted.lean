/-
Where a load puts the segments it places: in pages the firmware has granted it, except for a
segment that ends in the last page of the address space, for which the computed end of the pages
wraps to zero and nothing is asked for.
-/
import Bang.Elf.Table

namespace Bang

/-! ## The bytes and the pages of a segment -/

/-- The page of a byte. -/
def pageOf (a : Nat) : Nat := a / pageSize * pageSize

/-- A byte of the segment. -/
def Segment.Covers (seg : Segment) (a : Nat) : Prop :=
  seg.paddr.toNat ≤ a ∧ a < seg.paddr.toNat + seg.memsz.toNat

/-- The segment ends in the last page of the address space. -/
def Segment.Wraps (seg : Segment) : Prop := 2 ^ 64 - pageSize < seg.paddr.toNat + seg.memsz.toNat

instance (seg : Segment) : Decidable seg.Wraps := inferInstanceAs (Decidable (_ < _))

theorem pageOf_dvd (a : Nat) : pageSize ∣ pageOf a := Nat.dvd_mul_left ..

/-- The pages of a segment that does not wrap end behind its last byte. -/
theorem le_pageLimit {seg : Segment} (h : ¬ seg.Wraps) :
    seg.paddr.toNat + seg.memsz.toNat ≤ pageLimit seg.paddr seg.memsz := by
  unfold Segment.Wraps at h
  have hlt : seg.paddr.toNat + seg.memsz.toNat ≤ 2 ^ 64 - 4096 := by simpa [pageSize] using h
  unfold pageLimit numPages pageBase
  simp only [pageSize]
  have hle : seg.paddr.toNat / 4096 * 4096 ≤ seg.paddr.toNat := Nat.div_mul_le_self ..
  rw [Nat.mod_eq_of_lt (show seg.paddr.toNat - seg.paddr.toNat / 4096 * 4096 + seg.memsz.toNat < 2 ^ 64 by omega),
    Nat.mod_eq_of_lt (show seg.paddr.toNat - seg.paddr.toNat / 4096 * 4096 + seg.memsz.toNat + 4095 < 2 ^ 64 by omega),
    Nat.mod_eq_of_lt (by omega)]
  omega

/-- The page of a byte of a segment that does not wrap is one of the pages it looks at. -/
theorem Segment.pages_of_covers {seg : Segment} (h : ¬ seg.Wraps) {a : Nat} (ha : seg.Covers a) :
    seg.Pages (pageOf a) := by
  have hlimit := le_pageLimit h
  obtain ⟨h1, h2⟩ := ha
  refine ⟨a / pageSize - seg.paddr.toNat / pageSize, ?_, ?_⟩
  · unfold pageOf pageBase
    rw [← Nat.add_mul, Nat.add_sub_cancel' (Nat.div_le_div_right h1)]
  · exact lt_of_le_of_lt (Nat.div_mul_le_self ..) (by omega)

/-! ## Granted pages are taken -/

section
variable {σ : Type} {fw : Firmware σ} (taken : σ → Nat → Prop)

/-- Between two segments: the recorded runs are in order and their pages taken, and so are the
pages of every byte of a placed segment that does not wrap. -/
structure Granted (s : LoadState σ) : Prop where
  aligned : ∀ r ∈ s.records.runs, pageSize ∣ r.1 ∧ r.1 + r.2 * pageSize < 2 ^ 64
  records : ∀ r ∈ s.records.runs, ∀ q, InRun r.1 r.2 q → taken s.firmware q
  placed : ∀ seg ∈ s.placed, ¬ seg.Wraps → ∀ a, seg.Covers a → taken s.firmware (pageOf a)

theorem granted_start (firmware : σ) (memory : Mem UInt8) : Granted taken (.start firmware memory) :=
  ⟨(fun r hr => by cases hr), (fun r hr => by cases hr), (fun seg hseg => by cases hseg)⟩

variable {taken}

theorem mem_recordAllocation {records : Records} {base count : Nat} {r : Nat × Nat}
    (h : r ∈ (recordAllocation records base count).runs) : r ∈ records.runs ∨ r = (base, count) := by
  unfold recordAllocation at h
  split at h
  · rcases List.mem_append.1 h with h | h
    · exact Or.inl h
    · exact Or.inr (List.mem_singleton.1 h)
  · exact Or.inl h

/-- Requests that are all granted keep the invariant, and leave the pages asked for taken. -/
theorem requestAll_taken (hfw : fw.Lawful taken) (runs : List (Nat × Nat)) :
    ∀ s s' : LoadState σ, Granted taken s →
      (∀ r ∈ runs, pageSize ∣ r.1 ∧ r.1 + r.2 * pageSize < 2 ^ 64) → requestAll fw runs s = (true, s') →
      Granted taken s' ∧ (∀ q, taken s.firmware q → taken s'.firmware q) ∧
        ∀ r ∈ runs, ∀ q, InRun r.1 r.2 q → taken s'.firmware q := by
  induction runs with
  | nil =>
    intro s s' hs _ h
    cases h
    exact ⟨hs, fun _ h => h, fun r hr => by cases hr⟩
  | cons r runs ih =>
    obtain ⟨page, run⟩ := r
    intro s s' hs hruns h
    rw [requestAll] at h
    rcases hask : fw.allocateAt s.firmware page run with ⟨granted, f⟩
    rw [hask] at h
    cases granted with
    | false => cases h
    | true =>
      have htaken : ∀ q, taken f q ↔ taken s.firmware q ∨ InRun page run q := by
        intro q
        have := hfw.at_taken s.firmware page run q
        rw [hask] at this
        simpa using this
      have hs₁ : Granted taken
          { s with firmware := f, records := recordAllocation s.records page run } := by
        refine ⟨fun r hr => ?_, fun r hr q hq => (htaken q).2 ?_, fun seg hseg hw a ha => ?_⟩
        · rcases mem_recordAllocation hr with hr | rfl
          · exact hs.aligned r hr
          · exact hruns _ (List.mem_cons_self ..)
        · rcases mem_recordAllocation hr with hr | rfl
          · exact Or.inl (hs.records r hr q hq)
          · exact Or.inr hq
        · exact (htaken _).2 (Or.inl (hs.placed seg hseg hw a ha))
      obtain ⟨hs', hmono, hall⟩ := ih _ s' hs₁ (fun r hr => hruns r (List.mem_cons_of_mem _ hr)) h
      refine ⟨hs', fun q hq => hmono q ((htaken q).2 (Or.inl hq)), fun r hr q hq => ?_⟩
      rcases List.mem_cons.1 hr with rfl | hr
      · exact hmono q ((htaken q).2 (Or.inr hq))
      · exact hall r hr q hq

/-- Every page a segment looks at is taken once it is placed. -/
theorem Segment.load_taken (hfw : fw.Lawful taken) {fileBuf : Buffer} {seg : Segment} {s s' : LoadState σ}
    (hs : Granted taken s) (h : seg.load fw fileBuf s = (true, s')) :
    Granted taken s' ∧ ∀ q, seg.Pages q → taken s'.firmware q := by
  obtain ⟨-, s₁, hrequest, rfl⟩ := Segment.load_true fw h
  obtain ⟨hs₁, hmono, hall⟩ := requestAll_taken hfw _ s s₁ hs
    (fun r hr => ⟨(Segment.mem_missing hr).1, (Segment.mem_missing hr).2.1⟩) hrequest
  have hpages : ∀ q, seg.Pages q → taken s₁.firmware q := by
    intro q hq
    have hdvd : pageSize ∣ q := by
      obtain ⟨k, rfl, -⟩ := hq
      exact Nat.dvd_add (pageBase_dvd _) (Nat.dvd_mul_left ..)
    by_cases hrec : pageAllocated s.records q = true
    · obtain ⟨r, hr, hin⟩ := (pageAllocated_iff_inRun hs.aligned hdvd).1 hrec
      exact hmono q (hs.records r hr q hin)
    · obtain ⟨r, hr, hin⟩ := Segment.missing_cover hq (Bool.eq_false_iff.2 hrec)
      exact hall r hr q hin
  refine ⟨⟨hs₁.aligned, hs₁.records, fun x hx hw a ha => ?_⟩, hpages⟩
  rcases List.mem_append.1 hx with hx | hx
  · exact hmono _ (hs.placed x hx hw a ha)
  · rw [List.mem_singleton.1 hx] at hw ha
    exact hpages _ (Segment.pages_of_covers hw ha)

/-- The loop over the program headers keeps the invariant. -/
theorem loadSegments_granted (hfw : fw.Lawful taken) {c : ElfClass} {fileBuf : Buffer} {phoff : Nat}
    (hsize : c.phdrSize ≤ 56) (n : Nat) : ∀ (i : Nat) (s s' : LoadState σ), Granted taken s →
      loadSegments fw c fileBuf phoff n i s = .ok s' → Granted taken s' := by
  induction n with
  | zero => intro i s s' hs h; cases h; exact hs
  | succ n ih =>
    intro i s s' hs h
    rcases loadSegments_step hsize h with ⟨-, rfl⟩ | ⟨-, e, s₁, -, hrest, hstep⟩
    · exact hs
    · refine ih (i + 1) s₁ s' ?_ hrest
      have hread : Granted taken (s.read e) := ⟨hs.aligned, hs.records, hs.placed⟩
      rcases hstep with ⟨-, rfl⟩ | ⟨-, hload⟩
      · exact hread
      · exact (Segment.load_taken hfw hread hload).1

/-- A load that returns has put every byte of its segments in pages it was granted, but for those
of a segment that wraps. -/
theorem loadKernel_granted (hfw : fw.Lawful taken) {fileBuf : Buffer} {firmware : σ} {memory : Mem UInt8}
    {info : KernelInfo} {s' : LoadState σ} (h : loadKernel fw fileBuf (.start firmware memory) = .ok (info, s')) :
    Granted taken s' := by
  obtain ⟨elfClass, -, -, -, -, hload⟩ := loadKernel_ok h
  obtain ⟨-, hsegments⟩ := loadClass_ok hload
  exact loadSegments_granted hfw (classFor_phdrSize elfClass) _ 0 _ s' (granted_start taken firmware memory) hsegments

end

end Bang
