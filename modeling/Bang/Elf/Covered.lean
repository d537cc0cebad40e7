/-
Whether a segment is written to memory that was granted, after any earlier calls of `load_segment`: it is,
and no sum of the call wraps, unless the segment ends in the last page of the address space. The checks let
such a segment pass, but the walk over its pages is empty.
-/
import Bang.Elf.Granted
import Bang.Elf.Records

namespace Bang

/-! ## The sums of a call -/

/-- None of the sums that decide how many pages are walked over wraps. -/
structure Segment.NoWrap (seg : Segment) : Prop where
  totalSize : seg.paddr.toNat - pageBase seg.paddr + seg.memsz.toNat < 2 ^ 64
  rounded : seg.paddr.toNat - pageBase seg.paddr + seg.memsz.toNat + 4095 < 2 ^ 64
  limit : pageBase seg.paddr + numPages seg.paddr seg.memsz * pageSize < 2 ^ 64

/-- The sums of a segment whose extent does not wrap: they do not either if it ends in front of the last page,
and if not, the walk has nowhere to go. -/
theorem Segment.sums {seg : Segment} (h : seg.paddr.toNat + seg.memsz.toNat < 2 ^ 64) :
    (¬ seg.Wraps → seg.NoWrap) ∧
      (seg.Wraps → ¬ seg.NoWrap ∧ pageLimit seg.paddr seg.memsz ≤ pageBase seg.paddr) := by
  have hbase : seg.paddr.toNat / 4096 * 4096 ≤ seg.paddr.toNat := Nat.div_mul_le_self ..
  have htotal : seg.paddr.toNat - seg.paddr.toNat / 4096 * 4096 + seg.memsz.toNat < 2 ^ 64 := by omega
  constructor
  · intro hwraps
    unfold Segment.Wraps pageSize at hwraps
    refine ⟨by simpa only [pageBase, pageSize] using htotal, ?_, ?_⟩
    · simp only [pageBase, pageSize]
      omega
    · simp only [pageBase, numPages, pageSize]
      rw [Nat.mod_eq_of_lt htotal, Nat.mod_eq_of_lt (by omega)]
      omega
  · intro hwraps
    unfold Segment.Wraps pageSize at hwraps
    by_cases hrounded : seg.paddr.toNat - seg.paddr.toNat / 4096 * 4096 + seg.memsz.toNat + 4095 < 2 ^ 64
    · -- the pages end at the end of the address space
      have hend : seg.paddr.toNat / 4096 * 4096 +
          (seg.paddr.toNat - seg.paddr.toNat / 4096 * 4096 + seg.memsz.toNat + 4095) / 4096 * 4096 = 2 ^ 64 := by
        omega
      have hpages : pageBase seg.paddr + numPages seg.paddr seg.memsz * pageSize = 2 ^ 64 := by
        simp only [pageBase, numPages, pageSize]
        rw [Nat.mod_eq_of_lt htotal, Nat.mod_eq_of_lt hrounded, hend]
      refine ⟨fun hno => ?_, ?_⟩
      · have := hno.limit
        omega
      · rw [pageLimit, hpages, Nat.mod_self]
        exact Nat.zero_le _
    · -- the number of pages wraps to 0
      refine ⟨fun hno => hrounded (by simpa only [pageBase, pageSize] using hno.rounded), ?_⟩
      have hzero : numPages seg.paddr seg.memsz = 0 := by
        simp only [numPages, pageBase, pageSize]
        rw [Nat.mod_eq_of_lt htotal]
        omega
      rw [pageLimit, hzero, Nat.zero_mul, Nat.add_zero]
      exact Nat.mod_le _ _

theorem Segment.missing_nil {seg : Segment} (h : pageLimit seg.paddr seg.memsz ≤ pageBase seg.paddr)
    (records : Records) : seg.missing records = [] := by
  rw [Segment.missing, missingRuns, Gaps.gaps, if_neg (Nat.not_lt.2 h)]

/-! ## Where a segment is written -/

section
variable {σ : Type} (fw : Firmware σ)

/-- If the call returns true, every byte of the segment lies in a page that the firmware granted to this call
or that an earlier one recorded. -/
def Segment.WritesGranted (fileBuf : Buffer) (seg : Segment) (s : LoadState (σ × List Request)) : Prop :=
  (seg.load fw.logged fileBuf s).1 = true → ∀ a, seg.Covers a →
    (∃ r ∈ s.records.runs, InRun r.1 r.2 (pageOf a)) ∨
    ∃ r ∈ (seg.load fw.logged fileBuf s).2.firmware.2.drop s.firmware.2.length,
      r.granted = true ∧ InRun r.page r.count (pageOf a)

/-- Calls of `load_segment` one after another, whatever they return. -/
def loadCalls (calls : List (Buffer × Segment)) (s : LoadState (σ × List Request)) : LoadState (σ × List Request) :=
  calls.foldl (fun s call => (call.2.load fw.logged call.1 s).2) s

theorem loadCalls_book (calls : List (Buffer × Segment)) (s : LoadState (σ × List Request)) (h : Book s) :
    Book (loadCalls fw calls s) := by
  induction calls generalizing s with
  | nil => exact h
  | cons call calls ih => exact ih _ (Segment.load_log fw call.1 call.2 h).1

variable {fw}

/-- No recorded run has the last page of the address space. -/
theorem Book.not_inRun_last {s : LoadState (σ × List Request)} (h : Book s) {r : Nat × Nat}
    (hr : r ∈ s.records.runs) {a : Nat} (ha : 2 ^ 64 - pageSize ≤ a) : ¬ InRun r.1 r.2 (pageOf a) := by
  obtain ⟨hdvd, hlt⟩ := h.mem_aligned hr
  intro hin
  have hin : r.1 ≤ a ∧ a < r.1 + r.2 * pageSize := (inRun_page_iff hdvd a).1 hin
  obtain ⟨k, hk⟩ := hdvd
  unfold pageSize at *
  omega

/-- A segment that passes the checks is written to granted memory, unless it has bytes in the last page. -/
theorem Segment.writesGranted_iff {s : LoadState (σ × List Request)} (hb : Book s) (fileBuf : Buffer) (seg : Segment) :
    seg.WritesGranted fw fileBuf s ↔ ¬ (seg.WellFormed fileBuf ∧ seg.Wraps ∧ 0 < seg.memsz.toNat) := by
  constructor
  · rintro hwrites ⟨hwf, hwraps, hpos⟩
    -- nothing is asked for, so that the last byte is in no granted page
    obtain ⟨asked, hissued, hlog, -⟩ := Segment.load_issued fw hwf s
    rw [seg.missing_nil ((Segment.sums hwf.extent).2 hwraps).2] at hissued
    generalize hok : (seg.load fw.logged fileBuf s).1 = ok at hissued
    cases hissued
    rcases hwrites hok (seg.paddr.toNat + seg.memsz.toNat - 1) ⟨by omega, by omega⟩ with ⟨r, hr, hin⟩ | ⟨r, hr, -⟩
    · unfold Segment.Wraps pageSize at hwraps
      exact hb.not_inRun_last hr (by unfold pageSize; omega) hin
    · rw [hlog, List.append_nil, List.drop_length] at hr
      cases hr
  · intro hnot hok a ha
    have hwf : seg.WellFormed fileBuf := by
      by_contra hwf
      rw [seg.load_malformed fw.logged hwf] at hok
      cases hok
    have hwraps : ¬ seg.Wraps := fun hwraps => hnot ⟨hwf, hwraps, by obtain ⟨h1, h2⟩ := ha; omega⟩
    obtain ⟨-, asked, hlog, -, hall⟩ := Segment.load_log fw fileBuf seg hb
    have hpage := Segment.pages_of_covers hwraps ha
    by_cases hrecorded : pageAllocated s.records (pageOf a) = true
    · exact .inl ((pageAllocated_iff_inRun (fun r hr => hb.mem_aligned hr) (pageOf_dvd a)).1 hrecorded)
    · obtain ⟨r, hr, hin⟩ := Segment.missing_cover hpage (Bool.eq_false_iff.2 hrecorded)
      rw [← hall hok] at hr
      obtain ⟨x, hx, hgranted, rfl⟩ := mem_grantedRuns.1 hr
      refine .inr ⟨x, ?_, hgranted, hin⟩
      rwa [hlog, List.drop_left]

/-- After any calls, a segment is written to granted memory only and its sums do not wrap, exactly when it
does not both pass the checks and end in the last page of the address space. A segment with no bytes writes
nothing there, but its sums wrap. -/
theorem writesGranted_noWrap_iff (fw : Firmware σ) (firmware : σ) (memory : Mem UInt8)
    (earlier : List (Buffer × Segment)) (fileBuf : Buffer) (seg : Segment) :
    (seg.WritesGranted fw fileBuf (loadCalls fw earlier (.start (firmware, []) memory)) ∧
        (seg.WellFormed fileBuf → seg.NoWrap) ↔ ¬ (seg.WellFormed fileBuf ∧ seg.Wraps)) ∧
      (seg.WritesGranted fw fileBuf (loadCalls fw earlier (.start (firmware, []) memory)) ↔
        ¬ (seg.WellFormed fileBuf ∧ seg.Wraps ∧ 0 < seg.memsz.toNat)) := by
  have hbook : Book (loadCalls fw earlier (.start (firmware, []) memory)) :=
    loadCalls_book fw earlier _ (book_start firmware memory)
  have hwrites := @Segment.writesGranted_iff _ fw _ hbook fileBuf seg
  refine ⟨?_, hwrites⟩
  constructor
  · rintro ⟨-, hsums⟩ ⟨hwf, hwraps⟩
    exact ((Segment.sums hwf.extent).2 hwraps).1 (hsums hwf)
  · intro hnot
    refine ⟨hwrites.2 fun h => hnot ⟨h.1, h.2.1⟩, fun hwf => (Segment.sums hwf.extent).1 fun hwraps => ?_⟩
    exact hnot ⟨hwf, hwraps⟩

/-- A segment of half a page at the end of the address space: the call returns true and has asked for nothing. -/
theorem not_writesGranted_last :
    (Segment.load bump.logged ⟨[], by decide⟩ ⟨0xFFFFFFFFFFFFF000, 0x800, 0, 0⟩
      (.start (⟨fun _ => false, 0⟩, []) fun _ => 0)).1 = true ∧
    (Segment.load bump.logged ⟨[], by decide⟩ ⟨0xFFFFFFFFFFFFF000, 0x800, 0, 0⟩
      (.start (⟨fun _ => false, 0⟩, []) fun _ => 0)).2.firmware.2 = [] ∧
    ¬ (⟨0xFFFFFFFFFFFFF000, 0x800, 0, 0⟩ : Segment).WritesGranted bump ⟨[], by decide⟩
      (.start (⟨fun _ => false, 0⟩, []) fun _ => 0) := by
  have hok : (Segment.load bump.logged ⟨[], by decide⟩ ⟨0xFFFFFFFFFFFFF000, 0x800, 0, 0⟩
      (.start (⟨fun _ => false, 0⟩, []) fun _ => 0)).1 = true := by decide +kernel
  have hlog : (Segment.load bump.logged ⟨[], by decide⟩ ⟨0xFFFFFFFFFFFFF000, 0x800, 0, 0⟩
      (.start (⟨fun _ => false, 0⟩, []) fun _ => 0)).2.firmware.2 = [] := by decide +kernel
  refine ⟨hok, hlog, fun hwrites => ?_⟩
  rcases hwrites hok 0xFFFFFFFFFFFFF000 ⟨by decide, by decide⟩ with ⟨r, hr, -⟩ | ⟨r, hr, -⟩
  · cases hr
  · rw [hlog] at hr
    cases hr

end

end Bang
