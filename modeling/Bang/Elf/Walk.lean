/-
What the walk over a segment's pages asks for: exactly the maximal runs of pages that no record
covers, in ascending order, until one is refused. What it finds out on the way does not matter to
it, since a run it was granted lies behind it.
-/
import Bang.Memory.Gaps
import Bang.Elf.Segment

namespace Bang

instance : NeZero pageSize := ⟨by decide⟩

/-! ## The table -/

/-- A granted run changes what is known of its own pages only. -/
theorem pageAllocated_record (records : Records) (base count q : Nat) (h : base + count * pageSize ≤ q) :
    pageAllocated (recordAllocation records base count) q = pageAllocated records q := by
  unfold recordAllocation
  split
  · have hq : ¬ q < (base + count * pageSize) % 2 ^ 64 := by
      have := Nat.mod_le (base + count * pageSize) (2 ^ 64)
      omega
    unfold pageAllocated
    rw [List.any_append, List.any_cons, List.any_nil, decide_eq_false fun h' => hq h'.2.2,
      Bool.or_false, Bool.or_false]
  · rfl

/-- The bytes of an aligned run are those of its pages. -/
theorem inRun_page_iff {base count : Nat} (hbase : pageSize ∣ base) (a : Nat) :
    InRun base count (a / pageSize * pageSize) ↔ base ≤ a ∧ a < base + count * pageSize := by
  obtain ⟨b, rfl⟩ := hbase
  constructor
  · rintro ⟨k, hk, he⟩
    have := Nat.mul_le_mul_right pageSize (show k + 1 ≤ count from hk)
    rw [Nat.add_mul, Nat.one_mul] at this
    simp only [pageSize] at *
    omega
  · rintro ⟨hge, hlt⟩
    refine ⟨a / pageSize - b, ?_, ?_⟩ <;> simp only [pageSize] at * <;> omega

/-- A page is allocated when it is in a recorded range, as long as the ranges end below the end of the
address space. -/
theorem pageAllocated_iff {records : Records} (hruns : ∀ r ∈ records.runs, r.1 + r.2 * pageSize < 2 ^ 64) (q : Nat) :
    pageAllocated records q = true ↔ ∃ r ∈ records.runs, r.1 ≤ q ∧ q < r.1 + r.2 * pageSize := by
  rw [pageAllocated, List.any_eq_true]
  refine exists_congr fun r => and_congr_right fun hr => ?_
  rw [decide_eq_true_iff, Nat.mod_eq_of_lt (hruns r hr)]
  constructor
  · rintro ⟨-, hin⟩
    exact hin
  · rintro ⟨hge, hlt⟩
    refine ⟨fun hzero => ?_, hge, hlt⟩
    rw [hzero] at hlt
    omega

/-- An aligned page is allocated exactly when it is in a recorded run, as long as the recorded runs
are aligned and end below the end of the address space. -/
theorem pageAllocated_iff_inRun {records : Records} {q : Nat}
    (haligned : ∀ r ∈ records.runs, pageSize ∣ r.1 ∧ r.1 + r.2 * pageSize < 2 ^ 64) (hq : pageSize ∣ q) :
    pageAllocated records q = true ↔ ∃ r ∈ records.runs, InRun r.1 r.2 q := by
  rw [pageAllocated_iff fun r hr => (haligned r hr).2]
  refine exists_congr fun r => and_congr_right fun hr => ?_
  rw [← inRun_page_iff (haligned r hr).1, Nat.div_mul_cancel hq]

/-! ## The walk as a list of requests -/

/-- The runs of pages from `page` up to `limit` that no record covers. -/
def missingRuns (records : Records) (limit page : Nat) : List (Nat × Nat) :=
  Gaps.gaps pageSize (pageAllocated records) limit page

section
variable {σ : Type} (fw : Firmware σ)

/-- Asking for runs of pages one after another, until one is refused. -/
def requestAll : List (Nat × Nat) → LoadState σ → Bool × LoadState σ
  | [], s => (true, s)
  | (page, run) :: runs, s =>
    match fw.allocateAt s.firmware page run with
    | (false, f) => (false, { s with firmware := f })
    | (true, f) =>
      requestAll runs { s with firmware := f, records := recordAllocation s.records page run }

theorem freeRun_eq (records : Records) (limit page run : Nat) :
    freeRun records limit page run = Gaps.len pageSize (pageAllocated records) limit page run := by
  induction run using freeRun.induct records limit page with
  | case1 run h ih =>
    rw [freeRun, if_pos h, ih, Gaps.len.eq_def _ _ _ _ run,
      if_pos ⟨h.1, Bool.eq_false_iff.2 h.2⟩]
  | case2 run h =>
    rw [freeRun, if_neg h, Gaps.len, if_neg fun h' => h ⟨h'.1, Bool.eq_false_iff.1 h'.2⟩]

/-- The walk asks for the missing runs. -/
theorem pageWalk_eq (limit page : Nat) (s : LoadState σ) :
    pageWalk fw limit page s = requestAll fw (missingRuns s.records limit page) s := by
  induction page, s using pageWalk.induct fw limit with
  | case1 page s h hfree run f hask =>
    have hask : fw.allocateAt s.firmware page (freeRun s.records limit page 0) = (false, f) := hask
    rw [pageWalk, if_pos h, if_pos hfree, missingRuns, Gaps.gaps, if_pos h,
      if_pos (Bool.eq_false_iff.2 hfree), requestAll, ← freeRun_eq]
    simp only [hask]
  | case2 page s h hfree run f hask ih =>
    have hask : fw.allocateAt s.firmware page (freeRun s.records limit page 0) = (true, f) := hask
    have hsame : missingRuns (recordAllocation s.records page (freeRun s.records limit page 0)) limit
        (page + freeRun s.records limit page 0 * pageSize) =
        missingRuns s.records limit (page + freeRun s.records limit page 0 * pageSize) :=
      Gaps.gaps_congr _ fun q hq => pageAllocated_record _ _ _ q hq
    rw [pageWalk, if_pos h, if_pos hfree, missingRuns, Gaps.gaps, if_pos h,
      if_pos (Bool.eq_false_iff.2 hfree), requestAll, ← freeRun_eq]
    simp only [hask]
    rw [← missingRuns, ← hsame]
    exact ih
  | case3 page s h hfree ih =>
    rw [pageWalk, if_pos h, if_neg hfree, ih, missingRuns, missingRuns, Gaps.gaps.eq_def _ _ _ page,
      if_pos h, if_neg fun hf => hfree (Bool.eq_false_iff.1 hf)]
  | case4 page s h =>
    rw [pageWalk, if_neg h, missingRuns, Gaps.gaps, if_neg h]
    rfl

/-- Requests leave the memory alone, and what is remembered of the load. -/
theorem requestAll_frame (runs : List (Nat × Nat)) :
    ∀ s : LoadState σ, (requestAll fw runs s).2.memory = s.memory ∧
      (requestAll fw runs s).2.entries = s.entries ∧ (requestAll fw runs s).2.placed = s.placed := by
  induction runs with
  | nil => intro s; exact ⟨rfl, rfl, rfl⟩
  | cons r runs ih =>
    intro s
    rw [requestAll]
    split
    · exact ⟨rfl, rfl, rfl⟩
    · exact ih _

/-! ## Placing a segment -/

/-- What `load_segment` checks of a segment before it asks for pages. -/
structure Segment.WellFormed (seg : Segment) (fileBuf : Buffer) : Prop where
  filesz_le : seg.filesz.toNat ≤ seg.memsz.toNat
  inFile : seg.offset.toNat + seg.filesz.toNat ≤ fileBuf.size
  extent : seg.paddr.toNat + seg.memsz.toNat < 2 ^ 64

/-- The call of `load_segment` for a segment. -/
def Segment.load (fileBuf : Buffer) (seg : Segment) (s : LoadState σ) : Bool × LoadState σ :=
  loadSegment fw seg.paddr seg.memsz fileBuf seg.offset seg.filesz s

/-- The runs of pages the segment asks for. -/
def Segment.missing (seg : Segment) (records : Records) : List (Nat × Nat) :=
  missingRuns records (pageLimit seg.paddr seg.memsz) (pageBase seg.paddr)

/-- What a segment's bytes do to the memory. -/
def Segment.copy (seg : Segment) (fileBuf : Buffer) (m : Mem UInt8) : Mem UInt8 :=
  copySegment seg.paddr seg.memsz fileBuf seg.offset seg.filesz m

/-- A segment that is not well formed changes nothing. -/
theorem Segment.load_malformed {fileBuf : Buffer} {seg : Segment} (h : ¬ seg.WellFormed fileBuf)
    (s : LoadState σ) : seg.load fw fileBuf s = (false, s) := by
  unfold Segment.load loadSegment
  by_cases h1 : seg.filesz > seg.memsz
  · rw [if_pos h1]
  · by_cases h2 : seg.offset.toNat + seg.filesz.toNat < 2 ^ 64 ∧
        seg.offset.toNat + seg.filesz.toNat ≤ fileBuf.size
    · have h3 : seg.paddr.toNat + seg.memsz.toNat ≥ 2 ^ 64 := by
        by_contra h3
        exact h ⟨UInt64.not_lt.1 h1, h2.2, by omega⟩
      rw [if_neg h1, if_neg (not_not.2 h2), if_pos h3]
    · rw [if_neg h1, if_pos h2]

/-- A well-formed segment asks for its missing runs, and is copied when all are granted. -/
theorem Segment.load_wellFormed {fileBuf : Buffer} {seg : Segment} (h : seg.WellFormed fileBuf)
    (s : LoadState σ) : seg.load fw fileBuf s =
      match requestAll fw (seg.missing s.records) s with
      | (false, s) => (false, s)
      | (true, s) =>
        (true, { s with memory := seg.copy fileBuf s.memory, placed := s.placed ++ [seg] }) := by
  have hfits := fileBuf.fits
  have hin := h.inFile
  unfold Segment.load loadSegment
  rw [if_neg (UInt64.not_lt.2 h.filesz_le), if_neg (not_not.2 ⟨by unfold Buffer.size at hin; omega, hin⟩),
    if_neg (Nat.not_le.2 h.extent), pageWalk_eq]
  rfl

/-- A segment that was placed: it is well formed, it was granted all it asked for, and its bytes
are in memory. -/
theorem Segment.load_true {fileBuf : Buffer} {seg : Segment} {s s' : LoadState σ}
    (h : seg.load fw fileBuf s = (true, s')) :
    seg.WellFormed fileBuf ∧ ∃ s₁, requestAll fw (seg.missing s.records) s = (true, s₁) ∧
      s' = { s₁ with memory := seg.copy fileBuf s.memory, placed := s.placed ++ [seg] } := by
  by_cases hwf : seg.WellFormed fileBuf
  · rw [seg.load_wellFormed fw hwf] at h
    obtain ⟨hmem, -, hplaced⟩ := requestAll_frame fw (seg.missing s.records) s
    rcases hr : requestAll fw (seg.missing s.records) s with ⟨granted, s₁⟩
    rw [hr] at h hmem hplaced
    cases granted with
    | false => cases h
    | true =>
      simp only at h hmem hplaced
      rw [hmem, hplaced] at h
      cases h
      exact ⟨hwf, s₁, rfl, rfl⟩
  · rw [seg.load_malformed fw hwf] at h
    cases h

end

/-! ## The pages of a segment -/

/-- The pages the walk over a segment looks at. -/
def Segment.Pages (seg : Segment) (q : Nat) : Prop :=
  ∃ k, q = pageBase seg.paddr + k * pageSize ∧ q < pageLimit seg.paddr seg.memsz

theorem pageBase_dvd (paddr : UInt64) : pageSize ∣ pageBase paddr := Nat.dvd_mul_left ..

theorem pageLimit_dvd (paddr memsz : UInt64) : pageSize ∣ pageLimit paddr memsz := by
  rw [pageLimit, Nat.dvd_mod_iff (show pageSize ∣ 2 ^ 64 by decide)]
  exact Nat.dvd_add (pageBase_dvd paddr) (Nat.dvd_mul_left ..)

theorem pageLimit_lt (paddr memsz : UInt64) : pageLimit paddr memsz < 2 ^ 64 := Nat.mod_lt _ (by decide)

/-- The runs a segment asks for: aligned, below the end of the address space, and made of pages of
the segment that no record covers. -/
theorem Segment.mem_missing {seg : Segment} {records : Records} {r : Nat × Nat} (h : r ∈ seg.missing records) :
    pageSize ∣ r.1 ∧ r.1 + r.2 * pageSize < 2 ^ 64 ∧
      ∀ q, InRun r.1 r.2 q → seg.Pages q ∧ pageAllocated records q = false := by
  have hle := Gaps.run_le_limit _ _ _ (pageBase_dvd seg.paddr) (pageLimit_dvd seg.paddr seg.memsz) h
  have hlt := pageLimit_lt seg.paddr seg.memsz
  obtain ⟨⟨j, hj⟩, -, hfree⟩ := Gaps.mem_gaps _ _ _ _ r h
  refine ⟨?_, by omega, ?_⟩
  · rw [hj]
    exact Nat.dvd_add (pageBase_dvd seg.paddr) (Nat.dvd_mul_left ..)
  · rintro q ⟨k, hk, rfl⟩
    obtain ⟨hlim, hcov⟩ := hfree k hk
    exact ⟨⟨j + k, by rw [hj]; ring, hlim⟩, hcov⟩

/-- Every page of the segment that no record covers is in a run it asks for. -/
theorem Segment.missing_cover {seg : Segment} {records : Records} {q : Nat} (h : seg.Pages q)
    (hfree : pageAllocated records q = false) : ∃ r ∈ seg.missing records, InRun r.1 r.2 q := by
  obtain ⟨k, rfl, hlim⟩ := h
  obtain ⟨r, hr, j, hj, he⟩ := Gaps.gaps_cover _ _ _ _ k hlim hfree
  exact ⟨r, hr, j, hj, he⟩

/-- The runs a segment asks for do not meet. -/
theorem Segment.missing_disjoint (seg : Segment) (records : Records) :
    (seg.missing records).Pairwise fun r r' => ∀ q, InRun r.1 r.2 q → ¬ InRun r'.1 r'.2 q := by
  refine (Gaps.pairwise_gaps _ _ _ _).imp ?_
  rintro r r' hle q ⟨k, hk, rfl⟩ ⟨k', -, he⟩
  have := Nat.mul_le_mul_right pageSize (show k + 1 ≤ r.2 from hk)
  rw [Nat.add_mul, Nat.one_mul] at this
  simp only [pageSize] at *
  omega

end Bang
