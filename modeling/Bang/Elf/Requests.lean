/-
What a call of `load_segment` asks the firmware for, whatever the table holds: the maximal runs of the
segment's pages that no record covers, in ascending order and up to the first that is refused. The runs
that were granted are added to the table as far as there is room.
-/
import Bang.Elf.Walk

namespace Bang

/-! ## The requests for a list of runs -/

/-- The requests for a list of runs, and whether all were granted: the first that is refused is the last. -/
inductive Issued : (runs : List (Nat × Nat)) → (asked : List Request) → Bool → Prop
  | done : Issued [] [] true
  | refused (page run : Nat) (runs : List (Nat × Nat)) : Issued ((page, run) :: runs) [⟨page, run, false⟩] false
  | granted (page run : Nat) {runs : List (Nat × Nat)} {asked : List Request} {ok : Bool}
      (rest : Issued runs asked ok) : Issued ((page, run) :: runs) (⟨page, run, true⟩ :: asked) ok

/-- The runs that were granted, in the order of the requests. -/
def grantedRuns (log : List Request) : List (Nat × Nat) :=
  (log.filter Request.granted).map fun r => (r.page, r.count)

theorem grantedRuns_append (xs ys : List Request) : grantedRuns (xs ++ ys) = grantedRuns xs ++ grantedRuns ys := by
  simp [grantedRuns]

theorem mem_grantedRuns {log : List Request} {r : Nat × Nat} :
    r ∈ grantedRuns log ↔ ∃ x ∈ log, x.granted = true ∧ (x.page, x.count) = r := by
  simp only [grantedRuns, List.mem_map, List.mem_filter, and_assoc]

namespace Issued

variable {runs : List (Nat × Nat)} {asked : List Request} {ok : Bool}

/-- The requests are a front of the list. -/
theorem front (h : Issued runs asked ok) : (asked.map fun r => (r.page, r.count)) <+: runs := by
  induction h with
  | done => exact List.prefix_refl _
  | refused page run runs => exact List.cons_prefix_cons.2 ⟨rfl, List.nil_prefix⟩
  | granted page run rest ih => exact List.cons_prefix_cons.2 ⟨rfl, ih⟩

theorem ok_iff (h : Issued runs asked ok) : ok = true ↔ ∀ r ∈ asked, r.granted = true := by
  induction h with
  | done => simp
  | refused page run runs => simp
  | granted page run rest ih => simp [ih]

/-- Where all requests are granted, the whole list was asked for. -/
theorem grantedRuns_eq (h : Issued runs asked ok) (hok : ok = true) : grantedRuns asked = runs := by
  induction h with
  | done => rfl
  | refused page run runs => cases hok
  | granted page run rest ih => rw [← ih hok]; rfl

end Issued

/-! ## The table -/

/-- A run is added to the table if there is room. -/
theorem recordAllocation_runs (records : Records) (page run : Nat) :
    (recordAllocation records page run).runs = (records.runs ++ [(page, run)]).take 32 := by
  have hfits := records.fits
  unfold recordAllocation
  split
  · exact (List.take_of_length_le (by rw [List.length_append, List.length_singleton]; omega)).symm
  · rw [List.take_append_of_le_length (by omega), List.take_of_length_le hfits]

theorem take_append_take {α : Type} (n : Nat) (xs ys : List α) : (xs.take n ++ ys).take n = (xs ++ ys).take n := by
  rw [List.take_append, List.take_append, List.take_take, Nat.min_self, List.length_take]
  congr 2
  omega

section
variable {σ : Type} (fw : Firmware σ)

/-- Asking for a list of runs: what is issued, and what is recorded of it. -/
theorem requestAll_issued (runs : List (Nat × Nat)) (s : LoadState (σ × List Request)) :
    ∃ asked, Issued runs asked (requestAll fw.logged runs s).1 ∧
      (requestAll fw.logged runs s).2.firmware.2 = s.firmware.2 ++ asked ∧
      (requestAll fw.logged runs s).2.records.runs = (s.records.runs ++ grantedRuns asked).take 32 := by
  induction runs generalizing s with
  | nil =>
    refine ⟨[], .done, (List.append_nil _).symm, ?_⟩
    show s.records.runs = (s.records.runs ++ []).take 32
    rw [List.append_nil, List.take_of_length_le s.records.fits]
  | cons r runs ih =>
    obtain ⟨page, run⟩ := r
    rcases hask : fw.allocateAt s.firmware.1 page run with ⟨granted, f⟩
    have hlog : fw.logged.allocateAt s.firmware page run = (granted, f, s.firmware.2 ++ [⟨page, run, granted⟩]) := by
      simp only [Firmware.logged, hask]
    rw [requestAll]
    simp only [hlog]
    cases granted with
    | false =>
      refine ⟨[⟨page, run, false⟩], .refused page run runs, rfl, ?_⟩
      show s.records.runs = (s.records.runs ++ []).take 32
      rw [List.append_nil, List.take_of_length_le s.records.fits]
    | true =>
      obtain ⟨asked, hissued, hasked, hrecords⟩ := ih
        { s with
          firmware := (f, s.firmware.2 ++ [⟨page, run, true⟩])
          records := recordAllocation s.records page run }
      refine ⟨⟨page, run, true⟩ :: asked, .granted page run hissued, ?_, ?_⟩
      · rw [hasked, List.append_assoc, List.singleton_append]
      · rw [hrecords, recordAllocation_runs, take_append_take, List.append_assoc]
        rfl

/-! ## The requests of a segment -/

/-- The missing runs of a segment are the maximal runs of its pages that no record covers. -/
theorem Segment.missing_maximal {seg : Segment} {records : Records}
    (hruns : ∀ r ∈ records.runs, r.1 + r.2 * pageSize < 2 ^ 64) :
    Gaps.Maximal pageSize (fun q => seg.Pages q ∧ ∀ r ∈ records.runs, ¬ (r.1 ≤ q ∧ q < r.1 + r.2 * pageSize))
      (seg.missing records) := by
  refine (Gaps.gaps_maximal pageSize (pageAllocated records) (pageLimit seg.paddr seg.memsz) (pageBase seg.paddr)).congr
    fun q => ?_
  have hfree : pageAllocated records q = false ↔ ∀ r ∈ records.runs, ¬ (r.1 ≤ q ∧ q < r.1 + r.2 * pageSize) := by
    rw [← Bool.not_eq_true, pageAllocated_iff hruns]
    push Not
    rfl
  rw [hfree, ← and_assoc]
  refine and_congr_left fun _ => ?_
  constructor
  · rintro ⟨⟨k, hk⟩, hlt⟩
    exact ⟨k, hk, hlt⟩
  · rintro ⟨k, hk, hlt⟩
    exact ⟨⟨k, hk⟩, hlt⟩

/-- A segment that passes the checks issues the requests for its missing runs. -/
theorem Segment.load_issued {fileBuf : Buffer} {seg : Segment} (hwf : seg.WellFormed fileBuf)
    (s : LoadState (σ × List Request)) :
    ∃ asked, Issued (seg.missing s.records) asked (seg.load fw.logged fileBuf s).1 ∧
      (seg.load fw.logged fileBuf s).2.firmware.2 = s.firmware.2 ++ asked ∧
      (seg.load fw.logged fileBuf s).2.records.runs = (s.records.runs ++ grantedRuns asked).take 32 := by
  obtain ⟨asked, hissued, hasked, hrecords⟩ := requestAll_issued fw (seg.missing s.records) s
  refine ⟨asked, ?_⟩
  rw [seg.load_wellFormed fw.logged hwf]
  split <;> rename_i hrequest <;> rw [hrequest] at hissued hasked hrecords <;> exact ⟨hissued, hasked, hrecords⟩

/-- For every table of ranges that do not wrap, a segment that passes the checks asks for the maximal runs of
its pages that no record covers, up to the first that is refused; it is placed when none is; and the granted
runs are added to the table, up to 32 records. -/
theorem Segment.load_requests (fileBuf : Buffer) (seg : Segment) (s : LoadState (σ × List Request))
    (hwf : seg.WellFormed fileBuf) (hruns : ∀ r ∈ s.records.runs, r.1 + r.2 * pageSize < 2 ^ 64) :
    ∃ runs asked,
      Gaps.Maximal pageSize (fun q => seg.Pages q ∧ ∀ r ∈ s.records.runs, ¬ (r.1 ≤ q ∧ q < r.1 + r.2 * pageSize)) runs ∧
      Issued runs asked (seg.load fw.logged fileBuf s).1 ∧
      (seg.load fw.logged fileBuf s).2.firmware.2 = s.firmware.2 ++ asked ∧
      ((seg.load fw.logged fileBuf s).1 = true ↔ ∀ r ∈ asked, r.granted = true) ∧
      (seg.load fw.logged fileBuf s).2.records.runs = (s.records.runs ++ grantedRuns asked).take 32 := by
  obtain ⟨asked, hissued, hasked, hrecords⟩ := Segment.load_issued fw hwf s
  exact ⟨_, asked, Segment.missing_maximal hruns, hissued, hasked, hissued.ok_iff, hrecords⟩

end

/-- A state of the load with two records, in no order, and free pages everywhere else. -/
def twoRecords : LoadState (Bump × List Request) where
  firmware := (⟨fun q => q = 0x102000 ∨ q = 0x100000, 0⟩, [])
  records := ⟨[(0x102000, 1), (0x100000, 1)], by decide⟩
  memory := fun _ => 0
  entries := []
  placed := []

/-- A segment of four pages around them. -/
theorem load_requests_split : ∃ runs asked,
    Gaps.Maximal pageSize (fun q => (⟨0x100000, 0x4000, 0, 0⟩ : Segment).Pages q ∧
      ∀ r ∈ [(0x102000, 1), (0x100000, 1)], ¬ (r.1 ≤ q ∧ q < r.1 + r.2 * pageSize)) runs ∧
    Issued runs asked true ∧
    [⟨0x101000, 1, true⟩, ⟨0x103000, 1, true⟩] = asked := by
  obtain ⟨runs, asked, hmaximal, hissued, hasked, -, -⟩ :=
    Segment.load_requests bump ⟨[], by decide⟩ ⟨0x100000, 0x4000, 0, 0⟩ twoRecords
      ⟨by decide, by decide, by decide⟩ (List.forall_mem_cons.2 ⟨by decide, List.forall_mem_cons.2 ⟨by decide, by simp⟩⟩)
  have hok : (Segment.load bump.logged ⟨[], by decide⟩ ⟨0x100000, 0x4000, 0, 0⟩ twoRecords).1 = true := by
    decide +kernel
  have hlog : (Segment.load bump.logged ⟨[], by decide⟩ ⟨0x100000, 0x4000, 0, 0⟩ twoRecords).2.firmware.2 =
      [⟨0x101000, 1, true⟩, ⟨0x103000, 1, true⟩] := by decide +kernel
  rw [hok] at hissued
  exact ⟨runs, asked, hmaximal, hissued, hlog.symm.trans hasked⟩

end Bang
