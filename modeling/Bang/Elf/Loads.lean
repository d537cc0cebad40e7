/-
When a kernel is loaded (`load_kernel` of `src/elf.rs`): exactly when its file is an executable of one of the two
classes, its segments are well formed, and the runs of pages they ask for are free and are not asked for twice. That
they are not follows while the table has room for them.
-/
import Bang.Elf.Covered
import Bang.Elf.Detect

namespace Bang

/-! ## The runs a load asks for -/

/-- The table when these runs were granted. -/
def Records.of (asked : List (Nat × Nat)) : Records := ⟨asked.take 32, List.length_take_le ..⟩

/-- The runs that segments ask for behind those that were granted before, if all are granted. -/
def runsAfter : List Segment → List (Nat × Nat) → List (Nat × Nat)
  | [], asked => asked
  | seg :: segs, asked => runsAfter segs (asked ++ seg.missing (.of asked))

/-- Two runs without a page in common. -/
def RunsDisjoint (r r' : Nat × Nat) : Prop := ∀ q, InRun r.1 r.2 q → ¬ InRun r'.1 r'.2 q

theorem runsAfter_starts (segs : List Segment) : ∀ asked, asked <+: runsAfter segs asked := by
  induction segs with
  | nil => exact fun asked => List.prefix_refl _
  | cons seg segs ih => exact fun asked => (List.prefix_append ..).trans (ih _)

/-- Each run is of pages of a segment. -/
theorem mem_runsAfter {segs : List Segment} : ∀ {asked : List (Nat × Nat)} {r : Nat × Nat},
    r ∈ runsAfter segs asked → r ∈ asked ∨ pageSize ∣ r.1 ∧ r.1 + r.2 * pageSize < 2 ^ 64 ∧
      ∀ q, InRun r.1 r.2 q → ∃ seg ∈ segs, seg.Pages q := by
  induction segs with
  | nil => exact fun hr => .inl hr
  | cons seg segs ih =>
    intro asked r hr
    rcases ih hr with hr | ⟨hdvd, hlt, hpages⟩
    · rcases List.mem_append.1 hr with hr | hr
      · exact .inl hr
      · obtain ⟨hdvd, hlt, hpages⟩ := Segment.mem_missing hr
        exact .inr ⟨hdvd, hlt, fun q hq => ⟨seg, List.mem_cons_self .., (hpages q hq).1⟩⟩
    · refine .inr ⟨hdvd, hlt, fun q hq => ?_⟩
      obtain ⟨seg', hseg, hpage⟩ := hpages q hq
      exact ⟨seg', List.mem_cons_of_mem _ hseg, hpage⟩

/-- While the table has room, no page is asked for twice. -/
theorem runsAfter_disjoint {segs : List Segment} : ∀ {asked : List (Nat × Nat)},
    (∀ r ∈ asked, pageSize ∣ r.1 ∧ r.1 + r.2 * pageSize < 2 ^ 64) → asked.Pairwise RunsDisjoint →
    (runsAfter segs asked).length ≤ 32 → (runsAfter segs asked).Pairwise RunsDisjoint := by
  induction segs with
  | nil => exact fun _ hdisjoint _ => hdisjoint
  | cons seg segs ih =>
    intro asked haligned hdisjoint hroom
    have hlength := (runsAfter_starts segs (asked ++ seg.missing (.of asked))).length_le
    have hfits : (asked ++ seg.missing (.of asked)).length ≤ 32 := hlength.trans hroom
    have hall : (Records.of asked).runs = asked := by
      rw [List.length_append] at hfits
      exact List.take_of_length_le (by omega)
    refine ih (fun r hr => ?_) (List.pairwise_append.2 ⟨hdisjoint, seg.missing_disjoint _, ?_⟩) hroom
    · rcases List.mem_append.1 hr with hr | hr
      · exact haligned r hr
      · obtain ⟨hdvd, hlt, -⟩ := Segment.mem_missing hr
        exact ⟨hdvd, hlt⟩
    · intro r hr r' hr' q hq hq'
      -- a page of a recorded run is not missing
      have hdvd : pageSize ∣ q := by
        obtain ⟨k, -, rfl⟩ := hq
        exact Nat.dvd_add (haligned r hr).1 (Nat.dvd_mul_left ..)
      have hrecorded : pageAllocated (.of asked) q = true :=
        (pageAllocated_iff_inRun (fun r hr => haligned r (hall ▸ hr)) hdvd).2 ⟨r, hall.symm ▸ hr, hq⟩
      obtain ⟨-, -, hpages⟩ := Segment.mem_missing hr'
      rw [(hpages q hq').2] at hrecorded
      cases hrecorded

section
variable {σ : Type} {fw : Firmware σ} {taken : σ → Nat → Prop}

/-! ## Requests -/

/-- A load that was granted the runs `asked` since the firmware was `f`. -/
structure Asked (taken : σ → Nat → Prop) (f : σ) (asked : List (Nat × Nat)) (s : LoadState σ) : Prop where
  records : s.records = .of asked
  taken_iff : ∀ q, taken s.firmware q ↔ taken f q ∨ ∃ r ∈ asked, InRun r.1 r.2 q

theorem asked_start (taken : σ → Nat → Prop) (f : σ) (memory : Mem UInt8) :
    Asked taken f [] (.start f memory) :=
  ⟨rfl, fun _ => ⟨.inl, fun h => h.resolve_right nofun⟩⟩

theorem Records.of_append (asked : List (Nat × Nat)) (page run : Nat) :
    recordAllocation (.of asked) page run = .of (asked ++ [(page, run)]) := by
  have hruns := recordAllocation_runs (.of asked) page run
  have htake := take_append_take 32 asked [(page, run)]
  have hsame : (recordAllocation (.of asked) page run).runs = (Records.of (asked ++ [(page, run)])).runs :=
    hruns.trans htake
  cases h : recordAllocation (.of asked) page run with
  | mk runs fits =>
    rw [h] at hsame
    cases hsame
    rfl

theorem Asked.granted (hfw : fw.Lawful taken) {f f' : σ} {asked : List (Nat × Nat)} {s : LoadState σ}
    (h : Asked taken f asked s) {page run : Nat} (hask : fw.allocateAt s.firmware page run = (true, f')) :
    Asked taken f (asked ++ [(page, run)])
      { s with firmware := f', records := recordAllocation s.records page run } := by
  refine ⟨?_, fun q => ?_⟩
  · show recordAllocation s.records page run = _
    rw [h.records, Records.of_append]
  · have hat := hfw.at_taken s.firmware page run q
    rw [hask] at hat
    rw [hat, h.taken_iff]
    simp only [List.mem_append, List.mem_singleton, true_and]
    constructor
    · rintro ((hq | ⟨r, hr, hq⟩) | hq)
      · exact .inl hq
      · exact .inr ⟨r, .inl hr, hq⟩
      · exact .inr ⟨_, .inr rfl, hq⟩
    · rintro (hq | ⟨r, hr | rfl, hq⟩)
      · exact .inl (.inl hq)
      · exact .inl (.inr ⟨r, hr, hq⟩)
      · exact .inr hq

/-- Runs are all granted exactly when they were free at first and have no page in common, with one another or with a
run granted before. -/
theorem requestAll_iff (hfw : fw.Lawful taken) {f : σ} (runs : List (Nat × Nat)) :
    ∀ {asked : List (Nat × Nat)} {s : LoadState σ}, Asked taken f asked s →
      ((requestAll fw runs s).1 = true ↔ (∀ r ∈ runs, ∀ q, InRun r.1 r.2 q → ¬ taken f q) ∧
        runs.Pairwise RunsDisjoint ∧ ∀ r ∈ asked, ∀ r' ∈ runs, RunsDisjoint r r') ∧
      ((requestAll fw runs s).1 = true → Asked taken f (asked ++ runs) (requestAll fw runs s).2) := by
  induction runs with
  | nil =>
    intro asked s h
    refine ⟨iff_of_true rfl ⟨nofun, .nil, nofun⟩, fun _ => ?_⟩
    rw [List.append_nil]
    exact h
  | cons r runs ih =>
    obtain ⟨page, run⟩ := r
    intro asked s h
    rw [requestAll]
    have hgranted := hfw.at_granted s.firmware page run
    rcases hask : fw.allocateAt s.firmware page run with ⟨granted, f'⟩
    rw [hask] at hgranted
    cases granted with
    | false =>
      refine ⟨iff_of_false Bool.false_ne_true ?_, fun hok => absurd hok Bool.false_ne_true⟩
      rintro ⟨hfree, -, hapart⟩
      refine Bool.false_ne_true (hgranted.2 fun q hq ht => ?_)
      rcases (h.taken_iff q).1 ht with ht | ⟨r, hr, hq'⟩
      · exact hfree _ (List.mem_cons_self ..) q hq ht
      · exact hapart r hr _ (List.mem_cons_self ..) q hq' hq
    | true =>
      obtain ⟨hiff, hasked⟩ := ih (h.granted hfw hask)
      rw [List.append_assoc] at hasked
      refine ⟨hiff.trans ?_, hasked⟩
      have hfree : ∀ q, InRun page run q → ¬ taken f q ∧ ∀ r ∈ asked, ¬ InRun r.1 r.2 q := by
        intro q hq
        have hnot := hgranted.1 rfl q hq
        rw [h.taken_iff, not_or] at hnot
        exact ⟨hnot.1, fun r hr hq' => hnot.2 ⟨r, hr, hq'⟩⟩
      rw [List.forall_mem_cons, List.pairwise_cons]
      constructor
      · rintro ⟨hruns, hpairs, hapart⟩
        refine ⟨⟨fun q hq => (hfree q hq).1, hruns⟩, ⟨fun r' hr' => ?_, hpairs⟩, fun r hr => ?_⟩
        · exact hapart _ (List.mem_append_right _ (List.mem_singleton_self _)) r' hr'
        · refine List.forall_mem_cons.2 ⟨fun q hq hq' => (hfree q hq').2 r hr hq, fun r' hr' => ?_⟩
          exact hapart r (List.mem_append_left _ hr) r' hr'
      · rintro ⟨⟨-, hruns⟩, ⟨hfirst, hpairs⟩, hapart⟩
        refine ⟨hruns, hpairs, fun r hr r' hr' => ?_⟩
        rcases List.mem_append.1 hr with hr | hr
        · exact hapart r hr r' (List.mem_cons_of_mem _ hr')
        · rw [List.mem_singleton.1 hr]
          exact hfirst r' hr'

/-! ## Segments -/

/-- The runs of segments behind those granted before: free at first, and none asked for twice. -/
def Grantable (taken : σ → Nat → Prop) (f : σ) (asked runs : List (Nat × Nat)) : Prop :=
  (∀ r ∈ runs.drop asked.length, ∀ q, InRun r.1 r.2 q → ¬ taken f q) ∧
    (runs.drop asked.length).Pairwise RunsDisjoint ∧
      ∀ r ∈ asked, ∀ r' ∈ runs.drop asked.length, RunsDisjoint r r'

/-- A segment is placed exactly when it is well formed and its missing runs are granted. -/
theorem Segment.load_iff (hfw : fw.Lawful taken) {f : σ} {asked : List (Nat × Nat)} {s : LoadState σ}
    (h : Asked taken f asked s) (fileBuf : Buffer) (seg : Segment) :
    ((seg.load fw fileBuf s).1 = true ↔
        seg.WellFormed fileBuf ∧ Grantable taken f asked (asked ++ seg.missing (.of asked))) ∧
      ((seg.load fw fileBuf s).1 = true →
        Asked taken f (asked ++ seg.missing (.of asked)) (seg.load fw fileBuf s).2) := by
  by_cases hwf : seg.WellFormed fileBuf
  · obtain ⟨hiff, hasked⟩ := requestAll_iff hfw (seg.missing (.of asked)) h
    rw [seg.load_wellFormed fw hwf, h.records]
    rcases hrequest : requestAll fw (seg.missing (.of asked)) s with ⟨granted, s₁⟩
    rw [hrequest] at hiff hasked
    unfold Grantable
    rw [List.drop_left]
    cases granted with
    | false => exact ⟨hiff.trans (and_iff_right hwf).symm, fun hok => absurd hok Bool.false_ne_true⟩
    | true =>
      refine ⟨hiff.trans (and_iff_right hwf).symm, fun _ => ?_⟩
      exact ⟨(hasked rfl).records, (hasked rfl).taken_iff⟩
  · rw [seg.load_malformed fw hwf]
    exact ⟨iff_of_false Bool.false_ne_true fun hand => hwf hand.1, fun hok => absurd hok Bool.false_ne_true⟩

/-- The runs of the first segment and those of the rest. -/
theorem grantable_cons {f : σ} {asked : List (Nat × Nat)} {seg : Segment} {segs : List Segment} :
    Grantable taken f asked (runsAfter (seg :: segs) asked) ↔
      Grantable taken f asked (asked ++ seg.missing (.of asked)) ∧
        Grantable taken f (asked ++ seg.missing (.of asked)) (runsAfter segs (asked ++ seg.missing (.of asked))) := by
  obtain ⟨rest, hrest⟩ := runsAfter_starts segs (asked ++ seg.missing (.of asked))
  have hruns : runsAfter (seg :: segs) asked = asked ++ (seg.missing (.of asked) ++ rest) := by
    rw [← List.append_assoc, hrest]
    rfl
  rw [← hrest, hruns]
  unfold Grantable
  rw [List.drop_left, List.drop_left, List.drop_left, List.forall_mem_append, List.pairwise_append]
  constructor
  · rintro ⟨⟨hfree, hfree'⟩, ⟨hpairs, hpairs', hcross⟩, hapart⟩
    refine ⟨⟨hfree, hpairs, fun r hr r' hr' => hapart r hr r' (List.mem_append_left _ hr')⟩,
      hfree', hpairs', fun r hr r' hr' => ?_⟩
    rcases List.mem_append.1 hr with hr | hr
    · exact hapart r hr r' (List.mem_append_right _ hr')
    · exact hcross r hr r' hr'
  · rintro ⟨⟨hfree, hpairs, hapart⟩, hfree', hpairs', hapart'⟩
    refine ⟨⟨hfree, hfree'⟩, ⟨hpairs, hpairs', fun r hr => hapart' r (List.mem_append_right _ hr)⟩,
      fun r hr r' hr' => ?_⟩
    rcases List.mem_append.1 hr' with hr' | hr'
    · exact hapart r hr r' hr'
    · exact hapart' r (List.mem_append_left _ hr) r' hr'

/-! ## The loop over the program headers -/

/-- The entries of the table up to the first that is not in the file: `n` at most, from number `i` on. -/
def ElfClass.entriesInFile (c : ElfClass) (fileBuf : Buffer) (phoff : Nat) : (n i : Nat) → List (Nat × Phdr)
  | 0, _ => []
  | n + 1, i =>
    if phoff + i * c.phdrSize + c.phdrSize ≤ fileBuf.size then
      c.entryAt fileBuf (phoff + i * c.phdrSize) :: c.entriesInFile fileBuf phoff n (i + 1)
    else []

/-- One round of the loop. -/
theorem loadSegments_succ {c : ElfClass} (hsize : c.phdrSize ≤ 56) (fileBuf : Buffer) (phoff n i : Nat)
    (s : LoadState σ) : loadSegments fw c fileBuf phoff (n + 1) i s =
      if phoff + i * c.phdrSize + c.phdrSize ≤ fileBuf.size then
        let e := c.entryAt fileBuf (phoff + i * c.phdrSize)
        if e.2.pType = ptLoad then do
          let () ← assert (e.2.segment.load fw fileBuf (s.read e)).1 "Malformed PT_LOAD segment in kernel.bin"
          loadSegments fw c fileBuf phoff n (i + 1) (e.2.segment.load fw fileBuf (s.read e)).2
        else loadSegments fw c fileBuf phoff n (i + 1) (s.read e)
      else .ok s := by
  have hfits : fileBuf.size < 2 ^ 63 := fileBuf.fits
  rw [loadSegments]
  simp only [ge_iff_le]
  by_cases hin : phoff + i * c.phdrSize + c.phdrSize ≤ fileBuf.size
  · rw [if_neg (by omega), if_neg (by omega), if_pos hin]
    refine ok_bind (Buffer.read_eq hin) ?_
    by_cases htype : (c.entryAt fileBuf (phoff + i * c.phdrSize)).2.pType = ptLoad
    · exact (if_neg (not_not.2 htype)).trans (if_pos htype).symm
    · exact (if_pos htype).trans (if_neg htype).symm
  · rw [if_neg hin]
    by_cases hspace : 2 ^ 64 ≤ phoff + i * c.phdrSize
    · rw [if_pos hspace]
    · rw [if_neg hspace, if_pos (by omega)]

/-- The loop gets to its end exactly when the segments it comes across are well formed and their runs are granted. -/
theorem loadSegments_ok_iff (hfw : fw.Lawful taken) {c : ElfClass} (hsize : c.phdrSize ≤ 56) (fileBuf : Buffer)
    (phoff : Nat) {f : σ} (n : Nat) : ∀ (i : Nat) {asked : List (Nat × Nat)} {s : LoadState σ},
      Asked taken f asked s →
        ((∃ s', loadSegments fw c fileBuf phoff n i s = .ok s') ↔
          (∀ seg ∈ loadable (c.entriesInFile fileBuf phoff n i), seg.WellFormed fileBuf) ∧
            Grantable taken f asked (runsAfter (loadable (c.entriesInFile fileBuf phoff n i)) asked)) := by
  have hnone : ∀ asked, Grantable taken f asked (runsAfter [] asked) := by
    intro asked
    unfold Grantable runsAfter
    rw [List.drop_length]
    simp
  induction n with
  | zero =>
    intro i asked s h
    exact iff_of_true ⟨s, rfl⟩ ⟨List.forall_mem_nil _, hnone asked⟩
  | succ n ih =>
    intro i asked s h
    rw [loadSegments_succ hsize, ElfClass.entriesInFile]
    by_cases hin : phoff + i * c.phdrSize + c.phdrSize ≤ fileBuf.size
    · rw [if_pos hin, if_pos hin]
      have hread : Asked taken f asked (s.read (c.entryAt fileBuf (phoff + i * c.phdrSize))) :=
        ⟨h.records, h.taken_iff⟩
      generalize c.entryAt fileBuf (phoff + i * c.phdrSize) = e at *
      by_cases htype : e.2.pType = ptLoad
      · have hcons : ∀ es, loadable (e :: es) = e.2.segment :: loadable es := by
          intro es
          simp [loadable, htype]
        obtain ⟨hiff, hasked⟩ := Segment.load_iff hfw hread fileBuf e.2.segment
        simp only [if_pos htype, hcons, List.forall_mem_cons, grantable_cons]
        cases hload : (e.2.segment.load fw fileBuf (s.read e)).1 with
        | false =>
          refine iff_of_false ?_ ?_
          · rintro ⟨s', hs'⟩
            cases hs'
          · rintro ⟨⟨hwf, -⟩, hgrant, -⟩
            exact Bool.false_ne_true (hload.symm.trans (hiff.2 ⟨hwf, hgrant⟩))
        | true =>
          obtain ⟨hwf, hgrant⟩ := hiff.1 hload
          refine (ih (i + 1) (hasked hload)).trans ?_
          rw [and_iff_right hwf, and_iff_right hgrant]
      · have hcons : ∀ es, loadable (e :: es) = loadable es := by
          intro es
          simp [loadable, htype]
        simp only [if_neg htype, hcons]
        exact ih (i + 1) hread
    · rw [if_neg hin, if_neg hin]
      exact iff_of_true ⟨s, rfl⟩ ⟨List.forall_mem_nil _, hnone asked⟩

/-! ## The whole load -/

/-- A file that is an executable of one of the two classes, as its header says. -/
structure IsExecutable (fileBuf : Buffer) (c : ElfClass) : Prop where
  magic : elfMagic fileBuf = true
  elfClass : (elfClassOf fileBuf = .ok elfClass32 ∧ c = elf32) ∨ (elfClassOf fileBuf = .ok elfClass64 ∧ c = elf64)
  header : c.ehdrSize ≤ fileBuf.size
  type : (c.fileHeader fileBuf).eType = etExec
  machine : (c.fileHeader fileBuf).eMachine = c.machine

/-- The segments the loader comes across. -/
def ElfClass.segments (c : ElfClass) (fileBuf : Buffer) : List Segment :=
  loadable (c.entriesInFile fileBuf (c.fileHeader fileBuf).ePhoff.toNat (c.fileHeader fileBuf).ePhnum.toNat 0)

theorem detectMultibootVersion_ok (file : Buffer) : ∃ version, detectMultibootVersion file = .ok version := by
  obtain ⟨found2, h2, -⟩ := findMb2_spec file
  obtain ⟨found1, h1, -⟩ := findMb1_spec file
  refine ⟨if found2 then 2 else if found1 then 1 else 0, ?_⟩
  unfold detectMultibootVersion
  rw [h2, h1]
  cases found2 <;> cases found1 <;> rfl

theorem loadClass_ok_iff {c : ElfClass} {fileBuf : Buffer} {s : LoadState σ} :
    (∃ r, loadClass fw c fileBuf s = .ok r) ↔ c.ehdrSize ≤ fileBuf.size ∧
      ((c.fileHeader fileBuf).eType = etExec ∧ (c.fileHeader fileBuf).eMachine = c.machine) ∧
        ∃ s', loadSegments fw c fileBuf (c.fileHeader fileBuf).ePhoff.toNat (c.fileHeader fileBuf).ePhnum.toNat 0 s =
          .ok s' := by
  unfold loadClass
  constructor
  · rintro ⟨r, h⟩
    obtain ⟨_, hsize, h⟩ := bind_ok h
    have hsize : c.ehdrSize ≤ fileBuf.size := of_decide_eq_true (assert_ok hsize)
    obtain ⟨bs, hread, h⟩ := bind_ok h
    rw [Buffer.read_eq (by omega)] at hread
    cases hread
    obtain ⟨_, hheader, h⟩ := bind_ok h
    obtain ⟨s', hsegments, -⟩ := bind_ok h
    exact ⟨hsize, of_decide_eq_true (assert_ok hheader), s', hsegments⟩
  · rintro ⟨hsize, hheader, s', hsegments⟩
    have hassert : ∀ {condition : Bool} {message : String}, condition = true →
        assert condition message = .ok () := fun h => if_pos h
    exact ⟨_, ok_bind (hassert (decide_eq_true hsize)) (ok_bind (Buffer.read_eq (by omega))
      (ok_bind (hassert (decide_eq_true hheader)) (ok_bind hsegments rfl)))⟩

theorem loadKernel_ok_iff_loadClass {fileBuf : Buffer} {s : LoadState σ} :
    (∃ info s', loadKernel fw fileBuf s = .ok (info, s')) ↔ elfMagic fileBuf = true ∧
      ∃ c, ((elfClassOf fileBuf = .ok elfClass32 ∧ c = elf32) ∨ (elfClassOf fileBuf = .ok elfClass64 ∧ c = elf64)) ∧
        ∃ r, loadClass fw c fileBuf s = .ok r := by
  constructor
  · rintro ⟨info, s', h⟩
    obtain ⟨elfClass, hclass, hcls, -, -, hload⟩ := loadKernel_ok h
    unfold loadKernel at h
    obtain ⟨_, hmagic, -⟩ := bind_ok h
    refine ⟨assert_ok hmagic, classFor elfClass, ?_, _, hload⟩
    rcases hcls with rfl | rfl
    · exact .inl ⟨hclass, rfl⟩
    · exact .inr ⟨hclass, rfl⟩
  · rintro ⟨hmagic, c, hclass, r, hload⟩
    obtain ⟨version, hversion⟩ := detectMultibootVersion_ok fileBuf
    unfold loadKernel
    rcases hclass with ⟨hclass, rfl⟩ | ⟨hclass, rfl⟩
    · exact ⟨_, _, ok_bind (if_pos hmagic) (ok_bind hversion (ok_bind hclass (ok_bind hload rfl)))⟩
    · exact ⟨_, _, ok_bind (if_pos hmagic) (ok_bind hversion (ok_bind hclass (ok_bind hload rfl)))⟩

theorem phdrSize_le {fileBuf : Buffer} {c : ElfClass}
    (h : (elfClassOf fileBuf = .ok elfClass32 ∧ c = elf32) ∨ (elfClassOf fileBuf = .ok elfClass64 ∧ c = elf64)) :
    c.phdrSize ≤ 56 := by
  rcases h with ⟨-, rfl⟩ | ⟨-, rfl⟩ <;> decide

/-- From the start, what is grantable is free and without a page in common. -/
theorem grantable_start {f : σ} {runs : List (Nat × Nat)} : Grantable taken f [] runs ↔
    (∀ r ∈ runs, ∀ q, InRun r.1 r.2 q → ¬ taken f q) ∧ runs.Pairwise RunsDisjoint :=
  ⟨fun h => ⟨h.1, h.2.1⟩, fun h => ⟨h.1, h.2, nofun⟩⟩

/-- A kernel is loaded exactly when its file is an executable of one of the classes, the segments in it are well
formed, and the runs of pages they ask for were free and have no page in common; and if they ask for 32 runs at most,
that the pages were free is enough. -/
theorem loadKernel_ok_iff (hfw : fw.Lawful taken) (fileBuf : Buffer) (f : σ) (memory : Mem UInt8) :
    ((∃ info s', loadKernel fw fileBuf (.start f memory) = .ok (info, s')) ↔
      ∃ c, IsExecutable fileBuf c ∧ (∀ seg ∈ c.segments fileBuf, seg.WellFormed fileBuf) ∧
        (∀ r ∈ runsAfter (c.segments fileBuf) [], ∀ q, InRun r.1 r.2 q → ¬ taken f q) ∧
        (runsAfter (c.segments fileBuf) []).Pairwise RunsDisjoint) ∧
    ∀ c, IsExecutable fileBuf c → (∀ seg ∈ c.segments fileBuf, seg.WellFormed fileBuf) →
      (∀ seg ∈ c.segments fileBuf, ∀ q, seg.Pages q → ¬ taken f q) →
      (runsAfter (c.segments fileBuf) []).length ≤ 32 →
      ∃ info s', loadKernel fw fileBuf (.start f memory) = .ok (info, s') := by
  have hiff : (∃ info s', loadKernel fw fileBuf (.start f memory) = .ok (info, s')) ↔
      ∃ c, IsExecutable fileBuf c ∧ (∀ seg ∈ c.segments fileBuf, seg.WellFormed fileBuf) ∧
        (∀ r ∈ runsAfter (c.segments fileBuf) [], ∀ q, InRun r.1 r.2 q → ¬ taken f q) ∧
        (runsAfter (c.segments fileBuf) []).Pairwise RunsDisjoint := by
    rw [loadKernel_ok_iff_loadClass]
    constructor
    · rintro ⟨hmagic, c, hclass, hload⟩
      obtain ⟨hheader, ⟨htype, hmachine⟩, hsegments⟩ := loadClass_ok_iff.1 hload
      obtain ⟨hwf, hgrant⟩ :=
        (loadSegments_ok_iff hfw (phdrSize_le hclass) fileBuf _ _ 0 (asked_start taken f memory)).1 hsegments
      exact ⟨c, ⟨hmagic, hclass, hheader, htype, hmachine⟩, hwf, grantable_start.1 hgrant⟩
    · rintro ⟨c, hexe, hwf, hgrant⟩
      refine ⟨hexe.magic, c, hexe.elfClass, loadClass_ok_iff.2 ⟨hexe.header, ⟨hexe.type, hexe.machine⟩, ?_⟩⟩
      exact (loadSegments_ok_iff hfw (phdrSize_le hexe.elfClass) fileBuf _ _ 0 (asked_start taken f memory)).2
        ⟨hwf, grantable_start.2 hgrant⟩
  refine ⟨hiff, fun c hexe hwf hfree hroom => hiff.2 ⟨c, hexe, hwf, fun r hr q hq => ?_, ?_⟩⟩
  · obtain ⟨-, -, hpages⟩ := (mem_runsAfter hr).resolve_left nofun
    obtain ⟨seg, hseg, hpage⟩ := hpages q hq
    exact hfree seg hseg q hpage
  · exact runsAfter_disjoint nofun .nil hroom

/-- Two segments that share a page: nothing is asked for twice, and they are loaded. -/
theorem loadKernel_ok_shared : ∃ info s',
    loadKernel bump ⟨elf32Executable 32 2 (bssHeader32 0x100000 ++ bssHeader32 0x100800), by decide⟩
      (.start ⟨fun _ => false, 0⟩ fun _ => 0) = .ok (info, s') := by
  refine (loadKernel_ok_iff bump_lawful _ _ _).2 elf32 ⟨by decide, .inl ⟨by decide, rfl⟩, by decide, by decide,
    by decide⟩ ?_ (fun _ _ _ _ => Bool.false_ne_true) (by decide +kernel)
  have hsegments : elf32.segments
      ⟨elf32Executable 32 2 (bssHeader32 0x100000 ++ bssHeader32 0x100800), by decide⟩ =
        [⟨0x100000, 0x1000, 0, 0⟩, ⟨0x100800, 0x1000, 0, 0⟩] := by decide +kernel
  rw [hsegments]
  intro seg hseg
  simp only [List.mem_cons, List.not_mem_nil, or_false] at hseg
  rcases hseg with rfl | rfl
  · exact ⟨by decide, by decide, by decide⟩
  · exact ⟨by decide, by decide, by decide⟩

end

end Bang
