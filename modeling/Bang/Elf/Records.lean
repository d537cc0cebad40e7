/-
What the table of granted pages is for: no page is asked for twice. The table remembers the first
32 runs the firmware granted and no later one, so a load asks for a page again exactly when a
segment needs a page of a later run.
-/
import Bang.Elf.Requests

namespace Bang

/-! ## The requests of a load -/

/-- No request contains a page that an earlier request was granted. -/
def NoRepeat (log : List Request) : Prop :=
  log.Pairwise fun earlier later => earlier.granted = true →
    ∀ q, InRun earlier.page earlier.count q → ¬ InRun later.page later.count q

section
variable {σ : Type}

/-- No page of the segment is of a run granted when the table was full: the 33rd or a later one. -/
def Remembered (s : LoadState (σ × List Request)) (seg : Segment) : Prop :=
  ∀ r ∈ (grantedRuns s.firmware.2).drop 32, ∀ q, InRun r.1 r.2 q → ¬ seg.Pages q

variable (fw : Firmware σ) (fileBuf : Buffer)

/-- Segments loaded one after another: whether all calls returned true, and the state after. -/
def loadAll : List Segment → LoadState (σ × List Request) → Bool × LoadState (σ × List Request)
  | [], s => (true, s)
  | seg :: segs, s =>
    let (ok, s) := seg.load fw.logged fileBuf s
    let (oks, s) := loadAll segs s
    (ok && oks, s)

/-- Every segment of the run is remembered in the state before it. -/
def RunRemembered : List Segment → LoadState (σ × List Request) → Prop
  | [], _ => True
  | seg :: segs, s => Remembered s seg ∧ RunRemembered segs (seg.load fw.logged fileBuf s).2

end

/-! ## The table and the log -/

section
variable {σ : Type}

/-- Between two segments: the table holds the first 32 granted runs, and every run asked for is
aligned and ends below the end of the address space. -/
structure Book (s : LoadState (σ × List Request)) : Prop where
  records : s.records.runs = (grantedRuns s.firmware.2).take 32
  aligned : ∀ r ∈ s.firmware.2, pageSize ∣ r.page ∧ r.page + r.count * pageSize < 2 ^ 64

/-- A recorded run is aligned and ends below the end of the address space. -/
theorem Book.mem_aligned {s : LoadState (σ × List Request)} (h : Book s) {r : Nat × Nat} (hr : r ∈ s.records.runs) :
    pageSize ∣ r.1 ∧ r.1 + r.2 * pageSize < 2 ^ 64 := by
  rw [h.records] at hr
  obtain ⟨x, hx, -, rfl⟩ := mem_grantedRuns.1 (List.mem_of_mem_take hr)
  exact h.aligned x hx

/-- An aligned page is allocated when it is in a recorded run. -/
theorem Book.pageAllocated_iff {s : LoadState (σ × List Request)} (h : Book s) {q : Nat}
    (hq : pageSize ∣ q) : pageAllocated s.records q = true ↔
      ∃ r ∈ (grantedRuns s.firmware.2).take 32, InRun r.1 r.2 q := by
  rw [pageAllocated_iff_inRun (fun r hr => h.mem_aligned hr) hq, h.records]

variable (fw : Firmware σ)

/-- What loading a segment adds to the log: a front of its missing runs, and all of them when it
is placed. -/
theorem Segment.load_log (fileBuf : Buffer) (seg : Segment) {s : LoadState (σ × List Request)} (h : Book s) :
    Book (seg.load fw.logged fileBuf s).2 ∧ ∃ asked : List Request,
      (seg.load fw.logged fileBuf s).2.firmware.2 = s.firmware.2 ++ asked ∧
      (asked.map fun r => (r.page, r.count)) <+: seg.missing s.records ∧
      ((seg.load fw.logged fileBuf s).1 = true → grantedRuns asked = seg.missing s.records) := by
  by_cases hwf : seg.WellFormed fileBuf
  · obtain ⟨asked, hissued, hlog, hrec⟩ := Segment.load_issued fw hwf s
    refine ⟨⟨?_, fun r hr => ?_⟩, asked, hlog, hissued.front, hissued.grantedRuns_eq⟩
    · rw [hrec, hlog, h.records, take_append_take, grantedRuns_append]
    · rw [hlog] at hr
      rcases List.mem_append.1 hr with hr | hr
      · exact h.aligned r hr
      · obtain ⟨h1, h2, -⟩ := Segment.mem_missing (hissued.front.subset (List.mem_map_of_mem hr))
        exact ⟨h1, h2⟩
  · rw [seg.load_malformed fw.logged hwf]
    exact ⟨h, [], by simp, by simp, fun h => absurd h Bool.false_ne_true⟩

variable {fw}

/-! ## One segment -/

/-- The runs a remembered segment asks for meet no run granted before. -/
theorem Remembered.fresh {s : LoadState (σ × List Request)} {seg : Segment} (h : Remembered s seg)
    (hb : Book s) {r : Request} (hr : r ∈ s.firmware.2) (hg : r.granted = true) {r' : Nat × Nat}
    (hr' : r' ∈ seg.missing s.records) : ∀ q, InRun r.page r.count q → ¬ InRun r'.1 r'.2 q := by
  intro q hin hin'
  obtain ⟨hdvd, -, hpages⟩ := Segment.mem_missing hr'
  obtain ⟨hpage, hfree⟩ := hpages q hin'
  have hq : pageSize ∣ q := by
    obtain ⟨k, -, rfl⟩ := hin'
    exact Nat.dvd_add hdvd (Nat.dvd_mul_left ..)
  have hmem : (r.page, r.count) ∈ grantedRuns s.firmware.2 := mem_grantedRuns.2 ⟨r, hr, hg, rfl⟩
  rw [← List.take_append_drop 32 (grantedRuns s.firmware.2)] at hmem
  rcases List.mem_append.1 hmem with hmem | hmem
  · -- a recorded run: the page would be covered
    have := (hb.pageAllocated_iff hq).2 ⟨_, hmem, hin⟩
    rw [hfree] at this
    cases this
  · exact h _ hmem q hin hpage

/-- Loading a remembered segment repeats no request. -/
theorem Remembered.noRepeat {fileBuf : Buffer} {s : LoadState (σ × List Request)} {seg : Segment}
    (h : Remembered s seg) (hb : Book s) (hn : NoRepeat s.firmware.2) :
    NoRepeat (seg.load fw.logged fileBuf s).2.firmware.2 := by
  obtain ⟨-, asked, hlog, hpre, -⟩ := Segment.load_log fw fileBuf seg hb
  have hasked : asked.Pairwise fun r r' => ∀ q, InRun r.page r.count q → ¬ InRun r'.page r'.count q :=
    List.pairwise_map.1 ((seg.missing_disjoint s.records).sublist hpre.sublist)
  rw [hlog, NoRepeat, List.pairwise_append]
  refine ⟨hn, hasked.imp ?_, fun r hr r' hr' hg => ?_⟩
  · exact fun hd _ => hd
  · exact h.fresh hb hr hg (hpre.subset (List.mem_map_of_mem hr'))

/-- A segment that is placed without a repeated request was remembered. -/
theorem Remembered.of_noRepeat {fileBuf : Buffer} {s : LoadState (σ × List Request)} {seg : Segment}
    (hb : Book s) (hok : (seg.load fw.logged fileBuf s).1 = true)
    (hn : NoRepeat (seg.load fw.logged fileBuf s).2.firmware.2) : Remembered s seg := by
  obtain ⟨-, asked, hlog, -, hall⟩ := Segment.load_log fw fileBuf seg hb
  have hasked := hall hok
  rw [hlog, NoRepeat, List.pairwise_append] at hn
  obtain ⟨hold, -, hcross⟩ := hn
  have hgranted : (grantedRuns s.firmware.2).Pairwise fun r r' => ∀ q, InRun r.1 r.2 q → ¬ InRun r'.1 r'.2 q := by
    refine List.pairwise_map.2 (List.pairwise_filter.2 (hold.imp ?_))
    exact fun h hg _ => h hg
  intro r hr q hin hpage
  -- a page of a run behind the 32nd is in no recorded run
  have hq : pageSize ∣ q := by
    obtain ⟨k, rfl, -⟩ := hpage
    exact Nat.dvd_add (pageBase_dvd _) (Nat.dvd_mul_left ..)
  have hfree : pageAllocated s.records q = false := by
    rw [← Bool.not_eq_true, hb.pageAllocated_iff hq]
    rintro ⟨r₀, hr₀, hin₀⟩
    rw [← List.take_append_drop 32 (grantedRuns s.firmware.2), List.pairwise_append] at hgranted
    exact hgranted.2.2 r₀ hr₀ r hr q hin₀ hin
  -- so the segment asked for it, which repeats the earlier request
  obtain ⟨r', hr', hin'⟩ := Segment.missing_cover hpage hfree
  obtain ⟨x, hx, hgx, rfl⟩ := mem_grantedRuns.1 (List.mem_of_mem_drop hr)
  rw [← hasked] at hr'
  obtain ⟨y, hy, -, rfl⟩ := mem_grantedRuns.1 hr'
  exact hcross x hx y hy hgx q hin hin'

/-! ## Segments whose pages are free -/

/-- The firmware's account: the pages taken before the load, and those it granted. -/
def Account (taken : σ → Nat → Prop) (firmware : σ) (s : LoadState (σ × List Request)) : Prop :=
  ∀ q, taken s.firmware.1 q ↔ taken firmware q ∨ ∃ r ∈ grantedRuns s.firmware.2, InRun r.1 r.2 q

theorem requestAll_account {taken : σ → Nat → Prop} (hfw : fw.Lawful taken) {firmware : σ}
    (runs : List (Nat × Nat)) : ∀ s, Account taken firmware s →
      Account taken firmware (requestAll fw.logged runs s).2 := by
  induction runs with
  | nil => intro s h; exact h
  | cons r runs ih =>
    obtain ⟨page, run⟩ := r
    intro s h
    have htaken := hfw.at_taken s.firmware.1 page run
    rcases hask : fw.allocateAt s.firmware.1 page run with ⟨granted, f⟩
    have hlog : fw.logged.allocateAt s.firmware page run =
        (granted, f, s.firmware.2 ++ [⟨page, run, granted⟩]) := by
      simp only [Firmware.logged, hask]
    rw [hask] at htaken
    cases granted with
    | false =>
      simp only [requestAll, hlog]
      intro q
      rw [htaken q, h q]
      simp [grantedRuns]
    | true =>
      simp only [requestAll, hlog]
      refine ih _ fun q => ?_
      rw [htaken q, h q, grantedRuns_append]
      simp only [grantedRuns, List.mem_append, or_and_right, exists_or]
      simp [or_assoc]

/-- Requests for free pages that do not meet are all granted. -/
theorem requestAll_granted {taken : σ → Nat → Prop} (hfw : fw.Lawful taken) (runs : List (Nat × Nat)) :
    ∀ s : LoadState (σ × List Request), (∀ r ∈ runs, ∀ q, InRun r.1 r.2 q → ¬ taken s.firmware.1 q) →
      runs.Pairwise (fun r r' => ∀ q, InRun r.1 r.2 q → ¬ InRun r'.1 r'.2 q) →
      (requestAll fw.logged runs s).1 = true := by
  induction runs with
  | nil => intro s _ _; rfl
  | cons r runs ih =>
    obtain ⟨page, run⟩ := r
    intro s hfree hdisj
    rw [List.pairwise_cons] at hdisj
    have hgranted := (hfw.at_granted s.firmware.1 page run).2 (hfree _ (List.mem_cons_self ..))
    have htaken := hfw.at_taken s.firmware.1 page run
    rcases hask : fw.allocateAt s.firmware.1 page run with ⟨granted, f⟩
    rw [hask] at hgranted htaken
    simp only at hgranted htaken
    subst hgranted
    have hlog : fw.logged.allocateAt s.firmware page run = (true, f, s.firmware.2 ++ [⟨page, run, true⟩]) := by
      simp only [Firmware.logged, hask]
    simp only [requestAll, hlog]
    refine ih _ (fun r hr q hin ht => ?_) hdisj.2
    rcases (htaken q).1 ht with ht | ⟨-, hin'⟩
    · exact hfree r (List.mem_cons_of_mem _ hr) q hin ht
    · exact hdisj.1 r hr q hin' hin

theorem Segment.load_account {taken : σ → Nat → Prop} (hfw : fw.Lawful taken) {firmware : σ}
    {fileBuf : Buffer} {seg : Segment} {s : LoadState (σ × List Request)} (h : Account taken firmware s) :
    Account taken firmware (seg.load fw.logged fileBuf s).2 := by
  by_cases hwf : seg.WellFormed fileBuf
  · have hacc := requestAll_account hfw (seg.missing s.records) s h
    rw [seg.load_wellFormed fw.logged hwf]
    split <;> rename_i hr <;> rw [hr] at hacc <;> exact hacc
  · rw [seg.load_malformed fw.logged hwf]
    exact h

/-- A well-formed segment whose pages were free before the load, and which is remembered, is
placed. -/
theorem Remembered.placed {taken : σ → Nat → Prop} (hfw : fw.Lawful taken) {firmware : σ}
    {fileBuf : Buffer} {seg : Segment} {s : LoadState (σ × List Request)} (h : Remembered s seg)
    (hb : Book s) (hacc : Account taken firmware s) (hwf : seg.WellFormed fileBuf)
    (hfree : ∀ q, seg.Pages q → ¬ taken firmware q) : (seg.load fw.logged fileBuf s).1 = true := by
  have hall := requestAll_granted hfw (seg.missing s.records) s (fun r hr q hin ht => ?_)
    (seg.missing_disjoint s.records)
  · rw [seg.load_wellFormed fw.logged hwf]
    split
    · rename_i hr
      rw [hr] at hall
      exact hall
    · rfl
  · rcases (hacc q).1 ht with ht | ⟨r', hr', hin'⟩
    · exact hfree q ((Segment.mem_missing hr).2.2 q hin).1 ht
    · obtain ⟨x, hx, hgx, rfl⟩ := mem_grantedRuns.1 hr'
      exact h.fresh hb hx hgx hr q hin' hin

/-! ## Runs -/

/-- The log only grows. -/
theorem loadAll_log (fw : Firmware σ) (fileBuf : Buffer) (segs : List Segment) : ∀ s : LoadState (σ × List Request), Book s →
    ∃ asked, (loadAll fw fileBuf segs s).2.firmware.2 = s.firmware.2 ++ asked := by
  induction segs with
  | nil => intro s _; exact ⟨[], by simp [loadAll]⟩
  | cons seg segs ih =>
    intro s hb
    obtain ⟨hb', asked, hlog, -⟩ := Segment.load_log fw fileBuf seg hb
    obtain ⟨asked', hlog'⟩ := ih _ hb'
    exact ⟨asked ++ asked', by rw [loadAll, hlog', hlog, List.append_assoc]⟩

theorem RunRemembered.noRepeat {fileBuf : Buffer} (segs : List Segment) :
    ∀ s : LoadState (σ × List Request), Book s → NoRepeat s.firmware.2 → RunRemembered fw fileBuf segs s →
      NoRepeat (loadAll fw fileBuf segs s).2.firmware.2 := by
  induction segs with
  | nil => intro s _ hn _; exact hn
  | cons seg segs ih =>
    rintro s hb hn ⟨hseg, hsegs⟩
    exact ih _ (Segment.load_log fw fileBuf seg hb).1 (hseg.noRepeat hb hn) hsegs

theorem RunRemembered.of_noRepeat {fileBuf : Buffer} (segs : List Segment) :
    ∀ s : LoadState (σ × List Request), Book s → (loadAll fw fileBuf segs s).1 = true →
      NoRepeat (loadAll fw fileBuf segs s).2.firmware.2 → RunRemembered fw fileBuf segs s := by
  induction segs with
  | nil => intro s _ _ _; trivial
  | cons seg segs ih =>
    intro s hb hok hn
    simp only [loadAll, Bool.and_eq_true] at hok hn
    have hb' := (Segment.load_log fw fileBuf seg hb).1
    -- the log after this segment is a front of the final one
    obtain ⟨asked, hlog⟩ := loadAll_log fw fileBuf segs _ hb'
    have hn' : NoRepeat (seg.load fw.logged fileBuf s).2.firmware.2 := by
      rw [hlog, NoRepeat, List.pairwise_append] at hn
      exact hn.1
    exact ⟨.of_noRepeat hb hok.1 hn', ih _ hb' hok.2 hn⟩

theorem RunRemembered.placed {taken : σ → Nat → Prop} (hfw : fw.Lawful taken) {firmware : σ}
    {fileBuf : Buffer} (segs : List Segment) :
    ∀ s : LoadState (σ × List Request), Book s → Account taken firmware s →
      (∀ seg ∈ segs, seg.WellFormed fileBuf ∧ ∀ q, seg.Pages q → ¬ taken firmware q) →
      RunRemembered fw fileBuf segs s → (loadAll fw fileBuf segs s).1 = true := by
  induction segs with
  | nil => intro s _ _ _ _; rfl
  | cons seg segs ih =>
    rintro s hb hacc hsegs ⟨hseg, hrest⟩
    obtain ⟨hwf, hfree⟩ := hsegs seg (List.mem_cons_self ..)
    simp only [loadAll, Bool.and_eq_true]
    exact ⟨hseg.placed hfw hb hacc hwf hfree, ih _ (Segment.load_log fw fileBuf seg hb).1 (Segment.load_account hfw hacc)
      (fun x hx => hsegs x (List.mem_cons_of_mem _ hx)) hrest⟩

theorem book_start (firmware : σ) (memory : Mem UInt8) : Book (LoadState.start (firmware, []) memory) :=
  ⟨rfl, fun r hr => by cases hr⟩

theorem account_start (taken : σ → Nat → Prop) (firmware : σ) (memory : Mem UInt8) :
    Account taken firmware (LoadState.start (firmware, []) memory) :=
  fun q => by simp [LoadState.start, grantedRuns]

/-- Starting from the empty table: while every segment is remembered, no page is asked for again
once it was granted; and of well-formed segments whose pages were free before the load, all are
placed without such a request if and only if every one is remembered. -/
theorem noRepeat_iff_remembered {taken : σ → Nat → Prop} (hfw : fw.Lawful taken) (fileBuf : Buffer)
    (firmware : σ) (memory : Mem UInt8) (segs : List Segment) :
    (RunRemembered fw fileBuf segs (.start (firmware, []) memory) →
      NoRepeat (loadAll fw fileBuf segs (.start (firmware, []) memory)).2.firmware.2) ∧
    ((∀ seg ∈ segs, seg.WellFormed fileBuf ∧ ∀ q, seg.Pages q → ¬ taken firmware q) →
      (NoRepeat (loadAll fw fileBuf segs (.start (firmware, []) memory)).2.firmware.2 ∧
          (loadAll fw fileBuf segs (.start (firmware, []) memory)).1 = true ↔
        RunRemembered fw fileBuf segs (.start (firmware, []) memory))) := by
  have hb := book_start firmware memory
  have hstart : NoRepeat (LoadState.start (firmware, ([] : List Request)) memory).firmware.2 := List.Pairwise.nil
  refine ⟨RunRemembered.noRepeat segs _ hb hstart, fun hsegs => ⟨?_, fun h => ⟨?_, ?_⟩⟩⟩
  · rintro ⟨hn, hok⟩
    exact .of_noRepeat segs _ hb hok hn
  · exact RunRemembered.noRepeat segs _ hb hstart h
  · exact h.placed hfw segs _ hb (account_start taken firmware memory) hsegs

/-- Two segments that share a page, with all pages free. -/
theorem shared_page_placed :
    NoRepeat (loadAll bump ⟨[], by decide⟩ [⟨0x100000, 0x1800, 0, 0⟩, ⟨0x101800, 0x1000, 0, 0⟩]
      (.start (⟨fun _ => false, 0⟩, []) fun _ => 0)).2.firmware.2 ∧
    (loadAll bump ⟨[], by decide⟩ [⟨0x100000, 0x1800, 0, 0⟩, ⟨0x101800, 0x1000, 0, 0⟩]
      (.start (⟨fun _ => false, 0⟩, []) fun _ => 0)).1 = true := by
  refine ((noRepeat_iff_remembered bump_lawful ⟨[], by decide⟩ ⟨fun _ => false, 0⟩ (fun _ => 0)
    [⟨0x100000, 0x1800, 0, 0⟩, ⟨0x101800, 0x1000, 0, 0⟩]).2 ?_).2 ⟨?_, ?_, trivial⟩
  · intro seg hseg
    refine ⟨?_, fun q _ => Bool.false_ne_true⟩
    simp only [List.mem_cons, List.not_mem_nil, or_false] at hseg
    rcases hseg with rfl | rfl <;> exact ⟨by decide, by decide, by decide⟩
  · intro r hr
    cases hr
  · intro r hr
    have hnone : (grantedRuns (Segment.load bump.logged ⟨[], by decide⟩ ⟨0x100000, 0x1800, 0, 0⟩
      (.start (⟨fun _ => false, 0⟩, []) fun _ => 0)).2.firmware.2).drop 32 = [] := by decide +kernel
    rw [hnone] at hr
    cases hr

/-- Thirty-three segments of a page each, two pages apart. -/
def isolatedSegments : List Segment :=
  (List.range 33).map fun k => ⟨UInt64.ofNat (0x100000 + 0x2000 * k), 0x1000, 0, 0⟩

/-- A thirty-fourth segment in the page of the thirty-third: all are well formed and all pages are
free, but the page is asked for twice and the load fails. -/
theorem refused_after_full_table :
    (∀ seg ∈ isolatedSegments ++ [⟨0x140000, 0x1000, 0, 0⟩],
      seg.WellFormed ⟨[], by decide⟩ ∧ ∀ q, seg.Pages q → ¬ (fun _ : Nat => false) q = true) ∧
    (loadAll bump ⟨[], by decide⟩ (isolatedSegments ++ [⟨0x140000, 0x1000, 0, 0⟩])
      (.start (⟨fun _ => false, 0⟩, []) fun _ => 0)).1 = false ∧
    (loadAll bump ⟨[], by decide⟩ (isolatedSegments ++ [⟨0x140000, 0x1000, 0, 0⟩])
      (.start (⟨fun _ => false, 0⟩, []) fun _ => 0)).2.firmware.2.drop 32 =
        [⟨0x140000, 1, true⟩, ⟨0x140000, 1, false⟩] := by
  refine ⟨fun seg hseg => ⟨?_, fun q _ => Bool.false_ne_true⟩, by decide +kernel, by decide +kernel⟩
  have hall : ∀ seg ∈ isolatedSegments ++ [⟨0x140000, 0x1000, 0, 0⟩], seg.filesz.toNat ≤ seg.memsz.toNat ∧
      seg.offset.toNat + seg.filesz.toNat ≤ 0 ∧ seg.paddr.toNat + seg.memsz.toNat < 2 ^ 64 := by decide +kernel
  obtain ⟨h1, h2, h3⟩ := hall seg hseg
  exact ⟨h1, h2, h3⟩

end

end Bang
