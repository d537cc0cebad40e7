/-
What a load leaves in memory. Segments may overlap, share pages, and end in clear bytes that fall on
what an earlier one put there: at each address the last segment that covers it decides, and where none
does, in the rest of the allocated pages as anywhere else, the memory is as it was.
-/
import Bang.Memory.Overlay
import Bang.Elf.Table
import Bang.Elf.Granted

namespace Bang

/-! ## What a segment puts in memory -/

/-- The byte a segment gives an address: the file's, or zero behind the bytes of the file. -/
def Segment.byteAt (fileBuf : Buffer) (seg : Segment) (a : Nat) : UInt8 :=
  if a - seg.paddr.toNat < seg.filesz.toNat then
    fileBuf.data.getD (seg.offset.toNat + (a - seg.paddr.toNat)) 0
  else 0

/-- The bytes of a segment: those of the file, and clear ones up to its size in memory. -/
def Segment.piece (fileBuf : Buffer) (seg : Segment) : Mem.Piece UInt8 where
  start := seg.paddr.toNat
  cells := (fileBuf.data.drop seg.offset.toNat).take seg.filesz.toNat ++
    List.replicate (seg.memsz.toNat - seg.filesz.toNat) 0

/-- The last segment of the list that covers an address. -/
def LastCovering (segs : List Segment) (a : Nat) (seg : Segment) : Prop :=
  ∃ before after, segs = before ++ seg :: after ∧ seg.Covers a ∧ ∀ x ∈ after, ¬ x.Covers a

/-- The memory `m'` is `m` with the segments placed one after another. -/
structure Image (fileBuf : Buffer) (segs : List Segment) (m m' : Mem UInt8) : Prop where
  covered : ∀ a seg, LastCovering segs a seg → m' a = seg.byteAt fileBuf a
  rest : ∀ a, (∀ seg ∈ segs, ¬ seg.Covers a) → m' a = m a

instance (seg : Segment) (a : Nat) : Decidable (seg.Covers a) := inferInstanceAs (Decidable (_ ∧ _))

/-- Of the segments that cover an address, if there are any, one is the last. -/
theorem exists_lastCovering {segs : List Segment} {a : Nat} (h : ∃ seg ∈ segs, seg.Covers a) :
    ∃ seg, LastCovering segs a seg := by
  induction segs with
  | nil =>
    obtain ⟨seg, hseg, -⟩ := h
    cases hseg
  | cons x segs ih =>
    by_cases hlater : ∃ seg ∈ segs, seg.Covers a
    · obtain ⟨seg, before, after, rfl, hcovers, hafter⟩ := ih hlater
      exact ⟨seg, x :: before, after, rfl, hcovers, hafter⟩
    · obtain ⟨seg, hseg, hcovers⟩ := h
      rcases List.mem_cons.1 hseg with rfl | hseg
      · exact ⟨seg, [], segs, rfl, hcovers, fun y hy hyc => hlater ⟨y, hy, hyc⟩⟩
      · exact absurd ⟨seg, hseg, hcovers⟩ hlater

/-- The image says what every address holds. -/
theorem Image.unique {fileBuf : Buffer} {segs : List Segment} {m m₁ m₂ : Mem UInt8} (h₁ : Image fileBuf segs m m₁)
    (h₂ : Image fileBuf segs m m₂) : m₁ = m₂ := by
  funext a
  by_cases hcovered : ∃ seg ∈ segs, seg.Covers a
  · obtain ⟨seg, hlast⟩ := exists_lastCovering hcovered
    rw [h₁.covered a seg hlast, h₂.covered a seg hlast]
  · push Not at hcovered
    rw [h₁.rest a hcovered, h₂.rest a hcovered]

section
variable {fileBuf : Buffer} {seg : Segment}

theorem Segment.length_fileBytes (h : seg.WellFormed fileBuf) :
    ((fileBuf.data.drop seg.offset.toNat).take seg.filesz.toNat).length = seg.filesz.toNat := by
  have hin : seg.offset.toNat + seg.filesz.toNat ≤ fileBuf.data.length := h.inFile
  rw [List.length_take, List.length_drop]
  omega

theorem Segment.piece_covers (h : seg.WellFormed fileBuf) (a : Nat) : (seg.piece fileBuf).Covers a ↔ seg.Covers a := by
  have hle := h.filesz_le
  unfold Mem.Piece.Covers Segment.Covers Segment.piece
  simp only [List.length_append, Segment.length_fileBytes h, List.length_replicate, Nat.add_sub_cancel' hle]

theorem Segment.piece_cellAt (h : seg.WellFormed fileBuf) {a : Nat} (ha : seg.Covers a) :
    (seg.piece fileBuf).cellAt a = some (seg.byteAt fileBuf a) := by
  obtain ⟨hge, hlt⟩ := ha
  have hlen := Segment.length_fileBytes h
  have hin : seg.offset.toNat + seg.filesz.toNat ≤ fileBuf.data.length := h.inFile
  unfold Mem.Piece.cellAt Segment.piece Segment.byteAt
  rw [if_pos hge]
  simp only
  by_cases hfile : a - seg.paddr.toNat < seg.filesz.toNat
  · rw [List.getElem?_append_left (by omega), List.getElem?_take_of_lt hfile, List.getElem?_drop, if_pos hfile,
      List.getD_eq_getElem?_getD, List.getElem?_eq_getElem (by omega)]
    rfl
  · rw [List.getElem?_append_right (by omega), hlen, if_neg hfile]
    apply List.getElem?_replicate_of_lt
    omega

/-- The copy and the clearing of a segment are one store. -/
theorem Segment.copy_eq (h : seg.WellFormed fileBuf) (m : Mem UInt8) :
    seg.copy fileBuf m = m.store (seg.piece fileBuf).start (seg.piece fileBuf).cells := by
  have hlen := Segment.length_fileBytes h
  unfold Segment.copy copySegment storeSegment Segment.piece
  simp only
  rw [← Mem.store_store, hlen]
  split
  · rfl
  · rename_i hnot
    have hle : seg.memsz.toNat ≤ seg.filesz.toNat := UInt64.not_lt.1 hnot
    rw [Nat.sub_eq_zero_of_le hle, List.replicate_zero, Mem.store_nil]

end

/-- Placing well-formed segments one after another leaves their image. -/
theorem overlay_image {fileBuf : Buffer} {segs : List Segment} (h : ∀ seg ∈ segs, seg.WellFormed fileBuf)
    (m : Mem UInt8) : Image fileBuf segs m (m.overlay (segs.map (Segment.piece fileBuf))) := by
  constructor
  · rintro a seg ⟨before, after, rfl, hcovers, hafter⟩
    rw [List.map_append, List.map_cons]
    apply Mem.overlay_last _ _ _ (Segment.piece_cellAt (h seg (by simp)) hcovers)
    intro q hq
    obtain ⟨x, hx, rfl⟩ := List.mem_map.1 hq
    rw [Segment.piece_covers (h x (by simp [hx]))]
    exact hafter x hx
  · intro a hnone
    apply Mem.overlay_frame
    intro q hq
    obtain ⟨x, hx, rfl⟩ := List.mem_map.1 hq
    rw [Segment.piece_covers (h x hx)]
    exact hnone x hx

/-! ## Runs -/

section
variable {σ : Type} (fw : Firmware σ)

/-- What placing segments has done to the state: they are well formed, they are remembered, and the
memory is the old one with their pieces on it. -/
structure Placed (fileBuf : Buffer) (segs : List Segment) (s s' : LoadState σ) : Prop where
  wellFormed : ∀ seg ∈ segs, seg.WellFormed fileBuf
  placed : s'.placed = s.placed ++ segs
  memory : s'.memory = s.memory.overlay (segs.map (Segment.piece fileBuf))

theorem Placed.nothing {fileBuf : Buffer} {s s' : LoadState σ} (hplaced : s'.placed = s.placed)
    (hmemory : s'.memory = s.memory) : Placed fileBuf [] s s' :=
  ⟨(fun seg hseg => by cases hseg), by rw [hplaced, List.append_nil], hmemory⟩

theorem Placed.trans {fileBuf : Buffer} {segs segs' : List Segment} {s s₁ s' : LoadState σ}
    (h : Placed fileBuf segs s s₁) (h' : Placed fileBuf segs' s₁ s') : Placed fileBuf (segs ++ segs') s s' := by
  refine ⟨fun seg hseg => ?_, ?_, ?_⟩
  · rcases List.mem_append.1 hseg with hseg | hseg
    · exact h.wellFormed seg hseg
    · exact h'.wellFormed seg hseg
  · rw [h'.placed, h.placed, List.append_assoc]
  · rw [h'.memory, h.memory, List.map_append, Mem.overlay_append]

/-- One call that returns true. -/
theorem Segment.load_placed {fileBuf : Buffer} {seg : Segment} {s s' : LoadState σ}
    (h : seg.load fw fileBuf s = (true, s')) : Placed fileBuf [seg] s s' := by
  obtain ⟨hwf, s₁, hrequest, rfl⟩ := Segment.load_true fw h
  obtain ⟨hmemory, -, hplaced⟩ := requestAll_frame fw (seg.missing s.records) s
  rw [hrequest] at hmemory hplaced
  refine ⟨fun x hx => ?_, rfl, ?_⟩
  · rw [List.mem_singleton.1 hx]
    exact hwf
  · exact Segment.copy_eq hwf s.memory

/-- Calls of `load_segment` for one file, of which every one returns true. -/
def loadEach (fileBuf : Buffer) : List Segment → LoadState σ → Option (LoadState σ)
  | [], s => some s
  | seg :: segs, s =>
    match seg.load fw fileBuf s with
    | (false, _) => none
    | (true, s) => loadEach fileBuf segs s

theorem loadEach_placed {fileBuf : Buffer} (segs : List Segment) :
    ∀ s s' : LoadState σ, loadEach fw fileBuf segs s = some s' → Placed fileBuf segs s s' := by
  induction segs with
  | nil =>
    intro s s' h
    cases h
    exact .nothing rfl rfl
  | cons seg segs ih =>
    intro s s' h
    rw [loadEach] at h
    split at h
    · cases h
    · rename_i s₁ hload
      exact (Segment.load_placed fw hload).trans (ih s₁ s' h)

variable {fw}

/-- The loop over the program headers places the segments it remembers. -/
theorem loadSegments_placed {c : ElfClass} {fileBuf : Buffer} {phoff : Nat} (hsize : c.phdrSize ≤ 56) (n : Nat) :
    ∀ (i : Nat) (s s' : LoadState σ), loadSegments fw c fileBuf phoff n i s = .ok s' →
      ∃ segs, Placed fileBuf segs s s' := by
  induction n with
  | zero =>
    intro i s s' h
    cases h
    exact ⟨[], .nothing rfl rfl⟩
  | succ n ih =>
    intro i s s' h
    rcases loadSegments_step hsize h with ⟨-, rfl⟩ | ⟨-, e, s₁, -, hrest, hstep⟩
    · exact ⟨[], .nothing rfl rfl⟩
    · obtain ⟨segs, hsegs⟩ := ih (i + 1) s₁ s' hrest
      have hread : Placed fileBuf [] s (s.read e) := .nothing rfl rfl
      rcases hstep with ⟨-, rfl⟩ | ⟨-, hload⟩
      · exact ⟨segs, hread.trans hsegs⟩
      · exact ⟨_, (hread.trans (Segment.load_placed fw hload)).trans hsegs⟩

theorem loadKernel_placed {fileBuf : Buffer} {firmware : σ} {memory : Mem UInt8} {info : KernelInfo}
    {s' : LoadState σ} (h : loadKernel fw fileBuf (.start firmware memory) = .ok (info, s')) :
    Placed fileBuf s'.placed (.start firmware memory) s' := by
  obtain ⟨elfClass, -, -, -, -, hload⟩ := loadKernel_ok h
  obtain ⟨-, hsegments⟩ := loadClass_ok hload
  obtain ⟨segs, hsegs⟩ := loadSegments_placed (classFor_phdrSize elfClass) _ 0 _ s' hsegments
  have hplaced : s'.placed = segs := hsegs.placed
  rw [hplaced]
  exact hsegs

end

/-- At every address, a load leaves what the last segment that covers it gives it, and what was there
where no segment does: after any calls that return true, and after a kernel was loaded. -/
theorem image_of_load {σ : Type} (fw : Firmware σ) (fileBuf : Buffer) :
    (∀ segs s s', loadEach fw fileBuf segs s = some s' → Image fileBuf segs s.memory s'.memory) ∧
    ∀ firmware memory info s', loadKernel fw fileBuf (.start firmware memory) = .ok (info, s') →
      Image fileBuf s'.placed memory s'.memory := by
  constructor
  · intro segs s s' h
    obtain ⟨hwf, -, hmemory⟩ := loadEach_placed fw segs s s' h
    rw [hmemory]
    exact overlay_image hwf s.memory
  · intro firmware memory info s' h
    obtain ⟨hwf, -, hmemory⟩ := loadKernel_placed h
    rw [hmemory]
    exact overlay_image hwf memory

/-- Two segments that overlap, the second with one byte of the file and two clear ones; and a kernel with a page
of clear memory. -/
theorem image_overlapping :
    (∃ s', loadEach bump ⟨[1, 2, 3, 4, 5, 6, 7, 8], by decide⟩ [⟨0x100000, 8, 0, 8⟩, ⟨0x100004, 3, 0, 1⟩]
        (.start ⟨fun _ => false, 0⟩ fun _ => 9) = some s' ∧
      s'.memory 0x100003 = 4 ∧ s'.memory 0x100004 = 1 ∧ s'.memory 0x100005 = 0 ∧ s'.memory 0x100007 = 8 ∧
      s'.memory 0x100008 = 9) ∧
    ∃ info s', loadKernel bump ⟨elf32Executable 32 1 (bssHeader32 0x100000), by decide⟩
        (.start ⟨fun _ => false, 0⟩ fun _ => 9) = .ok (info, s') ∧
      s'.memory 0x100FFF = 0 ∧ s'.memory 0x101000 = 9 := by
  constructor
  · have hrun : (loadEach bump ⟨[1, 2, 3, 4, 5, 6, 7, 8], by decide⟩ [⟨0x100000, 8, 0, 8⟩, ⟨0x100004, 3, 0, 1⟩]
        (.start ⟨fun _ => false, 0⟩ fun _ => 9)).isSome = true := by decide +kernel
    obtain ⟨s', h⟩ := Option.isSome_iff_exists.1 hrun
    obtain ⟨hcovered, hrest⟩ := (image_of_load bump ⟨[1, 2, 3, 4, 5, 6, 7, 8], by decide⟩).1 _ _ _ h
    refine ⟨s', h, ?_, ?_, ?_, ?_, ?_⟩
    · exact hcovered _ _ ⟨[], [⟨0x100004, 3, 0, 1⟩], rfl, by decide, by decide⟩
    · exact hcovered _ _ ⟨[⟨0x100000, 8, 0, 8⟩], [], rfl, by decide, by decide⟩
    · exact hcovered _ _ ⟨[⟨0x100000, 8, 0, 8⟩], [], rfl, by decide, by decide⟩
    · exact hcovered _ _ ⟨[], [⟨0x100004, 3, 0, 1⟩], rfl, by decide, by decide⟩
    · exact hrest _ (by decide)
  · have hrun : (loadKernel bump ⟨elf32Executable 32 1 (bssHeader32 0x100000), by decide⟩
        (.start ⟨fun _ => false, 0⟩ fun _ => 9)).map (fun r => r.2.placed) = .ok [⟨0x100000, 0x1000, 0, 0⟩] := by
      decide +kernel
    obtain ⟨⟨info, s'⟩, h, hplaced⟩ := map_ok hrun
    obtain ⟨hcovered, hrest⟩ := (image_of_load bump _).2 _ _ _ _ h
    rw [hplaced] at hcovered hrest
    refine ⟨info, s', h, ?_, ?_⟩
    · exact hcovered _ _ ⟨[], [], rfl, by decide, by decide⟩
    · exact hrest _ (by decide)

end Bang
