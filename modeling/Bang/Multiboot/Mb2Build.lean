/-
The Multiboot2 builder writes exactly the tags of `mb2Layout`: one lemma for each part of the
builder, all about the same cursor invariant `Chain` (the reserved memory holds eight clear bytes
and the records written so far, and the cursor stands behind them), and from them the whole
builder.
-/
import Bang.Memory.Filled
import Bang.Multiboot.Mb2
import Bang.Multiboot.Mb2Tags

namespace Bang

open LittleEndian TagChain

/-! ## The tags the builder writes -/

/-- Memory map entries that fit behind the opening of their tag. -/
def mb2MmapMax : Nat := 681

/-- What the structure says of a descriptor. -/
def mmapEntry (desc : MemoryDescriptor) : Mb2MmapEntry :=
  ⟨desc.physStart, desc.pageCount * 4096, efiMemtypeToMb desc.ty⟩

/-- The memory map tag: as many descriptors as fit. -/
def mapTag (map : List MemoryDescriptor) : Mb2Tag := .mmap 24 0 ((map.take mb2MmapMax).map mmapEntry)

/-- The tag of a module, with its complete name. -/
def moduleTag (names : Mem UInt8) (mi : ModuleInfo) : Mb2Tag :=
  .module mi.physStart.toUInt32 mi.physEnd.toUInt32 (names.cstr mi.namePtr.toNat)

/-- The tag of the ACPI root pointer: the form it was copied in. -/
def rsdpTag (rsdp : Rsdp) : Mb2Tag :=
  if rsdp.len = rsdpV2 then .acpiNew (rsdp.bytes.take rsdpV2) else .acpiOld (rsdp.bytes.take rsdpV1)

/-- The bytes tags take up, each padded to a multiple of eight. -/
def span (ts : List Mb2Tag) : Nat := (encode 8 (ts.map Mb2Tag.record)).length

/-- The tags `ts`, and `t` behind them if there is room for it and `reserve` bytes more. -/
def addTag (reserve : Nat) (ts : List Mb2Tag) (t : Mb2Tag) : List Mb2Tag :=
  if 8 + span ts + t.record.size + reserve ≤ infoSize then ts ++ [t] else ts

/-- The tags `ts`, and those of the modules behind them up to the first that has no room. -/
def addModules (names : Mem UInt8) (ts : List Mb2Tag) : List ModuleInfo → List Mb2Tag
  | [] => ts
  | mi :: mods =>
    if 8 + span ts + (moduleTag names mi).record.size ≤ infoSize then
      addModules names (ts ++ [moduleTag names mi]) mods
    else ts

/-- The tags before the terminating one. -/
def mb2Front (names : Mem UInt8) (map : List MemoryDescriptor) (fb : Option FbInfo)
    (modules : List ModuleInfo) (rsdp : Option Rsdp) : List Mb2Tag :=
  let ts := addModules names [mapTag map] modules
  let ts := fb.elim ts fun fb => addTag 0 ts (.framebuffer fb)
  rsdp.elim ts fun rsdp => addTag 8 ts (rsdpTag rsdp)

/-- All the tags of the structure. -/
def mb2Layout (names : Mem UInt8) (map : List MemoryDescriptor) (fb : Option FbInfo)
    (modules : List ModuleInfo) (rsdp : Option Rsdp) : List Mb2Tag :=
  addTag 0 (mb2Front names map fb modules rsdp) .terminator

/-! ## Sizes -/

@[simp] theorem span_nil : span [] = 0 := rfl

theorem span_append (ts us : List Mb2Tag) : span (ts ++ us) = span ts + span us := by
  simp [span]

theorem span_singleton (t : Mb2Tag) : span [t] = alignUp 8 t.record.size := by simp [span]

theorem span_cons (t : Mb2Tag) (ts : List Mb2Tag) :
    span (t :: ts) = alignUp 8 t.record.size + span ts := by
  rw [← List.singleton_append, span_append, span_singleton]

theorem eight_dvd_span (ts : List Mb2Tag) : 8 ∣ span ts := by
  induction ts with
  | nil => simp
  | cons t ts ih =>
    rw [span_cons, alignUp_eight]
    exact Nat.dvd_add (Nat.dvd_mul_left ..) ih

/-- Aligning the cursor behind a tag aligns the tag's size. -/
theorem align8_span (ts : List Mb2Tag) (n : Nat) : align8 (8 + span ts + n) = 8 + span ts + alignUp 8 n := by
  have := eight_dvd_span ts
  rw [align8, alignUp_eight]; omega

/-- A tag that fits fits with its padding. -/
theorem padded_fits {ts : List Mb2Tag} {n : Nat} (h : 8 + span ts + n ≤ infoSize) :
    8 + span ts + alignUp 8 n ≤ infoSize := by
  have := eight_dvd_span ts
  have := alignUp_eight n
  rw [infoSize_eq] at *
  omega

theorem mapTag_size (map : List MemoryDescriptor) :
    (mapTag map).record.size = 16 + 24 * min map.length mb2MmapMax := by
  simp [mapTag, Mb2Tag.record, Tag.size, Function.comp_def, Nat.min_comm]
  omega

theorem moduleTag_size (names : Mem UInt8) (mi : ModuleInfo) :
    (moduleTag names mi).record.size = 17 + (names.cstr mi.namePtr.toNat).length := by
  simp [moduleTag, Mb2Tag.record, Tag.size]
  omega

theorem framebuffer_size (fb : FbInfo) : (Mb2Tag.framebuffer fb).record.size = 37 := by
  simp [Mb2Tag.record, Tag.size]

theorem rsdpTag_record (rsdp : Rsdp) : (rsdpTag rsdp).record =
    ⟨if rsdp.len = rsdpV2 then mb2TagTypeAcpiNew else mb2TagTypeAcpiOld, rsdp.bytes.take rsdp.len⟩ := by
  unfold rsdpTag
  rcases rsdp.form with h | h <;> simp [h, rsdpV1, rsdpV2, Mb2Tag.record, mb2TagTypeAcpiNew, mb2TagTypeAcpiOld]

theorem rsdpTag_size (rsdp : Rsdp) : (rsdpTag rsdp).record.size = 8 + rsdp.len := by
  have := rsdp.len_le
  simp [rsdpTag_record, Tag.size]
  omega

theorem terminator_size : Mb2Tag.terminator.record.size = 8 := rfl

/-! ## The cursor invariant -/

/-- Between two parts of the builder: the reserved memory holds eight clear bytes and the records
of `ts`, is clear behind them, and `pos` stands there. -/
structure Chain (out : Nat) (m : Mem UInt8) (ts : List Mb2Tag) (pos : Nat) : Prop where
  filled : m.Filled out infoSize 0 (List.replicate 8 0 ++ encode 8 (ts.map Mb2Tag.record))
  pos : pos = 8 + span ts

theorem Chain.le {out : Nat} {m : Mem UInt8} {ts : List Mb2Tag} {pos : Nat} (h : Chain out m ts pos) :
    pos ≤ infoSize := by
  have := h.filled.fits
  have hp := h.pos
  simp only [span, List.length_append, List.length_replicate] at *
  omega

/-- What a part of the builder does: from any cursor behind `ts` it succeeds, writes inside the
reserved memory only, and leaves the cursor behind `ts'`. -/
def Extends (out : Nat) (part : Mem UInt8 → Nat → Option (Mem UInt8 × Nat)) (ts ts' : List Mb2Tag) : Prop :=
  ∀ m pos, Chain out m ts pos → ∃ m' pos', part m pos = some (m', pos') ∧ Chain out m' ts' pos' ∧
    m.SameOutside m' out (out + infoSize)

/-- Writing the bytes of a tag that fits, and aligning the cursor, adds the tag. -/
theorem Chain.write {out : Nat} {m : Mem UInt8} {ts : List Mb2Tag} {pos : Nat} (h : Chain out m ts pos)
    (t : Mb2Tag) (hfit : pos + t.record.size ≤ infoSize) :
    ∃ m', writeBytes out m pos t.record.bytes = some m' ∧
      Chain out m' (ts ++ [t]) (align8 (pos + t.record.size)) ∧ m.SameOutside m' out (out + infoSize) := by
  obtain ⟨hf, rfl⟩ := h
  have hlen : (List.replicate 8 (0 : UInt8) ++ encode 8 (ts.map Mb2Tag.record)).length = 8 + span ts := by
    rw [List.length_append, List.length_replicate, span]
  obtain ⟨m', hs, hf', hout⟩ := hf.storeIn_push (b := out + (8 + span ts)) t.record.bytes
    (by rw [hlen, Tag.length_bytes]; exact hfit) (by rw [hlen])
  refine ⟨m', hs, ⟨?_, ?_⟩, hout⟩
  · have hpad := padded_fits hfit
    have hle := le_alignUp 8 t.record.size
    have := hf'.skip (alignUp 8 t.record.size - t.record.size)
      (by rw [List.length_append, hlen, Tag.length_bytes]; omega)
    simpa [Tag.padded, List.append_assoc] using this
  · rw [align8_span, span_append, span_singleton]
    omega

/-! ## The memory map tag -/

theorem mb2MmapEntries_spec (out : Nat) (map : List MemoryDescriptor) :
    ∀ (m : Mem UInt8) (front : List UInt8), m.Filled out infoSize 0 front →
      ∃ m', mb2MmapEntries out map m front.length =
          some (m', front.length + 24 * min map.length ((infoSize - front.length) / 24)) ∧
        m'.Filled out infoSize 0 (front ++
          (((map.take ((infoSize - front.length) / 24)).map mmapEntry).map Mb2MmapEntry.bytes).flatten) ∧
        m.SameOutside m' out (out + infoSize) := by
  induction map with
  | nil =>
    intro m front h
    exact ⟨m, by simp [mb2MmapEntries], by simpa using h, .refl _ _ _⟩
  | cons desc descs ih =>
    intro m front h
    by_cases hroom : front.length + mb2MmapEntrySize > infoSize
    · -- the next entry has no room: none is written
      have h0 : (infoSize - front.length) / 24 = 0 := by
        simp only [mb2MmapEntrySize] at hroom; omega
      exact ⟨m, by rw [mb2MmapEntries, if_pos hroom, h0]; simp, by rw [h0]; simpa using h, .refl _ _ _⟩
    · simp only [mb2MmapEntrySize] at hroom
      -- the four stores of one entry are one store of its bytes
      have hone : ∀ k : Mem UInt8 → Option (Mem UInt8 × Nat),
          ((writeU64 out m front.length desc.physStart).bind fun m =>
            (writeU64 out m (front.length + 8) (desc.pageCount * 4096)).bind fun m =>
              (writeU32 out m (front.length + 16) (efiMemtypeToMb desc.ty)).bind fun m =>
                (writeU32 out m (front.length + 20) 0).bind k) =
          (writeBytes out m front.length (mmapEntry desc).bytes).bind k := by
        intro k
        unfold writeU64 writeU32
        rw [writeBytes_bind _ _ _ _ _ _ _ (by simp), writeBytes_bind _ _ _ _ _ _ _ (by simp),
          writeBytes_bind _ _ _ _ _ _ _ (by simp)]
        simp [mmapEntry, Mb2MmapEntry.bytes]
      obtain ⟨m₁, hs, hf, hout⟩ := h.storeIn_push (b := out + front.length) (mmapEntry desc).bytes
        (by rw [Mb2MmapEntry.length_bytes]; omega) rfl
      obtain ⟨m', hrec, hf', hout'⟩ := ih m₁ _ hf
      have hlen : (front ++ (mmapEntry desc).bytes).length = front.length + 24 := by simp
      have hdiv : (infoSize - front.length) / 24 = (infoSize - (front.length + 24)) / 24 + 1 := by omega
      rw [hlen] at hrec hf'
      refine ⟨m', ?_, ?_, hout.trans hout'⟩
      · rw [mb2MmapEntries, if_neg (by simp only [mb2MmapEntrySize]; omega)]
        simp only [Option.bind_eq_bind, mb2MmapEntrySize]
        rw [hone, writeBytes, hs, Option.bind_some, hrec, hdiv]
        congr 2
        simp only [List.length_cons]
        omega
      · rw [hdiv]
        simpa [List.append_assoc] using hf'

/-- The memory map tag is written behind the fixed header, its size patched in last. -/
theorem mb2MmapTag_spec {out : Nat} (map : List MemoryDescriptor) {m : Mem UInt8}
    (h : m.Filled out infoSize 0 (List.replicate 8 0)) :
    ∃ m' pos, mb2MmapTag out map m 8 = some (m', pos) ∧ Chain out m' [mapTag map] pos ∧
      m.SameOutside m' out (out + infoSize) := by
  obtain ⟨m₁, hs₁, hf₁, ho₁⟩ := h.storeIn_push (b := out + 8) (u32 mb2TagTypeMmap) (by simp [infoSize_eq])
    (by simp)
  have hskip := hf₁.skip 4 (by simp [infoSize_eq])
  obtain ⟨m₂, hs₂, hf₂, ho₂⟩ := hskip.storeIn_push (b := out + 16) (u32 (UInt32.ofNat mb2MmapEntrySize))
    (by simp [infoSize_eq]) (by simp)
  obtain ⟨m₃, hs₃, hf₃, ho₃⟩ := hf₂.storeIn_push (b := out + 20) (u32 0) (by simp [infoSize_eq]) (by simp)
  obtain ⟨m₄, hs₄, hf₄, ho₄⟩ := mb2MmapEntries_spec out map m₃ _ hf₃
  have hlen : (List.replicate 8 (0 : UInt8) ++ u32 mb2TagTypeMmap ++ List.replicate 4 0 ++
      u32 (UInt32.ofNat mb2MmapEntrySize) ++ u32 0).length = 24 := by simp
  have hmax : (infoSize - 24) / 24 = mb2MmapMax := rfl
  rw [hlen, hmax] at hs₄ hf₄
  have hsize := mapTag_size map
  have hpos : 24 + 24 * min map.length mb2MmapMax - 8 = (mapTag map).record.size := by omega
  have hassoc : ∀ e : List UInt8, List.replicate 8 (0 : UInt8) ++ u32 mb2TagTypeMmap ++ List.replicate 4 0 ++
      u32 (UInt32.ofNat mb2MmapEntrySize) ++ u32 0 ++ e =
      (List.replicate 8 0 ++ u32 mb2TagTypeMmap) ++ List.replicate 4 0 ++
        (u32 (UInt32.ofNat mb2MmapEntrySize) ++ (u32 0 ++ e)) := by
    intro e; simp only [List.append_assoc]
  rw [hassoc] at hf₄
  obtain ⟨m₅, hs₅, hf₅, ho₅⟩ := hf₄.storeIn_patch (b := out + 12)
    (u32 (UInt32.ofNat (mapTag map).record.size)) (by simp) (by simp)
  refine ⟨m₅, align8 (24 + 24 * min map.length mb2MmapMax), ?_, ⟨?_, ?_⟩,
    (((ho₁.trans ho₂).trans ho₃).trans ho₄).trans ho₅⟩
  · unfold mb2MmapTag writeU32 writeBytes
    simp only [Option.bind_eq_bind, hs₁, hs₂, hs₃, hs₄, hs₅, Option.bind_some, hpos]
  · have hal : alignUp 8 (mapTag map).record.size = (mapTag map).record.size := by
      rw [alignUp_eight]; omega
    have : (List.replicate 8 0 ++ encode 8 ([mapTag map].map Mb2Tag.record)) =
        List.replicate 8 0 ++ u32 mb2TagTypeMmap ++ u32 (UInt32.ofNat (mapTag map).record.size) ++
        (u32 (UInt32.ofNat mb2MmapEntrySize) ++ (u32 0 ++
          (((map.take mb2MmapMax).map mmapEntry).map Mb2MmapEntry.bytes).flatten)) := by
      simp only [List.map_cons, List.map_nil, encode_cons, encode_nil, Tag.padded, hal, Nat.sub_self,
        List.replicate_zero, List.append_nil, Tag.bytes]
      rfl
    rw [this]
    exact hf₅
  · rw [span_singleton, alignUp_eight, align8]; omega

/-! ## The module tags -/

theorem moduleTag_tagSize (names : Mem UInt8) (mi : ModuleInfo) :
    (4 + 4 + 4 + 4 + (names.cstr mi.namePtr.toNat).length + 1) = (moduleTag names mi).record.size := by
  rw [moduleTag_size]; omega

/-- The five stores of a module tag are one store of its bytes. -/
theorem moduleTag_stores {β : Type} (out : Nat) (names : Mem UInt8) (mi : ModuleInfo) (m : Mem UInt8)
    (pos : Nat) (hn : names.NulTerminated mi.namePtr.toNat) (k : Mem UInt8 → Option β) :
    ((writeU32 out m pos mb2TagTypeModule).bind fun m =>
      (writeU32 out m (pos + 4) (UInt32.ofNat (moduleTag names mi).record.size)).bind fun m =>
        (writeU32 out m (pos + 8) mi.physStart.toUInt32).bind fun m =>
          (writeU32 out m (pos + 12) mi.physEnd.toUInt32).bind fun m =>
            (writeBytes out m (pos + 16)
              (names.load mi.namePtr.toNat ((names.cstr mi.namePtr.toNat).length + 1))).bind k) =
    (writeBytes out m pos (moduleTag names mi).record.bytes).bind k := by
  unfold writeU32
  rw [writeBytes_bind _ _ _ _ _ _ _ (by simp), writeBytes_bind _ _ _ _ _ _ _ (by simp),
    writeBytes_bind _ _ _ _ _ _ _ (by simp), writeBytes_bind _ _ _ _ _ _ _ (by simp), hn.cstr.2.2]
  simp [moduleTag, Mb2Tag.record, Tag.bytes, mb2TagTypeModule]

theorem mb2ModuleTags_spec (out : Nat) (names : Mem UInt8) (modules : List ModuleInfo)
    (hn : ∀ mi ∈ modules, names.NulTerminated mi.namePtr.toNat) :
    ∀ ts, Extends out (mb2ModuleTags out names modules) ts (addModules names ts modules) := by
  induction modules with
  | nil => intro ts m pos h; exact ⟨m, pos, rfl, h, .refl _ _ _⟩
  | cons mi mods ih =>
    intro ts m pos h
    have hmi := hn mi (List.mem_cons_self ..)
    have hlen := hmi.cstr.1
    have hsz := moduleTag_tagSize names mi
    have hpos := h.pos
    rw [mb2ModuleTags]
    simp only [hlen, Option.bind_eq_bind, Option.bind_some, hsz]
    by_cases hfit : pos + (moduleTag names mi).record.size > infoSize
    · rw [if_pos hfit]
      refine ⟨m, pos, rfl, ?_, .refl _ _ _⟩
      rw [addModules, if_neg (by omega)]
      exact h
    · rw [if_neg hfit, moduleTag_stores out names mi m pos hmi]
      obtain ⟨m₁, hs, hc, ho⟩ := h.write (moduleTag names mi) (by omega)
      obtain ⟨m', pos', hrec, hc', ho'⟩ := ih (fun x hx => hn x (List.mem_cons_of_mem _ hx)) _ m₁ _ hc
      refine ⟨m', pos', ?_, ?_, ho.trans ho'⟩
      · rw [hs, Option.bind_some, hrec]
      · rw [addModules, if_pos (by omega)]
        exact hc'

/-! ## The optional tags -/

theorem mb2FramebufferTag_spec (out : Nat) (fb : Option FbInfo) (ts : List Mb2Tag) :
    Extends out (mb2FramebufferTag out fb) ts (fb.elim ts fun fb => addTag 0 ts (.framebuffer fb)) := by
  intro m pos h
  have hpos := h.pos
  cases fb with
  | none => exact ⟨m, pos, rfl, h, .refl _ _ _⟩
  | some fb =>
    have hsize := framebuffer_size fb
    rw [mb2FramebufferTag]
    simp only [Option.elim_some, addTag]
    by_cases hfit : pos + 37 ≤ infoSize
    · rw [if_pos hfit, if_pos (by omega)]
      obtain ⟨m', hs, hc, ho⟩ := h.write (.framebuffer fb) (by omega)
      have hone : ∀ k : Mem UInt8 → Option (Mem UInt8 × Nat),
          ((writeU32 out m (pos + 0x00) mb2TagTypeFramebuffer).bind fun m =>
          (writeU32 out m (pos + 0x04) (UInt32.ofNat 37)).bind fun m =>
          (writeU64 out m (pos + 0x08) fb.addr).bind fun m =>
          (writeU32 out m (pos + 0x10) fb.pitch).bind fun m =>
          (writeU32 out m (pos + 0x14) fb.width).bind fun m =>
          (writeU32 out m (pos + 0x18) fb.height).bind fun m =>
          (writeBytes out m (pos + 0x1C) [fb.bpp]).bind fun m =>
          (writeBytes out m (pos + 0x1D) [fb.fbType]).bind fun m =>
          (writeBytes out m (pos + 0x1E) [0]).bind fun m =>
          (writeBytes out m (pos + 0x1F) [fb.redPos]).bind fun m =>
          (writeBytes out m (pos + 0x20) [fb.redSize]).bind fun m =>
          (writeBytes out m (pos + 0x21) [fb.greenPos]).bind fun m =>
          (writeBytes out m (pos + 0x22) [fb.greenSize]).bind fun m =>
          (writeBytes out m (pos + 0x23) [fb.bluePos]).bind fun m =>
          (writeBytes out m (pos + 0x24) [fb.blueSize]).bind k) =
          (writeBytes out m pos (Mb2Tag.framebuffer fb).record.bytes).bind k := by
        intro k
        unfold writeU32 writeU64
        iterate 14 rw [writeBytes_bind _ _ _ _ _ _ _ (by simp)]
        simp [Mb2Tag.record, Tag.bytes, mb2TagTypeFramebuffer, Tag.size]
      refine ⟨m', align8 (pos + 37), ?_, ?_, ho⟩
      · simp only [Option.bind_eq_bind]
        rw [hone, hs, Option.bind_some]
      · rwa [hsize] at hc
    · rw [if_neg hfit, if_neg (by omega)]
      refine ⟨m, align8 pos, rfl, ⟨h.filled, ?_⟩, .refl _ _ _⟩
      have := eight_dvd_span ts
      rw [align8]; omega

theorem mb2RsdpTag_spec (out : Nat) (rsdp : Option Rsdp) (ts : List Mb2Tag) :
    Extends out (mb2RsdpTag out rsdp) ts (rsdp.elim ts fun rsdp => addTag 8 ts (rsdpTag rsdp)) := by
  intro m pos h
  have hpos := h.pos
  cases rsdp with
  | none => exact ⟨m, pos, rfl, h, .refl _ _ _⟩
  | some rsdp =>
    have hsize := rsdpTag_size rsdp
    rw [mb2RsdpTag]
    simp only [Option.elim_some, addTag, Option.bind_eq_bind]
    by_cases hfit : pos + (8 + rsdp.len) + 8 ≤ infoSize
    · rw [if_pos hfit, if_pos (show 8 + span ts + (rsdpTag rsdp).record.size + 8 ≤ infoSize by omega)]
      obtain ⟨m', hs, hc, ho⟩ := h.write (rsdpTag rsdp) (by omega)
      refine ⟨m', align8 (pos + (8 + rsdp.len)), ?_, ?_, ho⟩
      · unfold writeU32
        rw [writeBytes_bind _ _ _ _ _ _ _ (by simp), writeBytes_bind _ _ _ _ _ _ _ (by simp)]
        have hb : u32 (if rsdp.len = rsdpV2 then mb2TagTypeAcpiNew else mb2TagTypeAcpiOld) ++
            (u32 (UInt32.ofNat (8 + rsdp.len)) ++ rsdp.bytes.take rsdp.len) = (rsdpTag rsdp).record.bytes := by
          rw [Tag.bytes, hsize, rsdpTag_record]
        rw [List.append_assoc, hb, hs, Option.bind_some]
      · rwa [hsize] at hc
    · rw [if_neg hfit, if_neg (by omega)]
      exact ⟨m, pos, rfl, h, .refl _ _ _⟩

theorem mb2EndTag_spec (out : Nat) (ts : List Mb2Tag) :
    Extends out (mb2EndTag out) ts (addTag 0 ts .terminator) := by
  intro m pos h
  have hpos := h.pos
  have hsize := terminator_size
  simp only [mb2EndTag, addTag, Option.bind_eq_bind]
  by_cases hfit : pos + 8 ≤ infoSize
  · rw [if_pos hfit, if_pos (by omega)]
    obtain ⟨m', hs, hc, ho⟩ := h.write .terminator (by omega)
    refine ⟨m', pos + 8, ?_, ?_, ho⟩
    · unfold writeU32
      rw [writeBytes_bind _ _ _ _ _ _ _ (by simp)]
      have hb : u32 mb2TagTypeEnd ++ u32 8 = Mb2Tag.terminator.record.bytes := by
        simp [Mb2Tag.record, Tag.bytes, mb2TagTypeEnd, Tag.size]
      rw [hb, hs, Option.bind_some]
    · have := eight_dvd_span ts
      have hal : align8 (pos + Mb2Tag.terminator.record.size) = pos + 8 := by
        rw [align8, hsize]; omega
      rwa [hal] at hc
  · rw [if_neg hfit, if_neg (by omega)]
    exact ⟨m, pos, rfl, h, .refl _ _ _⟩

/-! ## The whole structure -/

/-- What the builder leaves: it succeeds, so no store leaves the reserved memory; memory outside
it is as before; and it holds the total size, a clear word and the tags of the layout. -/
theorem buildMb2Info_spec (out : Nat) (names : Mem UInt8) (map : List MemoryDescriptor)
    (fb : Option FbInfo) (modules : List ModuleInfo) (rsdp : Option Rsdp) (m : Mem UInt8)
    (hn : ∀ mi ∈ modules, names.NulTerminated mi.namePtr.toNat) :
    ∃ m', buildMb2Info out names map fb modules rsdp m = some (m', UInt32.ofNat out) ∧
      m.SameOutside m' out (out + infoSize) ∧
      (m'.read32 out).toNat = 8 + span (mb2Layout names map fb modules rsdp) ∧
      m'.Holds (out + 8) (encode 8 ((mb2Layout names map fb modules rsdp).map Mb2Tag.record)) ∧
      8 + span (mb2Layout names map fb modules rsdp) ≤ infoSize := by
  have hclear : Mem.storeIn out (out + infoSize) m out (List.replicate infoSize (0 : UInt8)) = some _ :=
    Mem.storeIn_eq m (by omega) (by simp)
  have hf₀ := (Mem.filled_clear m out infoSize (0 : UInt8)).skip 8 (by simp [infoSize_eq])
  have ho₀ := (Mem.storeIn_some hclear).2
  obtain ⟨m₁, p₁, hs₁, hc₁, ho₁⟩ := mb2MmapTag_spec map hf₀
  obtain ⟨m₂, p₂, hs₂, hc₂, ho₂⟩ := mb2ModuleTags_spec out names modules hn _ m₁ p₁ hc₁
  obtain ⟨m₃, p₃, hs₃, hc₃, ho₃⟩ := mb2FramebufferTag_spec out fb _ m₂ p₂ hc₂
  obtain ⟨m₄, p₄, hs₄, hc₄, ho₄⟩ := mb2RsdpTag_spec out rsdp _ m₃ p₃ hc₃
  obtain ⟨m₅, p₅, hs₅, hc₅, ho₅⟩ := mb2EndTag_spec out _ m₄ p₄ hc₄
  have hpos : p₅ = 8 + span (mb2Layout names map fb modules rsdp) := hc₅.pos
  have hle := hc₅.le
  -- the fixed header is patched over the eight clear bytes
  have hsplit : List.replicate 8 (0 : UInt8) ++ encode 8 ((mb2Layout names map fb modules rsdp).map Mb2Tag.record) =
      [] ++ List.replicate 4 0 ++
        (List.replicate 4 0 ++ encode 8 ((mb2Layout names map fb modules rsdp).map Mb2Tag.record)) := by
    simp
  have hf₅ := hc₅.filled
  change Mem.Filled m₅ out infoSize 0 (List.replicate 8 (0 : UInt8) ++
    encode 8 ((mb2Layout names map fb modules rsdp).map Mb2Tag.record)) at hf₅
  rw [hsplit] at hf₅
  obtain ⟨m₆, hs₆, hf₆, ho₆⟩ := hf₅.storeIn_patch (b := out) (u32 (UInt32.ofNat p₅)) (by simp) (by simp)
  rw [List.nil_append, ← List.append_assoc] at hf₆
  obtain ⟨m₇, hs₇, hf₇, ho₇⟩ := hf₆.storeIn_patch (b := out + 4) (u32 0) (by simp) (by simp)
  refine ⟨m₇, ?_, ?_, ?_, ?_, by omega⟩
  · unfold buildMb2Info writeU32 writeBytes
    simp only [Option.bind_eq_bind, Nat.add_zero, hclear, Option.bind_some, hs₁, hs₂, hs₃, hs₄, hs₅, hs₆, hs₇]
  · exact ((((((ho₀.trans ho₁).trans ho₂).trans ho₃).trans ho₄).trans ho₅).trans ho₆).trans ho₇
  · have hfront := hf₇.front
    rw [List.append_assoc] at hfront
    rw [hfront.left.read32_eq, hpos]
    refine UInt32.toNat_ofNat_of_lt' ?_
    have : 8 + span (mb2Layout names map fb modules rsdp) ≤ 16384 := by rw [← hpos]; exact hle
    exact lt_of_le_of_lt this (by decide)
  · have := hf₇.front.right
    simpa using this

end Bang
