/-
Files that are read in pieces. However the firmware splits a file into reads, `read_file` ends with all of it,
and what `load_kernel` and `load_modules` go on with is all of it; but `load` goes on with what the first read gives,
and a configuration that is cut behind a character is read as if that were all.
-/
import Bang.Config.Skip
import Bang.Handoff.Readers

namespace Bang

/-! ## Texts and their bytes -/

/-- A text that was decoded has the bytes it was decoded from. -/
theorem utf8_of_fromUtf8 {bs : List UInt8} {text : Str} (h : fromUtf8 bs = some text) : Linux.utf8 text = bs := by
  obtain ⟨chars, hdecode, rfl⟩ := Option.map_eq_some_iff.1 h
  have hsome : bs.toByteArray.utf8Decode?.isSome := by
    rw [hdecode]
    rfl
  have hencode := @ByteArray.utf8Encode_get_utf8Decode? bs.toByteArray hsome
  simp only [hdecode, Option.get_some] at hencode
  exact List.toByteArray_inj.1 hencode

theorem fromUtf8_utf8 (text : Str) : fromUtf8 (Linux.utf8 text) = some text := by
  have hdecode := @List.utf8Decode?_utf8Encode text
  unfold fromUtf8
  rw [show (Linux.utf8 text).toByteArray = text.utf8Encode from rfl, hdecode]
  rfl

/-! ## The loop -/

section
variable {φ : Type} {fs : FileSystem φ} {rest : φ → List UInt8}

/-- The bytes `xs` of a file were read, and `ys` are left. -/
structure ReadState.Between (rest : φ → List UInt8) (xs ys : List UInt8) (s : ReadState φ) : Prop where
  buf : s.buf.data = xs ++ List.replicate ys.length 0
  done : s.done = xs.length
  rest : rest s.file = ys

/-- While bytes are left, the loop goes on with some of them read. -/
theorem readLoop_next (hfs : fs.Delivers rest) {xs ys : List UInt8} {s : ReadState φ} (hs : s.Between rest xs ys)
    (hys : ys ≠ []) : ∃ bs ys' s', bs ≠ [] ∧ ys = bs ++ ys' ∧ s'.Between rest (xs ++ bs) ys' ∧
      readLoop fs (xs.length + ys.length) s = readLoop fs (xs.length + ys.length) s' := by
  obtain ⟨bs, f', hread, hsplit, hmost, hnonempty⟩ := hfs.read_eq s.file (s.buf.size - s.done)
  have hpos : 0 < ys.length := List.length_pos_of_ne_nil hys
  have hroom : s.buf.size - s.done = ys.length := by
    rw [hs.done, Buffer.size, hs.buf, List.length_append, List.length_replicate, Nat.add_sub_cancel_left]
  rw [hs.rest] at hsplit hnonempty
  -- there is room for what is left, so that the read gives some of it
  have hsome := hnonempty (by omega) hys
  refine ⟨bs, rest f', ⟨s.buf.fill s.done bs, s.done + bs.length, f'⟩, hsome, hsplit, ⟨?_, ?_, rfl⟩, ?_⟩
  · have hlen : ys.length - bs.length = (rest f').length := by
      rw [hsplit, List.length_append, Nat.add_sub_cancel_left]
    show fill s.buf.data s.done bs = _
    rw [hs.buf, hs.done, fill_replicate xs bs (hroom ▸ hmost), hlen]
  · rw [List.length_append, ← hs.done]
  · obtain ⟨b, bs, rfl⟩ := List.exists_cons_of_ne_nil hsome
    rw [readLoop, if_pos (by rw [hs.done]; omega), hread]

/-- The loop ends with all of the file. -/
theorem readLoop_whole (hfs : fs.Delivers rest) (ys : List UInt8) : ∀ (xs : List UInt8) (s : ReadState φ),
    s.Between rest xs ys → (readLoop fs (xs.length + ys.length) s).Between rest (xs ++ ys) [] := by
  -- each round reads some of what is left
  induction h : ys.length using Nat.strongRecOn generalizing ys with
  | _ n ih =>
    intro xs s hs
    subst h
    by_cases hys : ys = []
    · subst hys
      rw [readLoop, if_neg (by rw [hs.done]; exact Nat.lt_irrefl _), List.append_nil]
      exact hs
    · obtain ⟨bs, ys', s', hsome, rfl, hs', hnext⟩ := readLoop_next hfs hs hys
      have hpos : 0 < bs.length := List.length_pos_of_ne_nil hsome
      have hlen : xs.length + (bs ++ ys').length = (xs ++ bs).length + ys'.length := by
        rw [List.length_append, List.length_append, Nat.add_assoc]
      rw [hnext, hlen, ← List.append_assoc]
      exact ih ys'.length (by rw [List.length_append]; omega) ys' rfl (xs ++ bs) s' hs'

/-! ## The readers -/

/-- A file that is open, at its first byte. -/
structure FileSystem.Holds (fs : FileSystem φ) (rest : φ → List UInt8) (f : φ) (content : Buffer) : Prop where
  size : fs.fileSize f = some (UInt64.ofNat content.size)
  rest : rest f = content.data

variable {f : φ} {content : Buffer}

theorem Buffer.eq_of_data {a b : Buffer} (h : a.data = b.data) : a = b := by
  obtain ⟨bytes, hbytes⟩ := a
  subst h
  rfl

theorem toNat_size (content : Buffer) : (UInt64.ofNat content.size).toNat = content.size :=
  UInt64.toNat_ofNat_of_lt' (Nat.lt_trans content.fits (by decide))

theorem zeroed_size (content : Buffer) : ∃ buf, Buffer.zeroed (UInt64.ofNat content.size) = .ok buf ∧
    buf.data = List.replicate content.size 0 := by
  unfold Buffer.zeroed
  rw [dif_pos (by rw [toNat_size]; exact content.fits)]
  exact ⟨_, rfl, congrArg (List.replicate · 0) (toNat_size content)⟩

/-- One read gives the file, or a part of it that is shorter. -/
theorem FileSystem.Holds.read_eq (hfs : fs.Delivers rest) (hf : fs.Holds rest f content) (room : Nat) :
    ∃ bs, (fs.read f room).1 = some bs ∧ bs.length ≤ room ∧ bs <+: content.data := by
  obtain ⟨bs, f', hread, hsplit, hmost, -⟩ := hfs.read_eq f room
  refine ⟨bs, by rw [hread], hmost, ?_⟩
  rw [← hf.rest, hsplit]
  exact List.prefix_append ..

/-- `read_file` gives the whole file. -/
theorem readOpened_whole (hfs : fs.Delivers rest) (hf : fs.Holds rest f content) :
    readOpened fs f = .ok (some content) := by
  obtain ⟨buf, hzeroed, hbuf⟩ := zeroed_size content
  have hwhole := readLoop_whole hfs content.data [] ⟨buf, 0, f⟩ ⟨hbuf, rfl, hf.rest⟩
  rw [List.length_nil, Nat.zero_add, List.nil_append] at hwhole
  have hdata : (readLoop fs content.size ⟨buf, 0, f⟩).buf = content := by
    have hbytes := hwhole.buf
    rw [List.length_nil, List.replicate_zero, List.append_nil] at hbytes
    exact Buffer.eq_of_data hbytes
  unfold readOpened
  rw [hf.size]
  refine ok_bind hzeroed ?_
  have hdone : (readLoop fs content.size ⟨buf, 0, f⟩).done = content.size := hwhole.done
  dsimp only
  rw [toNat_size, if_neg (not_not.2 hdone), hdata]
  rfl

/-- A part of the file that is as long as the file is the file. -/
theorem eq_of_prefix {bs : List UInt8} (hfront : bs <+: content.data) (hlen : bs.length = content.size) :
    bs = content.data :=
  hfront.eq_of_length hlen

theorem fill_whole (bs : List UInt8) : fill (List.replicate bs.length 0) 0 bs = bs := by
  have hfill := fill_replicate [] bs (Nat.le_refl bs.length)
  rw [Nat.sub_self, List.replicate_zero, List.append_nil] at hfill
  exact hfill

theorem readKernel_whole (hfs : fs.Delivers rest) (hf : fs.Holds rest f content) :
    readKernel fs f = .ok content ∨ readKernel fs f = .error (.panic "Short read on kernel.bin") := by
  obtain ⟨buf, hzeroed, hbuf⟩ := zeroed_size content
  obtain ⟨bs, hread, -, hfront⟩ := hf.read_eq hfs content.size
  have hsize : expect (fs.fileSize f) "Failed to get file info" = .ok (UInt64.ofNat content.size) := by
    rw [hf.size]
    rfl
  have hbytes : expect (fs.read f (UInt64.ofNat content.size).toNat).1 "Failed to read kernel" = .ok bs := by
    rw [toNat_size, hread]
    rfl
  unfold readKernel
  by_cases hlen : bs.length = content.size
  · left
    obtain rfl := eq_of_prefix hfront hlen
    refine ok_bind hsize (ok_bind hzeroed (ok_bind hbytes (ok_bind (a := ()) ?_ ?_)))
    · rw [toNat_size, decide_eq_true hlen]
      rfl
    · refine congrArg Except.ok (Buffer.eq_of_data ?_)
      show fill buf.data 0 content.data = content.data
      rw [hbuf]
      exact fill_whole content.data
  · right
    refine ok_bind hsize (ok_bind hzeroed (ok_bind hbytes ?_))
    rw [toNat_size, decide_eq_false hlen]
    rfl

/-- What `load_kernel` goes on with is the whole file. -/
theorem loadKernelFile_whole {σ : Type} (hfs : fs.Delivers rest) (hf : fs.Holds rest f content) (fw : Firmware σ)
    (s : LoadState σ) :
    loadKernelFile fs fw f s = loadKernel fw content s ∨
      loadKernelFile fs fw f s = .error (.panic "Short read on kernel.bin") := by
  unfold loadKernelFile
  rcases readKernel_whole hfs hf with hread | hread
  · exact .inl (ok_bind hread rfl)
  · right
    rw [hread]
    rfl

/-- A module that was loaded is what was read of its file. -/
theorem loadModule_data {σ : Type} {fw : Firmware σ} {modNames : Nat} {file : ModuleFile} {s s' : ModulesState σ}
    {lm : LoadedModule} (h : loadModule fw modNames file s = .ok (some lm, s')) :
    file.read (modulePages file.fileSize * pageSize) = .ok lm.data ∧ lm.info.size = file.fileSize := by
  unfold loadModule at h
  dsimp only at h
  split at h
  · cases h
  split at h
  · cases h
  · obtain ⟨data, hread, h⟩ := bind_ok h
    split at h
    · cases h
    · obtain ⟨⟨namePtr, names⟩, -, h⟩ := bind_ok h
      cases h
      exact ⟨hread, rfl⟩

/-- What `load_modules` goes on with is the whole file, and it is in memory where the module is. -/
theorem loadModule_whole {σ : Type} {fw : Firmware σ} {taken : σ → Nat → Prop} (hfs : fs.Delivers rest)
    (hf : fs.Holds rest f content) (hfw : fw.Lawful taken) {modNames : Nat} {name : List UInt16}
    {s s' : ModulesState σ} {lm : LoadedModule}
    (h : loadModule fw modNames (moduleFile fs name (UInt64.ofNat content.size) f) s = .ok (some lm, s')) :
    lm.info.size.toNat = content.size ∧ s'.memory.Holds lm.info.physStart.toNat content.data := by
  obtain ⟨hread, hsize⟩ := loadModule_data h
  obtain ⟨runs, hloads⟩ := loadModule_loads hfw h
  obtain ⟨hlen, hholds, -⟩ := hloads.mods lm (List.mem_singleton_self lm)
  have hwhole : lm.info.size.toNat = content.size := by
    rw [hsize]
    exact toNat_size content
  obtain ⟨bs, hgiven, hmost, hfront⟩ :=
    hf.read_eq hfs (modulePages (UInt64.ofNat content.size) * pageSize)
  -- there is room for all that was given
  have hdata : lm.data = bs := by
    unfold ModuleFile.read moduleFile at hread
    dsimp only at hread
    rw [hgiven] at hread
    have hread := Except.ok.inj hread
    rw [List.take_of_length_le hmost] at hread
    exact hread.symm
  refine ⟨hwhole, ?_⟩
  rw [← eq_of_prefix (hdata ▸ hfront) (hlen.trans hwhole)]
  exact hholds

/-- What `load` goes on with is what the first read gives. -/
theorem loadText_some (hfs : fs.Delivers rest) (hf : fs.Holds rest f content) {text : Str} :
    loadText fs f = some text ↔ 0 < content.size ∧ content.size ≤ 64 * 1024 ∧
      ∃ bs, (fs.read f content.size).1 = some bs ∧ fromUtf8 bs = some text := by
  obtain ⟨bs, hread, hmost, -⟩ := hf.read_eq hfs content.size
  -- what is cut off is the part of the buffer that the read left clear
  have hcut : (fill (List.replicate content.size 0) 0 bs).take bs.length = bs := by
    have hfill := fill_replicate [] bs hmost
    rw [List.nil_append, List.nil_append, List.length_nil] at hfill
    rw [hfill, List.take_left]
  have hsize : (UInt64.ofNat content.size = 0 || UInt64.ofNat content.size > 64 * 1024 : Bool) = true ↔
      content.size = 0 ∨ 64 * 1024 < content.size := by
    rw [Bool.or_eq_true, decide_eq_true_iff, decide_eq_true_iff, gt_iff_lt, UInt64.lt_iff_toNat_lt,
      ← UInt64.toNat_inj, toNat_size]
    rfl
  unfold loadText
  rw [hf.size, Option.bind_eq_bind, Option.bind_some, toNat_size, hread]
  by_cases hrange : content.size = 0 ∨ 64 * 1024 < content.size
  · rw [if_pos (hsize.2 hrange)]
    constructor
    · rintro ⟨⟩
    · rintro ⟨hpos, hle, -⟩
      omega
  · rw [if_neg (mt hsize.1 hrange)]
    show fromUtf8 ((fill (List.replicate content.size 0) 0 bs).take bs.length) = some text ↔ _
    rw [hcut]
    constructor
    · intro htext
      exact ⟨by omega, by omega, bs, rfl, htext⟩
    · rintro ⟨-, -, _, ⟨⟩, htext⟩
      exact htext

/-! ## The readers agree -/

variable (fs f content)

/-- `read_file` gives the whole file, and `load_kernel` and `load_modules` go on with the whole file or not at all. -/
structure LoadersAgree : Prop where
  readFile : readOpened fs f = .ok (some content)
  loadKernel : ∀ {σ : Type} (fw : Firmware σ) (s : LoadState σ), loadKernelFile fs fw f s = loadKernel fw content s ∨
    loadKernelFile fs fw f s = .error (.panic "Short read on kernel.bin")
  loadModules : ∀ {σ : Type} (fw : Firmware σ) (taken : σ → Nat → Prop), fw.Lawful taken →
    ∀ (modNames : Nat) (name : List UInt16) (s s' : ModulesState σ) (lm : LoadedModule),
      loadModule fw modNames (moduleFile fs name (UInt64.ofNat content.size) f) s = .ok (some lm, s') →
      lm.info.size.toNat = content.size ∧ s'.memory.Holds lm.info.physStart.toNat content.data

/-- And so does `load`: all four readers agree. -/
structure ReadersAgree : Prop extends LoadersAgree fs f content where
  load : ∀ text, loadText fs f = some text → Linux.utf8 text = content.data

/-- The file has the size of a configuration, and the first read gives a shorter text. -/
def CutShort : Prop :=
  0 < content.size ∧ content.size ≤ 64 * 1024 ∧
    ∃ bs, (fs.read f content.size).1 = some bs ∧ bs.length < content.size ∧ (fromUtf8 bs).isSome = true

variable {fs f content}

theorem loadersAgree (hfs : fs.Delivers rest) (hf : fs.Holds rest f content) : LoadersAgree fs f content :=
  ⟨readOpened_whole hfs hf, fun fw s => loadKernelFile_whole hfs hf fw s,
    fun _ _ hfw _ _ _ _ _ h => loadModule_whole hfs hf hfw h⟩

/-- However a file is split into reads, the readers agree exactly when it is not cut short; all but `load` agree in
any case. -/
theorem readersAgree_iff (hfs : fs.Delivers rest) (hf : fs.Holds rest f content) :
    (ReadersAgree fs f content ↔ ¬ CutShort fs f content) ∧ LoadersAgree fs f content := by
  have hloaders := loadersAgree hfs hf
  refine ⟨⟨?_, fun hnot => ⟨hloaders, fun text htext => ?_⟩⟩, hloaders⟩
  · rintro hagree ⟨hpos, hle, bs, hread, hlt, htext⟩
    obtain ⟨text, htext⟩ := Option.isSome_iff_exists.1 htext
    have hwhole := hagree.load text ((loadText_some hfs hf).2 ⟨hpos, hle, bs, hread, htext⟩)
    rw [utf8_of_fromUtf8 htext] at hwhole
    rw [hwhole] at hlt
    exact Nat.lt_irrefl _ hlt
  · obtain ⟨hpos, hle, bs, hread, htext⟩ := (loadText_some hfs hf).1 htext
    obtain ⟨bs', hread', hmost, hfront⟩ := hf.read_eq hfs content.size
    obtain rfl := Option.some.inj (hread.symm.trans hread')
    rw [utf8_of_fromUtf8 htext]
    -- a shorter text would be a file cut short
    refine eq_of_prefix hfront (Nat.le_antisymm hmost (Nat.not_lt.1 fun hlt => hnot ?_))
    exact ⟨hpos, hle, bs, hread, hlt, by rw [htext]; rfl⟩

/-- What `Linux.boot` takes as given: each file of a volume is read as the bytes it has, in whatever pieces. -/
theorem readFile_eq (hfs : fs.Delivers rest) {openRegular : CString16 → Option φ} {contents : φ → Buffer}
    (hopen : ∀ path f, openRegular path = some f → fs.Holds rest f (contents f)) (path : CString16) :
    readFile fs openRegular path = .ok ((openRegular path).map contents) := by
  unfold readFile
  split
  · rename_i hnone
    rw [hnone]
    rfl
  · rename_i f hsome
    rw [hsome]
    exact readOpened_whole hfs (hopen path f hsome)

end

/-! ## A configuration in two pieces -/

/-- A configuration with one entry. -/
def configFile : Buffer where
  data := Linux.utf8 "entry Linux\n  linux \\vmlinuz-old\n".toList
  fits := by decide +kernel

/-- Its file, of which the first read gives no more than `limit` bytes and one. -/
def configPieces (limit : Nat) : Pieces := ⟨UInt64.ofNat configFile.size, configFile.data, [limit]⟩

theorem configPieces_holds (limit : Nat) : pieces.Holds Pieces.rest (configPieces limit) configFile := ⟨rfl, rfl⟩

/-- All of it in one read. -/
theorem readersAgree_config : ReadersAgree pieces (configPieces 100) configFile := by
  refine (readersAgree_iff pieces_delivers (configPieces_holds 100)).1.2 ?_
  rintro ⟨-, -, bs, hread, hlt, -⟩
  have hsome : (pieces.read (configPieces 100) configFile.size).1 = some configFile.data := by decide +kernel
  obtain rfl := Option.some.inj (hread.symm.trans hsome)
  exact Nat.lt_irrefl _ hlt

/-- A read that ends within the name of the kernel: the entry is of another kernel. -/
theorem not_readersAgree_config : ¬ ReadersAgree pieces (configPieces 27) configFile ∧
    (load pieces ucs2 fun _ => some (configPieces 27)).map (fun cfg => cfg.entries.map Entry.target) =
      some [.linux (cstr16 "\\vmlinuz") none []] := by
  have hread : (pieces.read (configPieces 27) configFile.size).1 =
      some (Linux.utf8 "entry Linux\n  linux \\vmlinuz".toList) := by decide +kernel
  have htext : loadText pieces (configPieces 27) = some "entry Linux\n  linux \\vmlinuz".toList :=
    (loadText_some pieces_delivers (configPieces_holds 27)).2
      ⟨by decide +kernel, by decide +kernel, _, hread, fromUtf8_utf8 _⟩
  constructor
  · intro hagree
    have hwhole := hagree.load _ htext
    revert hwhole
    decide +kernel
  · have htarget : (parse ucs2 "entry Linux\n  linux \\vmlinuz".toList).entries.map Entry.target =
        [.linux (cstr16 "\\vmlinuz") none []] := by decide +kernel
    unfold load
    rw [Option.bind_eq_bind, Option.bind_some, htext]
    exact congrArg some htarget

end Bang
