/-
The scan of the modules directory (the loop of `load_modules` in `src/modules.rs`). A record that is too
long for the buffer is to be passed over, but the firmware stays where it is and so does the scan: it reads
the same record forever. Where all records fit, the scan ends and loads the files one after another, unless
one of them cannot be read, which stops the bootloader.
-/
import Bang.Loop
import Bang.Elf.Kernel
import Bang.Uefi.Reading
import Bang.Handoff.Names

namespace Bang

/-! ## The scan -/

/-- What opening a file by its name gives: a directory, or a regular file and what reading it delivers, if it
can be read. -/
inductive Opened
  | dir
  | regular (content : Option (List UInt8))

/-- An entry of the modules directory: its record, the size the record states, and what opening it gives, if it
can be opened. -/
structure ModuleEntry extends FileInfo where
  fileSize : UInt64
  opened : Option Opened

/-- Bytes of `entry_buf`. -/
def entryBufSize : Nat := 512

/-- The scan between two reads. -/
structure ScanState (σ : Type) where
  dir : List ModuleEntry
  modules : List LoadedModule
  state : ModulesState σ

section
variable {σ : Type} (fw : Firmware σ) (modNames : Nat)

/-- One round of the loop over the records of the directory. -/
def scanRound (s : ScanState σ) : Loop.Round (ScanState σ) (Except Stop (List LoadedModule × ModulesState σ)) :=
  match readRecord (fun e => e.recordSize) (fun e _ => e.recordSize) s.dir entryBufSize with
  | .done => .done (.ok (s.modules, s.state))
  -- "Skipping directory entry (name too long)", with the buffer as it is
  | .bufferTooSmall _ => .next s
  | .entry entry rest =>
    let s := { s with dir := rest }
    if entry.isDirectory then .next s
    else if entry.fileSize = 0 then .next s
    else
      match entry.opened with
      | none => .next s
      | some .dir => .next s
      | some (.regular content) =>
        match loadModule fw modNames ⟨entry.fileName ++ [0], entry.fileSize, content⟩ s.state with
        | .error stop => .done (.error stop)
        | .ok (mod, state) => .next { s with modules := s.modules ++ mod.toList, state := state }

/-! ## What it is to load -/

/-- The file of an entry that is to be loaded: the record fits, and it is that of a regular file that is not
empty and can be opened. -/
def ModuleEntry.file (entry : ModuleEntry) : Option ModuleFile :=
  if entry.recordSize ≤ entryBufSize ∧ ¬ entry.isDirectory ∧ entry.fileSize ≠ 0 then
    match entry.opened with
    | some (.regular content) => some ⟨entry.fileName ++ [0], entry.fileSize, content⟩
    | _ => none
  else none

/-- Whether reading the file into its pages delivers as many bytes as its record states. -/
def ModuleFile.inFull (file : ModuleFile) : Bool :=
  match file.content with
  | some bs => (bs.take (modulePages file.fileSize * pageSize)).length = file.fileSize.toNat
  | none => false

/-- Of the files, those that get their pages and are read in full. -/
def wanted : List ModuleFile → σ → List ModuleFile
  | [], _ => []
  | file :: files, f =>
    match fw.allocateBelow f 0xFFFFFFFF (modulePages file.fileSize) with
    | (none, f) => wanted files f
    | (some _, f) => if file.inFull then file :: wanted files f else wanted files f

/-- No file that gets its pages fails to be read. -/
def AllReadable : List ModuleFile → σ → Prop
  | [], _ => True
  | file :: files, f =>
    match fw.allocateBelow f 0xFFFFFFFF (modulePages file.fileSize) with
    | (none, f) => AllReadable files f
    | (some _, f) => file.content.isSome = true ∧ AllReadable files f

/-- The scan ends, and has loaded each file it is to load, in the order of the directory: with its size, and with
its name as far as the buffer of names has room. -/
def ScansAll (entries : List ModuleEntry) (s : ModulesState σ) : Prop :=
  ∃ mods s', Loop.Returns (scanRound fw modNames) ⟨entries, [], s⟩ (.ok (mods, s')) ∧
    mods.map (fun lm => lm.info.size) =
      (wanted fw (entries.filterMap ModuleEntry.file) s.firmware).map ModuleFile.fileSize ∧
    mods.map (fun lm => s'.names.memory.cstr lm.info.namePtr.toNat) =
      keptNames ((wanted fw (entries.filterMap ModuleEntry.file) s.firmware).map ModuleFile.name) s.names.pos

/-! ## One file -/

variable {fw modNames}

/-- A file that gets no pages is passed over. -/
theorem loadModule_noRoom {file : ModuleFile} {s : ModulesState σ} {f : σ} (hsize : file.fileSize ≠ 0)
    (hask : fw.allocateBelow s.firmware 0xFFFFFFFF (modulePages file.fileSize) = (none, f)) :
    loadModule fw modNames file s = .ok (none, { s with firmware := f }) := by
  unfold loadModule
  simp only [if_neg hsize, hask]

/-- A file that does not stop the bootloader gets no pages, or can be read. -/
theorem loadModule_ok {file : ModuleFile} {s s₁ : ModulesState σ} {mod : Option LoadedModule} (hsize : file.fileSize ≠ 0)
    (h : loadModule fw modNames file s = .ok (mod, s₁)) :
    fw.allocateBelow s.firmware 0xFFFFFFFF (modulePages file.fileSize) = (none, s₁.firmware) ∨
      ∃ addr, fw.allocateBelow s.firmware 0xFFFFFFFF (modulePages file.fileSize) = (some addr, s₁.firmware) ∧
        file.content.isSome = true := by
  unfold loadModule at h
  simp only [if_neg hsize] at h
  split at h
  · rename_i f hask
    cases h
    exact .inl hask
  · rename_i addr f hask
    obtain ⟨data, hread, h⟩ := bind_ok h
    have hcontent : file.content.isSome = true := by
      unfold ModuleFile.read at hread
      split at hread
      · rename_i bs hbs
        rw [hbs]
        rfl
      · cases hread
    split at h
    · cases h
      exact .inr ⟨addr, hask, hcontent⟩
    · obtain ⟨⟨p, names⟩, -, h⟩ := bind_ok h
      cases h
      exact .inr ⟨addr, hask, hcontent⟩

/-- A file that can be read is passed over where it is short. -/
theorem loadModule_short {file : ModuleFile} {s : ModulesState σ} {addr : Nat} {f : σ} {bs : List UInt8}
    (hsize : file.fileSize ≠ 0)
    (hask : fw.allocateBelow s.firmware 0xFFFFFFFF (modulePages file.fileSize) = (some addr, f))
    (hcontent : file.content = some bs) (hshort : file.inFull = false) :
    ∃ s', loadModule fw modNames file s = .ok (none, s') ∧ s'.firmware = f ∧ s'.names = s.names := by
  unfold ModuleFile.inFull at hshort
  rw [hcontent] at hshort
  unfold loadModule
  simp only [if_neg hsize, hask]
  unfold ModuleFile.read
  rw [hcontent]
  refine ⟨_, if_pos (of_decide_eq_false hshort), rfl, rfl⟩

/-- A file that gets its pages and is read in full is loaded, and its name stored. -/
theorem loadModule_full {file : ModuleFile} {s : ModulesState σ} {addr : Nat} {f : σ} (hsize : file.fileSize ≠ 0)
    (hask : fw.allocateBelow s.firmware 0xFFFFFFFF (modulePages file.fileSize) = (some addr, f))
    (hfull : file.inFull = true) {p : UInt64} {names : Names}
    (hstore : storeName modNames file.name s.names = .ok (p, names)) :
    ∃ lm s', loadModule fw modNames file s = .ok (some lm, s') ∧ lm.info.size = file.fileSize ∧
      lm.info.namePtr = p ∧ s'.firmware = f ∧ s'.names = names := by
  unfold ModuleFile.inFull at hfull
  unfold loadModule
  simp only [if_neg hsize, hask]
  unfold ModuleFile.read
  cases hcontent : file.content with
  | none =>
    rw [hcontent] at hfull
    cases hfull
  | some bs =>
    rw [hcontent] at hfull
    have hlen := of_decide_eq_true hfull
    refine ⟨⟨⟨p, UInt64.ofNat addr, file.fileSize⟩, bs.take (modulePages file.fileSize * pageSize)⟩,
      { firmware := f
        memory := (s.memory.store addr (List.replicate (modulePages file.fileSize * pageSize) 0)).store addr
          (bs.take (modulePages file.fileSize * pageSize))
        names := names
        handed := s.handed ++ [(addr, modulePages file.fileSize)] },
      (if_neg (not_not.2 hlen)).trans ?_, rfl, rfl, rfl, rfl⟩
    rw [hstore]
    rfl

/-! ## All files -/

/-- One file and then the others. -/
theorem loadModules_cons {file : ModuleFile} {files : List ModuleFile} {s s₁ s' : ModulesState σ}
    {mod : Option LoadedModule} {mods : List LoadedModule} (hload : loadModule fw modNames file s = .ok (mod, s₁))
    (hrest : loadModules fw modNames files s₁ = .ok (mods, s')) :
    loadModules fw modNames (file :: files) s = .ok (mod.toList ++ mods, s') := by
  rw [loadModules, hload]
  show (loadModules fw modNames files s₁ >>= _) = _
  rw [hrest]
  rfl

/-- Files that can be read, none of them empty, are loaded as they are to be. -/
theorem loadModules_wanted (hm : modNames + modNamesCap ≤ 2 ^ 64) (files : List ModuleFile) :
    ∀ s : ModulesState σ, (∀ file ∈ files, file.fileSize ≠ 0) → s.names.Ok modNames → AllReadable fw files s.firmware →
      ∃ mods s', loadModules fw modNames files s = .ok (mods, s') ∧ s'.names.Ok modNames ∧
        s.names.Extends modNames s'.names ∧
        mods.map (fun lm => lm.info.size) = (wanted fw files s.firmware).map ModuleFile.fileSize ∧
        List.Forall₂ (fun lm str => s'.names.Kept modNames lm.info.namePtr str) mods
          (keptNames ((wanted fw files s.firmware).map ModuleFile.name) s.names.pos) := by
  induction files with
  | nil =>
    intro s _ hok _
    exact ⟨[], s, rfl, hok, .refl hok.pos, rfl, .nil⟩
  | cons file files ih =>
    intro s hsizes hok hreadable
    have hsize := hsizes file List.mem_cons_self
    have hrest : ∀ file ∈ files, file.fileSize ≠ 0 := fun x hx => hsizes x (List.mem_cons_of_mem _ hx)
    rw [wanted]
    rw [AllReadable] at hreadable
    rcases hask : fw.allocateBelow s.firmware 0xFFFFFFFF (modulePages file.fileSize) with ⟨addr, f⟩
    rw [hask] at hreadable
    cases addr with
    | none =>
      obtain ⟨mods, s', hload, hok', hext, hmods, hkept⟩ := ih { s with firmware := f } hrest hok hreadable
      exact ⟨mods, s', loadModules_cons (loadModule_noRoom hsize hask) hload, hok', hext, hmods, hkept⟩
    | some addr =>
      obtain ⟨hcontent, hreadable⟩ := hreadable
      obtain ⟨bs, hbs⟩ := Option.isSome_iff_exists.1 hcontent
      cases hfull : file.inFull with
      | false =>
        obtain ⟨s₁, hshort, rfl, hnames⟩ := loadModule_short hsize hask hbs hfull
        rw [← hnames] at hok ⊢
        obtain ⟨mods, s', hload, hok', hext, hmods, hkept⟩ := ih s₁ hrest hok hreadable
        exact ⟨mods, s', loadModules_cons hshort hload, hok', hext, hmods, hkept⟩
      | true =>
        obtain ⟨p, names, hstore, hok₁, hpos, hext₁, hkept₁⟩ := storeName_kept hm file.name hok
        obtain ⟨lm, s₁, hlm, hlmSize, rfl, rfl, rfl⟩ := loadModule_full hsize hask hfull hstore
        obtain ⟨mods, s', hload, hok', hext, hmods, hkept⟩ := ih s₁ hrest hok₁ hreadable
        refine ⟨lm :: mods, s', loadModules_cons hlm hload, hok', hext₁.trans hext, ?_, ?_⟩
        · simp only [if_true, List.map_cons, hlmSize, hmods]
        · simp only [if_true, List.map_cons, keptNames, ← hpos]
          exact .cons (hkept₁.extends hext) hkept

/-- Where the bootloader is not stopped, every file that gets its pages can be read. -/
theorem loadModules_readable (files : List ModuleFile) :
    ∀ (s : ModulesState σ) (r : List LoadedModule × ModulesState σ), (∀ file ∈ files, file.fileSize ≠ 0) →
      loadModules fw modNames files s = .ok r → AllReadable fw files s.firmware := by
  induction files with
  | nil =>
    intro s r _ _
    trivial
  | cons file files ih =>
    intro s r hsizes h
    rw [loadModules] at h
    obtain ⟨⟨mod, s₁⟩, hload, h⟩ := bind_ok h
    obtain ⟨r₁, hloads, -⟩ := bind_ok h
    have hrest := ih s₁ r₁ (fun x hx => hsizes x (List.mem_cons_of_mem _ hx)) hloads
    rw [AllReadable]
    rcases loadModule_ok (hsizes file List.mem_cons_self) hload with hask | ⟨addr, hask, hcontent⟩
    · rw [hask]
      exact hrest
    · rw [hask]
      exact ⟨hcontent, hrest⟩

/-! ## The directory -/

/-- A record that fits is read, and its file loaded where it has one that is to be loaded. -/
theorem scanRound_fits {entry : ModuleEntry} (hfits : entry.recordSize ≤ entryBufSize) (rest : List ModuleEntry)
    (mods : List LoadedModule) (s : ModulesState σ) :
    scanRound fw modNames ⟨entry :: rest, mods, s⟩ =
      match entry.file with
      | none => .next ⟨rest, mods, s⟩
      | some file =>
        match loadModule fw modNames file s with
        | .error stop => .done (.error stop)
        | .ok (mod, s) => .next ⟨rest, mods ++ mod.toList, s⟩ := by
  unfold scanRound ModuleEntry.file
  rw [@readRecord_fits _ (fun e : ModuleEntry => e.recordSize) _ _ _ _ hfits]
  simp only
  by_cases hdir : entry.isDirectory = true
  · rw [if_pos hdir, if_neg (by simp [hdir])]
  · rw [if_neg hdir]
    by_cases hsize : entry.fileSize = 0
    · rw [if_pos hsize, if_neg (by simp [hsize])]
    · rw [if_neg hsize, if_pos ⟨hfits, hdir, hsize⟩]
      rcases entry.opened with - | - | content <;> rfl

/-- A record that does not fit is read again and again. -/
theorem scanRound_tooLong {entry : ModuleEntry} (hlong : ¬ entry.recordSize ≤ entryBufSize) (rest : List ModuleEntry)
    (mods : List LoadedModule) (s : ModulesState σ) :
    scanRound fw modNames ⟨entry :: rest, mods, s⟩ = .next ⟨entry :: rest, mods, s⟩ := by
  unfold scanRound
  rw [@readRecord_tooSmall _ (fun e : ModuleEntry => e.recordSize) _ _ _ _ hlong]

/-- Where all records fit, the scan loads the files one after another. -/
theorem scan_returns (entries : List ModuleEntry) (hfit : ∀ e ∈ entries, e.recordSize ≤ entryBufSize) :
    ∀ (mods : List LoadedModule) (s : ModulesState σ), Loop.Returns (scanRound fw modNames) ⟨entries, mods, s⟩
      ((loadModules fw modNames (entries.filterMap ModuleEntry.file) s).map fun r => (mods ++ r.1, r.2)) := by
  induction entries with
  | nil =>
    intro mods s
    have hround : scanRound fw modNames ⟨[], mods, s⟩ = .done (.ok (mods, s)) := rfl
    refine (Loop.returns_done hround).2 ?_
    show Except.ok (mods ++ [], s) = _
    rw [List.append_nil]
  | cons entry entries ih =>
    intro mods s
    have hround := @scanRound_fits _ fw modNames _ (hfit entry List.mem_cons_self) entries mods s
    have ih := ih fun e he => hfit e (List.mem_cons_of_mem _ he)
    cases hfile : entry.file with
    | none =>
      rw [hfile] at hround
      rw [List.filterMap_cons_none hfile, Loop.returns_next hround]
      exact ih mods s
    | some file =>
      rw [hfile] at hround
      rw [List.filterMap_cons_some hfile, loadModules]
      cases hload : loadModule fw modNames file s with
      | error stop =>
        simp only [hload] at hround
        exact (Loop.returns_done hround).2 rfl
      | ok r =>
        obtain ⟨mod, s₁⟩ := r
        simp only [hload] at hround
        rw [Loop.returns_next hround]
        have hrest := ih (mods ++ mod.toList) s₁
        show Loop.Returns _ _ ((loadModules fw modNames _ s₁ >>= _).map _)
        cases hloads : loadModules fw modNames (entries.filterMap ModuleEntry.file) s₁ with
        | error stop =>
          rw [hloads] at hrest
          exact hrest
        | ok r =>
          rw [hloads] at hrest
          have happend : mods ++ mod.toList ++ r.1 = mods ++ (mod.toList ++ r.1) := List.append_assoc ..
          simp only [Except.map, happend] at hrest
          exact hrest

/-- Where a record does not fit, the scan does not come to its end. -/
theorem scan_not_returns (entries : List ModuleEntry) (hlong : ∃ e ∈ entries, ¬ e.recordSize ≤ entryBufSize) :
    ∀ (mods : List LoadedModule) (s : ModulesState σ) (r : List LoadedModule × ModulesState σ),
      ¬ Loop.Returns (scanRound fw modNames) ⟨entries, mods, s⟩ (.ok r) := by
  induction entries with
  | nil =>
    obtain ⟨e, he, -⟩ := hlong
    cases he
  | cons entry entries ih =>
    intro mods s r hreturns
    by_cases hfits : entry.recordSize ≤ entryBufSize
    · have hlong : ∃ e ∈ entries, ¬ e.recordSize ≤ entryBufSize := by
        obtain ⟨e, he, hsize⟩ := hlong
        rcases List.mem_cons.1 he with rfl | he
        · exact absurd hfits hsize
        · exact ⟨e, he, hsize⟩
      have hround := @scanRound_fits _ fw modNames _ hfits entries mods s
      cases hfile : entry.file with
      | none =>
        rw [hfile] at hround
        exact ih hlong _ _ _ ((Loop.returns_next hround).1 hreturns)
      | some file =>
        rw [hfile] at hround
        cases hload : loadModule fw modNames file s with
        | error stop =>
          simp only [hload] at hround
          cases (Loop.returns_done hround).1 hreturns
        | ok r₁ =>
          obtain ⟨mod, s₁⟩ := r₁
          simp only [hload] at hround
          exact ih hlong _ _ _ ((Loop.returns_next hround).1 hreturns)
    · exact Loop.not_returns_of_fixed (scanRound_tooLong hfits entries mods s) _ hreturns

theorem file_fileSize {entries : List ModuleEntry} : ∀ file ∈ entries.filterMap ModuleEntry.file, file.fileSize ≠ 0 := by
  intro file hfile
  obtain ⟨entry, -, hentry⟩ := List.mem_filterMap.1 hfile
  unfold ModuleEntry.file at hentry
  split at hentry
  · rename_i hall
    split at hentry
    · cases hentry
      exact hall.2.2
    · cases hentry
  · cases hentry

/-- Names that are kept are read back. -/
theorem names_eq {names : Names} (hm : modNames + modNamesCap ≤ 2 ^ 64) (hpos : names.pos ≤ modNamesCap)
    {mods : List LoadedModule} {strs : List (List UInt8)} (hzero : ∀ str ∈ strs, 0 ∉ str)
    (h : List.Forall₂ (fun lm str => names.Kept modNames lm.info.namePtr str) mods strs) :
    mods.map (fun lm => names.memory.cstr lm.info.namePtr.toNat) = strs := by
  induction h with
  | nil => rfl
  | cons hkept _ ih =>
    rw [List.map_cons, (hkept.cstr hm hpos (hzero _ List.mem_cons_self)).2,
      ih fun str hstr => hzero str (List.mem_cons_of_mem _ hstr)]

/-- The scan of the modules directory ends and loads what it is to load, exactly when every record fits the
buffer and no file that gets its pages fails to be read. -/
theorem scansAll_iff (hm : modNames + modNamesCap ≤ 2 ^ 64) (entries : List ModuleEntry) (s : ModulesState σ)
    (hok : s.names.Ok modNames) :
    ScansAll fw modNames entries s ↔ (∀ e ∈ entries, e.recordSize ≤ entryBufSize) ∧
      AllReadable fw (entries.filterMap ModuleEntry.file) s.firmware := by
  constructor
  · rintro ⟨mods, s', hreturns, -⟩
    have hfit : ∀ e ∈ entries, e.recordSize ≤ entryBufSize := by
      by_contra hlong
      push Not at hlong
      obtain ⟨e, he, hlong⟩ := hlong
      exact scan_not_returns entries ⟨e, he, Nat.not_le.2 hlong⟩ _ _ _ hreturns
    refine ⟨hfit, ?_⟩
    have hscan := hreturns.unique (scan_returns entries hfit [] s)
    cases hload : loadModules fw modNames (entries.filterMap ModuleEntry.file) s with
    | error stop =>
      rw [hload] at hscan
      cases hscan
    | ok r => exact loadModules_readable _ s r file_fileSize hload
  · rintro ⟨hfit, hreadable⟩
    obtain ⟨mods, s', hload, hok', -, hsizes, hkept⟩ := loadModules_wanted hm _ s file_fileSize hok hreadable
    have hscan := @scan_returns _ fw modNames entries hfit [] s
    rw [hload] at hscan
    refine ⟨mods, s', hscan, hsizes, ?_⟩
    exact names_eq hm hok'.pos (zero_notMem_keptNames _ _) hkept

end

/-- A directory with one module, all in order. -/
theorem scansAll_init : ScansAll bump 0x1000 [⟨⟨cstr16 "init", false, 90⟩, 3, some (.regular (some [1, 2, 3]))⟩]
    ⟨⟨fun _ => false, 0⟩, fun _ => 0, ⟨fun _ => 0, 0⟩, []⟩ := by
  refine (scansAll_iff (by decide) _ _ ⟨rfl, by decide⟩).2 ⟨by decide, ?_⟩
  exact ⟨rfl, trivial⟩

/-- A file with a name of 250 letters in front of a module: the scan reads its record forever. -/
theorem not_scansAll_longName : ¬ ScansAll bump 0x1000
    [⟨⟨List.replicate 250 0x61, false, 582⟩, 3, some (.regular (some [1, 2, 3]))⟩,
      ⟨⟨cstr16 "init", false, 90⟩, 3, some (.regular (some [1, 2, 3]))⟩]
    ⟨⟨fun _ => false, 0⟩, fun _ => 0, ⟨fun _ => 0, 0⟩, []⟩ := by
  rintro ⟨mods, s', hreturns, -⟩
  exact scan_not_returns _ ⟨_, List.mem_cons_self, by decide⟩ _ _ _ hreturns

end Bang
