/-
All of `main` (`src/main.rs`): from what the disks hold and the keys that are pressed to the kernel that is entered,
or to the status that is returned. However it goes, what was in use when it started is still there when a kernel is
entered, and a Linux kernel finds its command line and its initrd. What is printed goes to a console that may not
show it, which is the end of it; a text in Basic Latin is left out, as any console shows it.
-/
import Bang.Config.Printing
import Bang.Discover.Chain
import Bang.Handoff.ModuleScan
import Bang.Handoff.ShortReads
import Bang.Handoff.Writes
import Bang.Linux.Received

namespace Bang

/-! ## The machine -/

/-- How far the firmware goes with Bang's own volume. -/
inductive OwnVolume
  | noFileSystem | notOpened | opened
  deriving DecidableEq

/-- What is open: a file, a directory with its records, or a handle of which the type cannot be told. -/
inductive FileHandle (φ : Type)
  | regular (f : φ)
  | directory (records : List ModuleEntry)
  | unknown

def FileHandle.intoRegularFile {φ : Type} : FileHandle φ → Option φ
  | .regular f => some f
  | _ => none

/-- The machine and its firmware, as `main` finds them: the library for device paths, what is on the disks, the files
of Bang's own volume, and the console. -/
structure Computer (ν π β ι φ σ κ : Type) where
  tryFrom : Str → Option CString16
  toUppercase : Char → Str
  paths : DevicePaths ν π β
  images : ImageServices π ι
  disks : Disks
  loaded : Option LoadedImage
  files : FileSystem φ
  volume : OwnVolume
  openPath : CString16 → Option (FileHandle φ)
  /-- No file is larger than an allocation may be. -/
  sizes : ∀ path f size, openPath path = some (.regular f) → files.fileSize f = some size → size.toNat < 2 ^ 63
  console : Console κ
  /-- The screen, below the banner. -/
  screen : κ
  fw : Firmware σ
  machine : Machine

/-- How `main` goes: it is in the menu, it reads a record forever that does not fit its buffer, it has returned, or it
has entered a kernel. -/
inductive Outcome (σ : Type)
  | menu (s : MenuState)
  | scanning
  | returned (status : UInt64)
  | linux (handover : Linux.Handover σ)
  | multiboot (p : Prepared) (entered : Entered)

/-- The panic of a print that does not go through. -/
def failedToWrite : Stop := .panic "Failed to write to stdout"

/-- A path as it is printed. -/
def pathText (path : CString16) : Str := path.map fun unit => Char.ofNat unit.toNat

/-- The statuses of `linux::boot`. -/
def Linux.Status.code : Linux.Status → UInt64
  | .notFound => statusNotFound
  | .loadError => 0x8000000000000001
  | .unsupported => 0x8000000000000003
  | .outOfResources => 0x8000000000000009

/-- Whether the record fits the buffer of `load_modules`. -/
def ModuleEntry.fits (e : ModuleEntry) : Bool := e.recordSize ≤ entryBufSize

/-- The files of a modules directory that are to be loaded, in order, up to the first record that does not fit. -/
def moduleFiles (records : List ModuleEntry) : List ModuleFile :=
  (records.takeWhile ModuleEntry.fits).filterMap ModuleEntry.file

theorem expect_ok {α : Type} {x : Option α} {message : String} {a : α} (h : expect x message = .ok a) : x = some a := by
  unfold expect at h
  split at h
  · exact congrArg some (Except.ok.inj h)
  · cases h

namespace Computer

variable {ν π β ι φ σ κ : Type} (c : Computer ν π β ι φ σ κ)

/-- The console shows a path. -/
def Shows (path : CString16) : Prop := c.console.Shows (pathText path)

instance (path : CString16) : Decidable (c.Shows path) := inferInstanceAs (Decidable (c.console.Shows _))

/-- Print a path, among other things. Behind the menu the screen is not read any more. -/
def printPath (path : CString16) : Except Stop Unit := if c.Shows path then .ok () else .error failedToWrite

/-- A regular file, once it is open. -/
def openRegular (path : CString16) : Option φ :=
  match c.volume with
  | .opened => (c.openPath path).bind FileHandle.intoRegularFile
  | _ => none

/-- The text of `\bang.cfg`, as `load` goes on with it. -/
def text : Option Str := (c.openRegular (cstr16 "\\bang.cfg")).bind (loadText c.files)

/-- Read and parse `\bang.cfg`, or what Bang did before there was one; and the screen behind it. -/
def load : Except Stop (Config × κ) :=
  match configured c.tryFrom c.console c.text c.screen with
  | none => .error failedToWrite
  | some r => .ok r

/-- What there is to boot: the configuration, and what is installed. -/
def config : Config := offered c.tryFrom c.text (scan c.toUppercase c.disks c.loaded)

/-- What `read_file` gives of a path. -/
def contents (path : CString16) : Option Buffer :=
  match readFile c.files c.openRegular path with
  | .ok image => image
  -- no file is that large
  | .error _ => none

/-- The file of a kernel, opened and read. -/
def kernelFile (path : CString16) : Except Stop Buffer :=
  match c.volume with
  | .noFileSystem => .error (.panic "Failed to open file system")
  | .notOpened => .error (.panic "Failed to open volume")
  | .opened => do
    let handle ← expect (c.openPath path) "kernel not found"
    let file ← expect handle.intoRegularFile "kernel is not a regular file"
    readKernel c.files file

/-- The records of a modules directory, if there is one. -/
def moduleRecords : Option CString16 → Except Stop (List ModuleEntry)
  | none => .ok []
  | some dir =>
    match c.volume with
    | .noFileSystem => .ok []
    | .notOpened => .error (.panic "Failed to open volume")
    | .opened =>
      match c.openPath dir with
      | none => (c.printPath dir).map fun _ => []
      | some .unknown => .error (.panic "Failed to get file type")
      | some (.regular _) => (c.printPath dir).map fun _ => []
      | some (.directory records) => (c.printPath dir).map fun _ => records

/-! ## The entry that is chosen -/

/-- A Multiboot entry. -/
def bootMultiboot (kernel : CString16) (modules : Option CString16) (f : σ) (m : Mem UInt8) :
    Except Stop (Outcome σ) := do
  c.printPath kernel
  let fileBuf ← c.kernelFile kernel
  -- the kernel is loaded before the directory is opened
  let _ ← loadKernel c.fw fileBuf (.start f m)
  let records ← c.moduleRecords modules
  let prepared ← prepare c.fw c.machine fileBuf (moduleFiles records) f m
  if records.all ModuleEntry.fits then
    match prepared with
    | none => pure (.returned Linux.Status.outOfResources.code)
    | some p =>
      match enter c.machine p with
      -- a store outside the reserved memory
      | none => .error .outOfRange
      | some e => pure (.multiboot p e)
  else pure .scanning

/-- A Linux entry. -/
def bootLinux (kernel : CString16) (initrd : Option CString16) (cmdline : Str) (f : σ) (m : Mem UInt8) :
    Except Stop (Outcome σ) := do
  c.printPath kernel
  -- the path of the initrd is printed behind all that can go wrong without it
  match Linux.boot c.fw c.contents kernel (initrd.filter fun path => c.Shows path) cmdline ⟨f, m, []⟩ with
  | .ok h => (initrd.elim (.ok ()) c.printPath).map fun _ => .linux h
  | .error (.status status) => .ok (.returned status.code)
  | .error (.stop why) => .error why

def bootEntry (entry : Entry) (f : σ) (m : Mem UInt8) : Except Stop (Outcome σ) :=
  match entry.target with
  | .multiboot kernel modules => c.bootMultiboot kernel modules f m
  | .chainload path device => (c.printPath path).map fun _ => .returned (chainBoot c.paths c.images device path)
  | .linux kernel initrd cmdline => c.bootLinux kernel initrd cmdline f m

/-- `main`, as far as the keyboard has been polled. -/
def main (polls : List (Option Key)) (f : σ) (m : Mem UInt8) : Except Stop (Outcome σ) := do
  let (cfg, k) ← c.load
  let cfg := merged cfg (scan c.toUppercase c.disks c.loaded)
  match chooseDrawing c.console cfg k polls with
  -- the default is an entry, so that it is a title that does not go through
  | none => .error failedToWrite
  | some (.waiting s, _) => pure (.menu s)
  | some (.chosen choice, _) =>
    match cfg.entries[choice]? with
    | none => .error (.panic ("index out of bounds: the len is " ++ toString cfg.entries.length ++
        " but the index is " ++ toString choice))
    | some entry => c.bootEntry entry f m

variable {c}

theorem openRegular_some {path : CString16} {file : φ} (h : c.openRegular path = some file) :
    c.volume = .opened ∧ c.openPath path = some (.regular file) := by
  unfold openRegular at h
  split at h
  · rename_i hvolume
    obtain ⟨handle, hhandle, hfile⟩ := Option.bind_eq_some_iff.1 h
    cases handle with
    | regular f =>
      cases hfile
      exact ⟨hvolume, hhandle⟩
    | directory records => cases hfile
    | unknown => cases hfile
  · cases h

/-- The file of a kernel is one that was opened. -/
theorem kernelFile_ok {path : CString16} {image : Buffer} (h : c.kernelFile path = .ok image) :
    ∃ file, c.openRegular path = some file ∧ readKernel c.files file = .ok image := by
  unfold kernelFile at h
  split at h
  · cases h
  · cases h
  · rename_i hvolume
    obtain ⟨handle, hhandle, h⟩ := bind_ok h
    obtain ⟨file, hfile, h⟩ := bind_ok h
    refine ⟨file, ?_, h⟩
    unfold openRegular
    rw [hvolume, expect_ok hhandle]
    exact expect_ok hfile

/-- Reading a file never asks for more memory than there can be. -/
theorem readFile_contents (path : CString16) : readFile c.files c.openRegular path = .ok (c.contents path) := by
  have hok : ∃ image, readFile c.files c.openRegular path = .ok image := by
    unfold readFile
    split
    · exact ⟨none, rfl⟩
    · rename_i f hopen
      unfold readOpened
      split
      · exact ⟨none, rfl⟩
      · rename_i size hsize
        rw [Buffer.zeroed, dif_pos (c.sizes path f size (openRegular_some hopen).2 hsize)]
        exact ⟨_, rfl⟩
  obtain ⟨image, himage⟩ := hok
  rw [contents, himage]

/-! ## The scan -/

theorem moduleFiles_of_all {records : List ModuleEntry} (h : records.all ModuleEntry.fits = true) :
    moduleFiles records = records.filterMap ModuleEntry.file := by
  rw [moduleFiles, List.takeWhile_eq_self_iff.2 (List.all_eq_true.1 h)]

/-- Where all records fit, the scan of a modules directory comes to the files that `main` loads. -/
theorem scan_moduleFiles {records : List ModuleEntry} (hall : records.all ModuleEntry.fits = true)
    (s : ModulesState σ) : Loop.Returns (scanRound c.fw c.machine.modNames) ⟨records, [], s⟩
      (loadModules c.fw c.machine.modNames (moduleFiles records) s) := by
  have hsame : ∀ x : Except Stop (List LoadedModule × ModulesState σ), x.map (fun r => ([] ++ r.1, r.2)) = x := by
    rintro (stop | r) <;> rfl
  have hscan := @scan_returns _ c.fw c.machine.modNames records
    (fun e he => of_decide_eq_true (List.all_eq_true.1 hall e he)) [] s
  rw [hsame] at hscan
  rw [moduleFiles_of_all hall]
  exact hscan

theorem moduleFiles_cons {entry : ModuleEntry} (hfits : entry.fits = true) (records : List ModuleEntry) :
    moduleFiles (entry :: records) = entry.file.toList ++ moduleFiles records := by
  rw [moduleFiles, List.takeWhile_cons_of_pos hfits, List.filterMap_cons]
  cases entry.file <;> rfl

theorem loadModules_cons_ok {file : ModuleFile} {files : List ModuleFile} {s s₁ : ModulesState σ}
    {mod : Option LoadedModule} (h : loadModule c.fw c.machine.modNames file s = .ok (mod, s₁)) :
    loadModules c.fw c.machine.modNames (file :: files) s =
      (loadModules c.fw c.machine.modNames files s₁).map fun r => (mod.toList ++ r.1, r.2) := by
  rw [loadModules, h]
  show (loadModules c.fw c.machine.modNames files s₁ >>= _) = _
  cases loadModules c.fw c.machine.modNames files s₁ <;> rfl

theorem map_error {ε α β : Type} {x : Except ε α} {f : α → β} {e : ε} (h : x.map f = .error e) : x = .error e := by
  cases x with
  | error e' => exact congrArg _ (Except.error.inj h)
  | ok a => cases h

/-- Where one does not fit, the scan stops at a file in front of it, or does not end. -/
theorem scan_long {records : List ModuleEntry} (hlong : records.all ModuleEntry.fits = false) :
    ∀ (mods : List LoadedModule) (s : ModulesState σ),
      (∀ stop, loadModules c.fw c.machine.modNames (moduleFiles records) s = .error stop →
        Loop.Returns (scanRound c.fw c.machine.modNames) ⟨records, mods, s⟩ (.error stop)) ∧
      ∀ r, loadModules c.fw c.machine.modNames (moduleFiles records) s = .ok r →
        ∀ r', ¬ Loop.Returns (scanRound c.fw c.machine.modNames) ⟨records, mods, s⟩ r' := by
  induction records with
  | nil => cases hlong
  | cons entry records ih =>
    intro mods s
    by_cases hfits : entry.fits = true
    · have ih := ih (by simpa [hfits] using hlong)
      have hround := @scanRound_fits _ c.fw c.machine.modNames _ (of_decide_eq_true hfits) records mods s
      rw [moduleFiles_cons hfits]
      cases hfile : entry.file with
      | none =>
        rw [hfile] at hround
        exact ⟨fun stop h => (Loop.returns_next hround).2 ((ih mods s).1 stop h),
          fun r h r' hr => (ih mods s).2 r h r' ((Loop.returns_next hround).1 hr)⟩
      | some file =>
        rw [hfile] at hround
        show (∀ stop, loadModules _ _ (file :: moduleFiles records) s = .error stop → _) ∧
          ∀ r, loadModules _ _ (file :: moduleFiles records) s = .ok r → _
        cases hload : loadModule c.fw c.machine.modNames file s with
        | error stop =>
          simp only [hload] at hround
          rw [loadModules, hload]
          constructor
          · rintro stop' ⟨⟩
            exact (Loop.returns_done hround).2 rfl
          · rintro r ⟨⟩
        | ok r =>
          obtain ⟨mod, s₁⟩ := r
          simp only [hload] at hround
          rw [loadModules_cons_ok hload]
          refine ⟨fun stop h => (Loop.returns_next hround).2 ((ih _ s₁).1 stop (map_error h)), fun r h r' hr => ?_⟩
          obtain ⟨r₁, hr₁, -⟩ := map_ok h
          exact (ih _ s₁).2 r₁ hr₁ r' ((Loop.returns_next hround).1 hr)
    · have hfiles : moduleFiles (entry :: records) = [] := by
        rw [moduleFiles, List.takeWhile_cons_of_neg hfits]
        rfl
      rw [hfiles]
      constructor
      · rintro stop ⟨⟩
      · intro r _ r'
        exact Loop.not_returns_of_fixed (scanRound_tooLong (fun hle => hfits (decide_eq_true hle)) records mods s) r'

/-! ## Where it ends -/

section
variable {polls : List (Option Key)} {f : σ} {m : Mem UInt8}

theorem printPath_shows {path : CString16} (h : c.Shows path) : c.printPath path = .ok () := if_pos h

theorem shows_printPath {path : CString16} {u : Unit} (h : c.printPath path = .ok u) : c.Shows path := by
  unfold printPath at h
  split at h
  · assumption
  · cases h

/-- The configuration is that of the text, if all that is said of it can be printed. -/
theorem load_ok {cfg : Config} {k : κ} (h : c.load = .ok (cfg, k)) :
    cfg = (c.text.map (parse c.tryFrom)).getD .builtin := by
  unfold load at h
  split at h
  · cases h
  · rename_i hconfigured
    cases h
    exact configured_some hconfigured

theorem load_error {stop : Stop} (h : c.load = .error stop) :
    stop = failedToWrite ∧ ∃ text, c.text = some text ∧ ¬ Printable c.tryFrom c.console text := by
  have heq := @configured_eq c.tryFrom κ c.console c.text c.screen
  unfold load at h
  split at h
  · rename_i hconfigured
    rw [hconfigured] at heq
    refine ⟨(Except.error.inj h).symm, ?_⟩
    split at heq
    · cases heq
    · rename_i hall
      push Not at hall
      exact hall
  · cases h

theorem main_chosen {cfg : Config} {k k' : κ} {entry : Entry} (hload : c.load = .ok (cfg, k))
    (hchosen : mainEntryDrawing c.console (merged cfg (scan c.toUppercase c.disks c.loaded)) k polls =
      some (.chosen entry, k')) : c.main polls f m = c.bootEntry entry f m := by
  obtain ⟨⟨turn, k₁⟩, hturn, hentry⟩ := Option.bind_eq_some_iff.1 hchosen
  obtain ⟨turn', hchoice, heq⟩ := Option.map_eq_some_iff.1 hentry
  cases heq
  unfold main
  rw [hload]
  simp only [bind, Except.bind, hturn]
  rcases turn with s | choice
  · cases hchoice
  · obtain ⟨entry', hget, hsame⟩ := Option.map_eq_some_iff.1 hchoice
    cases hsame
    dsimp only
    rw [hget]

/-- All that `main` does up to an entry: it stops at what cannot be printed, or with nothing to boot; or it waits; or it
boots an entry. -/
theorem main_cases :
    (c.main polls f m = .error failedToWrite ∧
      ((∃ text, c.text = some text ∧ ¬ Printable c.tryFrom c.console text) ∨
        ∃ cfg k, c.load = .ok (cfg, k) ∧ ¬ MenuShows c.console c.config k)) ∨
    (c.config.entries = [] ∧ ∃ message, c.main polls f m = .error (.panic message)) ∨
    (∃ s, c.main polls f m = .ok (.menu s)) ∨
    ∃ entry ∈ c.config.entries, c.main polls f m = c.bootEntry entry f m := by
  unfold main
  rcases hload : c.load with stop | ⟨cfg, k⟩
  · obtain ⟨rfl, hreport⟩ := load_error hload
    exact .inl ⟨rfl, .inl hreport⟩
  · have hconfig : merged cfg (scan c.toUppercase c.disks c.loaded) = c.config := by
      rw [load_ok hload]
      rfl
    have hdefault : c.config.entries ≠ [] → c.config.default < c.config.entries.length := offered_default_lt
    simp only [Except.bind, bind, hconfig]
    rcases hrun : chooseDrawing c.console c.config k polls with _ | ⟨s | choice, k'⟩
    · refine .inl ⟨rfl, .inr ⟨cfg, k, rfl, fun hshows => ?_⟩⟩
      have hsome := (@chooseDrawing_isSome κ c.console c.config hdefault k polls).2 hshows
      rw [hrun] at hsome
      cases hsome
    · exact .inr (.inr (.inl ⟨s, rfl⟩))
    · dsimp only
      rcases hentry : c.config.entries[choice]? with _ | entry
      · refine .inr (.inl ⟨?_, _, rfl⟩)
        by_contra hsome
        obtain ⟨turn, hturn, hvalid⟩ := choose_valid (hdefault hsome) (plan c.console _ k).1.isSome polls
        cases hturn.symm.trans (chooseDrawing_some hrun)
        exact absurd (List.getElem?_eq_getElem hvalid) (by rw [hentry]; exact fun h => by cases h)
      · exact .inr (.inr (.inr ⟨entry, List.mem_of_getElem? hentry, rfl⟩))

/-- What does not stop and does not wait has an entry. -/
theorem main_entry {outcome : Outcome σ} (h : c.main polls f m = .ok outcome) (hwaits : ∀ s, outcome ≠ .menu s) :
    ∃ entry ∈ c.config.entries, c.bootEntry entry f m = .ok outcome := by
  rcases @main_cases _ _ _ _ _ _ _ c polls f m with ⟨hstop, -⟩ | ⟨-, _, hstop⟩ | ⟨s, hmenu⟩ | ⟨entry, hentry, hboot⟩
  · cases h.symm.trans hstop
  · cases h.symm.trans hstop
  · cases h.symm.trans hmenu
    exact absurd rfl (hwaits s)
  · exact ⟨entry, hentry, hboot.symm.trans h⟩

/-- How a Linux entry goes that is entered. -/
theorem bootLinux_ok {kernel : CString16} {initrd : Option CString16} {cmdline : Str} {outcome : Outcome σ}
    (h : c.bootLinux kernel initrd cmdline f m = .ok outcome) : (∃ status, outcome = .returned status) ∨
      ∃ handover, outcome = .linux handover ∧
        Linux.boot c.fw c.contents kernel initrd cmdline ⟨f, m, []⟩ = .ok handover := by
  obtain ⟨_, -, h⟩ := bind_ok h
  split at h
  · rename_i handover hboot
    obtain ⟨_, hinitrd, h⟩ := map_ok h
    have hfilter : initrd.filter (fun path => c.Shows path) = initrd := by
      rcases initrd with _ | path
      · rfl
      · rw [Option.filter_some, if_pos (decide_eq_true (shows_printPath hinitrd))]
    rw [hfilter] at hboot
    exact .inr ⟨handover, h.symm, hboot⟩
  · exact .inl ⟨_, (Except.ok.inj h).symm⟩
  · cases h

/-- A kernel and an initrd that can be printed are booted. -/
theorem bootLinux_shows {kernel : CString16} {initrd : Option CString16} {cmdline : Str} {h : Linux.Handover σ}
    (hkernel : c.Shows kernel) (hinitrd : ∀ path ∈ initrd, c.Shows path)
    (hboot : Linux.boot c.fw c.contents kernel initrd cmdline ⟨f, m, []⟩ = .ok h) :
    c.bootLinux kernel initrd cmdline f m = .ok (.linux h) := by
  have hfilter : initrd.filter (fun path => c.Shows path) = initrd := by
    rcases initrd with _ | path
    · rfl
    · rw [Option.filter_some, if_pos (decide_eq_true (hinitrd path rfl))]
  unfold bootLinux
  rw [printPath_shows hkernel, hfilter, hboot]
  rcases initrd with _ | path
  · rfl
  · show (c.printPath path).map _ = _
    rw [printPath_shows (hinitrd path rfl)]
    rfl

/-- How a Multiboot entry goes that does not stop. -/
theorem bootMultiboot_ok {kernel : CString16} {modules : Option CString16} {outcome : Outcome σ}
    (h : c.bootMultiboot kernel modules f m = .ok outcome) :
    ∃ fileBuf records prepared, c.kernelFile kernel = .ok fileBuf ∧ c.moduleRecords modules = .ok records ∧
      prepare c.fw c.machine fileBuf (moduleFiles records) f m = .ok prepared ∧
      (outcome = .scanning ∨ (∃ status, outcome = .returned status) ∨
        ∃ p e, prepared = some p ∧ records.all ModuleEntry.fits = true ∧ enter c.machine p = some e ∧
          outcome = .multiboot p e) := by
  obtain ⟨_, -, h⟩ := bind_ok h
  obtain ⟨fileBuf, hfile, h⟩ := bind_ok h
  obtain ⟨_, -, h⟩ := bind_ok h
  obtain ⟨records, hrecords, h⟩ := bind_ok h
  obtain ⟨prepared, hprepare, h⟩ := bind_ok h
  refine ⟨fileBuf, records, prepared, hfile, hrecords, hprepare, ?_⟩
  split at h
  · rename_i hall
    split at h
    · exact .inr (.inl ⟨_, (Except.ok.inj h).symm⟩)
    · rename_i p
      split at h
      · cases h
      · rename_i e henter
        exact .inr (.inr ⟨p, e, rfl, hall, henter, (Except.ok.inj h).symm⟩)
  · exact .inl (Except.ok.inj h).symm

/-- A Linux kernel that is entered is one of an entry. -/
theorem main_linux {h : Linux.Handover σ} (hmain : c.main polls f m = .ok (.linux h)) :
    ∃ entry ∈ c.config.entries, ∃ kernel initrd cmdline, entry.target = .linux kernel initrd cmdline ∧
      Linux.boot c.fw c.contents kernel initrd cmdline ⟨f, m, []⟩ = .ok h := by
  obtain ⟨entry, hentry, hrun⟩ := main_entry hmain fun s hs => by cases hs
  refine ⟨entry, hentry, ?_⟩
  unfold bootEntry at hrun
  split at hrun
  · obtain ⟨_, _, _, -, -, -, houtcome⟩ := bootMultiboot_ok hrun
    rcases houtcome with h | ⟨status, h⟩ | ⟨p, e, -, -, -, h⟩ <;> cases h
  · obtain ⟨_, -, hrun⟩ := map_ok hrun
    cases hrun
  · rename_i kernel initrd cmdline htarget
    rcases bootLinux_ok hrun with ⟨status, houtcome⟩ | ⟨handover, houtcome, hboot⟩ <;> cases houtcome
    exact ⟨kernel, initrd, cmdline, htarget, hboot⟩

/-- So is a Multiboot kernel. -/
theorem main_multiboot {p : Prepared} {e : Entered} (hmain : c.main polls f m = .ok (.multiboot p e)) :
    ∃ entry ∈ c.config.entries, ∃ kernel modules fileBuf records, entry.target = .multiboot kernel modules ∧
      c.kernelFile kernel = .ok fileBuf ∧ c.moduleRecords modules = .ok records ∧
      records.all ModuleEntry.fits = true ∧
      prepare c.fw c.machine fileBuf (moduleFiles records) f m = .ok (some p) ∧ enter c.machine p = some e := by
  obtain ⟨entry, hentry, hrun⟩ := main_entry hmain fun s hs => by cases hs
  refine ⟨entry, hentry, ?_⟩
  unfold bootEntry at hrun
  split at hrun
  · rename_i kernel modules htarget
    obtain ⟨fileBuf, records, prepared, hfile, hrecords, hprepare, houtcome⟩ := bootMultiboot_ok hrun
    rcases houtcome with h | ⟨status, h⟩ | ⟨p, e, rfl, hall, henter, h⟩
    · cases h
    · cases h
    · cases h
      exact ⟨kernel, modules, fileBuf, records, htarget, hfile, hrecords, hall, hprepare, henter⟩
  · obtain ⟨_, -, hrun⟩ := map_ok hrun
    cases hrun
  · rcases bootLinux_ok hrun with ⟨status, houtcome⟩ | ⟨handover, houtcome, -⟩ <;> cases houtcome

variable {taken : σ → Nat → Prop}

/-- A Linux kernel that is entered was read. -/
theorem boot_image {readFile : CString16 → Option Buffer} {kernel : CString16} {initrd : Option CString16}
    {cmdline : Str} {s : Linux.State σ} {h : Linux.Handover σ}
    (hboot : Linux.boot c.fw readFile kernel initrd cmdline s = .ok h) : ∃ image, readFile kernel = some image := by
  unfold Linux.boot at hboot
  split at hboot
  · cases hboot
  · rename_i image himage
    exact ⟨image, himage⟩

/-- Whatever is configured, found and pressed: memory that was in use when `main` started, without what Bang itself
runs in, is as it was when a Linux kernel is entered, and when a Multiboot kernel is, unless one of its segments wraps,
but for the place that the trampoline goes to. -/
theorem main_keeps (hfw : c.fw.Lawful taken) (hnull : c.fw.NonNull) (haligned : ∀ q, ¬ taken f q → pageSize ∣ q)
    {a : Nat} (ha : taken f (pageOf a)) :
    (∀ h, c.main polls f m = .ok (.linux h) → h.state.memory a = m a) ∧
      ∀ p e, c.main polls f m = .ok (.multiboot p e) → (∀ seg ∈ p.placed, ¬ seg.Wraps) →
        (p.kernel.bootMode = .protected32 → ¬ c.machine.InCopy a) → e.memory a = m a := by
  constructor
  · intro h hmain
    obtain ⟨-, -, kernel, initrd, cmdline, -, hboot⟩ := main_linux hmain
    obtain ⟨image, himage⟩ := boot_image hboot
    obtain ⟨cl, runs, -, -, howns, -, -⟩ := Linux.boot_received hfw hnull haligned himage hboot
    -- the page is apart from all that was handed out
    have hheld : Linux.Held taken (pageOf a) 1 ⟨f, m, []⟩ := by
      refine ⟨pageOf_dvd a, Nat.one_pos, ?_⟩
      rintro q ⟨k, hk, rfl⟩
      obtain rfl : k = 0 := by omega
      rwa [Nat.zero_mul, Nat.add_zero]
    refine howns.same a fun r hr hin => ?_
    have hapart := (howns.keeps _ _ hheld).2 r hr
    simp only [Linux.RunsApart, Linux.InPages, pageOf, pageSize] at hapart hin
    omega
  · intro p e hmain hwraps hcopy
    obtain ⟨-, -, _, _, _, _, -, -, -, -, hprepare, henter⟩ := main_multiboot hmain
    exact enter_writes hfw hprepare henter hwraps ha hcopy

/-- A Linux kernel that is entered is the file an entry names, at its place with clear bytes behind it; in pages of
their own it finds the command line of the entry, as far as it says it reads one, and the bytes of the initrd, in
however many pieces the firmware reads them. -/
theorem main_linux_received {rest : φ → List UInt8} (hfs : c.files.Delivers rest) {data : φ → Buffer}
    (hopen : ∀ path file, c.openRegular path = some file → c.files.Holds rest file (data file))
    (hfw : c.fw.Lawful taken) (hnull : c.fw.NonNull) (haligned : ∀ q, ¬ taken f q → pageSize ∣ q)
    {h : Linux.Handover σ} (hmain : c.main polls f m = .ok (.linux h)) :
    ∃ entry ∈ c.config.entries, ∃ kernel initrd cmdline, entry.target = .linux kernel initrd cmdline ∧
      ∃ file cl runs, c.openRegular kernel = some file ∧
        Linux.cutCmdline cmdline (LittleEndian.at32 (data file).data Linux.cmdlineSize).toNat = .ok cl ∧
        h.Pages (data file) cl runs ∧ Linux.Owns taken [] ⟨f, m, []⟩ h.state runs ∧
        h.state.memory.Holds h.kernelMem (Linux.setupOf (data file)).region ∧
        h.Finds (fun path => (c.openRegular path).map data) initrd cl := by
  obtain ⟨entry, hentry, kernel, initrd, cmdline, htarget, hboot⟩ := main_linux hmain
  have hcontents : c.contents = fun path => (c.openRegular path).map data :=
    funext fun path => Except.ok.inj ((readFile_contents path).symm.trans (readFile_eq hfs hopen path))
  obtain ⟨image, himage⟩ := boot_image hboot
  have hreceived := Linux.boot_received hfw hnull haligned himage hboot
  rw [hcontents] at himage hreceived
  obtain ⟨file, hfile, rfl⟩ := Option.map_eq_some_iff.1 himage
  obtain ⟨cl, runs, hcl, hpages, howns, hkernel, hfinds⟩ := hreceived
  exact ⟨entry, hentry, kernel, initrd, cmdline, htarget, file, cl, runs, hfile, hcl, hpages, howns, hkernel, hfinds⟩

end

end Computer

/-! ## Two runs -/

/-- A computer with these files on Bang's own volume, of which a first read gives at most so many bytes. -/
def computerWith (limit : Nat) (files : CString16 → Option Buffer) :
    Computer DeviceNode { ns : List DeviceNode // ∀ n ∈ ns, n.Ok } { ns : List DeviceNode // ∀ n ∈ ns, n.Ok } Unit
      Pieces Bump Unit where
  tryFrom := ucs2
  toUppercase c := [c]
  paths := nodeLists
  images := twoNodes
  disks := ⟨none, fun _ => none⟩
  loaded := none
  files := pieces
  volume := .opened
  openPath path := (files path).map fun file => .regular ⟨UInt64.ofNat file.size, file.data, [limit]⟩
  sizes path f size hopen hsize := by
    obtain ⟨file, -, hfile⟩ := Option.map_eq_some_iff.1 hopen
    cases hfile
    cases hsize
    rw [toNat_size]
    exact file.fits
  console := ucs2Console
  screen := ()
  fw := bump.nonNull
  machine := plainMachine

/-- Its file of a Multiboot2 kernel. -/
def kernelFiles (path : CString16) : Option Buffer :=
  if path = cstr16 "\\kernel.bin" then some ⟨mb2Kernel 0x100000, by decide⟩ else none

/-- A kernel at one megabyte, where the first page is in use: of that page, the trampoline's copy is written and the
rest is not. -/
theorem main_keeps_first_page : ∃ p e, (computerWith 1000 kernelFiles).main []
    ⟨fun q => decide (q % 4096 ≠ 0 ∨ q = 0x1000), 0x200000⟩ (fun _ => 7) = .ok (.multiboot p e) ∧
      e.memory 0x1FFF = 7 := by
  have hrun : ((computerWith 1000 kernelFiles).main [] ⟨fun q => decide (q % 4096 ≠ 0 ∨ q = 0x1000), 0x200000⟩
      (fun _ => 7)).map (fun
        | .multiboot p _ => some (p.kernel.bootMode, p.placed)
        | _ => none) = .ok (some (.protected32, [⟨0x100000, 0x1000, 0, 0⟩])) := by
    decide +kernel
  obtain ⟨outcome, hmain, houtcome⟩ := map_ok hrun
  rcases outcome with s | - | status | h | ⟨p, e⟩
  · cases houtcome
  · cases houtcome
  · cases houtcome
  · cases houtcome
  · obtain ⟨hmode, hplaced⟩ : p.kernel.bootMode = .protected32 ∧ p.placed = [⟨0x100000, 0x1000, 0, 0⟩] := by
      simpa using houtcome
    have haligned : ∀ q, ¬ decide (q % 4096 ≠ 0 ∨ q = 0x1000) = true → pageSize ∣ q := fun q hq =>
      Nat.dvd_of_mod_eq_zero (not_not.1 fun hne => hq (decide_eq_true (.inl hne)))
    refine ⟨p, e, hmain, (Computer.main_keeps bump_lawful.nonNull bump.nonNull_nonNull haligned (by decide)).2 p e hmain
      (fun seg hseg hw => ?_) fun _ hin => ?_⟩
    · rw [hplaced] at hseg
      rw [List.mem_singleton.1 hseg] at hw
      exact absurd hw (by decide)
    · have hlen : plainMachine.blob.bytes.length = 162 := List.length_replicate
      have hmachine : (computerWith 1000 kernelFiles).machine = plainMachine := rfl
      have htramp : trampAddr = 0x1000 := rfl
      unfold Machine.InCopy at hin
      rw [hmachine] at hin
      omega

/-- Its files of a Linux kernel with an initrd, and a configuration that names both. -/
def bootFiles (path : CString16) : Option Buffer :=
  if path = cstr16 "\\bang.cfg" then
    some ⟨Linux.utf8 "entry Linux\n  linux \\vmlinuz\n  initrd \\initrd\n  options quiet\n".toList, by decide +kernel⟩
  else Linux.linuxFiles (Linux.bzImage 1 0) path

/-- What is left of a file in pieces. -/
def Pieces.data (f : Pieces) : Buffer :=
  if h : f.rest.length < 2 ^ 63 then ⟨f.rest, h⟩ else ⟨[], by decide⟩

theorem computerWith_open {limit : Nat} {files : CString16 → Option Buffer} (path : CString16) :
    (∀ f, (computerWith limit files).openRegular path = some f → pieces.Holds Pieces.rest f f.data) ∧
      ((computerWith limit files).openRegular path).map Pieces.data = files path := by
  unfold Computer.openRegular
  show (∀ f, ((files path).map _).bind _ = some f → _) ∧ (((files path).map _).bind _).map _ = _
  cases files path with
  | none => exact ⟨nofun, rfl⟩
  | some file =>
    have hdata : Pieces.data ⟨UInt64.ofNat file.size, file.data, [limit]⟩ = file := dif_pos file.fits
    refine ⟨?_, congrArg some hdata⟩
    rintro f ⟨⟩
    exact ⟨congrArg (fun file : Buffer => some (UInt64.ofNat file.size)) hdata.symm, congrArg Buffer.data hdata.symm⟩

/-- A Linux kernel whose file comes in two pieces: it finds the initrd. -/
theorem main_linux_received_initrd : ∃ h, (computerWith 1000 bootFiles).main []
    ⟨fun q => decide (q % 4096 ≠ 0), 0x10000⟩ (fun _ => 0) = .ok (.linux h) ∧
      h.state.memory.load (h.number Linux.ramdiskImage) (h.number Linux.ramdiskSize) = [1, 2, 3] := by
  have hfiles := readFile_eq pieces_delivers fun path => (@computerWith_open 1000 bootFiles path).1
  have hcontents : (computerWith 1000 bootFiles).contents = bootFiles := funext fun path =>
    (Except.ok.inj ((Computer.readFile_contents path).symm.trans (hfiles path))).trans (computerWith_open path).2
  have hconfig : (computerWith 1000 bootFiles).config =
      ⟨5, 0, [⟨"Linux".toList, .linux (cstr16 "\\vmlinuz") (some (cstr16 "\\initrd")) "quiet".toList⟩], true⟩ := by
    decide +kernel
  have hstarts : (Linux.boot bump.nonNull bootFiles (cstr16 "\\vmlinuz") (some (cstr16 "\\initrd")) "quiet".toList
      ⟨⟨fun q => decide (q % 4096 ≠ 0), 0x10000⟩, fun _ => 0, []⟩).toOption.map (·.ramdisk.isSome) = some true := by
    decide +kernel
  have haligned : ∀ q, ¬ decide (q % 4096 ≠ 0) = true → pageSize ∣ q := fun q hq =>
    Nat.dvd_of_mod_eq_zero (not_not.1 fun hne => hq (decide_eq_true hne))
  cases hboot : Linux.boot bump.nonNull bootFiles (cstr16 "\\vmlinuz") (some (cstr16 "\\initrd")) "quiet".toList
      ⟨⟨fun q => decide (q % 4096 ≠ 0), 0x10000⟩, fun _ => 0, []⟩ with
  | error e => rw [hboot] at hstarts; cases hstarts
  | ok h =>
    rw [hboot] at hstarts
    have hsome : h.ramdisk ≠ none := fun hnone => by
      have hplaced : h.ramdisk.isSome = true := Option.some.inj hstarts
      rw [hnone] at hplaced
      cases hplaced
    have hmain : (computerWith 1000 bootFiles).main [] ⟨fun q => decide (q % 4096 ≠ 0), 0x10000⟩ (fun _ => 0) =
        .ok (.linux h) := by
      have hload : (computerWith 1000 bootFiles).load = .ok
          (⟨5, 0, [⟨"Linux".toList, .linux (cstr16 "\\vmlinuz") (some (cstr16 "\\initrd")) "quiet".toList⟩], true⟩,
            ()) := by
        decide +kernel
      have hlinux : (computerWith 1000 bootFiles).bootLinux (cstr16 "\\vmlinuz") (some (cstr16 "\\initrd"))
          "quiet".toList ⟨fun q => decide (q % 4096 ≠ 0), 0x10000⟩ (fun _ => 0) = .ok (.linux h) := by
        refine Computer.bootLinux_shows (by decide +kernel) (fun path hpath => ?_) ?_
        · cases hpath
          decide +kernel
        · rw [hcontents]
          exact hboot
      exact (Computer.main_chosen hload rfl).trans hlinux
    obtain ⟨entry, hentry, kernel, initrd, cmdline, htarget, file, cl, runs, -, -, -, -, -, hfinds⟩ :=
      Computer.main_linux_received pieces_delivers (fun path => (computerWith_open path).1) bump_lawful.nonNull
        bump.nonNull_nonNull haligned hmain
    rw [hconfig] at hentry
    cases List.mem_singleton.1 hentry
    cases htarget
    obtain ⟨path, image, hpath, hfile, hload⟩ := hfinds.initrd hsome
    cases hpath
    rw [(computerWith_open _).2] at hfile
    have hread : bootFiles (cstr16 "\\initrd") = some ⟨[1, 2, 3], by simp⟩ :=
      (if_neg (by decide)).trans ((if_neg (by decide)).trans (if_pos rfl))
    cases hfile.symm.trans hread
    exact ⟨h, hmain, hload⟩

end Bang
