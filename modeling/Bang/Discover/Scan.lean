/-
Finding what is installed (`src/discover.rs`): every volume the firmware hands over is looked at, for
Windows at the path it always uses, and for one loader in each directory under `\EFI`. The mapping of
letters to capitals is a table of the language's library, and a parameter here.
-/
import Bang.Uefi.Directory
import Bang.Uefi.Names

namespace Bang

/-! ## What is looked at -/

/-- A loader found on some volume. -/
structure Found where
  title : Str
  device : Handle
  path : CString16
  deriving DecidableEq, Repr

/-- The volumes: the handles the firmware lists, if it does, and the volumes it hands over. -/
structure Disks where
  handles : Option (List Handle)
  volume : Handle → Option Volume

/-- What the firmware says of an image it has loaded: its volume, and the text of its file path. -/
structure LoadedImage where
  device : Option Handle
  filePath : Option CString16

/-- Windows, at the one path it always uses. -/
def windows : CString16 := cstr16 "\\EFI\\Microsoft\\Boot\\bootmgfw.efi"

/-- Filenames that mean that a bootloader lives here, in the order they are preferred. -/
def loaders : List CString16 :=
  [cstr16 "shimx64.efi", cstr16 "grubx64.efi", cstr16 "systemd-bootx64.efi", cstr16 "refind_x64.efi",
    cstr16 "BOOTX64.EFI"]

/-- Where Bang itself was loaded from. -/
def ownImage (loaded : Option LoadedImage) : Option (Handle × CString16) := do
  let loaded ← loaded
  let device ← loaded.device
  let path ← loaded.filePath
  some (device, path)

/-- Whether a path leads to a regular file. -/
def Volume.exists (root : Volume) (path : CString16) : Bool :=
  match root.openPath path with
  | some .regular => true
  | _ => false

/-- Whether a device path's text ends with this file path. -/
def sameFile (devicePathText file : CString16) : Bool :=
  (toAsciiUppercase file).isSuffixOf (toAsciiUppercase devicePathText)

/-! ## One volume -/

section
variable (toUppercase : Char → Str)

/-- What to call a loader: by its directory, but for two boot managers with names of their own. -/
def pretty (vendor loader : CString16) : Str :=
  if SameName loader (cstr16 "systemd-bootx64.efi") then "systemd-boot".toList
  else if SameName loader (cstr16 "refind_x64.efi") then "rEFInd".toList
  else if SameName vendor (cstr16 "BOOT") then "EFI default loader".toList
  else
    match vendor.map fun c => Char.ofNat c.toNat with
    | [] => []
    | first :: chars => toUppercase first ++ chars

/-- The path of a loader in a directory under `\EFI`. -/
def loaderPath (vendor loader : CString16) : CString16 := cstr16 "\\EFI\\" ++ vendor ++ cstr16 "\\" ++ loader

/-- The loader of a directory: the first that is there, unless it is Bang. -/
def probeLoaders (device : Handle) (root : Volume) (own : Option (Handle × CString16)) (vendor : CString16) :
    List CString16 → Option Found
  | [] => none
  | loader :: rest =>
    let path := loaderPath vendor loader
    if ¬ root.exists path then probeLoaders device root own vendor rest
    else if own.any fun (d, p) => d = device && sameFile p path then none
    else some ⟨pretty toUppercase vendor loader, device, path⟩

/-- The directories under `\EFI` that are not looked into. -/
def skipped (name : CString16) : Bool := name = cstr16 "." || name = cstr16 ".." || name = cstr16 "Microsoft"

/-- What a record of `\EFI` adds. -/
def probeEntry (device : Handle) (root : Volume) (own : Option (Handle × CString16)) (info : FileInfo)
    (out : List Found) : List Found :=
  if ¬ info.isDirectory then out
  else if skipped info.fileName then out
  else out ++ (probeLoaders toUppercase device root own info.fileName loaders).toList

/-- The records of `\EFI`, read into a buffer that grows where one does not fit. -/
def probeEntries (device : Handle) (root : Volume) (own : Option (Handle × CString16)) (records : List FileInfo)
    (size : Nat) (out : List Found) : List Found :=
  match _h : readEntry records size with
  | .done => out
  | .bufferTooSmall needed => probeEntries device root own records needed out
  | .entry info rest => probeEntries device root own rest size (probeEntry toUppercase device root own info out)
termination_by (records.length, (records.head?.map FileInfo.recordSize).getD 0 - size)
decreasing_by
  · obtain ⟨hlt, info, rest, rfl, rfl⟩ := readEntry_bufferTooSmall _h
    refine Prod.Lex.right _ ?_
    simp only [List.head?_cons, Option.map_some, Option.getD_some]
    omega
  · rw [readEntry_entry _h]
    exact Prod.Lex.left _ _ (Nat.lt_succ_self _)

/-- One volume. -/
def probe (device : Handle) (root : Volume) (own : Option (Handle × CString16)) (out : List Found) : List Found :=
  let out := if root.exists windows then out ++ [⟨"Windows Boot Manager".toList, device, windows⟩] else out
  match root.openPath (cstr16 "\\EFI") with
  | some (.dir efi) => probeEntries toUppercase device root own efi 512 out
  | _ => out

/-- Everything bootable the firmware can reach. -/
def scan (disks : Disks) (loaded : Option LoadedImage) : List Found :=
  match disks.handles with
  | none => []
  | some handles =>
    let own := ownImage loaded
    handles.foldl (fun out device =>
      match disks.volume device with
      | none => out
      | some root => probe toUppercase device root own out) []

end

end Bang
