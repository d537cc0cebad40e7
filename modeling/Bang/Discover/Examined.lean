/-
The scan of `\EFI` under any firmware that keeps the rules of reading a directory: a record that does not
fit is read again with a larger buffer until it does, so that the scan ends, and has looked at every
record once, in order.
-/
import Bang.Loop
import Bang.Uefi.Reading
import Bang.Discover.Scan

namespace Bang

/-- The scan of a directory between two reads. `examined` is what the model remembers of it: the records
that were looked at. -/
structure ProbeState where
  records : List FileInfo
  size : Nat
  out : List Found
  examined : List FileInfo

section
variable (toUppercase : Char → Str) (needed : FileInfo → Nat → Nat) (device : Handle) (root : Volume)
  (own : Option (Handle × CString16))

/-- One round of the loop over the records of `\EFI`. -/
def probeRound (s : ProbeState) : Loop.Round ProbeState (List Found × List FileInfo) :=
  match readRecord FileInfo.recordSize needed s.records s.size with
  | .done => .done (s.out, s.examined)
  | .bufferTooSmall n => .next { s with size := n }
  | .entry info rest =>
    .next
      { s with
        records := rest
        out := probeEntry toUppercase device root own info s.out
        examined := s.examined ++ [info] }

/-- What the records add, each looked at once and in order. -/
def examineAll (records : List FileInfo) (out : List Found) : List Found :=
  records.foldl (fun out info => probeEntry toUppercase device root own info out) out

variable {needed}

/-- A record that does not fit is asked for until it does: the buffer grows with each answer. -/
theorem returns_grown (hneeded : AsksForMore FileInfo.recordSize needed) (info : FileInfo) (rest : List FileInfo)
    (out : List Found) (examined : List FileInfo) (size : Nat) :
    ∃ size', info.recordSize ≤ size' ∧ ∀ r,
      (Loop.Returns (probeRound toUppercase needed device root own) ⟨info :: rest, size, out, examined⟩ r ↔
        Loop.Returns (probeRound toUppercase needed device root own) ⟨info :: rest, size', out, examined⟩ r) := by
  induction hmissing : info.recordSize - size using Nat.strong_induction_on generalizing size with
  | _ missing ih =>
    by_cases hfits : info.recordSize ≤ size
    · exact ⟨size, hfits, fun r => Iff.rfl⟩
    · have hgrows := hneeded info size (Nat.not_le.1 hfits)
      obtain ⟨size', hsize', hiff⟩ := ih (info.recordSize - needed info size) (by omega) (needed info size) rfl
      refine ⟨size', hsize', fun r => (Loop.returns_next ?_).trans (hiff r)⟩
      unfold probeRound
      rw [readRecord_tooSmall hfits]

/-- The scan ends, with what every record adds, and has looked at every record. -/
theorem probeRound_returns (hneeded : AsksForMore FileInfo.recordSize needed) (records : List FileInfo) :
    ∀ size out examined,
      Loop.Returns (probeRound toUppercase needed device root own) ⟨records, size, out, examined⟩
        (examineAll toUppercase device root own records out, examined ++ records) := by
  induction records with
  | nil =>
    intro size out examined
    rw [Loop.returns_done (by rfl), List.append_nil]
    rfl
  | cons info rest ih =>
    intro size out examined
    obtain ⟨size', hfits, hiff⟩ := returns_grown toUppercase device root own hneeded info rest out examined size
    rw [hiff]
    have hround : probeRound toUppercase needed device root own ⟨info :: rest, size', out, examined⟩ =
        .next ⟨rest, size', probeEntry toUppercase device root own info out, examined ++ [info]⟩ := by
      unfold probeRound
      rw [readRecord_fits hfits]
    rw [Loop.returns_next hround]
    have hrest := ih size' (probeEntry toUppercase device root own info out) (examined ++ [info])
    rw [List.append_assoc, List.singleton_append] at hrest
    exact hrest

theorem readEntry_done {records : List FileInfo} {size : Nat} (h : readEntry records size = .done) : records = [] := by
  unfold readEntry at h
  split at h
  · rfl
  · split at h <;> cases h

/-- The scan of a firmware that asks for just what the record takes. -/
theorem probeEntries_eq (records : List FileInfo) (size : Nat) (out : List Found) :
    probeEntries toUppercase device root own records size out = examineAll toUppercase device root own records out := by
  induction records, size, out using probeEntries.induct toUppercase device root own with
  | case1 records size out hdone =>
    obtain rfl := readEntry_done hdone
    rw [probeEntries]
    rfl
  | case2 records size out needed hsmall ih =>
    rw [probeEntries]
    split <;> simp_all
  | case3 records size out info rest hentry ih =>
    rw [probeEntries]
    split
    · simp_all
    · simp_all
    · rename_i hrecords
      obtain ⟨rfl, rfl⟩ := ReadEntry.entry.inj (hrecords.symm.trans hentry)
      rw [ih, readEntry_entry hentry]
      rfl

/-- The scan of `\EFI` returns, whatever sizes the firmware asks for, and has looked at every record exactly
once and in order; what is found is what these add. -/
theorem probe_examines (hneeded : AsksForMore FileInfo.recordSize needed) (records : List FileInfo)
    (out : List Found) :
    (∀ r, Loop.Returns (probeRound toUppercase needed device root own) ⟨records, 512, out, []⟩ r ↔
        r = (examineAll toUppercase device root own records out, records)) ∧
      probeEntries toUppercase device root own records 512 out =
        examineAll toUppercase device root own records out := by
  have hreturns := probeRound_returns toUppercase device root own hneeded records 512 out []
  refine ⟨fun r => ⟨fun h => h.unique hreturns, ?_⟩, probeEntries_eq toUppercase device root own records 512 out⟩
  rintro rfl
  exact hreturns

end

/-- A long name between two others, and a firmware that asks for one byte more each time. -/
theorem probe_examines_long : ∃ records : List FileInfo, records.map FileInfo.recordSize = [90, 600, 94] ∧
    ∀ r, Loop.Returns (probeRound (fun c => [c]) (fun _ size => size + 1) 1 ⟨fun _ => none⟩ none)
        ⟨records, 512, [], []⟩ r ↔
      r = (examineAll (fun c => [c]) 1 ⟨fun _ => none⟩ none records [], records) :=
  ⟨[⟨cstr16 "BOOT", true, 90⟩, ⟨List.replicate 259 0x61, true, 600⟩, ⟨cstr16 "fedora", true, 94⟩], rfl,
    (probe_examines _ _ _ _ (fun _ size _ => Nat.lt_succ_self size) _ _).1⟩

/-! ## What a volume adds -/

/-- The records of `\EFI`, if it is a directory. -/
def efiRecords (root : Volume) : List FileInfo :=
  match root.openPath (cstr16 "\\EFI") with
  | some (.dir efi) => efi
  | _ => []

/-- The directories under `\EFI` that are looked into. -/
def vendors (records : List FileInfo) : List CString16 :=
  (records.filter fun info => info.isDirectory && !skipped info.fileName).map FileInfo.fileName

section
variable (toUppercase : Char → Str) (device : Handle) (root : Volume)

/-- Windows, where it is there. -/
def windowsFound : List Found :=
  if root.exists windows then [⟨"Windows Boot Manager".toList, device, windows⟩] else []

theorem vendors_cons (info : FileInfo) (records : List FileInfo) :
    vendors (info :: records) = vendors [info] ++ vendors records := by
  unfold vendors
  rw [← List.map_append, ← List.filter_append, List.singleton_append]

/-- What one record adds. -/
theorem probeEntry_eq (own : Option (Handle × CString16)) (info : FileInfo) (out : List Found) :
    probeEntry toUppercase device root own info out =
      out ++ (vendors [info]).filterMap fun vendor => probeLoaders toUppercase device root own vendor loaders := by
  unfold probeEntry vendors
  by_cases hdir : info.isDirectory = true
  · by_cases hskip : skipped info.fileName = true
    · rw [if_neg (not_not.2 hdir), if_pos hskip, List.filter_cons_of_neg (by simp [hskip])]
      exact (List.append_nil out).symm
    · rw [if_neg (not_not.2 hdir), if_neg hskip, List.filter_cons_of_pos (by simp [hdir, hskip])]
      cases hloader : probeLoaders toUppercase device root own info.fileName loaders with
      | none =>
        simp [hloader]
      | some found =>
        simp [hloader]
  · rw [if_pos hdir, List.filter_cons_of_neg (by simp [hdir])]
    exact (List.append_nil out).symm

/-- What the records of a directory add, one after another. -/
theorem examineAll_eq (own : Option (Handle × CString16)) (records : List FileInfo) (out : List Found) :
    examineAll toUppercase device root own records out =
      out ++ (vendors records).filterMap fun vendor => probeLoaders toUppercase device root own vendor loaders := by
  induction records generalizing out with
  | nil => exact (List.append_nil out).symm
  | cons info records ih =>
    refine (ih _).trans ?_
    simp only
    rw [probeEntry_eq, List.append_assoc, ← List.filterMap_append, ← vendors_cons]

/-- What a volume adds: Windows, and what is offered for each directory. -/
theorem probe_eq (own : Option (Handle × CString16)) (out : List Found) :
    probe toUppercase device root own out = out ++ windowsFound device root ++
      (vendors (efiRecords root)).filterMap fun vendor => probeLoaders toUppercase device root own vendor loaders := by
  have hpushed : (if root.exists windows then out ++ [⟨"Windows Boot Manager".toList, device, windows⟩] else out) =
      out ++ windowsFound device root := by
    unfold windowsFound
    split
    · rfl
    · exact (List.append_nil _).symm
  unfold probe efiRecords
  rw [hpushed]
  simp only
  rcases hopen : root.openPath (cstr16 "\\EFI") with - | efi | -
  · exact (List.append_nil _).symm
  · exact (probeEntries_eq ..).trans (examineAll_eq ..)
  · exact (List.append_nil _).symm

end

end Bang
