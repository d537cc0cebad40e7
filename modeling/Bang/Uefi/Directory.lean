/-
Volumes as the firmware shows them, which are not part of this repository: what a path leads to, and
how a directory is read, one record at a time into a buffer. A record that does not fit is not lost:
the firmware says how large it is, and stays where it is.
-/
import Bang.Config.Parse

namespace Bang

/-- The record of a file in its directory. -/
structure FileInfo where
  fileName : CString16
  isDirectory : Bool
  /-- The bytes of the record, its name included. -/
  recordSize : Nat
  deriving DecidableEq, Repr

/-- A file that was opened: a directory at its first record, or a regular file. -/
inductive FileType
  | dir (records : List FileInfo)
  | regular

/-- A volume: what a path leads to, if it can be opened. -/
structure Volume where
  openPath : CString16 → Option FileType

/-- What reading the next record of a directory gives: the record and the rest, the end, or how large
the buffer has to be. -/
inductive ReadEntry
  | entry (info : FileInfo) (rest : List FileInfo)
  | done
  | bufferTooSmall (needed : Nat)

/-- `read_entry`, with a buffer of `size` bytes. -/
def readEntry (records : List FileInfo) (size : Nat) : ReadEntry :=
  match records with
  | [] => .done
  | info :: rest => if info.recordSize ≤ size then .entry info rest else .bufferTooSmall info.recordSize

theorem readEntry_entry {records rest : List FileInfo} {size : Nat} {info : FileInfo}
    (h : readEntry records size = .entry info rest) : records = info :: rest := by
  unfold readEntry at h
  split at h
  · cases h
  · split at h <;> cases h
    rfl

/-- A buffer that is too small is told the size of the first record. -/
theorem readEntry_bufferTooSmall {records : List FileInfo} {size needed : Nat}
    (h : readEntry records size = .bufferTooSmall needed) :
    size < needed ∧ ∃ info rest, records = info :: rest ∧ needed = info.recordSize := by
  unfold readEntry at h
  split at h
  · cases h
  · split at h <;> cases h
    rename_i hsize
    exact ⟨Nat.not_le.1 hsize, _, _, rfl, rfl⟩

end Bang
