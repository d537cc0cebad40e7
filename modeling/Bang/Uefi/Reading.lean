/-
Reading a directory into a buffer, for any kind of record and any firmware that keeps the rules: a record
that does not fit is not delivered, the caller is told a size, and the next read is at the same record.
-/
import Bang.Uefi.Directory

namespace Bang

/-- What a read gives: the record and the rest, the end, or a size for the buffer. -/
inductive ReadRecord (α : Type)
  | entry (record : α) (rest : List α)
  | done
  | bufferTooSmall (needed : Nat)

/-- A read with a buffer of `size` bytes; `needed` is what the firmware asks for where that is too small. -/
def readRecord {α : Type} (recordSize : α → Nat) (needed : α → Nat → Nat) (records : List α) (size : Nat) :
    ReadRecord α :=
  match records with
  | [] => .done
  | record :: rest => if recordSize record ≤ size then .entry record rest else .bufferTooSmall (needed record size)

section
variable {α : Type} {recordSize : α → Nat} {needed : α → Nat → Nat} {record : α} {rest : List α} {size : Nat}

theorem readRecord_fits (h : recordSize record ≤ size) :
    readRecord recordSize needed (record :: rest) size = .entry record rest :=
  if_pos h

theorem readRecord_tooSmall (h : ¬ recordSize record ≤ size) :
    readRecord recordSize needed (record :: rest) size = .bufferTooSmall (needed record size) :=
  if_neg h

end

/-- A firmware that asks for a larger buffer than it was given. -/
def AsksForMore {α : Type} (recordSize : α → Nat) (needed : α → Nat → Nat) : Prop :=
  ∀ record size, size < recordSize record → size < needed record size

end Bang
