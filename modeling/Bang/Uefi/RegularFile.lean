/-
Regular files as the firmware reads them, which is not part of this repository. A read asks for some bytes and
may be given fewer: a firmware that keeps the rules gives the bytes of a file in order and each of them once, and
some of them at every read while there are any. How many it gives is up to the firmware.
-/
import Mathlib.Data.List.Basic
import Mathlib.Tactic.Common

namespace Bang

/-- The files of the firmware, which are `φ` once they are open. -/
structure FileSystem (φ : Type) where
  /-- The size that the file's information states, if it can be had. -/
  fileSize : φ → Option UInt64
  /-- `read`, into a buffer of `room` bytes: what it gives, or `none` for an error, and the file behind it. -/
  read : φ → (room : Nat) → Option (List UInt8) × φ

/-! ## What UEFI promises -/

/-- Every read gives some of what is left of the file, which is `rest`. -/
structure FileSystem.Delivers {φ : Type} (fs : FileSystem φ) (rest : φ → List UInt8) : Prop where
  splits : ∀ f room, ∃ bs, (fs.read f room).1 = some bs ∧ rest f = bs ++ rest (fs.read f room).2
  atMost : ∀ f room bs, (fs.read f room).1 = some bs → bs.length ≤ room
  nonempty : ∀ f room, 0 < room → rest f ≠ [] → (fs.read f room).1 ≠ some []

section
variable {φ : Type} {fs : FileSystem φ} {rest : φ → List UInt8}

/-- A read, and the file behind it. -/
theorem FileSystem.Delivers.read_eq (h : fs.Delivers rest) (f : φ) (room : Nat) :
    ∃ bs f', fs.read f room = (some bs, f') ∧ rest f = bs ++ rest f' ∧ bs.length ≤ room ∧
      (0 < room → rest f ≠ [] → bs ≠ []) := by
  obtain ⟨bs, hread, hsplit⟩ := h.splits f room
  refine ⟨bs, (fs.read f room).2, Prod.ext hread rfl, hsplit, h.atMost f room bs hread, fun hroom hrest => ?_⟩
  rintro rfl
  exact h.nonempty f room hroom hrest hread

end

/-! ## Files in pieces -/

/-- A file that is given in pieces: one byte more than the first limit, and so on; behind the limits, all there is
room for. -/
structure Pieces where
  size : UInt64
  rest : List UInt8
  limits : List Nat

def pieces : FileSystem Pieces where
  fileSize f := some f.size
  read f room :=
    match f.limits with
    | [] => (some (f.rest.take room), { f with rest := f.rest.drop room })
    | limit :: limits =>
      (some (f.rest.take (min room (limit + 1))), ⟨f.size, f.rest.drop (min room (limit + 1)), limits⟩)

theorem pieces_delivers : pieces.Delivers Pieces.rest := by
  have hpos : ∀ (bs : List UInt8) n, 0 < n → bs ≠ [] → bs.take n ≠ [] := by
    intro bs n hn hbs hnil
    rcases List.take_eq_nil_iff.1 hnil with rfl | rfl
    · exact Nat.lt_irrefl _ hn
    · exact hbs rfl
  constructor
  · rintro ⟨size, bytes, _ | ⟨limit, limits⟩⟩ room
    · exact ⟨_, rfl, (List.take_append_drop ..).symm⟩
    · exact ⟨_, rfl, (List.take_append_drop ..).symm⟩
  · rintro ⟨size, bytes, _ | ⟨limit, limits⟩⟩ room bs ⟨⟩
    · exact List.length_take_le ..
    · exact Nat.le_trans (List.length_take_le ..) (Nat.min_le_left ..)
  · rintro ⟨size, bytes, _ | ⟨limit, limits⟩⟩ room hroom hrest hnil
    · exact hpos _ _ hroom hrest (Option.some.inj hnil)
    · exact hpos _ (min room (limit + 1)) (by omega) hrest (Option.some.inj hnil)

end Bang
