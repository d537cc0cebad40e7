/-
The ACPI root pointer, from the firmware's configuration table to the kernel (`find_rsdp` of
`src/multiboot.rs`): no more is read to find it than what it says of itself
is there, and the tag it is passed on in has those bytes.
-/
import Bang.Memory.Traced
import Bang.Elf.Header
import Bang.Multiboot.Mb2Build

namespace Bang

open LittleEndian

/-! ## Finding it -/

/-- An entry of the firmware's configuration table. -/
structure ConfigTableEntry where
  guid : BitVec 128
  address : Nat

def acpiGuid : BitVec 128 := 0xEB9D2D302D8811D39A160090273FC14D#128
def acpi2Guid : BitVec 128 := 0x8868E871E4F111D3BC220080C73C8881#128

/-- A computation that reads memory: an address and a length for each read. -/
abbrev Fetching (α : Type) := Traced (Nat × Nat) Stop α

/-- The `n` bytes at an address. -/
def fetch (m : Mem UInt8) (a n : Nat) : Fetching (List UInt8) := ⟨[(a, n)], .ok (m.load a n)⟩

/-- The address the firmware published: the second revision's if it has one, the first's if not. -/
def rsdpAt (entries : List ConfigTableEntry) : Option Nat :=
  let find guid := (entries.find? (·.guid == guid)).map ConfigTableEntry.address
  (find acpi2Guid).or (find acpiGuid)

/-- `RSD PTR `, with the blank. -/
def rsdpSignature : List UInt8 := [0x52, 0x53, 0x44, 0x20, 0x50, 0x54, 0x52, 0x20]

/-- How much is copied, by the revision and, if that is the second or a later one, the length behind it. -/
def rsdpLen (m : Mem UInt8) (a : Nat) : Fetching { len : Nat // len = rsdpV1 ∨ len = rsdpV2 } := do
  let revision ← fetch m (a + 15) 1
  if 2 ≤ revision.headD 0 then
    let said ← fetch m (a + 20) 4
    pure (if (word32 said).toNat < rsdpV2 then ⟨rsdpV1, .inl rfl⟩ else ⟨rsdpV2, .inr rfl⟩)
  else pure ⟨rsdpV1, .inl rfl⟩

/-- Bytes copied over the front of a clear buffer. -/
def Rsdp.copy (bytes : List UInt8) (len : { len : Nat // len = rsdpV1 ∨ len = rsdpV2 }) : Rsdp where
  bytes := (bytes ++ List.replicate rsdpV2 0).take rsdpV2
  len
  room := by
    rw [List.length_take, List.length_append, List.length_replicate]
    omega
  form := len.2

/-- Find the ACPI root pointer. -/
def findRsdp (entries : List ConfigTableEntry) (m : Mem UInt8) : Fetching (Option Rsdp) :=
  match rsdpAt entries with
  | none => pure none
  | some a =>
    if a = 0 then pure none
    else do
      if (← fetch m a 8) ≠ rsdpSignature then pure none
      else
        let len ← rsdpLen m a
        let bytes ← fetch m a len
        pure (some (.copy bytes len))

/-! ## What is there -/

/-- The bytes that a root pointer says are there: those of the first revision, and of a later one the length and
as many as the length says. -/
def rsdpExtent (m : Mem UInt8) (a : Nat) : Nat :=
  if m (a + 15) < 2 then rsdpV1 else max 24 (m.read32 (a + 20)).toNat

/-- The form a root pointer is passed on in. -/
def rsdpForm (m : Mem UInt8) (a : Nat) : Nat := if rsdpExtent m a < rsdpV2 then rsdpV1 else rsdpV2

/-- There is a root pointer at an address the firmware published. -/
def Published (entries : List ConfigTableEntry) (m : Mem UInt8) (a : Nat) : Prop :=
  rsdpAt entries = some a ∧ a ≠ 0 ∧ m.load a 8 = rsdpSignature

theorem Published.unique {entries : List ConfigTableEntry} {m : Mem UInt8} {a a' : Nat} (h : Published entries m a)
    (h' : Published entries m a') : a = a' :=
  Option.some.inj (h.1.symm.trans h'.1)

theorem fetch_result (m : Mem UInt8) (a n : Nat) : (fetch m a n).result = .ok (m.load a n) := rfl

theorem load_one (m : Mem UInt8) (a : Nat) : m.load a 1 = [m a] := rfl

theorem rsdpLen_result (m : Mem UInt8) (a : Nat) : ∃ len, (rsdpLen m a).result = .ok len ∧ len.1 = rsdpForm m a := by
  unfold rsdpLen rsdpForm rsdpExtent
  rw [Traced.bind_result, fetch_result, load_one]
  by_cases hrev : 2 ≤ m (a + 15)
  · have hnot : ¬ m (a + 15) < 2 := UInt8.not_lt.2 hrev
    have hlist : 2 ≤ [m (a + 15)].headD 0 := hrev
    simp only [if_neg hnot]
    show ∃ len, (if 2 ≤ [m (a + 15)].headD 0 then _ else _ : Fetching _).result = .ok len ∧ _
    rw [if_pos hlist, Traced.bind_result, fetch_result]
    show ∃ len, Except.ok (if (m.read32 (a + 20)).toNat < rsdpV2 then _ else _) = Except.ok len ∧ _
    refine ⟨_, rfl, ?_⟩
    by_cases hsaid : (m.read32 (a + 20)).toNat < rsdpV2
    · rw [if_pos hsaid, if_pos (by simp only [rsdpV2] at *; omega)]
    · rw [if_neg hsaid, if_neg (by simp only [rsdpV2] at *; omega)]
  · have hlt : m (a + 15) < 2 := UInt8.not_le.1 hrev
    refine ⟨⟨rsdpV1, .inl rfl⟩, ?_, ?_⟩
    · show (if 2 ≤ [m (a + 15)].headD 0 then _ else _ : Fetching _).result = _
      rw [if_neg (show ¬ 2 ≤ [m (a + 15)].headD 0 from hrev)]
      rfl
    · rw [if_pos hlt, if_pos (by decide)]

/-- A root pointer that is published is found, in the form it has. -/
theorem findRsdp_published {entries : List ConfigTableEntry} {m : Mem UInt8} {a : Nat} (h : Published entries m a) :
    ∃ rsdp, (findRsdp entries m).result = .ok (some rsdp) ∧ rsdp.len = rsdpForm m a ∧
      rsdp.bytes.take rsdp.len = m.load a (rsdpForm m a) := by
  obtain ⟨hat, hne, hsig⟩ := h
  obtain ⟨len, hlen, hform⟩ := rsdpLen_result m a
  have hlength : (m.load a len).length = len := Mem.length_load ..
  have hle : (len : Nat) ≤ rsdpV2 := by
    rcases len.2 with h | h
    · rw [h]
      decide
    · exact h.le
  refine ⟨.copy (m.load a len) len, ?_, hform, ?_⟩
  · unfold findRsdp
    simp only [hat, if_neg hne]
    rw [Traced.bind_result, fetch_result, hsig]
    show (if rsdpSignature ≠ rsdpSignature then _ else _ : Fetching _).result = _
    rw [if_neg (not_not.2 rfl), Traced.bind_result, hlen]
    rfl
  · show ((m.load a len ++ _).take rsdpV2).take len = _
    rw [List.take_take, Nat.min_eq_left hle, List.take_left' hlength, hform]

/-- What is found was published. -/
theorem findRsdp_some {entries : List ConfigTableEntry} {m : Mem UInt8} {rsdp : Rsdp}
    (h : (findRsdp entries m).result = .ok (some rsdp)) : ∃ a, Published entries m a := by
  unfold findRsdp at h
  split at h
  · cases h
  · rename_i a hat
    split at h
    · cases h
    · rename_i hne
      rw [Traced.bind_result, fetch_result] at h
      by_cases hsig : m.load a 8 = rsdpSignature
      · exact ⟨a, hat, hne, hsig⟩
      · have h : (if m.load a 8 ≠ rsdpSignature then pure none else _ : Fetching _).result = .ok (some rsdp) := h
        rw [if_pos hsig] at h
        cases h

theorem rsdpV1_le_extent (m : Mem UInt8) (a : Nat) : rsdpV1 ≤ rsdpExtent m a := by
  unfold rsdpExtent
  split
  · exact Nat.le_refl _
  · exact le_trans (by decide) (le_max_left ..)

theorem rsdpForm_le_extent (m : Mem UInt8) (a : Nat) : rsdpForm m a ≤ rsdpExtent m a := by
  unfold rsdpForm
  split
  · exact rsdpV1_le_extent m a
  · omega

theorem rsdpLen_reads {m : Mem UInt8} {a : Nat} {r : Nat × Nat} (h : r ∈ (rsdpLen m a).reads) :
    a ≤ r.1 ∧ r.1 + r.2 ≤ a + rsdpExtent m a := by
  have hsome := rsdpV1_le_extent m a
  unfold rsdpV1 at hsome
  rcases Traced.mem_bind_reads h with h | ⟨revision, hrevision, h⟩
  · cases List.mem_singleton.1 h
    exact ⟨Nat.le_add_right .., by omega⟩
  · cases hrevision
    by_cases hrev : 2 ≤ [m (a + 15)].headD 0
    · have h : r ∈ (if 2 ≤ [m (a + 15)].headD 0 then _ else _ : Fetching _).reads := h
      rw [if_pos hrev] at h
      rcases Traced.mem_bind_reads h with h | ⟨said, -, h⟩
      · cases List.mem_singleton.1 h
        have hlong : 24 ≤ rsdpExtent m a := by
          have hnot : ¬ m (a + 15) < 2 := UInt8.not_lt.2 hrev
          unfold rsdpExtent
          rw [if_neg hnot]
          exact le_max_left ..
        exact ⟨Nat.le_add_right .., by omega⟩
      · cases h
    · have h : r ∈ (if 2 ≤ [m (a + 15)].headD 0 then _ else _ : Fetching _).reads := h
      rw [if_neg hrev] at h
      cases h

/-- Nothing else is read than what a root pointer says is there. -/
theorem findRsdp_reads {entries : List ConfigTableEntry} {m : Mem UInt8} {r : Nat × Nat}
    (h : r ∈ (findRsdp entries m).reads) : ∃ a, rsdpAt entries = some a ∧ a ≤ r.1 ∧ r.1 + r.2 ≤ a + rsdpExtent m a := by
  unfold findRsdp at h
  split at h
  · cases h
  · rename_i a hat
    refine ⟨a, hat, ?_⟩
    have hsome := rsdpV1_le_extent m a
    unfold rsdpV1 at hsome
    split at h
    · cases h
    · rcases Traced.mem_bind_reads h with h | ⟨signature, -, h⟩
      · cases List.mem_singleton.1 h
        exact ⟨Nat.le_refl _, by omega⟩
      · split at h
        · cases h
        · rcases Traced.mem_bind_reads h with h | ⟨len, hlen, h⟩
          · exact rsdpLen_reads h
          · obtain ⟨len', hlen', hform⟩ := rsdpLen_result m a
            cases hlen.symm.trans hlen'
            have hfits := rsdpForm_le_extent m a
            rcases Traced.mem_bind_reads h with h | ⟨bytes, -, h⟩
            · cases List.mem_singleton.1 h
              exact ⟨Nat.le_refl _, by rw [hform]; omega⟩
            · cases h

/-- A root pointer of the second revision, and what it says there is of it. -/
def rsdpBytes : List UInt8 :=
  rsdpSignature ++ [0x2A, 0x42, 0x4F, 0x43, 0x48, 0x53, 0x20, 2, 0, 0, 0, 0, 36, 0, 0, 0] ++ List.replicate 12 0

theorem published_rsdpBytes : Published [⟨acpiGuid, 0⟩, ⟨acpi2Guid, 0xE0000⟩]
    (Mem.store (fun _ => 0) 0xE0000 rsdpBytes) 0xE0000 :=
  ⟨by decide, by decide, by decide +kernel⟩

theorem rsdpExtent_rsdpBytes : rsdpExtent (Mem.store (fun _ => 0) 0xE0000 rsdpBytes) 0xE0000 = 36 := by
  decide +kernel

/-- The last read of a root pointer of the second revision is within its 36 bytes. -/
theorem findRsdp_reads_second : ∃ a, rsdpAt [⟨acpiGuid, 0⟩, ⟨acpi2Guid, 0xE0000⟩] = some a ∧ a ≤ 0xE0000 ∧
    0xE0000 + 36 ≤ a + rsdpExtent (Mem.store (fun _ => 0) 0xE0000 rsdpBytes) a :=
  findRsdp_reads (r := (0xE0000, 36)) (by decide +kernel)

/-! ## Passing it on -/

/-- The root pointer at `a`, as a tag: all of what it says is there, or the first revision's part. -/
def rsdpTagAt (m : Mem UInt8) (a : Nat) : Mb2Tag :=
  if rsdpExtent m a < rsdpV2 then .acpiOld (m.load a rsdpV1) else .acpiNew (m.load a rsdpV2)

theorem rsdpTag_eq {entries : List ConfigTableEntry} {m : Mem UInt8} {a : Nat} (h : Published entries m a) {rsdp : Rsdp}
    (hfind : (findRsdp entries m).result = .ok (some rsdp)) : rsdpTag rsdp = rsdpTagAt m a := by
  obtain ⟨rsdp', hfind', hlen, hbytes⟩ := findRsdp_published h
  cases hfind.symm.trans hfind'
  rw [hlen] at hbytes
  unfold rsdpTag rsdpTagAt
  rw [hlen]
  unfold rsdpForm at hbytes ⊢
  by_cases hshort : rsdpExtent m a < rsdpV2
  · rw [if_pos hshort] at hbytes
    rw [if_pos hshort, if_pos hshort, if_neg (by decide), hbytes]
  · rw [if_neg hshort] at hbytes
    rw [if_neg hshort, if_neg hshort, if_pos rfl, hbytes]

end Bang
