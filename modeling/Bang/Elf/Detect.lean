/-
Which Multiboot header a kernel file has (`detect_multiboot_version` of `src/elf.rs`): the second
version's is looked for first, at every eighth byte, the first version's at every fourth. A magic with a
bad checksum is passed over.
-/
import Bang.Memory.Stride
import Bang.Elf.Header

namespace Bang

open LittleEndian

/-! ## Headers in a file -/

/-- A Multiboot2 header at an offset: the magic, and four words that sum to 0 modulo 2^32. -/
def Mb2Header (file : Buffer) (off : Nat) : Prop :=
  at32 file.data off = mb2HeaderMagic ∧
    ((at32 file.data off).toNat + (at32 file.data (off + 4)).toNat + (at32 file.data (off + 8)).toNat +
      (at32 file.data (off + 12)).toNat) % 2 ^ 32 = 0

/-- A Multiboot1 header at an offset: the magic, and three words that sum to 0 modulo 2^32. -/
def Mb1Header (file : Buffer) (off : Nat) : Prop :=
  at32 file.data off = mb1HeaderMagic ∧
    ((at32 file.data off).toNat + (at32 file.data (off + 4)).toNat + (at32 file.data (off + 8)).toNat) % 2 ^ 32 = 0

instance (file : Buffer) : DecidablePred (Mb2Header file) := fun _ => inferInstanceAs (Decidable (_ ∧ _))
instance (file : Buffer) : DecidablePred (Mb1Header file) := fun _ => inferInstanceAs (Decidable (_ ∧ _))

/-- The file has a Multiboot2 header: at a multiple of 8, inside the file and its first 32768 bytes. -/
def HasMb2Header (file : Buffer) : Prop := ∃ off, 8 ∣ off ∧ off + 16 ≤ min file.size 32768 ∧ Mb2Header file off

/-- The file has a Multiboot1 header: at a multiple of 4, inside the file and its first 8192 bytes. -/
def HasMb1Header (file : Buffer) : Prop := ∃ off, 4 ∣ off ∧ off + 12 ≤ min file.size 8192 ∧ Mb1Header file off

section
variable {file : Buffer}

theorem Buffer.u32_eq {off : Nat} (h : off + 4 ≤ file.size) : file.u32 off = .ok (at32 file.data off) := by
  rw [Buffer.u32, Buffer.read_eq h]
  rfl

theorem beq_zero_eq (x : UInt32) : (x == 0) = decide (x.toNat = 0) := by
  rw [beq_eq_decide]
  exact decide_eq_decide.2 UInt32.toNat_inj.symm

theorem mb2HeaderAt_eq {off : Nat} (h : off + 16 ≤ file.size) :
    mb2HeaderAt file off = .ok (decide (Mb2Header file off)) := by
  unfold mb2HeaderAt Mb2Header
  rw [Buffer.u32_eq (by omega), Buffer.u32_eq (by omega), Buffer.u32_eq (by omega), Buffer.u32_eq (by omega)]
  by_cases hmagic : at32 file.data off = mb2HeaderMagic
  · simp [hmagic, beq_zero_eq, UInt32.toNat_add, bind, Except.bind, pure, Except.pure]
  · simp [hmagic, bind, Except.bind, pure, Except.pure]

theorem mb1HeaderAt_eq {off : Nat} (h : off + 12 ≤ file.size) :
    mb1HeaderAt file off = .ok (decide (Mb1Header file off)) := by
  unfold mb1HeaderAt Mb1Header
  rw [Buffer.u32_eq (by omega), Buffer.u32_eq (by omega), Buffer.u32_eq (by omega)]
  by_cases hmagic : at32 file.data off = mb1HeaderMagic
  · simp [hmagic, beq_zero_eq, UInt32.toNat_add, bind, Except.bind, pure, Except.pure]
  · simp [hmagic, bind, Except.bind, pure, Except.pure]

/-! ## The two scans -/

theorem findMb2_eq (limit off : Nat) : findMb2 file limit off =
    Stride.search (mb2HeaderAt file) 8 16 (by decide) limit off := by
  induction off using findMb2.induct limit with
  | case1 off h ih => rw [findMb2, if_pos h, Stride.search, if_pos h, ih]
  | case2 off h => rw [findMb2, if_neg h, Stride.search, if_neg h]

theorem findMb1_eq (limit off : Nat) : findMb1 file limit off =
    Stride.search (mb1HeaderAt file) 4 12 (by decide) limit off := by
  induction off using findMb1.induct limit with
  | case1 off h ih => rw [findMb1, if_pos h, Stride.search, if_pos h, ih]
  | case2 off h => rw [findMb1, if_neg h, Stride.search, if_neg h]

/-- From the start of the file on, a scan looks at the multiples of its stride. -/
theorem exists_visits_iff {stride size limit : Nat} {p : Nat → Prop} :
    (∃ o, Stride.Visits stride size limit 0 o ∧ p o) ↔ ∃ o, stride ∣ o ∧ o + size ≤ limit ∧ p o := by
  refine exists_congr fun o => ?_
  rw [← and_assoc]
  refine and_congr_left fun _ => ?_
  constructor
  · rintro ⟨k, rfl, hk⟩
    rw [Nat.zero_add] at hk ⊢
    exact ⟨Nat.dvd_mul_left .., hk⟩
  · rintro ⟨⟨k, rfl⟩, hk⟩
    exact ⟨k, by rw [Nat.zero_add, Nat.mul_comm], hk⟩

variable (file)

theorem findMb2_spec : ∃ found, findMb2 file (min file.size 32768) 0 = .ok found ∧ (found = true ↔ HasMb2Header file) := by
  obtain ⟨found, hsearch, hfound⟩ := @Stride.search_eq _ (mb2HeaderAt file) 8 16 (by decide) (Mb2Header file) _ _
    (fun o h => mb2HeaderAt_eq (le_trans h (Nat.min_le_left _ _))) 0
  exact ⟨found, (findMb2_eq _ _).trans hsearch, hfound.trans exists_visits_iff⟩

theorem findMb1_spec : ∃ found, findMb1 file (min file.size 8192) 0 = .ok found ∧ (found = true ↔ HasMb1Header file) := by
  obtain ⟨found, hsearch, hfound⟩ := @Stride.search_eq _ (mb1HeaderAt file) 4 12 (by decide) (Mb1Header file) _ _
    (fun o h => mb1HeaderAt_eq (le_trans h (Nat.min_le_left _ _))) 0
  exact ⟨found, (findMb1_eq _ _).trans hsearch, hfound.trans exists_visits_iff⟩

end

/-! ## The version -/

/-- The version of a file: 2 if it has a Multiboot2 header, else 1 if it has a Multiboot1 header, else 0. -/
theorem detectMultibootVersion_iff (file : Buffer) :
    (detectMultibootVersion file = .ok 2 ↔ HasMb2Header file) ∧
    (detectMultibootVersion file = .ok 1 ↔ ¬ HasMb2Header file ∧ HasMb1Header file) ∧
    (detectMultibootVersion file = .ok 0 ↔ ¬ HasMb2Header file ∧ ¬ HasMb1Header file) := by
  obtain ⟨found2, h2, hiff2⟩ := findMb2_spec file
  obtain ⟨found1, h1, hiff1⟩ := findMb1_spec file
  have hdetect : detectMultibootVersion file = .ok (if found2 then 2 else if found1 then 1 else 0) := by
    unfold detectMultibootVersion
    rw [h2, h1]
    cases found2 <;> cases found1 <;> rfl
  rw [← hiff2, ← hiff1, hdetect]
  refine ⟨?_, ?_, ?_⟩ <;> cases found2 <;> cases found1 <;> simp

end Bang
