/-
Loading boot modules (`src/modules.rs`): the buffer of their names, and what is done with a file
of the modules directory once it is open. Which files those are is the scan's business, and the
firmware's; here they are a list, in the order the scan finds them.
-/
import Bang.Elf.Header
import Bang.Multiboot.Info
import Bang.Uefi.Firmware

namespace Bang

/-! ## Names -/

/-- Bytes of `MOD_NAMES`. -/
def modNamesCap : Nat := 4096

/-- The static buffer of names, in the program's own memory, and `MOD_NAMES_POS`. -/
structure Names where
  memory : Mem UInt8
  pos : Nat

/-- `(*buf)[idx] = b`, which the language checks. -/
def putName (modNames : Nat) (m : Mem UInt8) (idx : Nat) (b : UInt8) : Except Stop (Mem UInt8) :=
  if idx < modNamesCap then .ok (m.store (modNames + idx) [b])
  else .error (.panic ("index out of bounds: the len is 4096 but the index is " ++ toString idx))

/-- Convert UCS-2 to ASCII, up to a NUL, as far as there is room for a terminator behind it. -/
def storeChars (modNames pos : Nat) : List UInt16 → (written : Nat) → Mem UInt8 → Except Stop (Mem UInt8 × Nat)
  | [], written, m => .ok (m, written)
  | ch :: chs, written, m =>
    if ch = 0 then .ok (m, written)
    else if pos + written ≥ modNamesCap - 1 then .ok (m, written)
    else do
      let m ← putName modNames m (pos + written) (if ch < 128 then ch.toUInt8 else 0x3F) -- `?`
      storeChars modNames pos chs (written + 1) m

/-- Store a module name in the static buffer and return its address. -/
def storeName (modNames : Nat) (name : List UInt16) (s : Names) : Except Stop (UInt64 × Names) :=
  let pos := s.pos
  if pos ≥ modNamesCap then .ok (UInt64.ofNat (modNames + (modNamesCap - 1)), s)
  else do
    let (m, written) ← storeChars modNames pos name 0 s.memory
    let m ← putName modNames m (pos + written) 0 -- null terminator
    pure (UInt64.ofNat (modNames + pos), ⟨m, pos + written + 1⟩)

/-! ## Modules -/

/-- A regular file of the modules directory: its name, the size its directory entry states, and
what reading it delivers, if it can be read. -/
structure ModuleFile where
  name : List UInt16
  fileSize : UInt64
  content : Option (List UInt8)

/-- `regular_file.read(buf).expect(…)`: at most as many bytes as there is room for. -/
def ModuleFile.read (file : ModuleFile) (room : Nat) : Except Stop (List UInt8) :=
  match file.content with
  | some bs => .ok (bs.take room)
  | none => .error (.panic "Failed to read module file")

/-- A module that was loaded, and the bytes it was given. -/
structure LoadedModule where
  info : ModuleInfo
  data : List UInt8

/-- What loading modules changes. `handed` is what the model remembers of it: the runs of pages
the firmware handed out. -/
structure ModulesState (σ : Type) where
  firmware : σ
  memory : Mem UInt8
  names : Names
  handed : List (Nat × Nat)

section
variable {σ : Type} (fw : Firmware σ) (modNames : Nat)

/-- The pages of a module: `(file_size + 4095) / 4096`. -/
def modulePages (fileSize : UInt64) : Nat := (fileSize.toNat + 4095) % 2 ^ 64 / 4096

/-- Load one file: pages below four gigabytes, cleared; its bytes; and its name. A file that is
empty, that there is no room for, or that is shorter than its entry states, is skipped. -/
def loadModule (file : ModuleFile) (s : ModulesState σ) : Except Stop (Option LoadedModule × ModulesState σ) :=
  let numPages := modulePages file.fileSize
  if file.fileSize = 0 then .ok (none, s)
  else match fw.allocateBelow s.firmware 0xFFFFFFFF numPages with
  | (none, f) => .ok (none, { s with firmware := f })
  | (some addr, f) => do
    let m := s.memory.store addr (List.replicate (numPages * pageSize) 0)
    let data ← file.read (numPages * pageSize)
    let m := m.store addr data
    let s := { s with firmware := f, memory := m, handed := s.handed ++ [(addr, numPages)] }
    if data.length ≠ file.fileSize.toNat then .ok (none, s)
    else do
      let (namePtr, names) ← storeName modNames file.name s.names
      .ok (some ⟨⟨namePtr, UInt64.ofNat addr, file.fileSize⟩, data⟩, { s with names := names })

/-- Load every file as a boot module. -/
def loadModules : List ModuleFile → ModulesState σ → Except Stop (List LoadedModule × ModulesState σ)
  | [], s => .ok ([], s)
  | file :: files, s => do
    let (mod, s) ← loadModule fw modNames file s
    let (mods, s) ← loadModules files s
    .ok (mod.toList ++ mods, s)

end

/-! ## Every name is terminated -/

/-- The last byte of the buffer is never anything but a terminator. -/
structure Names.Ok (modNames : Nat) (s : Names) : Prop where
  last : s.memory (modNames + (modNamesCap - 1)) = 0
  pos : s.pos ≤ modNamesCap

/-- An address of the buffer. -/
def InNames (modNames : Nat) (p : UInt64) : Prop := modNames ≤ p.toNat ∧ p.toNat < modNames + modNamesCap

/-- Every address of the buffer is the address of a terminated string. -/
theorem Names.Ok.nulTerminated {modNames : Nat} {s : Names} (h : s.Ok modNames) (hm : modNames + modNamesCap ≤ 2 ^ 64)
    {p : UInt64} (hp : InNames modNames p) : s.memory.NulTerminated p.toNat := by
  obtain ⟨h1, h2⟩ := hp
  refine ⟨modNames + (modNamesCap - 1) - p.toNat, by simp only [modNamesCap] at *; omega, ?_⟩
  rw [show p.toNat + (modNames + (modNamesCap - 1) - p.toNat) = modNames + (modNamesCap - 1) by
    simp only [modNamesCap] at *; omega]
  exact h.last

theorem putName_eq {modNames idx : Nat} (m : Mem UInt8) (b : UInt8) (h : idx < modNamesCap) :
    putName modNames m idx b = .ok (m.store (modNames + idx) [b]) := if_pos h

/-- The byte a character of a name is stored as. -/
def asciiOf (ch : UInt16) : UInt8 := if ch < 128 then ch.toUInt8 else 0x3F

/-- A name up to its NUL, as it is stored. -/
def asciiName (name : List UInt16) : List UInt8 := (name.takeWhile (· ≠ 0)).map asciiOf

/-- What is kept of a name where the buffer is used up to `pos`. -/
def keptName (name : List UInt16) (pos : Nat) : List UInt8 := (asciiName name).take (modNamesCap - 1 - pos)

theorem asciiName_cons {ch : UInt16} (h : ch ≠ 0) (chs : List UInt16) :
    asciiName (ch :: chs) = asciiOf ch :: asciiName chs := by
  unfold asciiName
  rw [List.takeWhile_cons_of_pos (by simpa using h), List.map_cons]

theorem length_keptName (name : List UInt16) (pos : Nat) : (keptName name pos).length ≤ modNamesCap - 1 - pos := by
  unfold keptName
  rw [List.length_take]
  exact Nat.min_le_left _ _

/-- Characters are stored one behind the other, as far as there is room for a terminator. -/
theorem storeChars_eq (modNames pos : Nat) (name : List UInt16) :
    ∀ written m, pos + written ≤ modNamesCap - 1 → storeChars modNames pos name written m =
      .ok (m.store (modNames + (pos + written)) (keptName name (pos + written)),
        written + (keptName name (pos + written)).length) := by
  induction name with
  | nil =>
    intro written m _
    simp [storeChars, keptName, asciiName]
  | cons ch chs ih =>
    intro written m h
    rw [storeChars]
    by_cases h0 : ch = 0
    · simp [h0, keptName, asciiName]
    · by_cases hfull : pos + written ≥ modNamesCap - 1
      · rw [if_neg h0, if_pos hfull]
        have hnone : keptName (ch :: chs) (pos + written) = [] := by
          rw [keptName, Nat.sub_eq_zero_of_le hfull, List.take_zero]
        simp [hnone]
      · have hkept : keptName (ch :: chs) (pos + written) = asciiOf ch :: keptName chs (pos + (written + 1)) := by
          unfold keptName
          rw [asciiName_cons h0, show modNamesCap - 1 - (pos + written) = modNamesCap - 1 - (pos + (written + 1)) + 1 by omega,
            List.take_succ_cons]
        rw [if_neg h0, if_neg hfull, putName_eq _ _ (by simp only [modNamesCap] at *; omega)]
        refine (ih (written + 1) _ (by omega)).trans ?_
        rw [hkept, show modNames + (pos + (written + 1)) = modNames + (pos + written) + [asciiOf ch].length from rfl]
        rw [show (if ch < 128 then ch.toUInt8 else 0x3F) = asciiOf ch from rfl, Mem.store_store, List.length_cons,
          Nat.add_assoc, Nat.add_comm 1]
        rfl

/-- A name is put at the next free byte, with its terminator, as long as there is one. -/
theorem storeName_eq (modNames : Nat) (name : List UInt16) {s : Names} (h : s.pos < modNamesCap) :
    storeName modNames name s = .ok (UInt64.ofNat (modNames + s.pos),
      ⟨s.memory.store (modNames + s.pos) (keptName name s.pos ++ [0]),
        s.pos + (keptName name s.pos).length + 1⟩) := by
  have hlen := length_keptName name s.pos
  unfold storeName
  simp only [if_neg (Nat.not_le.2 h)]
  rw [storeChars_eq modNames s.pos name 0 s.memory (by omega), Nat.add_zero, Nat.zero_add]
  show (putName modNames _ (s.pos + (keptName name s.pos).length) 0 >>= _) = _
  rw [putName_eq _ _ (by simp only [modNamesCap] at *; omega), ← Nat.add_assoc, ← Mem.store_store]
  rfl

theorem storeName_full (modNames : Nat) (name : List UInt16) {s : Names} (h : modNamesCap ≤ s.pos) :
    storeName modNames name s = .ok (UInt64.ofNat (modNames + (modNamesCap - 1)), s) :=
  if_pos h

theorem toNat_names {modNames : Nat} (hm : modNames + modNamesCap ≤ 2 ^ 64) {i : Nat} (hi : i < modNamesCap) :
    (UInt64.ofNat (modNames + i)).toNat = modNames + i :=
  UInt64.toNat_ofNat_of_lt' (show modNames + i < 2 ^ 64 by omega)

theorem storeName_spec {modNames : Nat} (hm : modNames + modNamesCap ≤ 2 ^ 64) (name : List UInt16) {s : Names}
    (h : s.Ok modNames) : ∃ p s', storeName modNames name s = .ok (p, s') ∧ InNames modNames p ∧ s'.Ok modNames := by
  have hptr : ∀ i < modNamesCap, InNames modNames (UInt64.ofNat (modNames + i)) := by
    intro i hi
    have := toNat_names hm hi
    exact ⟨by omega, by omega⟩
  by_cases hfull : modNamesCap ≤ s.pos
  · exact ⟨_, _, storeName_full modNames name hfull, hptr _ (by decide), h⟩
  · have hlen := length_keptName name s.pos
    refine ⟨_, _, storeName_eq modNames name (Nat.not_le.1 hfull), hptr _ (Nat.not_le.1 hfull), ?_, ?_⟩
    · show s.memory.store (modNames + s.pos) (keptName name s.pos ++ [0]) (modNames + (modNamesCap - 1)) = 0
      rw [← Mem.store_store]
      by_cases hat : s.pos + (keptName name s.pos).length = modNamesCap - 1
      · rw [Nat.add_assoc, hat]
        exact Mem.store_at _ _ [0] 0 (by simp)
      · rw [Mem.store_above _ _ (by rw [List.length_singleton]; omega), Mem.store_above _ _ (by omega)]
        exact h.last
    · show s.pos + (keptName name s.pos).length + 1 ≤ modNamesCap
      simp only [modNamesCap] at *
      omega

end Bang
