/-
What a Multiboot2 information structure says, and a reader of it: the tags as data, their bytes
as records of a tag chain, and the typed reading of a record, which gives back every tag it is
written from. None of this is taken from the builder; it is what the builder is compared with.
-/
import Bang.Memory.TagChain
import Bang.Multiboot.Info
import Mathlib.Data.List.Basic

namespace Bang

open LittleEndian TagChain

/-! ## Tags as data -/

/-- An entry of the memory map tag. -/
structure Mb2MmapEntry where
  baseAddr : UInt64
  length : UInt64
  entryType : UInt32
  deriving DecidableEq, Repr

/-- A tag of the information structure. -/
inductive Mb2Tag
  | mmap (entrySize entryVersion : UInt32) (entries : List Mb2MmapEntry)
  | module (modStart modEnd : UInt32) (name : List UInt8)
  | framebuffer (fb : FbInfo)
  | acpiOld (rsdp : List UInt8)
  | acpiNew (rsdp : List UInt8)
  | terminator
  deriving DecidableEq, Repr

/-! ## Tags as records -/

/-- The 24 bytes of a memory map entry, its reserved word clear. -/
def Mb2MmapEntry.bytes (e : Mb2MmapEntry) : List UInt8 :=
  u64 e.baseAddr ++ (u64 e.length ++ (u32 e.entryType ++ u32 0))

@[simp] theorem Mb2MmapEntry.length_bytes (e : Mb2MmapEntry) : e.bytes.length = 24 := by
  simp [Mb2MmapEntry.bytes]

/-- The record of a tag. -/
def Mb2Tag.record : Mb2Tag → Tag
  | .mmap size version entries =>
    ⟨6, u32 size ++ (u32 version ++ (entries.map Mb2MmapEntry.bytes).flatten)⟩
  | .module start stop name => ⟨3, u32 start ++ (u32 stop ++ (name ++ [0]))⟩
  | .framebuffer fb =>
    ⟨8, u64 fb.addr ++ (u32 fb.pitch ++ (u32 fb.width ++ (u32 fb.height ++
      [fb.bpp, fb.fbType, 0, fb.redPos, fb.redSize, fb.greenPos, fb.greenSize, fb.bluePos,
        fb.blueSize])))⟩
  | .acpiOld rsdp => ⟨14, rsdp⟩
  | .acpiNew rsdp => ⟨15, rsdp⟩
  | .terminator => ⟨0, []⟩

/-! ## Reading records -/

/-- The entries in `bs`, one every `stride` bytes; `none` when the last one is cut short. -/
def readMmapEntries (stride : Nat) (bs : List UInt8) : Option (List Mb2MmapEntry) :=
  if bs = [] then some []
  else if 24 ≤ stride ∧ stride ≤ bs.length then
    (readMmapEntries stride (bs.drop stride)).map (⟨at64 bs 0, at64 bs 8, at32 bs 16⟩ :: ·)
  else none
termination_by bs.length
decreasing_by simp; omega

/-- The tag a record stands for. -/
def Mb2Tag.ofRecord (t : Tag) : Option Mb2Tag :=
  let bs := t.payload
  if t.type = 6 ∧ 8 ≤ bs.length then
    (readMmapEntries (at32 bs 0).toNat (bs.drop 8)).map (.mmap (at32 bs 0) (at32 bs 4))
  else if t.type = 3 ∧ 0 ∈ bs.drop 8 then
    some (.module (at32 bs 0) (at32 bs 4) ((bs.drop 8).takeWhile (· ≠ 0)))
  else if t.type = 8 then
    match bs.drop 20 with
    | [bpp, fbType, _, redPos, redSize, greenPos, greenSize, bluePos, blueSize] =>
      some (.framebuffer ⟨at64 bs 0, at32 bs 8, at32 bs 12, at32 bs 16, bpp, fbType, redPos, redSize,
        greenPos, greenSize, bluePos, blueSize⟩)
    | _ => none
  else if t.type = 14 ∧ bs.length = 20 then some (.acpiOld bs)
  else if t.type = 15 ∧ bs.length = 36 then some (.acpiNew bs)
  else if t.type = 0 ∧ bs = [] then some .terminator
  else none

/-- The tags of the structure at `base`: the records from offset 8 up to its `total_size`, each
read as a tag. -/
def readMb2Info (m : Mem UInt8) (base : Nat) : Option (List Mb2Tag) := do
  let total := (m.read32 base).toNat
  let records ← TagChain.read 8 m base total 8
  records.mapM Mb2Tag.ofRecord

/-! ## The typed reading gives back every tag -/

/-- What a tag has to satisfy for its record to be readable. -/
def Mb2Tag.Ok : Mb2Tag → Prop
  | .mmap size _ _ => size = 24
  | .module _ _ name => 0 ∉ name
  | .framebuffer _ => True
  | .acpiOld rsdp => rsdp.length = 20
  | .acpiNew rsdp => rsdp.length = 36
  | .terminator => True

theorem readMmapEntries_flatten (entries : List Mb2MmapEntry) :
    readMmapEntries 24 (entries.map Mb2MmapEntry.bytes).flatten = some entries := by
  induction entries with
  | nil => rw [readMmapEntries]; simp
  | cons e entries ih =>
    have hne : ((e :: entries).map Mb2MmapEntry.bytes).flatten ≠ [] := by
      simp [Mb2MmapEntry.bytes, u32, bytes]
    have hlen : 24 ≤ ((e :: entries).map Mb2MmapEntry.bytes).flatten.length := by simp
    have hdrop : ((e :: entries).map Mb2MmapEntry.bytes).flatten.drop 24 =
        (entries.map Mb2MmapEntry.bytes).flatten := by
      rw [List.map_cons, List.flatten_cons, List.drop_left' e.length_bytes]
    rw [readMmapEntries, if_neg hne, if_pos ⟨le_refl _, hlen⟩, hdrop, ih]
    simp [Mb2MmapEntry.bytes, List.append_assoc]

theorem takeWhile_name (name : List UInt8) (h : 0 ∉ name) :
    (name ++ [0]).takeWhile (· ≠ 0) = name := by
  rw [List.takeWhile_append_of_pos]
  · simp
  · intro b hb
    simpa using fun he : b = 0 => h (he ▸ hb)

theorem Mb2Tag.ofRecord_record {t : Mb2Tag} (h : t.Ok) : Mb2Tag.ofRecord t.record = some t := by
  cases t with
  | mmap size version entries =>
    cases h
    simp [Mb2Tag.record, Mb2Tag.ofRecord, readMmapEntries_flatten]
    omega
  | module start stop name =>
    have hn := takeWhile_name name h
    simp only [ne_eq, decide_not] at hn
    simp [Mb2Tag.record, Mb2Tag.ofRecord, hn]
  | framebuffer fb => simp [Mb2Tag.record, Mb2Tag.ofRecord]
  | acpiOld rsdp => simp [Mb2Tag.record, Mb2Tag.ofRecord, show rsdp.length = 20 from h]
  | acpiNew rsdp => simp [Mb2Tag.record, Mb2Tag.ofRecord, show rsdp.length = 36 from h]
  | terminator => simp [Mb2Tag.record, Mb2Tag.ofRecord]

theorem mapM_ofRecord {ts : List Mb2Tag} (h : ∀ t ∈ ts, t.Ok) :
    (ts.map Mb2Tag.record).mapM Mb2Tag.ofRecord = some ts := by
  induction ts with
  | nil => rfl
  | cons t ts ih =>
    rw [List.map_cons, List.mapM_cons, Mb2Tag.ofRecord_record (h t (List.mem_cons_self ..)),
      ih fun u hu => h u (List.mem_cons_of_mem _ hu)]
    rfl

/-- A memory that holds a structure's total size and its records reads as its tags. -/
theorem readMb2Info_eq {m : Mem UInt8} {base : Nat} {ts : List Mb2Tag} (hok : ∀ t ∈ ts, t.Ok)
    (hsize : ∀ t ∈ ts, t.record.size < 2 ^ 32)
    (htotal : (m.read32 base).toNat = 8 + (encode 8 (ts.map Mb2Tag.record)).length)
    (hm : m.Holds (base + 8) (encode 8 (ts.map Mb2Tag.record))) : readMb2Info m base = some ts := by
  have hr := read_encode 8 m base (ts.map Mb2Tag.record)
    (by intro t ht; obtain ⟨u, hu, rfl⟩ := List.mem_map.1 ht; exact hsize u hu) 8 hm
  unfold readMb2Info
  rw [htotal]
  simp only [hr, Option.bind_eq_bind, Option.bind_some]
  exact mapM_ofRecord hok

end Bang
