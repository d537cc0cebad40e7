/-
The setup header of a Linux kernel (`src/linux.rs`): fields at fixed offsets of the file, read with
checks, and the checks that say whether the image can be started by the EFI handover protocol.
-/
import Bang.Elf.Kernel

namespace Bang.Linux

open LittleEndian

/-! ## The fields, by offset -/

def setupSects : Nat := 0x1F1
def bootFlag : Nat := 0x1FE
def headerMagic : Nat := 0x202
def version : Nat := 0x206
def typeOfLoader : Nat := 0x210
def loadflags : Nat := 0x211
def code32Start : Nat := 0x214
def ramdiskImage : Nat := 0x218
def ramdiskSize : Nat := 0x21C
def cmdLinePtr : Nat := 0x228
def kernelAlignment : Nat := 0x230
def relocatable : Nat := 0x234
def xloadflags : Nat := 0x236
def cmdlineSize : Nat := 0x238
def prefAddress : Nat := 0x258
def initSize : Nat := 0x260
def handoverOffset : Nat := 0x264

/-- `boot_flag`, the last two bytes of the first sector. -/
def bootFlagMagic : UInt16 := 0xAA55
/-- `"HdrS"`, which says that there is a setup header worth reading. -/
def hdrsMagic : UInt32 := 0x53726448
/-- The oldest protocol version with a handover entry point. -/
def minVersion : UInt16 := 0x020B
/-- `XLF_EFI_HANDOVER_64`: there is a 64-bit handover entry. -/
def xlfEfiHandover64 : UInt16 := (1 : UInt16) <<< 3
/-- `LOADED_HIGH`: the kernel is loaded above the old 1 MiB line. -/
def loadflagLoadedHigh : UInt8 := 0x01
/-- `type_of_loader` for a loader with no assigned number. -/
def loaderUnknown : UInt8 := 0xFF
/-- The 64-bit entry sits one sector past the 32-bit one. -/
def handover64Offset : Nat := 512

/-! ## Reading them -/

/-- What `boot` returns when it does. -/
inductive Status
  | notFound
  | loadError
  | unsupported
  | outOfResources
  deriving DecidableEq, Repr

/-- How `boot` ends without starting the kernel. -/
inductive Failure
  | status (status : Status)
  | stop (why : Stop)
  deriving DecidableEq, Repr

/-- `if condition { return status; }`. -/
def refuse (condition : Bool) (status : Status) : Except Failure Unit :=
  if condition then .error (.status status) else .ok ()

theorem refuse_ok {condition : Bool} {status : Status} {u : Unit} (h : refuse condition status = .ok u) :
    condition = false := by
  cases condition with
  | false => rfl
  | true => cases h

/-- `b[lo..hi]`. -/
def slice (b : Buffer) (lo hi : Nat) : Except Failure (List UInt8) :=
  if lo ≤ hi ∧ hi ≤ b.size then .ok ((b.data.drop lo).take (hi - lo)) else .error (.stop .outOfRange)

theorem slice_ok {b : Buffer} {lo hi : Nat} {bs : List UInt8} (h : slice b lo hi = .ok bs) :
    lo ≤ hi ∧ hi ≤ b.size ∧ bs = (b.data.drop lo).take (hi - lo) := by
  unfold slice at h
  split at h
  · rename_i hin
    cases h
    exact ⟨hin.1, hin.2, rfl⟩
  · cases h

theorem slice_length {b : Buffer} {lo hi : Nat} {bs : List UInt8} (h : slice b lo hi = .ok bs) :
    bs.length = hi - lo := by
  obtain ⟨hlo, hhi, rfl⟩ := slice_ok h
  have hsize : b.data.length = b.size := rfl
  rw [List.length_take, List.length_drop]
  omega

def u8At (b : Buffer) (o : Nat) : Except Failure UInt8 := (slice b o (o + 1)).map fun bs => bs.headD 0
def u16At (b : Buffer) (o : Nat) : Except Failure UInt16 := (slice b o (o + 2)).map word16
def u32At (b : Buffer) (o : Nat) : Except Failure UInt32 := (slice b o (o + 4)).map word32
def u64At (b : Buffer) (o : Nat) : Except Failure UInt64 := (slice b o (o + 8)).map word64

/-- The byte at offset `o`. -/
def byteAt (b : Buffer) (o : Nat) : UInt8 := b.data.getD o 0

theorem slice_map_ok {β : Type} {b : Buffer} {o n : Nat} {f : List UInt8 → β} {x : β}
    (h : (slice b o (o + n)).map f = .ok x) : x = f ((b.data.drop o).take n) := by
  cases hs : slice b o (o + n) with
  | error e => rw [hs] at h; cases h
  | ok bs =>
    rw [hs] at h
    cases h
    rw [(slice_ok hs).2.2, Nat.add_sub_cancel_left]

theorem u8At_ok {b : Buffer} {o : Nat} {x : UInt8} (h : u8At b o = .ok x) : x = byteAt b o := by
  rw [slice_map_ok h, byteAt, List.headD_eq_head?_getD, List.head?_take, if_neg Nat.one_ne_zero, List.head?_drop]
  exact (List.getD_eq_getElem?_getD ..).symm

theorem u32At_ok {b : Buffer} {o : Nat} {x : UInt32} (h : u32At b o = .ok x) : x = at32 b.data o := slice_map_ok h
theorem u64At_ok {b : Buffer} {o : Nat} {x : UInt64} (h : u64At b o = .ok x) : x = at64 b.data o := slice_map_ok h

/-! ## The checks -/

/-- What `boot` takes from the header of an image it goes on with. -/
structure Setup where
  handoverOffset : Nat
  /-- The protected-mode kernel, behind the setup sectors. -/
  kernelBytes : List UInt8
  initSize : Nat
  alignment : Nat
  relocatable : Bool
  prefAddress : Nat
  deriving DecidableEq, Repr

/-- Where the kernel proper starts: behind the first sector and `sects` more, of which 0 means 4. -/
def kernelOffset (sects : UInt8) : Nat := ((if sects = 0 then 4 else sects.toNat) + 1) * 512

/-- The checks of the header, and its fields. -/
def readSetup (image : Buffer) : Except Failure Setup := do
  -- enough of a file to hold a setup header at all
  let () ← refuse (image.size < 0x1000) .loadError
  let flag ← u16At image bootFlag
  let magic ← u32At image headerMagic
  let () ← refuse (flag ≠ bootFlagMagic || magic ≠ hdrsMagic) .loadError
  let version ← u16At image version
  let () ← refuse (version < minVersion) .unsupported
  let xloadflags ← u16At image xloadflags
  let () ← refuse (xloadflags &&& xlfEfiHandover64 = 0) .unsupported
  let handoverOffset ← u32At image handoverOffset
  let sects ← u8At image setupSects
  let () ← refuse (kernelOffset sects ≥ image.size) .loadError
  let initSize ← u32At image initSize
  let alignment ← u32At image kernelAlignment
  let relocatable ← u8At image relocatable
  let prefAddress ← u64At image prefAddress
  pure ⟨handoverOffset.toNat, image.data.drop (kernelOffset sects), initSize.toNat, alignment.toNat,
    relocatable ≠ 0, prefAddress.toNat⟩

/-- The fields of an image, wherever they are. -/
def setupOf (image : Buffer) : Setup :=
  ⟨(at32 image.data handoverOffset).toNat, image.data.drop (kernelOffset (byteAt image setupSects)),
    (at32 image.data initSize).toNat, (at32 image.data kernelAlignment).toNat, byteAt image relocatable ≠ 0,
    (at64 image.data prefAddress).toNat⟩

/-- An image that passes the checks: it holds a header, and a kernel behind it. -/
theorem readSetup_ok {image : Buffer} {setup : Setup} (h : readSetup image = .ok setup) :
    setup = setupOf image ∧ 0x1000 ≤ image.size ∧ kernelOffset (byteAt image setupSects) < image.size := by
  unfold readSetup at h
  obtain ⟨_, hsize, h⟩ := bind_ok h
  obtain ⟨_, -, h⟩ := bind_ok h
  obtain ⟨_, -, h⟩ := bind_ok h
  obtain ⟨_, -, h⟩ := bind_ok h
  obtain ⟨_, -, h⟩ := bind_ok h
  obtain ⟨_, -, h⟩ := bind_ok h
  obtain ⟨_, -, h⟩ := bind_ok h
  obtain ⟨_, -, h⟩ := bind_ok h
  obtain ⟨_, hhandover, h⟩ := bind_ok h
  obtain ⟨_, hsects, h⟩ := bind_ok h
  obtain ⟨_, hkernel, h⟩ := bind_ok h
  obtain ⟨_, hinit, h⟩ := bind_ok h
  obtain ⟨_, halignment, h⟩ := bind_ok h
  obtain ⟨_, hrelocatable, h⟩ := bind_ok h
  obtain ⟨_, hpref, h⟩ := bind_ok h
  cases u32At_ok hhandover
  cases u8At_ok hsects
  cases u32At_ok hinit
  cases u32At_ok halignment
  cases u8At_ok hrelocatable
  cases u64At_ok hpref
  cases h
  have hsize := of_decide_eq_false (refuse_ok hsize)
  have hkernel := of_decide_eq_false (refuse_ok hkernel)
  exact ⟨rfl, Nat.not_lt.1 hsize, Nat.not_le.1 hkernel⟩

end Bang.Linux
