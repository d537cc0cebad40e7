/-
Booting Linux (`boot` of `src/linux.rs`), from the bytes of its files: the kernel is placed, a page of
`boot_params` is made of its setup header, and the command line and the initrd are put where that page
says. Reading a file and the firmware's allocator are parameters.
-/
import Bang.Config.Parse
import Bang.Linux.Setup
import Bang.Uefi.Firmware

namespace Bang.Linux

open LittleEndian

/-! ## Numbers -/

/-- `usize::div_ceil`. -/
def divCeil (a b : Nat) : Nat := if a % b = 0 then a / b else a / b + 1

/-- `usize::next_multiple_of`, of the release build. -/
def nextMultipleOf (a k : Nat) : Nat := if a % k = 0 then a else (a + (k - a % k)) % 2 ^ 64

/-! ## The command line -/

/-- The bytes of a text. -/
def utf8 (s : Str) : List UInt8 := s.flatMap String.utf8EncodeChar

/-- `String::truncate`, of a text with more than `n` bytes: its characters up to there, if byte `n` does not
fall within one. -/
def truncate : Str → (n : Nat) → Except Failure Str
  | _, 0 => .ok []
  | [], _ + 1 => .error (.stop (.panic "assertion failed: self.is_char_boundary(new_len)"))
  | c :: cs, n + 1 =>
    if c.utf8Size ≤ n + 1 then (truncate cs (n + 1 - c.utf8Size)).map (c :: ·)
    else .error (.stop (.panic "assertion failed: self.is_char_boundary(new_len)"))

/-- The command line the kernel is given: not longer than its `cmdline_size`, unless that is 0. -/
def cutCmdline (cmdline : Str) (max : Nat) : Except Failure Str :=
  if max > 0 ∧ (utf8 cmdline).length > max then truncate cmdline max else .ok cmdline

/-! ## Memory -/

/-- What `boot` changes: the firmware and the memory. `granted` is what the model remembers of it: the
address and the pages of every allocation. -/
structure State (σ : Type) where
  firmware : σ
  memory : Mem UInt8
  granted : List (Nat × Nat)

/-- A write to `bp`, the page at `params` taken as 4096 bytes. -/
def put (params o : Nat) (bs : List UInt8) (m : Mem UInt8) : Except Failure (Mem UInt8) :=
  if o + bs.length ≤ 4096 then .ok (m.store (params + o) bs) else .error (.stop .outOfRange)

def putU32 (params o : Nat) (v : UInt32) (m : Mem UInt8) : Except Failure (Mem UInt8) := put params o (u32 v) m

section
variable {σ : Type} (fw : Firmware σ) (readFile : CString16 → Option Buffer)

/-- Allocate pages below 4 GiB. -/
def allocLow (bytes : Nat) (s : State σ) : Option Nat × State σ :=
  let pages := max (divCeil bytes 4096) 1
  match fw.allocateBelow s.firmware 0x100000000 pages with
  | (none, f) => (none, { s with firmware := f })
  | (some p, f) => (some p, { s with firmware := f, granted := s.granted ++ [(p, pages)] })

/-- What the kernel needs in memory: it decompresses into the region it is loaded to. -/
def Setup.need (setup : Setup) : Nat := max setup.initSize setup.kernelBytes.length

/-- Where the kernel goes: below 4 GiB and aligned, or where it says. -/
def placeKernel (setup : Setup) (s : State σ) : Except Failure (Nat × State σ) :=
  if setup.relocatable then
    match allocLow fw ((setup.need + setup.alignment) % 2 ^ 64) s with
    | (some addr, s) => .ok (if setup.alignment > 1 then nextMultipleOf addr setup.alignment else addr, s)
    | (none, _) => .error (.status .outOfResources)
  else
    let pages := divCeil setup.need 4096
    match fw.allocateAt s.firmware setup.prefAddress pages with
    | (true, f) =>
      .ok (setup.prefAddress, { s with firmware := f, granted := s.granted ++ [(setup.prefAddress, pages)] })
    | (false, _) => .error (.status .outOfResources)

/-- The kernel in memory, with clear bytes behind it. -/
def copyKernel (setup : Setup) (kernelMem : Nat) (m : Mem UInt8) : Mem UInt8 :=
  (m.store kernelMem (List.replicate setup.need 0)).store kernelMem setup.kernelBytes

/-- Where the header stops: 0x202 plus the byte at 0x201, within the file and the page. -/
def hdrEnd (image : Buffer) (b : UInt8) : Nat := min (min (headerMagic + b.toNat) image.size) 4096

/-- `boot_params`: a zeroed page with the setup header copied into it at the offsets it has in the file. -/
def bootParams (image : Buffer) (s : State σ) : Except Failure (Nat × State σ) := do
  match allocLow fw 4096 s with
  | (none, _) => .error (.status .outOfResources)
  | (some params, s) =>
    let b ← u8At image 0x201
    let header ← slice image setupSects (hdrEnd image b)
    let m ← put params setupSects header (s.memory.store params (List.replicate 4096 0))
    pure (params, { s with memory := m })

/-- The command line, as NUL-terminated text the kernel can find. -/
def placeCmdline (image : Buffer) (cmdline : Str) (params : Nat) (s : State σ) : Except Failure (Nat × State σ) := do
  let size ← u32At image cmdlineSize
  let cl ← cutCmdline cmdline size.toNat
  match allocLow fw ((utf8 cl).length + 1) s with
  | (none, _) => .error (.status .outOfResources)
  | (some cmdMem, s) =>
    let m ← putU32 params cmdLinePtr (UInt32.ofNat cmdMem)
      ((s.memory.store cmdMem (utf8 cl)).store (cmdMem + (utf8 cl).length) [0])
    pure (cmdMem, { s with memory := m })

/-- The initrd, if there is to be one and it can be read and placed; where it is, and its length. -/
def placeInitrd (initrdPath : Option CString16) (params : Nat) (s : State σ) :
    Except Failure (Option (Nat × Nat) × State σ) :=
  match initrdPath with
  | none => .ok (none, s)
  | some path =>
    match readFile path with
    -- booting without it is worth trying
    | none => .ok (none, s)
    | some initrd =>
      match allocLow fw initrd.size s with
      | (none, s) => .ok (none, s)
      | (some mem, s) => do
        let m ← putU32 params ramdiskImage (UInt32.ofNat mem) (s.memory.store mem initrd.data)
        let m ← putU32 params ramdiskSize (UInt32.ofNat initrd.size) m
        pure (some (mem, initrd.size), { s with memory := m })

/-- The last fields of the page: what the loader is, and where the kernel is. -/
def finishParams (params kernelMem : Nat) (m : Mem UInt8) : Except Failure (Mem UInt8) := do
  let m ← put params typeOfLoader [loaderUnknown] m
  let m ← put params loadflags [m (params + loadflags) ||| loadflagLoadedHigh] m
  putU32 params code32Start (UInt32.ofNat kernelMem) m

/-- The jump to the kernel. Behind the first three, what the model remembers of the way there: where the
kernel and the command line are, and where the initrd is and its length, if it was placed. -/
structure Handover (σ : Type) where
  entry : Nat
  params : Nat
  state : State σ
  kernelMem : Nat
  cmdMem : Nat
  ramdisk : Option (Nat × Nat)

/-- Boot the bzImage at `kernelPath`. -/
def boot (kernelPath : CString16) (initrdPath : Option CString16) (cmdline : Str) (s : State σ) :
    Except Failure (Handover σ) :=
  match readFile kernelPath with
  | none => .error (.status .notFound)
  | some image => do
    let setup ← readSetup image
    let (kernelMem, s) ← placeKernel fw setup s
    let s := { s with memory := copyKernel setup kernelMem s.memory }
    let (params, s) ← bootParams fw image s
    let (cmdMem, s) ← placeCmdline fw image cmdline params s
    let (ramdisk, s) ← placeInitrd fw readFile initrdPath params s
    let m ← finishParams params kernelMem s.memory
    -- the 64-bit entry is one sector past the 32-bit one
    pure ⟨(kernelMem + setup.handoverOffset + handover64Offset) % 2 ^ 64, params, { s with memory := m },
      kernelMem, cmdMem, ramdisk⟩

end

end Bang.Linux
