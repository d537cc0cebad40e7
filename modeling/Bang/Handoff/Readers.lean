/-
The four places where a file is read: `read_file` of `src/linux.rs`, `load_kernel` of `src/elf.rs`, `load_modules`
of `src/modules.rs` and `load` of `src/config.rs`, each from the open file on. A read may give fewer bytes than it
was asked for: the first asks again, the second stops, the third passes the file over, and the fourth goes on with
what it was given.
-/
import Bang.Elf.Kernel
import Bang.Handoff.Placement
import Bang.Linux.Boot
import Bang.Uefi.RegularFile

namespace Bang

/-! ## Buffers -/

/-- `bs` read into `&mut buf[o..]`. -/
def fill (buf : List UInt8) (o : Nat) (bs : List UInt8) : List UInt8 :=
  (buf.take o ++ bs ++ buf.drop (o + bs.length)).take buf.length

/-- Bytes that are read behind those that were read before. -/
theorem fill_replicate (xs bs : List UInt8) {n : Nat} (h : bs.length ≤ n) :
    fill (xs ++ List.replicate n 0) xs.length bs = xs ++ bs ++ List.replicate (n - bs.length) 0 := by
  unfold fill
  rw [List.take_left, List.drop_append, List.drop_eq_nil_of_le (Nat.le_add_right ..), List.nil_append,
    Nat.add_sub_cancel_left, List.drop_replicate]
  apply List.take_of_length_le
  simp
  omega

def Buffer.fill (buf : Buffer) (o : Nat) (bs : List UInt8) : Buffer where
  data := Bang.fill buf.data o bs
  fits := Nat.lt_of_le_of_lt (List.length_take_le ..) buf.fits

/-- `alloc::vec![0u8; size]`. -/
def Buffer.zeroed (size : UInt64) : Except Stop Buffer :=
  if h : size.toNat < 2 ^ 63 then .ok ⟨List.replicate size.toNat 0, by rwa [List.length_replicate]⟩
  else .error (.panic "capacity overflow")

/-- `expect(message)`. -/
def expect {α : Type} (x : Option α) (message : String) : Except Stop α :=
  match x with
  | some a => .ok a
  | none => .error (.panic message)

section
variable {φ : Type} (fs : FileSystem φ)

/-! ## The readers -/

/-- The loop of `read_file` between two reads. -/
structure ReadState (φ : Type) where
  buf : Buffer
  done : Nat
  file : φ

/-- The loop of `read_file`. A read that goes on brings `done` forward, so that the loop ends whatever the firmware
gives. -/
def readLoop (size : Nat) (s : ReadState φ) : ReadState φ :=
  if s.done < size then
    match fs.read s.file (s.buf.size - s.done) with
    | (some (b :: bs), f) => readLoop size ⟨s.buf.fill s.done (b :: bs), s.done + (b :: bs).length, f⟩
    -- nothing was given, or an error
    | (_, f) => { s with file := f }
  else s
termination_by size - s.done
decreasing_by
  rw [List.length_cons]
  omega

/-- Read a whole file. -/
def readOpened (f : φ) : Except Stop (Option Buffer) :=
  match fs.fileSize f with
  | none => .ok none
  | some size => do
    let buf ← Buffer.zeroed size
    let s := readLoop fs size.toNat ⟨buf, 0, f⟩
    -- "… is … bytes but only … could be read"
    pure (if s.done ≠ size.toNat then none else some s.buf)

/-- `read_file`; what it takes to open a file is the firmware's. -/
def readFile (openRegular : CString16 → Option φ) (path : CString16) : Except Stop (Option Buffer) :=
  match openRegular path with
  | none => .ok none
  | some f => readOpened fs f

/-- What `load_kernel` reads of a kernel: all of it at once. -/
def readKernel (f : φ) : Except Stop Buffer := do
  let size ← expect (fs.fileSize f) "Failed to get file info"
  let buf ← Buffer.zeroed size
  let bs ← expect (fs.read f size.toNat).1 "Failed to read kernel"
  let () ← assert (bs.length = size.toNat) "Short read on kernel.bin"
  pure (buf.fill 0 bs)

/-- `load_kernel`. -/
def loadKernelFile {σ : Type} (fw : Firmware σ) (f : φ) (s : LoadState σ) : Except Stop (KernelInfo × LoadState σ) := do
  let fileBuf ← readKernel fs f
  loadKernel fw fileBuf s

/-- A file of the modules directory, read at once into its pages, for which there is room for more than the file. -/
def moduleFile (name : List UInt16) (fileSize : UInt64) (f : φ) : ModuleFile where
  name := name
  fileSize := fileSize
  content := (fs.read f (modulePages fileSize * pageSize)).1

/-- `core::str::from_utf8`. -/
def fromUtf8 (bs : List UInt8) : Option Str := bs.toByteArray.utf8Decode?.map Array.toList

/-- The text `load` goes on with: what one read gives of it. -/
def loadText (f : φ) : Option Str := do
  let size ← fs.fileSize f
  -- a file claiming to be enormous is not a config
  if size = 0 || size > 64 * 1024 then none
  else
    let bs ← (fs.read f size.toNat).1
    fromUtf8 ((fill (List.replicate size.toNat 0) 0 bs).take bs.length)

/-- Read and parse `\bang.cfg`, or `none` if there is not one. -/
def load (tryFrom : Str → Option CString16) (openRegular : CString16 → Option φ) : Option Config := do
  let f ← openRegular (cstr16 "\\bang.cfg")
  let text ← loadText fs f
  pure (parse tryFrom text)

end

end Bang
