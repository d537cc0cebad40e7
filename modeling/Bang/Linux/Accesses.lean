/-
What booting Linux reads of the kernel's file, which sizes it computes and where it writes. The steps of
`boot` stand here once more, each with a list of these: the range of a read, a size before it is cut to 64
bits, and a write with the pages it is meant for. Without the list these are the steps of `boot`, and with it
every read is inside the file, every size fits and every write is inside its pages, whatever the file says.
-/
import Bang.Linux.Cmdline
import Bang.Memory.Traced

namespace Bang.Linux

open LittleEndian

/-! ## What is listed -/

/-- A read, a size or a write. -/
inductive Access
  /-- `n` bytes of the file, at an offset -/
  | read (off n : Nat)
  /-- a size, as a number of any length -/
  | size (n : Nat)
  /-- `n` bytes of memory from `start` on, meant for the `pages` pages at `a`, with what was allocated so far -/
  | write (granted : List (Nat × Nat)) (a pages start n : Nat)
  deriving DecidableEq, Repr

/-- A read inside the file, a size of 64 bits, or a write inside its pages, which were allocated. -/
def Access.Good (image : Buffer) : Access → Prop
  | .read off n => off + n ≤ image.size
  | .size n => n < 2 ^ 64
  | .write granted a pages start n => (a, pages) ∈ granted ∧ a ≤ start ∧ start + n ≤ a + pages * pageSize

/-- A computation with a list of what it accesses. -/
abbrev Accessing (α : Type) := Traced Access Failure α

/-- A write to the pages that were granted last. -/
def writeLast {σ : Type} (s : State σ) (start n : Nat) : Access :=
  match s.granted.getLast? with
  | some (a, pages) => .write s.granted a pages start n
  | none => .write s.granted 0 0 start n

/-! ## Where the kernel is -/

section
variable {σ : Type} {fw : Firmware σ} {taken : σ → Nat → Prop}

/-- The pages the kernel was given were free and are taken, and it has room in them, aligned if it can be moved. -/
structure KernelRegion (taken : σ → Nat → Prop) (setup : Setup) (kernelMem a pages : Nat) (s s' : State σ) : Prop where
  memory : s'.memory = s.memory
  granted : s'.granted = s.granted ++ [(a, pages)]
  low : a ≤ kernelMem
  high : kernelMem + setup.need ≤ a + pages * pageSize
  aligned : setup.relocatable = true → setup.alignment ≠ 0 → setup.alignment ∣ kernelMem
  pos : 0 < pages
  free : ∀ q, InRun a pages q → ¬ taken s.firmware q
  taken : ∀ q, InRun a pages q → taken s'.firmware q

theorem placeKernel_region (hfw : fw.Lawful taken) (hnull : fw.NonNull) {image : Buffer} {kernelMem : Nat}
    {s s' : State σ} (hkernel : kernelOffset (byteAt image setupSects) < image.size)
    (h : placeKernel fw (setupOf image) s = .ok (kernelMem, s')) :
    ∃ a pages, KernelRegion taken (setupOf image) kernelMem a pages s s' := by
  have hneed := need_lt image
  have halignment := alignment_lt image
  by_cases hrelocatable : (setupOf image).relocatable = true
  · -- room for the alignment was asked for
    obtain ⟨a, pages, hgranted, hlow, hhigh, haligned⟩ :=
      placeKernel_relocatable hfw hnull hrelocatable (by omega) h
    exact ⟨a, pages, hgranted.memory, hgranted.granted, hlow, hhigh, fun _ => haligned, hgranted.low.1, hgranted.free,
      fun q hq => (hgranted.taken_iff q).2 (.inr hq)⟩
  · -- the pages are those from its own address on
    have hpos : 0 < (setupOf image).need := by
      have hlength := length_kernelBytes image
      exact Nat.lt_of_lt_of_le (by omega) (Nat.le_max_right (setupOf image).initSize _)
    unfold placeKernel at h
    rw [if_neg hrelocatable] at h
    dsimp only at h
    split at h
    · rename_i f hask
      cases h
      have hroom := le_divCeil (setupOf image).need
      have hgranted := hfw.at_granted s.firmware (setupOf image).prefAddress (divCeil (setupOf image).need 4096)
      have htaken := hfw.at_taken s.firmware (setupOf image).prefAddress (divCeil (setupOf image).need 4096)
      rw [hask] at hgranted htaken
      refine ⟨_, _, rfl, rfl, Nat.le_refl _, Nat.add_le_add_left hroom _, fun hmoved => absurd hmoved hrelocatable, ?_,
        hgranted.1 rfl, fun q hq => (htaken q).2 (.inr ⟨rfl, hq⟩)⟩
      exact Nat.pos_of_mul_pos_right (Nat.lt_of_lt_of_le hpos hroom)
    · cases h

/-- Whole pages are what the kernel was given. -/
theorem KernelRegion.held {setup : Setup} {kernelMem a pages : Nat} {s s' : State σ}
    (h : KernelRegion taken setup kernelMem a pages s s') (hpages : ∀ q, ¬ taken s.firmware q → pageSize ∣ q) :
    Held taken a pages s' :=
  ⟨hpages a (h.free a ⟨0, h.pos, by omega⟩), h.pos, h.taken⟩

end

/-! ## What was allocated -/

section
variable {σ : Type} {fw : Firmware σ} {taken : σ → Nat → Prop}

theorem allocLow_granted {bytes a : Nat} {s s' : State σ} (h : allocLow fw bytes s = (some a, s')) :
    s'.granted = s.granted ++ [(a, max (divCeil bytes 4096) 1)] := by
  unfold allocLow at h
  dsimp only at h
  split at h
  · cases h
  · cases h
    rfl

theorem allocLow_refused {bytes : Nat} {s s' : State σ} (h : allocLow fw bytes s = (none, s')) :
    s'.granted = s.granted := by
  unfold allocLow at h
  dsimp only at h
  split at h
  · cases h
    rfl
  · cases h

/-- The page of `boot_params` is one page. -/
theorem allocLow_page {a : Nat} {s s' : State σ} (h : allocLow fw 4096 s = (some a, s')) : (a, 1) ∈ s'.granted := by
  rw [allocLow_granted h]
  exact List.mem_append_right _ (List.mem_singleton_self _)

theorem Granted.mem {bytes a pages : Nat} {x : Nat × Nat} {s s' : State σ} (h : Granted taken bytes a pages s s')
    (hx : x ∈ s.granted) : x ∈ s'.granted := by
  rw [h.granted]
  exact List.mem_append_left _ hx

theorem bootParams_granted {image : Buffer} {params : Nat} {s s' : State σ}
    (h : bootParams fw image s = .ok (params, s')) : s'.granted = s.granted ++ [(params, 1)] := by
  obtain ⟨s₁, header, m, hask, -, -, rfl⟩ := bootParams_steps h
  exact allocLow_granted hask

theorem placeCmdline_granted {image : Buffer} {cmdline : Str} {params cmdMem : Nat} {s s' : State σ}
    (h : placeCmdline fw image cmdline params s = .ok (cmdMem, s')) : s.granted <+: s'.granted := by
  obtain ⟨cl, s₁, m, -, hask, -, rfl⟩ := placeCmdline_steps h
  exact ⟨_, (allocLow_granted hask).symm⟩

theorem placeInitrd_granted {readFile : CString16 → Option Buffer} {initrdPath : Option CString16} {params : Nat}
    {ramdisk : Option (Nat × Nat)} {s s' : State σ}
    (h : placeInitrd fw readFile initrdPath params s = .ok (ramdisk, s')) : s.granted <+: s'.granted := by
  rcases placeInitrd_steps h with ⟨-, rfl | ⟨bytes, hask⟩⟩ | ⟨initrd, a, s₁, m, m', -, hask, -, -, rfl⟩
  · exact List.prefix_refl _
  · exact ⟨[], by rw [List.append_nil, allocLow_refused hask]⟩
  · exact ⟨_, (allocLow_granted hask).symm⟩

end

/-- Cut or not, a command line does not get longer. -/
theorem length_cutCmdline {cmdline cl : Str} {max : Nat} (h : cutCmdline cmdline max = .ok cl) :
    (utf8 cl).length ≤ (utf8 cmdline).length := by
  rcases cutCmdline_spec cmdline max with ⟨cl', hcl, hwanted, -⟩ | ⟨⟨message, hstops⟩, -⟩
  · obtain rfl := Except.ok.inj (h.symm.trans hcl)
    unfold WantedCmdline at hwanted
    split at hwanted
    · rw [hwanted]
    · obtain ⟨rest, rfl⟩ := hwanted.isPrefix
      rw [utf8_append, List.length_append]
      exact Nat.le_add_right ..
  · rw [hstops] at h
    cases h

namespace Accessing

def touch (x : Access) : Accessing Unit := ⟨[x], .ok ()⟩

def slice (b : Buffer) (lo hi : Nat) : Accessing (List UInt8) := ⟨[.read lo (hi - lo)], Linux.slice b lo hi⟩

def u8At (b : Buffer) (o : Nat) : Accessing UInt8 := ⟨[.read o 1], Linux.u8At b o⟩
def u16At (b : Buffer) (o : Nat) : Accessing UInt16 := ⟨[.read o 2], Linux.u16At b o⟩
def u32At (b : Buffer) (o : Nat) : Accessing UInt32 := ⟨[.read o 4], Linux.u32At b o⟩
def u64At (b : Buffer) (o : Nat) : Accessing UInt64 := ⟨[.read o 8], Linux.u64At b o⟩

def refuse (condition : Bool) (status : Status) : Accessing Unit := Traced.lift (Linux.refuse condition status)

/-- A store to the pages that were granted last. -/
def store {σ : Type} (s : State σ) (start : Nat) (bs : List UInt8) (m : Mem UInt8) : Accessing (Mem UInt8) :=
  ⟨[writeLast s start bs.length], .ok (m.store start bs)⟩

/-- A write to `bp`, which is one page. -/
def put (granted : List (Nat × Nat)) (params o : Nat) (bs : List UInt8) (m : Mem UInt8) : Accessing (Mem UInt8) :=
  ⟨[.write granted params 1 (params + o) bs.length], Linux.put params o bs m⟩

def putU32 (granted : List (Nat × Nat)) (params o : Nat) (v : UInt32) (m : Mem UInt8) : Accessing (Mem UInt8) :=
  put granted params o (u32 v) m

/-! ## The steps, with what they access -/

/-- The kernel is the file from its offset on. -/
def readSetup (image : Buffer) : Accessing Setup := do
  let () ← refuse (image.size < 0x1000) .loadError
  let flag ← u16At image bootFlag
  let magic ← u32At image headerMagic
  let () ← refuse (flag ≠ bootFlagMagic || magic ≠ hdrsMagic) .loadError
  let version ← u16At image version
  let () ← refuse (version < minVersion) .unsupported
  let xloadflags ← u16At image xloadflags
  let () ← refuse (xloadflags &&& xlfEfiHandover64 = 0) .unsupported
  let handoverOffset ← u32At image handoverOffset
  let sects ← u8At image setupSects
  let () ← touch (.size (kernelOffset sects))
  let () ← refuse (kernelOffset sects ≥ image.size) .loadError
  let kernelBytes ← slice image (kernelOffset sects) image.size
  let initSize ← u32At image initSize
  let alignment ← u32At image kernelAlignment
  let relocatable ← u8At image relocatable
  let prefAddress ← u64At image prefAddress
  pure ⟨handoverOffset.toNat, kernelBytes, initSize.toNat, alignment.toNat, relocatable ≠ 0, prefAddress.toNat⟩

section
variable {σ : Type} (fw : Firmware σ) (readFile : CString16 → Option Buffer)

/-- The sum may be cut to 64 bits, and so may the next multiple. -/
def placeKernel (setup : Setup) (s : State σ) : Accessing (Nat × State σ) :=
  if setup.relocatable then do
    let () ← touch (.size (setup.need + setup.alignment))
    match allocLow fw ((setup.need + setup.alignment) % 2 ^ 64) s with
    | (some addr, s) =>
      if setup.alignment > 1 then
        let past := if addr % setup.alignment = 0 then 0 else setup.alignment - addr % setup.alignment
        let () ← touch (.size (addr + past))
        pure (nextMultipleOf addr setup.alignment, s)
      else pure (addr, s)
    | (none, _) => Traced.lift (.error (.status .outOfResources))
  else Traced.lift (Linux.placeKernel fw setup s)

/-- The zeros, and the kernel over them. -/
def copyKernel (setup : Setup) (kernelMem : Nat) (s : State σ) : Accessing (State σ) := do
  let m ← store s kernelMem (List.replicate setup.need 0) s.memory
  let m ← store s kernelMem setup.kernelBytes m
  pure { s with memory := m }

def bootParams (image : Buffer) (s : State σ) : Accessing (Nat × State σ) :=
  match allocLow fw 4096 s with
  | (none, _) => Traced.lift (.error (.status .outOfResources))
  | (some params, s) => do
    let m ← store s params (List.replicate 4096 0) s.memory
    let b ← u8At image 0x201
    let () ← touch (.size (headerMagic + b.toNat))
    let header ← slice image setupSects (hdrEnd image b)
    let m ← put s.granted params setupSects header m
    pure (params, { s with memory := m })

def placeCmdline (image : Buffer) (cmdline : Str) (params : Nat) (s : State σ) : Accessing (Nat × State σ) := do
  let size ← u32At image cmdlineSize
  let cl ← Traced.lift (cutCmdline cmdline size.toNat)
  let () ← touch (.size ((utf8 cl).length + 1))
  match allocLow fw ((utf8 cl).length + 1) s with
  | (none, _) => Traced.lift (.error (.status .outOfResources))
  | (some cmdMem, s) => do
    let m ← store s cmdMem (utf8 cl) s.memory
    let m ← store s (cmdMem + (utf8 cl).length) [0] m
    let m ← putU32 s.granted params cmdLinePtr (UInt32.ofNat cmdMem) m
    pure (cmdMem, { s with memory := m })

def placeInitrd (initrdPath : Option CString16) (params : Nat) (s : State σ) :
    Accessing (Option (Nat × Nat) × State σ) :=
  match initrdPath with
  | none => pure (none, s)
  | some path =>
    match readFile path with
    | none => pure (none, s)
    | some initrd =>
      match allocLow fw initrd.size s with
      | (none, s) => pure (none, s)
      | (some mem, s) => do
        let m ← store s mem initrd.data s.memory
        let m ← putU32 s.granted params ramdiskImage (UInt32.ofNat mem) m
        let m ← putU32 s.granted params ramdiskSize (UInt32.ofNat initrd.size) m
        pure (some (mem, initrd.size), { s with memory := m })

def finishParams (granted : List (Nat × Nat)) (params kernelMem : Nat) (m : Mem UInt8) : Accessing (Mem UInt8) := do
  let m ← put granted params typeOfLoader [loaderUnknown] m
  let m ← put granted params loadflags [m (params + loadflags) ||| loadflagLoadedHigh] m
  putU32 granted params code32Start (UInt32.ofNat kernelMem) m

def boot (kernelPath : CString16) (initrdPath : Option CString16) (cmdline : Str) (s : State σ) :
    Accessing (Handover σ) :=
  match readFile kernelPath with
  | none => Traced.lift (.error (.status .notFound))
  | some image => do
    let setup ← readSetup image
    let (kernelMem, s) ← placeKernel fw setup s
    let s ← copyKernel setup kernelMem s
    let (params, s) ← bootParams fw image s
    let (cmdMem, s) ← placeCmdline fw image cmdline params s
    let (ramdisk, s) ← placeInitrd fw readFile initrdPath params s
    let m ← finishParams s.granted params kernelMem s.memory
    pure ⟨(kernelMem + setup.handoverOffset + handover64Offset) % 2 ^ 64, params, { s with memory := m },
      kernelMem, cmdMem, ramdisk⟩

end

/-! ## Without the list -/

/-- A size in front of a computation. -/
theorem touch_result {α : Type} (x : Access) (f : Unit → Accessing α) : (touch x >>= f).result = (f ()).result := by
  rw [Traced.bind_result]
  rfl

theorem store_result {σ α : Type} (s : State σ) (start : Nat) (bs : List UInt8) (m : Mem UInt8)
    (f : Mem UInt8 → Accessing α) : (store s start bs m >>= f).result = (f (m.store start bs)).result := by
  rw [Traced.bind_result]
  rfl

theorem readSetup_result (image : Buffer) : (readSetup image).result = Linux.readSetup image := by
  unfold readSetup Linux.readSetup
  refine Traced.result_congr rfl fun _ _ => ?_
  refine Traced.result_congr rfl fun flag _ => ?_
  refine Traced.result_congr rfl fun magic _ => ?_
  refine Traced.result_congr rfl fun _ _ => ?_
  refine Traced.result_congr rfl fun version _ => ?_
  refine Traced.result_congr rfl fun _ _ => ?_
  refine Traced.result_congr rfl fun xloadflags _ => ?_
  refine Traced.result_congr rfl fun _ _ => ?_
  refine Traced.result_congr rfl fun handoverOffset _ => ?_
  refine Traced.result_congr rfl fun sects _ => ?_
  refine (touch_result _ _).trans ?_
  refine Traced.result_congr rfl fun _ hkernel => ?_
  have hlt := Nat.not_le.1 (of_decide_eq_false (refuse_ok hkernel))
  have hbytes : (slice image (kernelOffset sects) image.size).result = .ok (image.data.drop (kernelOffset sects)) := by
    refine (slice_eq (Nat.le_of_lt hlt) (Nat.le_refl _)).trans (congrArg Except.ok ?_)
    apply List.take_of_length_le
    rw [List.length_drop]
    exact Nat.le_refl _
  rw [Traced.bind_result, hbytes]
  refine Traced.result_congr rfl fun initSize _ => ?_
  refine Traced.result_congr rfl fun alignment _ => ?_
  refine Traced.result_congr rfl fun relocatable _ => ?_
  exact Traced.result_congr rfl fun prefAddress _ => rfl

section
variable {σ : Type} (fw : Firmware σ) (readFile : CString16 → Option Buffer)

theorem placeKernel_result (setup : Setup) (s : State σ) :
    (placeKernel fw setup s).result = Linux.placeKernel fw setup s := by
  unfold placeKernel Linux.placeKernel
  split
  · refine (touch_result _ _).trans ?_
    rcases allocLow fw ((setup.need + setup.alignment) % 2 ^ 64) s with ⟨_ | addr, s'⟩
    · rfl
    · dsimp only
      split
      · exact touch_result _ _
      · rfl
  · rfl

theorem copyKernel_result (setup : Setup) (kernelMem : Nat) (s : State σ) : (copyKernel setup kernelMem s).result =
    .ok { s with memory := Linux.copyKernel setup kernelMem s.memory } :=
  (store_result ..).trans (store_result ..)

theorem bootParams_result (image : Buffer) (s : State σ) :
    (bootParams fw image s).result = Linux.bootParams fw image s := by
  unfold bootParams Linux.bootParams
  rcases allocLow fw 4096 s with ⟨_ | params, s'⟩
  · rfl
  · refine (store_result ..).trans ?_
    refine Traced.result_congr rfl fun b _ => ?_
    refine (touch_result _ _).trans ?_
    refine Traced.result_congr rfl fun header _ => ?_
    exact Traced.result_congr rfl fun m _ => rfl

theorem placeCmdline_result (image : Buffer) (cmdline : Str) (params : Nat) (s : State σ) :
    (placeCmdline fw image cmdline params s).result = Linux.placeCmdline fw image cmdline params s := by
  unfold placeCmdline Linux.placeCmdline
  refine Traced.result_congr rfl fun size _ => ?_
  refine Traced.result_congr rfl fun cl _ => ?_
  refine (touch_result _ _).trans ?_
  rcases allocLow fw ((utf8 cl).length + 1) s with ⟨_ | cmdMem, s'⟩
  · rfl
  · refine (store_result ..).trans ((store_result ..).trans ?_)
    exact Traced.result_congr rfl fun m _ => rfl

theorem placeInitrd_result (initrdPath : Option CString16) (params : Nat) (s : State σ) :
    (placeInitrd fw readFile initrdPath params s).result = Linux.placeInitrd fw readFile initrdPath params s := by
  unfold placeInitrd Linux.placeInitrd
  rcases initrdPath with _ | path
  · rfl
  dsimp only
  rcases readFile path with _ | initrd
  · rfl
  dsimp only
  rcases allocLow fw initrd.size s with ⟨_ | mem, s'⟩
  · rfl
  · refine (store_result ..).trans ?_
    refine Traced.result_congr rfl fun m _ => ?_
    exact Traced.result_congr rfl fun m' _ => rfl

theorem finishParams_result (granted : List (Nat × Nat)) (params kernelMem : Nat) (m : Mem UInt8) :
    (finishParams granted params kernelMem m).result = Linux.finishParams params kernelMem m := by
  unfold finishParams Linux.finishParams
  refine Traced.result_congr rfl fun m₁ _ => ?_
  exact Traced.result_congr rfl fun m₂ _ => rfl

theorem boot_result (kernelPath : CString16) (initrdPath : Option CString16) (cmdline : Str) (s : State σ) :
    (boot fw readFile kernelPath initrdPath cmdline s).result =
      Linux.boot fw readFile kernelPath initrdPath cmdline s := by
  unfold boot Linux.boot
  rcases readFile kernelPath with _ | image
  · rfl
  refine Traced.result_congr (readSetup_result image) fun setup _ => ?_
  refine Traced.result_congr (placeKernel_result fw setup s) fun ⟨kernelMem, s₁⟩ _ => ?_
  rw [Traced.bind_result, copyKernel_result]
  refine Traced.result_congr (bootParams_result fw image _) fun ⟨params, s₂⟩ _ => ?_
  refine Traced.result_congr (placeCmdline_result fw image cmdline params s₂) fun ⟨cmdMem, s₃⟩ _ => ?_
  refine Traced.result_congr (placeInitrd_result fw readFile initrdPath params s₃) fun ⟨ramdisk, s₄⟩ _ => ?_
  exact Traced.result_congr (finishParams_result s₄.granted params kernelMem s₄.memory) fun m _ => rfl

end

/-! ## With the list -/

/-- Every access is good, and no range that is none stops the computation. -/
def Fine {α : Type} (image : Buffer) (x : Accessing α) : Prop := Traced.Safe (Access.Good image) (.stop .outOfRange) x

section
variable {image : Buffer}

theorem fine_pure {α : Type} (a : α) : Fine image (pure a : Accessing α) := Traced.safe_pure a

theorem fine_status {α : Type} (status : Status) : Fine image (Traced.lift (.error (.status status)) : Accessing α) :=
  Traced.safe_lift (by rintro ⟨⟩)

theorem Fine.bind {α β : Type} {x : Accessing α} {f : α → Accessing β} (hx : Fine image x)
    (hf : ∀ a, x.result = .ok a → Fine image (f a)) : Fine image (x >>= f) :=
  Traced.Safe.bind hx hf

theorem fine_one {α : Type} {x : Access} {y : Except Failure α} (hx : x.Good image)
    (hy : y ≠ .error (.stop .outOfRange)) : Fine image (⟨[x], y⟩ : Accessing α) := by
  refine ⟨fun r hr => ?_, hy⟩
  rw [List.mem_singleton.1 hr]
  exact hx

theorem fine_touch {x : Access} (hx : x.Good image) : Fine image (touch x) := fine_one hx (by rintro ⟨⟩)

theorem fine_slice {lo hi : Nat} (hlo : lo ≤ hi) (hhi : hi ≤ image.size) : Fine image (slice image lo hi) := by
  refine fine_one (show lo + (hi - lo) ≤ image.size by omega) ?_
  rw [slice_eq hlo hhi]
  rintro ⟨⟩

theorem fine_field {α : Type} {f : List UInt8 → α} {o n : Nat} (h : o + n ≤ image.size) :
    Fine image (⟨[.read o n], (Linux.slice image o (o + n)).map f⟩ : Accessing α) := by
  refine fine_one h ?_
  rw [slice_eq (Nat.le_add_right ..) h]
  rintro ⟨⟩

theorem fine_refuse (condition : Bool) (status : Status) : Fine image (refuse condition status) := by
  apply Traced.safe_lift
  cases condition <;> rintro ⟨⟩

theorem fine_put {granted : List (Nat × Nat)} {params o : Nat} {bs : List UInt8} (hparams : (params, 1) ∈ granted)
    (h : o + bs.length ≤ 4096) (m : Mem UInt8) : Fine image (put granted params o bs m) := by
  refine fine_one ⟨hparams, Nat.le_add_right .., ?_⟩ ?_
  · unfold pageSize
    omega
  · rw [put_eq h]
    rintro ⟨⟩

theorem fine_putU32 {granted : List (Nat × Nat)} {params o : Nat} (hparams : (params, 1) ∈ granted) (v : UInt32)
    (h : o + 4 ≤ 4096) (m : Mem UInt8) : Fine image (putU32 granted params o v m) :=
  fine_put hparams (by rw [length_u32]; exact h) m

/-- A store within the pages granted last. -/
theorem fine_store {σ : Type} {s : State σ} {granted : List (Nat × Nat)} {a pages start : Nat} {bs : List UInt8}
    (hs : s.granted = granted ++ [(a, pages)]) (hlo : a ≤ start) (hhi : start + bs.length ≤ a + pages * pageSize)
    (m : Mem UInt8) : Fine image (store s start bs m) := by
  refine fine_one ?_ (by rintro ⟨⟩)
  unfold writeLast
  rw [hs, List.getLast?_concat]
  exact ⟨List.mem_append_right _ (List.mem_singleton_self _), hlo, hhi⟩

theorem fine_readSetup (image : Buffer) : Fine image (readSetup image) := by
  unfold readSetup
  refine (fine_refuse _ _).bind fun _ hsize => ?_
  have hsize : 0x1000 ≤ image.size := Nat.not_lt.1 (of_decide_eq_false (refuse_ok hsize))
  -- the first check makes room for every field
  have hfield : ∀ n, n ≤ 0x1000 → n ≤ image.size := fun n hn => hn.trans hsize
  refine (fine_field (hfield _ (by decide))).bind fun _ _ => ?_
  refine (fine_field (hfield _ (by decide))).bind fun _ _ => ?_
  refine (fine_refuse _ _).bind fun _ _ => ?_
  refine (fine_field (hfield _ (by decide))).bind fun _ _ => ?_
  refine (fine_refuse _ _).bind fun _ _ => ?_
  refine (fine_field (hfield _ (by decide))).bind fun _ _ => ?_
  refine (fine_refuse _ _).bind fun _ _ => ?_
  refine (fine_field (hfield _ (by decide))).bind fun _ _ => ?_
  refine (fine_field (hfield _ (by decide))).bind fun sects _ => ?_
  refine (fine_touch ?_).bind fun _ _ => ?_
  · have hsects := sects.toNat_lt
    show kernelOffset sects < 2 ^ 64
    unfold kernelOffset
    split <;> omega
  refine (fine_refuse _ _).bind fun _ hkernel => ?_
  have hkernel := Nat.not_le.1 (of_decide_eq_false (refuse_ok hkernel))
  refine (fine_slice (Nat.le_of_lt hkernel) (Nat.le_refl _)).bind fun _ _ => ?_
  refine (fine_field (hfield _ (by decide))).bind fun _ _ => ?_
  refine (fine_field (hfield _ (by decide))).bind fun _ _ => ?_
  refine (fine_field (hfield _ (by decide))).bind fun _ _ => ?_
  exact (fine_field (hfield _ (by decide))).bind fun _ _ => fine_pure _

variable {σ : Type} {fw : Firmware σ} {taken : σ → Nat → Prop}

theorem fine_placeKernel (hfw : fw.Lawful taken) (hnull : fw.NonNull) (s : State σ) :
    Fine image (placeKernel fw (setupOf image) s) := by
  have hneed := need_lt image
  have halignment := alignment_lt image
  unfold placeKernel
  split
  · refine (fine_touch (show _ < 2 ^ 64 by omega)).bind fun _ _ => ?_
    rcases hask : allocLow fw (((setupOf image).need + (setupOf image).alignment) % 2 ^ 64) s with ⟨_ | addr, s'⟩
    · exact fine_status _
    · dsimp only
      obtain ⟨pages, hgranted⟩ := allocLow_some hfw hnull hask
      have hlow := hgranted.lt
      split
      · refine (fine_touch (show _ < 2 ^ 64 from ?_)).bind fun _ _ => fine_pure _
        split <;> omega
      · exact fine_pure _
  · rename_i hfixed
    apply Traced.safe_lift
    unfold Linux.placeKernel
    rw [if_neg hfixed]
    dsimp only
    split <;> rintro ⟨⟩

theorem fine_copyKernel {setup : Setup} {kernelMem a pages : Nat} {granted : List (Nat × Nat)} {s : State σ}
    (hs : s.granted = granted ++ [(a, pages)]) (hlo : a ≤ kernelMem)
    (hhi : kernelMem + setup.need ≤ a + pages * pageSize) : Fine image (copyKernel setup kernelMem s) := by
  have hle : setup.kernelBytes.length ≤ setup.need := Nat.le_max_right ..
  refine (fine_store hs hlo (by rw [List.length_replicate]; exact hhi) _).bind fun _ _ => ?_
  exact (fine_store hs hlo (by omega) _).bind fun _ _ => fine_pure _

theorem fine_bootParams (hfw : fw.Lawful taken) (hnull : fw.NonNull) (hsize : 0x1000 ≤ image.size) (s : State σ) :
    Fine image (bootParams fw image s) := by
  unfold bootParams
  rcases hask : allocLow fw 4096 s with ⟨_ | params, s'⟩
  · exact fine_status _
  · dsimp only
    obtain ⟨pages, hgranted⟩ := allocLow_some hfw hnull hask
    refine (fine_store hgranted.granted (Nat.le_refl _) ?_ _).bind fun _ _ => ?_
    · rw [List.length_replicate]
      exact Nat.add_le_add_left hgranted.room _
    refine (fine_field (le_trans (by decide) hsize)).bind fun b _ => ?_
    have hb := b.toNat_lt
    refine (fine_touch (show _ < 2 ^ 64 by unfold headerMagic; omega)).bind fun _ _ => ?_
    have hlo : setupSects ≤ hdrEnd image b := by
      unfold hdrEnd setupSects headerMagic
      omega
    have hhi : hdrEnd image b ≤ image.size ∧ hdrEnd image b ≤ 4096 := by
      unfold hdrEnd
      omega
    refine (fine_slice hlo hhi.1).bind fun header hheader => ?_
    have hlen := slice_length hheader
    exact (fine_put (allocLow_page hask) (by omega) _).bind fun _ _ => fine_pure _

theorem fine_placeCmdline (hfw : fw.Lawful taken) (hnull : fw.NonNull) (hsize : 0x1000 ≤ image.size) {cmdline : Str}
    (hcmdline : (utf8 cmdline).length < 2 ^ 63) {params : Nat} {s : State σ} (hparams : (params, 1) ∈ s.granted) :
    Fine image (placeCmdline fw image cmdline params s) := by
  unfold placeCmdline
  refine (fine_field (le_trans (by decide) hsize)).bind fun size _ => ?_
  have hcut : cutCmdline cmdline size.toNat ≠ .error (.stop .outOfRange) := by
    rcases cutCmdline_spec cmdline size.toNat with ⟨cl, hcl, -⟩ | ⟨⟨message, hstops⟩, -⟩
    · rw [hcl]
      rintro ⟨⟩
    · rw [hstops]
      rintro ⟨⟩
  refine (Traced.safe_lift hcut).bind fun cl hcl => ?_
  have hlen := length_cutCmdline hcl
  refine (fine_touch (show _ < 2 ^ 64 by omega)).bind fun _ _ => ?_
  rcases hask : allocLow fw ((utf8 cl).length + 1) s with ⟨_ | cmdMem, s'⟩
  · exact fine_status _
  · dsimp only
    obtain ⟨pages, hgranted⟩ := allocLow_some hfw hnull hask
    have hroom := hgranted.room
    refine (fine_store hgranted.granted (Nat.le_refl _) (by omega) _).bind fun _ _ => ?_
    refine (fine_store hgranted.granted (Nat.le_add_right ..) (by rw [List.length_singleton]; omega) _).bind fun _ _ => ?_
    exact (fine_putU32 (hgranted.mem hparams) _ (by decide) _).bind fun _ _ => fine_pure _

theorem fine_placeInitrd (hfw : fw.Lawful taken) (hnull : fw.NonNull) (readFile : CString16 → Option Buffer)
    (initrdPath : Option CString16) {params : Nat} {s : State σ} (hparams : (params, 1) ∈ s.granted) :
    Fine image (placeInitrd fw readFile initrdPath params s) := by
  unfold placeInitrd
  rcases initrdPath with _ | path
  · exact fine_pure _
  dsimp only
  rcases readFile path with _ | initrd
  · exact fine_pure _
  dsimp only
  rcases hask : allocLow fw initrd.size s with ⟨_ | mem, s'⟩
  · exact fine_pure _
  · dsimp only
    obtain ⟨pages, hgranted⟩ := allocLow_some hfw hnull hask
    refine (fine_store hgranted.granted (Nat.le_refl _) (Nat.add_le_add_left hgranted.room _) _).bind fun _ _ => ?_
    refine (fine_putU32 (hgranted.mem hparams) _ (by decide) _).bind fun _ _ => ?_
    exact (fine_putU32 (hgranted.mem hparams) _ (by decide) _).bind fun _ _ => fine_pure _

theorem fine_finishParams {granted : List (Nat × Nat)} {params : Nat} (hparams : (params, 1) ∈ granted)
    (kernelMem : Nat) (m : Mem UInt8) : Fine image (finishParams granted params kernelMem m) := by
  unfold finishParams
  refine (fine_put hparams (by decide) _).bind fun _ _ => ?_
  refine (fine_put hparams (show loadflags + 1 ≤ 4096 by decide) _).bind fun _ _ => ?_
  exact fine_putU32 hparams _ (by decide) _

/-- Every access of a boot is good, whether it gets as far as the kernel or not. -/
theorem fine_boot (hfw : fw.Lawful taken) (hnull : fw.NonNull) {readFile : CString16 → Option Buffer}
    {kernelPath : CString16} {cmdline : Str} (hread : readFile kernelPath = some image)
    (hcmdline : (utf8 cmdline).length < 2 ^ 63) (initrdPath : Option CString16) (s : State σ) :
    Fine image (boot fw readFile kernelPath initrdPath cmdline s) := by
  unfold boot
  rw [hread]
  refine (fine_readSetup image).bind fun setup hsetup => ?_
  rw [readSetup_result] at hsetup
  obtain ⟨rfl, hsize, hoffset⟩ := readSetup_ok hsetup
  refine (fine_placeKernel hfw hnull s).bind fun ⟨kernelMem, s₁⟩ hkernel => ?_
  rw [placeKernel_result] at hkernel
  obtain ⟨a, pages, hregion⟩ := placeKernel_region hfw hnull hoffset hkernel
  refine (fine_copyKernel hregion.granted hregion.low hregion.high).bind fun s₁' _ => ?_
  refine (fine_bootParams hfw hnull hsize _).bind fun ⟨params, s₂⟩ hparams => ?_
  rw [bootParams_result] at hparams
  -- the page stays granted while the rest is placed
  have hpage : (params, 1) ∈ s₂.granted := by
    rw [bootParams_granted hparams]
    exact List.mem_append_right _ (List.mem_singleton_self _)
  refine (fine_placeCmdline hfw hnull hsize hcmdline hpage).bind fun ⟨cmdMem, s₃⟩ hcmd => ?_
  rw [placeCmdline_result] at hcmd
  have hpage := (placeCmdline_granted hcmd).subset hpage
  refine (fine_placeInitrd hfw hnull readFile initrdPath hpage).bind fun ⟨ramdisk, s₄⟩ hinitrd => ?_
  rw [placeInitrd_result] at hinitrd
  have hpage := (placeInitrd_granted hinitrd).subset hpage
  exact (fine_finishParams hpage kernelMem _).bind fun _ _ => fine_pure _

end

end Accessing

/-! ## The kernel at the jump -/

section
variable {σ : Type} {fw : Firmware σ} {taken : σ → Nat → Prop} {image : Buffer}

/-- What is in the kernel's region: the kernel, and clear bytes behind it. -/
def Setup.region (setup : Setup) : List UInt8 :=
  setup.kernelBytes ++ List.replicate (setup.need - setup.kernelBytes.length) 0

theorem Setup.length_region (setup : Setup) : setup.region.length = setup.need := by
  have hle : setup.kernelBytes.length ≤ setup.need := Nat.le_max_right ..
  unfold Setup.region
  rw [List.length_append, List.length_replicate, Nat.add_sub_cancel' hle]

/-- A kernel that was copied is in memory. -/
theorem copyKernel_holds (setup : Setup) (kernelMem : Nat) (m : Mem UInt8) :
    (copyKernel setup kernelMem m).Holds kernelMem setup.region := by
  have hsplit : List.replicate setup.need (0 : UInt8) =
      List.replicate setup.kernelBytes.length 0 ++ List.replicate (setup.need - setup.kernelBytes.length) 0 := by
    have hle : setup.kernelBytes.length ≤ setup.need := Nat.le_max_right ..
    rw [← List.replicate_add, Nat.add_sub_cancel' hle]
  have hclear := Mem.holds_store m kernelMem (List.replicate setup.need 0)
  rw [hsplit] at hclear
  have hbehind := hclear.right
  rw [List.length_replicate, ← hsplit] at hbehind
  exact (Mem.holds_append ..).2 ⟨Mem.holds_store _ _ _, hbehind.store _ _ (.inr (Nat.le_refl _))⟩

/-- The kernel is in the pages that were allocated for it, and they hold it at the jump, with clear bytes behind. -/
structure Handover.KernelIn (h : Handover σ) (image : Buffer) (s : State σ) (a pages : Nat) : Prop where
  granted : s.granted ++ [(a, pages), (h.params, 1)] <+: h.state.granted
  low : a ≤ h.kernelMem
  high : h.kernelMem + (setupOf image).need ≤ a + pages * pageSize
  holds : h.state.memory.Holds h.kernelMem (setupOf image).region
  aligned : (setupOf image).relocatable = true → (setupOf image).alignment ≠ 0 →
    (setupOf image).alignment ∣ h.kernelMem

theorem boot_kernel (hfw : fw.Lawful taken) (hnull : fw.NonNull) {readFile : CString16 → Option Buffer}
    {kernelPath : CString16} {initrdPath : Option CString16} {cmdline : Str} {s : State σ} {h : Handover σ}
    (hpages : ∀ q, ¬ taken s.firmware q → pageSize ∣ q) (hread : readFile kernelPath = some image)
    (hboot : boot fw readFile kernelPath initrdPath cmdline s = .ok h) : ∃ a pages, h.KernelIn image s a pages := by
  obtain ⟨s₁, s₂, s₃, s₄, m, hsetup, hkernel, hparams, hcmdline, hinitrd, hfinish, hstate⟩ := boot_ok hread hboot
  obtain ⟨a, pages, hregion⟩ := placeKernel_region hfw hnull (readSetup_ok hsetup).2.2 hkernel
  obtain ⟨n, hpage, hspared⟩ := bootParams_spares hfw hnull hparams
  obtain ⟨hapart, hheld₂, hsame⟩ := hspared a pages ((hregion.held hpages).store _)
  have hlen := (setupOf image).length_region
  have hlow := hregion.low
  have hhigh := hregion.high
  have hcopied : s₂.memory.Holds h.kernelMem (setupOf image).region :=
    (copyKernel_holds (setupOf image) h.kernelMem s₁.memory).congr fun i hlo hhi => hsame i (by omega) (by omega)
  -- what comes later goes to other pages, or to the page of `boot_params`
  have hlater := ((placeCmdline_spares hfw hnull hcmdline).1.trans (placeInitrd_spares hfw hnull hinitrd)).write
    (finishParams_same hfinish)
  refine ⟨a, pages, ?_, hlow, hhigh, ?_, hregion.aligned⟩
  · have hgranted : s.granted ++ [(a, pages), (h.params, 1)] = s₂.granted := by
      rw [bootParams_granted hparams, hregion.granted, List.append_assoc]
      rfl
    rw [hgranted, hstate]
    exact (placeCmdline_granted hcmdline).trans (show _ <+: s₄.granted from placeInitrd_granted hinitrd)
  · rw [hstate]
    exact hlater.holds hheld₂ hapart hlow (by rw [hlen]; exact hhigh) hcopied

end

end Bang.Linux
