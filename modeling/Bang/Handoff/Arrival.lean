/-
From the file a configuration names to the processor that executes it: the kernel that `main` enters is reached at the
entry point of that file, in protected mode at its low 32 bits, and at each address that its program headers speak of is
the byte they give it.
-/
import Bang.Elf.LastWriter
import Bang.Elf.Loads
import Bang.Handoff.Run
import Bang.Handoff.Started

namespace Bang

open X86

/-! ## The file -/

/-- In memory is what the program headers of the file say: at each address the byte of the last segment over it. -/
def ElfClass.LoadedIn (c : ElfClass) (file : Buffer) (m : Mem UInt8) : Prop :=
  ∀ x seg, LastCovering (c.segments file) x seg → m x = seg.byteAt file x

theorem LastCovering.mem {segs : List Segment} {x : Nat} {seg : Segment} (h : LastCovering segs x seg) :
    seg ∈ segs ∧ seg.Covers x := by
  obtain ⟨before, after, rfl, hcovers, -⟩ := h
  exact ⟨by simp, hcovers⟩

/-- What was prepared is of the file. -/
structure Prepared.Of (p : Prepared) (file : Buffer) (c : ElfClass) : Prop where
  executable : IsExecutable file c
  entry : p.kernel.entryPoint = (c.fileHeader file).eEntry
  placed : p.placed = c.segments file
  loaded : c.LoadedIn file p.afterKernel

section
variable {σ : Type} {fw : Firmware σ} {fileBuf : Buffer}

/-- The loop remembers the segments in front of the first program header that is not in the file. -/
theorem loadSegments_placed_eq {c : ElfClass} {phoff : Nat} (hsize : c.phdrSize ≤ 56) (n : Nat) :
    ∀ (i : Nat) (s s' : LoadState σ), loadSegments fw c fileBuf phoff n i s = .ok s' →
      s'.placed = s.placed ++ loadable (c.entriesInFile fileBuf phoff n i) := by
  induction n with
  | zero =>
    intro i s s' h
    cases h
    exact (List.append_nil _).symm
  | succ n ih =>
    intro i s s' h
    rw [ElfClass.entriesInFile]
    rcases loadSegments_step hsize h with ⟨hout, rfl⟩ | ⟨hin, e, s₁, rfl, hrest, hstep⟩
    · rw [if_neg (by omega)]
      exact (List.append_nil _).symm
    · rw [if_pos hin, ih (i + 1) s₁ s' hrest]
      rcases hstep with ⟨htype, rfl⟩ | ⟨htype, hload⟩
      · simp [LoadState.read, loadable, htype]
      · have hplaced := (Segment.load_placed fw hload).placed
        rw [hplaced]
        simp [LoadState.read, loadable, htype]

/-- What a load has placed is what the header of the file describes. -/
theorem loadKernel_segments {firmware : σ} {memory : Mem UInt8} {info : KernelInfo} {s' : LoadState σ}
    (h : loadKernel fw fileBuf (.start firmware memory) = .ok (info, s')) :
    ∃ c, IsExecutable fileBuf c ∧ info.entryPoint = (c.fileHeader fileBuf).eEntry ∧
      s'.placed = c.segments fileBuf := by
  obtain ⟨hmagic, -⟩ := loadKernel_ok_iff_loadClass.1 ⟨info, s', h⟩
  obtain ⟨elfClass, hclass, hcls, -, -, hload⟩ := loadKernel_ok h
  obtain ⟨hheader, ⟨htype, hmachine⟩, -⟩ := loadClass_ok_iff.1 ⟨_, hload⟩
  obtain ⟨hentry, hsegments⟩ := loadClass_ok hload
  have hone : (elfClassOf fileBuf = .ok elfClass32 ∧ classFor elfClass = elf32) ∨
      (elfClassOf fileBuf = .ok elfClass64 ∧ classFor elfClass = elf64) := by
    rcases hcls with rfl | rfl
    · exact .inl ⟨hclass, rfl⟩
    · exact .inr ⟨hclass, rfl⟩
  exact ⟨classFor elfClass, ⟨hmagic, hone, hheader, htype, hmachine⟩, hentry,
    loadSegments_placed_eq (phdrSize_le hone) _ 0 _ s' hsegments⟩

theorem prepare_of {machine : Machine} {files : List ModuleFile} {firmware : σ} {memory : Mem UInt8} {p : Prepared}
    (h : prepare fw machine fileBuf files firmware memory = .ok (some p)) : ∃ c, p.Of fileBuf c := by
  obtain ⟨s, t, hkernel, hplaced, hmemory, -⟩ := prepare_ok h
  obtain ⟨c, hexecutable, hentry, hsegments⟩ := loadKernel_segments hkernel
  refine ⟨c, hexecutable, hentry, hplaced.symm.trans hsegments, fun x seg hlast => ?_⟩
  have hload := loadKernel_placed hkernel
  rw [← hmemory, hload.memory, hsegments]
  exact (overlay_image (hsegments ▸ hload.wellFormed) memory).covered x seg hlast

end

/-! ## The processor -/

section
variable {machine : Machine} {p : Prepared} {file : Buffer} {c : ElfClass} {own : Nat → Prop} {s : State}

/-- The file is in any memory that keeps the segments. -/
theorem Prepared.Of.loadedIn (hof : p.Of file c) {m : Mem UInt8}
    (hkept : ∀ x, p.InSegment x → m x = p.afterKernel x) : c.LoadedIn file m := by
  intro x seg hlast
  obtain ⟨hseg, hcovers⟩ := hlast.mem
  rw [hkept x ⟨seg, hof.placed ▸ hseg, hcovers⟩, hof.loaded x seg hlast]

theorem Leaves.arrives {a : Assembled} (h : Leaves a machine p own s) (hsound : p.Sound machine) (hlaid : p.Laid)
    (hclear : Clear machine p) (hof : p.Of file c) : ∃ s', Reaches a.e64 a.e32 s s' ∧ Protected s' ∧
      s'.ip = (c.fileHeader file).eEntry.toUInt32.toNat ∧ c.LoadedIn file s'.mem := by
  obtain ⟨s', built, hreach, hprotected, hip, -, -, hpreserved⟩ := h.reaches hsound hlaid hclear
  exact ⟨s', hreach, hprotected, by rw [hip, hof.entry], hof.loadedIn hpreserved.segments⟩

theorem Leaves64.arrives {e64 : Machine.Encoding Instr64} (e32 : Machine.Encoding Instr32)
    (h : Leaves64 e64 machine p own s) (hsound : p.Sound machine) (hlaid : p.Laid)
    (hwraps : ∀ seg ∈ p.placed, ¬ seg.Wraps) (hof : p.Of file c) :
    ∃ s', Reaches e64 e32 s s' ∧ s'.mode = some .bits64 ∧ s'.ip = (c.fileHeader file).eEntry.toNat ∧
      c.LoadedIn file s'.mem := by
  obtain ⟨s', built, hreach, hmode, -, hip, -, hsame, -, -, hkept⟩ := h.reaches e32 hsound
  refine ⟨s', hreach, hmode, by rw [hip, hof.entry], hof.loadedIn fun x hx => ?_⟩
  rw [hkept x (.inl hx), hlaid.segments_kept hsame hwraps hx]

end

/-! ## All of it -/

namespace Computer

section
variable {ν π β ι φ σ κ : Type} {comp : Computer ν π β ι φ σ κ} {polls : List (Option Key)} {f : σ} {m : Mem UInt8}

/-- A kernel that is read is the whole file. -/
theorem kernelFile_eq {rest : φ → List UInt8} (hfs : comp.files.Delivers rest) {data : φ → Buffer}
    (hopen : ∀ path file, comp.openRegular path = some file → comp.files.Holds rest file (data file))
    {path : CString16} {image : Buffer} (h : comp.kernelFile path = .ok image) :
    ∃ file, comp.openRegular path = some file ∧ image = data file := by
  obtain ⟨file, hsome, h⟩ := kernelFile_ok h
  rcases readKernel_whole hfs (hopen path file hsome) with hread | hread
  · exact ⟨file, hsome, Except.ok.inj (h.symm.trans hread)⟩
  · cases h.symm.trans hread

/-- Whatever is configured, found and pressed, and in however many pieces the firmware reads files: a Multiboot kernel
that is entered is the file that an entry names, the processor reaches the entry point in the header of that file, and
finds in memory what its program headers say. In protected mode this is so of the low 32 bits of the entry point, if
nothing was placed where the trampoline goes; in long mode if no segment wraps. -/
theorem main_arrives {taken : σ → Nat → Prop} {rest : φ → List UInt8} (hfs : comp.files.Delivers rest)
    {data : φ → Buffer}
    (hopen : ∀ path file, comp.openRegular path = some file → comp.files.Holds rest file (data file))
    (hfw : comp.fw.Lawful taken) {p : Prepared} {e : Entered} (h : comp.main polls f m = .ok (.multiboot p e)) :
    ∃ entry ∈ comp.config.entries, ∃ kernel modules file c, entry.target = .multiboot kernel modules ∧
      comp.openRegular kernel = some file ∧ IsExecutable (data file) c ∧
      (∀ a own s, Leaves a comp.machine p own s → Clear comp.machine p →
        ∃ s', Reaches a.e64 a.e32 s s' ∧ Protected s' ∧ s'.ip = (c.fileHeader (data file)).eEntry.toUInt32.toNat ∧
          c.LoadedIn (data file) s'.mem) ∧
      ∀ e64 e32 own s, Leaves64 e64 comp.machine p own s → (∀ seg ∈ p.placed, ¬ seg.Wraps) →
        ∃ s', Reaches e64 e32 s s' ∧ s'.mode = some .bits64 ∧ s'.ip = (c.fileHeader (data file)).eEntry.toNat ∧
          c.LoadedIn (data file) s'.mem := by
  obtain ⟨entry, hentry, kernel, modules, fileBuf, _, htarget, hfile, -, -, hprepare, -⟩ := main_multiboot h
  obtain ⟨file, hsome, rfl⟩ := kernelFile_eq hfs hopen hfile
  obtain ⟨c, hof⟩ := prepare_of hprepare
  have hsound := prepare_sound hfw hprepare
  have hlaid := prepare_laid hfw hprepare
  exact ⟨entry, hentry, kernel, modules, file, c, htarget, hsome, hof.executable,
    fun a own s hleaves hclear => hleaves.arrives hsound hlaid hclear hof,
    fun e64 e32 own s hleaves hwraps => hleaves.arrives e32 hsound hlaid hwraps hof⟩

end

end Computer

/-! ## A kernel that finds its header -/

/-- A Multiboot2 kernel of which the first four bytes go to one megabyte, and clear bytes behind them. -/
def headKernel : Buffer where
  data := elf32Executable 32 1 (LittleEndian.u32 ptLoad ++ LittleEndian.u32 0 ++ LittleEndian.u32 0x100000 ++
    LittleEndian.u32 0x100000 ++ LittleEndian.u32 4 ++ LittleEndian.u32 0x1000 ++ LittleEndian.u32 6 ++
    LittleEndian.u32 0x1000 ++ [0, 0, 0, 0] ++ mb2Header)
  fits := by decide

def headFiles (path : CString16) : Option Buffer := if path = cstr16 "\\kernel.bin" then some headKernel else none

/-- A computer with that file and the trampoline as it is assembled. -/
def linkedComputer : Computer DeviceNode { ns : List DeviceNode // ∀ n ∈ ns, n.Ok }
    { ns : List DeviceNode // ∀ n ∈ ns, n.Ok } Unit Pieces Bump Unit :=
  { computerWith 1000 headFiles with machine := linkedMachine }

/-- Its processor comes to one megabyte, where the first byte of the file is. -/
theorem main_arrives_head : ∃ p e s s', linkedComputer.main [] ⟨fun _ => false, 0x200000⟩ (fun _ => 7) =
      .ok (.multiboot p e) ∧
    Reaches assembled.e64 assembled.e32 s s' ∧ Protected s' ∧ s'.ip = 0x100000 ∧ s'.mem 0x100000 = 0x7F := by
  have hrun : (linkedComputer.main [] ⟨fun _ => false, 0x200000⟩ (fun _ => 7)).map (fun
        | .multiboot p _ => some (p.kernel.bootMode, p.placed, p.mods.map LoadedModule.info, p.infoAt)
        | _ => none) = .ok (some (.protected32, [⟨0x100000, 0x1000, 0, 4⟩], [], 0x200000)) := by
    decide +kernel
  obtain ⟨outcome, hmain, houtcome⟩ := map_ok hrun
  rcases outcome with s | - | status | h | ⟨p, e⟩
  · cases houtcome
  · cases houtcome
  · cases houtcome
  · cases houtcome
  · simp only [Option.some.injEq, Prod.mk.injEq] at houtcome
    obtain ⟨hmode, hplaced, hmods, hinfo⟩ := houtcome
    obtain ⟨-, -, _, _, _, _, -, -, -, -, hprepare, -⟩ := Computer.main_multiboot hmain
    obtain ⟨hlow, hclear⟩ := low_of_placed (p := p) (by simp [hplaced]) (by simp [List.map_eq_nil_iff.1 hmods])
      (by omega)
    obtain ⟨s, hleaves⟩ := leaves_linked (prepare_sound bump_lawful.nonNull hprepare) hmode fun x hx => (hlow x hx).2
    obtain ⟨entry, hentry, kernel, modules, file, c, htarget, hopen, hexe, harrives, -⟩ :=
      Computer.main_arrives (show linkedComputer.files.Delivers Pieces.rest from pieces_delivers)
        (fun path => (@computerWith_open 1000 headFiles path).1) bump_lawful.nonNull hmain
    obtain ⟨s', hreach, hprotected, hip, hloaded⟩ := harrives assembled _ s hleaves hclear
    -- the entry, its file and the class of the file
    have hconfig : linkedComputer.config = .builtin := by decide +kernel
    rw [hconfig] at hentry
    cases List.mem_singleton.1 hentry
    cases htarget
    have hfile : file.data = headKernel := by
      have hdata := (@computerWith_open 1000 headFiles (cstr16 "\\kernel.bin")).2
      rw [show (computerWith 1000 headFiles).openRegular (cstr16 "\\kernel.bin") = some file from hopen] at hdata
      exact Option.some.inj (hdata.trans (if_pos rfl))
    rw [hfile] at hip hloaded hexe
    obtain rfl : c = elf32 := by
      rcases hexe.elfClass with ⟨-, hc⟩ | ⟨hclass, -⟩
      · exact hc
      · exact absurd hclass (by decide)
    have hsegments : elf32.segments headKernel = [⟨0x100000, 0x1000, 0, 4⟩] := by decide +kernel
    refine ⟨p, e, s, s', hmain, hreach, hprotected, by rw [hip]; decide, ?_⟩
    rw [hloaded 0x100000 ⟨0x100000, 0x1000, 0, 4⟩ ⟨[], [], hsegments, by decide, nofun⟩]
    decide

end Bang
