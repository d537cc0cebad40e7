/-
Where `main` stops: whatever is configured, on the disks and pressed, it is at a check of its own and not at an access
outside of what is there. The checks are those of the kernel's file, of the modules' files and of where the command
line is cut; something may have to be printed that the console does not show; and there may be nothing to boot.
-/
import Bang.Config.Excerpts
import Bang.Elf.Loads
import Bang.Elf.Reads
import Bang.Handoff.Run
import Mathlib.Data.List.Flatten

namespace Bang

/-! ## Errors -/

section
variable {ε α β : Type} {P Q : ε → Prop}

/-- Each error is one of `P`. -/
def Fails (P : ε → Prop) (x : Except ε α) : Prop := ∀ e, x = .error e → P e

theorem Fails.of_ok {x : Except ε α} {a : α} (h : x = .ok a) : Fails P x := by
  rintro e rfl
  cases h

theorem fails_pure (a : α) : Fails P (pure a : Except ε α) := .of_ok rfl

theorem Fails.bind {x : Except ε α} {f : α → Except ε β} (hx : Fails P x) (hf : ∀ a, x = .ok a → Fails P (f a)) :
    Fails P (x >>= f) := by
  cases x with
  | error e => exact fun e' he => hx e' (by cases he; rfl)
  | ok a => exact hf a rfl

theorem Fails.map {x : Except ε α} (hx : Fails P x) (f : α → β) : Fails P (x.map f) := by
  cases x with
  | error e => exact fun e' he => hx e' (by cases he; rfl)
  | ok a => exact fails_pure (f a)

theorem Fails.mono {x : Except ε α} (hx : Fails P x) (h : ∀ e, P e → Q e) : Fails Q x := fun e he => h e (hx e he)

end

/-! ## A Multiboot entry -/

section
variable {σ : Type} {fw : Firmware σ}

end

/-! ## A Linux entry -/

namespace Linux

open LittleEndian

section
variable {σ : Type} {fw : Firmware σ} {cmdline : Str} {image : Buffer}

end

end Linux

/-! ## All of it -/

section
variable {ν π β ι φ σ κ : Type} {c : Computer ν π β ι φ σ κ}

/-- The paths of an entry that are printed when it is booted. -/
def Target.paths : Target → List CString16
  | .multiboot kernel modules => kernel :: modules.toList
  | .chainload path _ => [path]
  | .linux kernel initrd _ => kernel :: initrd.toList

end

/-! ## A command line that is cut -/

end Bang
