/-
The framebuffer, as the graphics protocol has it (`query_gop` of `src/gop.rs`): where its pixels are and which
bits of them are of which colour, by the mode that is set and by what is passed on of it.
-/
import Bang.Multiboot.Info
import Mathlib.Data.Nat.Bitwise

namespace Bang

/-! ## The mode -/

/-- The formats of a pixel. -/
inductive PixelFormat
  | rgb
  | bgr
  | bitmask
  | bltOnly
  deriving DecidableEq, Repr

/-- The bits of a pixel that each colour has. -/
structure PixelBitmask where
  red : UInt32
  green : UInt32
  blue : UInt32
  deriving DecidableEq, Repr

/-- The mode that is set, and where its framebuffer is if it has one. The bits are those of a pixel of the format
that has a `bitmask`. -/
structure GraphicsMode where
  width : UInt32
  height : UInt32
  format : PixelFormat
  bitmask : PixelBitmask
  /-- Pixels from one line to the next. -/
  stride : UInt32
  base : UInt64

/-- Query GOP for framebuffer information; `none` is a machine without it. -/
def queryGop : Option GraphicsMode → Option FbInfo
  | none => none
  | some mode =>
    if mode.format = .bltOnly then none
    else
      let fbInfo (redPos bluePos : UInt8) : FbInfo :=
        { addr := mode.base
          pitch := mode.stride * (32 / 8)
          width := mode.width
          height := mode.height
          bpp := 32
          fbType := 1
          redPos
          redSize := 8
          greenPos := 8
          greenSize := 8
          bluePos
          blueSize := 8 }
      match mode.format with
      | .rgb => some (fbInfo 0 16)
      | .bgr => some (fbInfo 16 0)
      | _ => some (fbInfo 0 16)

theorem queryGop_isSome {mode : Option GraphicsMode} :
    (∃ fb, queryGop mode = some fb) ↔ ∃ g, mode = some g ∧ g.format ≠ .bltOnly := by
  cases mode with
  | none => exact iff_of_false nofun nofun
  | some g =>
    unfold queryGop
    cases hformat : g.format <;> simp [hformat]

/-! ## What a mode and what is passed on of it mean -/

/-- Where the firmware puts a pixel: four bytes in lines of `stride` pixels. -/
def GraphicsMode.pixelAt (mode : GraphicsMode) (x y : Nat) : Nat :=
  mode.base.toNat + 4 * (mode.stride.toNat * y + x)

/-- The bits the firmware has for the colours. -/
def GraphicsMode.colours (mode : GraphicsMode) : PixelBitmask :=
  match mode.format with
  | .rgb => ⟨0xFF, 0xFF00, 0xFF0000⟩
  | .bgr => ⟨0xFF0000, 0xFF00, 0xFF⟩
  | _ => mode.bitmask

/-- Where a kernel puts a pixel. -/
def FbInfo.pixelAt (fb : FbInfo) (x y : Nat) : Nat := fb.addr.toNat + fb.pitch.toNat * y + fb.bpp.toNat / 8 * x

/-- The bits of a colour from its position and size. -/
def colourBits (pos size : UInt8) : UInt32 := UInt32.ofNat ((2 ^ size.toNat - 1) * 2 ^ pos.toNat)

/-- The bits a kernel takes for the colours. -/
def FbInfo.colours (fb : FbInfo) : PixelBitmask :=
  ⟨colourBits fb.redPos fb.redSize, colourBits fb.greenPos fb.greenSize, colourBits fb.bluePos fb.blueSize⟩

/-- A kernel that draws by `fb` draws what it means to in the mode. -/
structure FbInfo.Describes (fb : FbInfo) (mode : GraphicsMode) : Prop where
  width : fb.width = mode.width
  height : fb.height = mode.height
  pixels : ∀ x y, x < mode.width.toNat → y < mode.height.toNat → fb.pixelAt x y = mode.pixelAt x y
  colours : fb.colours = mode.colours

/-- A mode whose framebuffer is passed on as it is: lines of less than four gigabytes, and the colours of a pixel
in bytes, red first, where the mode says which bits they are. -/
structure GraphicsMode.Plain (mode : GraphicsMode) : Prop where
  lines : 1 < mode.height.toNat → 0 < mode.width.toNat → mode.stride.toNat * 4 < 2 ^ 32
  colours : mode.format = .bitmask → mode.bitmask = ⟨0xFF, 0xFF00, 0xFF0000⟩

theorem pitch_toNat (mode : GraphicsMode) : (mode.stride * (32 / 8)).toNat = mode.stride.toNat * 4 % 2 ^ 32 :=
  UInt32.toNat_mul mode.stride (32 / 8)

/-- The lines are where the firmware has them exactly when the pitch is. -/
theorem pixels_iff {mode : GraphicsMode} {fb : FbInfo} (haddr : fb.addr = mode.base)
    (hpitch : fb.pitch = mode.stride * (32 / 8)) (hbpp : fb.bpp = 32) :
    (∀ x y, x < mode.width.toNat → y < mode.height.toNat → fb.pixelAt x y = mode.pixelAt x y) ↔
      (1 < mode.height.toNat → 0 < mode.width.toNat → mode.stride.toNat * 4 < 2 ^ 32) := by
  have hpixel : ∀ x y, fb.pixelAt x y = mode.pixelAt x y ↔
      mode.stride.toNat * 4 % 2 ^ 32 * y = mode.stride.toNat * 4 * y := by
    intro x y
    have hbytes : (32 : UInt8).toNat / 8 = 4 := rfl
    unfold FbInfo.pixelAt GraphicsMode.pixelAt
    rw [haddr, hpitch, hbpp, pitch_toNat, hbytes, Nat.mul_add, ← Nat.mul_assoc, Nat.mul_comm 4 mode.stride.toNat]
    omega
  constructor
  · intro h hheight hwidth
    have hline := (hpixel 0 1).1 (h 0 1 hwidth hheight)
    omega
  · intro h x y hx hy
    rw [hpixel]
    by_cases hfirst : y = 0
    · rw [hfirst, Nat.mul_zero, Nat.mul_zero]
    · rw [Nat.mod_eq_of_lt (h (by omega) (by omega))]

/-- Eight bits from each place that a colour has. -/
theorem colourBits_eight : colourBits 0 8 = 0xFF ∧ colourBits 8 8 = 0xFF00 ∧ colourBits 16 8 = 0xFF0000 := by
  decide

/-- A description has the mode's size, lines and place, whatever it says of the colours. -/
theorem describes_iff_colours {mode : GraphicsMode} {fb : FbInfo} (hwidth : fb.width = mode.width)
    (hheight : fb.height = mode.height) (haddr : fb.addr = mode.base) (hpitch : fb.pitch = mode.stride * (32 / 8))
    (hbpp : fb.bpp = 32) :
    fb.Describes mode ↔
      (1 < mode.height.toNat → 0 < mode.width.toNat → mode.stride.toNat * 4 < 2 ^ 32) ∧ fb.colours = mode.colours := by
  rw [← pixels_iff haddr hpitch hbpp]
  constructor
  · intro h
    exact ⟨h.pixels, h.colours⟩
  · rintro ⟨hpixels, hcolours⟩
    exact ⟨hwidth, hheight, hpixels, hcolours⟩

/-- What is passed on describes the mode if and only if the mode is plain. -/
theorem queryGop_describes {mode : GraphicsMode} {fb : FbInfo} (h : queryGop (some mode) = some fb) :
    fb.Describes mode ↔ mode.Plain := by
  have hplain : mode.Plain ↔ (1 < mode.height.toNat → 0 < mode.width.toNat → mode.stride.toNat * 4 < 2 ^ 32) ∧
      (mode.format = .bitmask → mode.bitmask = ⟨0xFF, 0xFF00, 0xFF0000⟩) :=
    ⟨fun h => ⟨h.lines, h.colours⟩, fun h => ⟨h.1, h.2⟩⟩
  have hcolours : fb.colours = mode.colours ↔ (mode.format = .bitmask → mode.bitmask = ⟨0xFF, 0xFF00, 0xFF0000⟩) := by
    unfold queryGop at h
    unfold GraphicsMode.colours
    cases hformat : mode.format <;> simp only [hformat, reduceCtorEq, if_false, if_true] at h <;> cases h
    case rgb => simp [FbInfo.colours, colourBits_eight]
    case bgr => simp [FbInfo.colours, colourBits_eight]
    case bitmask => simp [FbInfo.colours, colourBits_eight, eq_comm]
  have hfields : fb.width = mode.width ∧ fb.height = mode.height ∧ fb.addr = mode.base ∧
      fb.pitch = mode.stride * (32 / 8) ∧ fb.bpp = 32 := by
    unfold queryGop at h
    cases hformat : mode.format <;> simp only [hformat, reduceCtorEq, if_false, if_true] at h <;> cases h <;>
      exact ⟨rfl, rfl, rfl, rfl, rfl⟩
  obtain ⟨hwidth, hheight, haddr, hpitch, hbpp⟩ := hfields
  rw [describes_iff_colours hwidth hheight haddr hpitch hbpp, hplain, hcolours]

end Bang
