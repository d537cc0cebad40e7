/-
The text console of the firmware, as `print!` of the `uefi` crate writes to it. A text goes through if each of its
characters can be shown: a NUL, and a character outside UCS-2, cannot be, and what else cannot is up to the firmware.
`print!` panics at such a text.
-/
import Bang.Text.Str

namespace Bang

/-- The characters that any console shows: Basic Latin, and the end of a line. -/
def basicLatin (c : Char) : Bool := c == '\n' || (0x20 ≤ c.toNat && c.toNat < 0x7F)

/-- A console: what it says of its size and its cursor, and what it becomes when the cursor is moved or switched, or
something is shown. -/
structure Console (κ : Type) where
  /-- Columns and rows of the current mode, if the console says. -/
  currentMode : κ → Option (Nat × Nat)
  /-- The row the cursor is in. -/
  cursorRow : κ → Nat
  /-- `set_cursor_position`: a column, a row, and whether the cursor moved. -/
  setCursor : Nat → Nat → κ → κ × Bool
  enableCursor : Bool → κ → κ
  /-- The characters it can show. -/
  shows : Char → Bool
  basic : ∀ c, basicLatin c = true → shows c = true
  write : Str → κ → κ

namespace Console

variable {κ : Type} (con : Console κ)

/-- Each character of a text can be shown. -/
def Shows (text : Str) : Prop := text.all con.shows = true

instance (text : Str) : Decidable (con.Shows text) := inferInstanceAs (Decidable (_ = _))

/-- `print!`; `none` is a panic. -/
def print (text : Str) (k : κ) : Option κ := if con.Shows text then some (con.write text k) else none

/-- `println!`. -/
def println (text : Str) (k : κ) : Option κ := con.print (text ++ ['\n']) k

variable {con}

theorem shows_basic {text : Str} (h : text.all basicLatin = true) : con.Shows text :=
  List.all_eq_true.2 fun c hc => con.basic c (List.all_eq_true.1 h c hc)

@[simp] theorem shows_nil : con.Shows [] := rfl

@[simp] theorem shows_append {text text' : Str} : con.Shows (text ++ text') ↔ con.Shows text ∧ con.Shows text' := by
  unfold Shows
  rw [List.all_append, Bool.and_eq_true]

/-- What is in front and behind can be shown anyway. -/
theorem shows_within {front text back : Str} (hfront : front.all basicLatin = true) (hback : back.all basicLatin = true) :
    con.Shows (front ++ text ++ back) ↔ con.Shows text := by
  rw [shows_append, shows_append, and_iff_left (shows_basic hback), and_iff_right (shows_basic hfront)]

theorem print_isSome {text : Str} {k : κ} : (con.print text k).isSome ↔ con.Shows text := by
  unfold print
  split <;> simp [*]

theorem println_isSome {text : Str} {k : κ} : (con.println text k).isSome ↔ con.Shows text := by
  rw [println, print_isSome, shows_append]
  exact and_iff_left (shows_basic (by decide))

end Console

/-- A console that shows all of UCS-2 and keeps nothing of it, for examples; its cursor cannot be moved. -/
def ucs2Console : Console Unit where
  currentMode _ := none
  cursorRow _ := 0
  setCursor _ _ k := (k, false)
  enableCursor _ k := k
  shows c := c.toNat != 0 && decide (c.toNat < 0x10000)
  basic c h := by
    have hbasic : c = '\n' ∨ 0x20 ≤ c.toNat ∧ c.toNat < 0x7F := by simpa [basicLatin] using h
    rcases hbasic with rfl | hrange
    · decide
    · simp only [Bool.and_eq_true, bne_iff_ne, decide_eq_true_eq]
      omega
  write _ k := k

end Bang
