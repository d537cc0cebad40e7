/-
The functions of the language's `str` that the configuration parser and the menu use, on lists of
Unicode scalar values.
-/
import Bang.Text.Pieces
import Bang.Text.Trim
import Mathlib.Algebra.Group.Nat.Defs

namespace Bang

/-- A text, or a part of one. -/
abbrev Str := List Char

/-! ## Blanks and lines -/

/-- `char::is_whitespace`: the Unicode property White_Space. -/
def isWhitespace (c : Char) : Bool :=
  let n := c.toNat
  (0x09 ≤ n && n ≤ 0x0D) || n == 0x20 || n == 0x85 || n == 0xA0 || n == 0x1680 ||
    (0x2000 ≤ n && n ≤ 0x200A) || n == 0x2028 || n == 0x2029 || n == 0x202F || n == 0x205F || n == 0x3000

/-- `str::strip_suffix` of one character. -/
def stripSuffix (c : Char) (s : Str) : Option Str :=
  if s.getLast? = some c then some s.dropLast else none

/-- A line without its ending: a line feed, and a carriage return right in front of one. -/
def chomp (piece : Str) : Str :=
  match stripSuffix '\n' piece with
  | none => piece
  | some line => (stripSuffix '\r' line).getD line

/-- `str::lines`. -/
def strLines (text : Str) : List Str := (Pieces.pieces '\n' text).map chomp

/-- `line.split('#').next().unwrap_or("")`. -/
def beforeHash (line : Str) : Str := line.takeWhile (· ≠ '#')

/-- `str::trim`. -/
def strTrim (s : Str) : Str := Trim.trim isWhitespace s

/-! ## Numbers -/

/-- `char::to_digit(10)`. -/
def toDigit (c : Char) : Option Nat := if c.isDigit then some (c.toNat - 48) else none

/-- The digits of a number behind those that made `value`; `none` for another character, and for a
number of more than 64 bits. -/
def parseDigits (value : Nat) : Str → Option Nat
  | [] => some value
  | c :: cs => do
    let d ← toDigit c
    let value := value * 10
    if value ≥ 2 ^ 64 then none
    else if value + d ≥ 2 ^ 64 then none
    else parseDigits (value + d) cs

/-- `str::parse` to an unsigned number of 64 bits, which may have a plus sign. -/
def parseUnsigned : Str → Option Nat
  | [] => none
  | ['+'] => none
  | '+' :: cs => parseDigits 0 cs
  | cs => parseDigits 0 cs

example : parseUnsigned "18446744073709551615".toList = some (2 ^ 64 - 1) := by decide +kernel

/-! ## Lemmas -/

@[simp] theorem stripSuffix_concat (c : Char) (s : Str) : stripSuffix c (s ++ [c]) = some s := by
  simp [stripSuffix]

/-- A line that was written without its ending is read back, less a carriage return. -/
theorem chomp_line (line : Str) : chomp (line ++ ['\n']) = (stripSuffix '\r' line).getD line := by
  rw [chomp, stripSuffix_concat]

theorem stripSuffix_some {c : Char} {s t : Str} (h : stripSuffix c s = some t) : s = t ++ [c] := by
  unfold stripSuffix at h
  split at h
  · rename_i hlast
    cases h
    exact (List.dropLast_append_getLast? c hlast).symm
  · cases h

/-- The carriage return does not matter to what is in front of a comment, trimmed. -/
theorem strTrim_beforeHash_chomp (line : Str) :
    strTrim (beforeHash (chomp (line ++ ['\n']))) = strTrim (beforeHash line) := by
  rw [chomp_line]
  rcases h : stripSuffix '\r' line with _ | s
  · rfl
  · rw [stripSuffix_some h, Option.getD_some]
    unfold beforeHash
    rw [List.takeWhile_append]
    split
    · rename_i hall
      have hs : s.takeWhile (· ≠ '#') = s := (List.takeWhile_prefix _).eq_of_length hall
      have hcr : strTrim ([] ++ (s ++ ['\r'])) = strTrim s :=
        Trim.trim_pad s (fun c hc => by cases hc) (fun c hc => by rw [List.mem_singleton.1 hc]; rfl)
      rw [List.nil_append] at hcr
      rw [hs]
      exact hcr.symm
    · rfl

/-- The value of a decimal numeral, whose digits are `cs`. -/
def decimalValue (value : Nat) (cs : Str) : Nat := cs.foldl (fun v c => v * 10 + (c.toNat - 48)) value

theorem le_decimalValue (cs : Str) : ∀ value, value ≤ decimalValue value cs := by
  induction cs with
  | nil => intro value; exact le_refl _
  | cons c cs ih =>
    intro value
    have := ih (value * 10 + (c.toNat - 48))
    have hcons : decimalValue value (c :: cs) = decimalValue (value * 10 + (c.toNat - 48)) cs := rfl
    omega

theorem parseDigits_eq (cs : Str) (hcs : ∀ c ∈ cs, c.isDigit = true) :
    ∀ value, decimalValue value cs < 2 ^ 64 → parseDigits value cs = some (decimalValue value cs) := by
  induction cs with
  | nil => intro value _; rfl
  | cons c cs ih =>
    intro value h
    have hcons : decimalValue value (c :: cs) = decimalValue (value * 10 + (c.toNat - 48)) cs := rfl
    have hle := le_decimalValue cs (value * 10 + (c.toNat - 48))
    rw [hcons] at h ⊢
    rw [parseDigits, toDigit, if_pos (hcs c (List.mem_cons_self ..)), Option.bind_eq_bind, Option.bind_some,
      if_neg (by omega), if_neg (by omega)]
    exact ih (fun c hc => hcs c (List.mem_cons_of_mem _ hc)) _ h

/-- `s` is a decimal numeral for `n`. -/
structure Numeral (n : Nat) (s : Str) : Prop where
  nonempty : s ≠ []
  digits : ∀ c ∈ s, c.isDigit = true
  value : decimalValue 0 s = n

theorem Numeral.parse {n : Nat} {s : Str} (h : Numeral n s) (hn : n < 2 ^ 64) : parseUnsigned s = some n := by
  obtain ⟨c, cs, rfl⟩ := List.exists_cons_of_ne_nil h.nonempty
  have hc : c ≠ '+' := fun hplus => absurd (h.digits c (List.mem_cons_self ..)) (by rw [hplus]; decide)
  have hparse := parseDigits_eq (c :: cs) h.digits 0 (by rw [h.value]; exact hn)
  rw [h.value] at hparse
  rw [parseUnsigned.eq_4 _ (by simp) (by simp [hc]) (by simp [hc])]
  exact hparse

/-- The digits of a numeral are not blank, and no comment starts among them. -/
theorem isDigit_not_blank {c : Char} (h : c.isDigit = true) : isWhitespace c = false ∧ c ≠ '#' ∧ c ≠ '\n' := by
  have hrange : 48 ≤ c.toNat ∧ c.toNat ≤ 57 := by
    simpa [Char.isDigit, Char.le_def, UInt32.le_iff_toNat_le] using h
  refine ⟨?_, ?_, ?_⟩
  · simp only [isWhitespace, Bool.or_eq_false_iff, Bool.and_eq_false_iff, decide_eq_false_iff_not, beq_eq_false_iff_ne]
    omega
  · rintro rfl; revert hrange; decide
  · rintro rfl; revert hrange; decide

end Bang
