/-
Names of files as volumes compare them: letter by letter, but for the case of the letters of ASCII.
-/
import Bang.Config.Parse

namespace Bang

/-- `to_ascii_uppercase` of one unit. -/
def asciiUpper (c : UInt16) : UInt16 := if 0x61 ≤ c ∧ c ≤ 0x7A then c - 0x20 else c

/-- `to_ascii_uppercase`. -/
def toAsciiUppercase (s : CString16) : CString16 := s.map asciiUpper

/-- Two names of one file. -/
def SameName (p q : CString16) : Prop := toAsciiUppercase p = toAsciiUppercase q

instance (p q : CString16) : Decidable (SameName p q) := inferInstanceAs (Decidable (_ = _))

theorem SameName.symm {p q : CString16} (h : SameName p q) : SameName q p := Eq.symm h

end Bang
