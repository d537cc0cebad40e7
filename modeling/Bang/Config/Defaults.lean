/-
What decides the default. A number is applied at its line; a title is remembered, and looked up behind the
last line, over whatever number there is by then. The last default line decides, but for a number with a
title in front of it, and for a number that is the title of an entry.
-/
import Bang.Config.Unusable

namespace Bang

/-! ## Default lines -/

/-- The first of the entries with a title is at position `i`. -/
def FirstTitled (entries : List Entry) (title : Str) (i : Nat) : Prop :=
  ∃ h : i < entries.length, entries[i].title = title ∧ ∀ j (hj : j < i), entries[j].title ≠ title

section
variable (tryFrom : Str → Option CString16)

variable {tryFrom}

/-! ## The last of them -/

theorem FirstTitled.findIdx? {entries : List Entry} {title : Str} {i : Nat} :
    FirstTitled entries title i ↔ (entries.findIdx? fun e => e.title = title) = some i := by
  rw [List.findIdx?_eq_some_iff_getElem]
  simp only [decide_eq_true_eq]
  rfl

end

end Bang
