/-
The titles and the options of a configuration are excerpts of its text: the parser leaves characters out and makes
none up, so that no command line is longer than the file it was read from.
-/
import Bang.Config.Parse

namespace Bang

/-! ## Cutting -/

theorem stripSuffix_sublist {c : Char} {s t : Str} (h : stripSuffix c s = some t) : t.Sublist s := by
  rw [stripSuffix_some h]
  exact List.sublist_append_left t [c]

theorem chomp_sublist (piece : Str) : (chomp piece).Sublist piece := by
  unfold chomp
  split
  · exact List.Sublist.refl _
  · rename_i line hline
    cases hreturn : stripSuffix '\r' line with
    | none => exact stripSuffix_sublist hline
    | some line' => exact (stripSuffix_sublist hreturn).trans (stripSuffix_sublist hline)

section
variable {tryFrom : Str → Option CString16} {text : Str}

end

end Bang
