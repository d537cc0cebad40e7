/-
Blocks are independent: a text behind another one that starts with an entry line is parsed as if
it stood alone, and so is the text in front of it.
-/
import Bang.Config.Fields

namespace Bang

section
variable {tryFrom : Str → Option CString16}

/-! ## Texts one behind the other -/

end

end Bang
