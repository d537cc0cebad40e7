/-
How a configuration is written down: the documented syntax as a relation between a configuration
and texts, with the freedom it leaves (indentation, blanks, blank lines and comments).
-/
import Bang.Config.Parse
import Mathlib.Data.List.Basic

namespace Bang

/-! ## Arguments -/

/-- A title, a path or options as they can stand in a line: trimmed, without a comment sign or a
line break. -/
structure Plain (s : Str) : Prop where
  trimmed : Trim.Trimmed isWhitespace s
  noHash : '#' ∉ s
  noBreak : '\n' ∉ s

/-- A character that may not be there is no blank: the check and the statement. -/
theorem all_not_blank (o : Option Char) :
    o.all (fun c => !isWhitespace c) = true ↔ ∀ c ∈ o, isWhitespace c = false := by
  rcases o with _ | c <;> simp

instance (s : Str) : Decidable (Plain s) :=
  decidable_of_iff ((s.head?.all (fun c => !isWhitespace c) = true ∧ s.getLast?.all (fun c => !isWhitespace c) = true) ∧
    '#' ∉ s ∧ '\n' ∉ s) ⟨fun h => ⟨⟨(all_not_blank _).1 h.1.1, (all_not_blank _).1 h.1.2⟩, h.2.1, h.2.2⟩,
      fun h => ⟨⟨(all_not_blank _).2 h.trimmed.head, (all_not_blank _).2 h.trimmed.last⟩, h.noHash, h.noBreak⟩⟩

/-- How the autodetect setting is written: one of four words turns it off, anything else on. -/
structure AutodetectText (autodetect : Bool) (s : Str) : Prop where
  plain : Plain s
  off : autodetect = false ↔ s ∈ ["off".toList, "no".toList, "false".toList, "0".toList]

/-- How the default is written: as a position, or as the title of an entry that is not itself a
number, which stands for the first entry of that title. -/
inductive DefaultText (entries : List Entry) : Nat → Str → Prop
  | position {n : Nat} {s : Str} (hs : Numeral n s) (hn : n < entries.length) (hsize : n < 2 ^ 64) :
    DefaultText entries n s
  | title {n : Nat} {s : Str} (hs : Plain s) (hnumber : parseUnsigned s = none)
    (hfirst : entries.findIdx? (fun e => e.title = s) = some n) : DefaultText entries n s

section
variable (tryFrom : Str → Option CString16)

/-- How a path is written. -/
structure PathText (p : CString16) (s : Str) : Prop where
  plain : Plain s
  converts : tryFrom s = some p
  nonempty : p ≠ []

/-- How a companion's path is written, if there is a companion. -/
def CompanionText (companion : Option CString16) (s : Str) : Prop := ∃ p, companion = some p ∧ PathText tryFrom p s

end

/-! ## Directives -/

/-- A line for a setting, or none where it is what it is without. -/
inductive SettingLine (d : Directive) (means : Str → Prop) (unsaid : Prop) : List (Directive × Str) → Prop
  | line {s : Str} (h : means s) : SettingLine d means unsaid [(d, s)]
  | absent (h : unsaid) : SettingLine d means unsaid []

section
variable (tryFrom : Str → Option CString16)

/-- The directives of a target: its own, and the ones that go with it, in any order. -/
inductive TargetLines : Target → List (Directive × Str) → Prop
  | multiboot {kernel : CString16} {modules : Option CString16} {k : Str} {ms : List (Directive × Str)}
    (hk : PathText tryFrom kernel k) (hm : SettingLine .modules (CompanionText tryFrom modules) (modules = none) ms) :
    TargetLines (.multiboot kernel modules) ((.multiboot, k) :: ms)
  | chainload {p : CString16} {s : Str} (hs : PathText tryFrom p s) :
    TargetLines (.chainload p none) [(.chainload, s)]
  | linux {kernel : CString16} {initrd : Option CString16} {k options : Str} {is os ds : List (Directive × Str)}
    (hk : PathText tryFrom kernel k) (hi : SettingLine .initrd (CompanionText tryFrom initrd) (initrd = none) is)
    (ho : SettingLine .options (fun s => s = options ∧ Plain s) (options = []) os) (hds : ds = is ++ os ∨ ds = os ++ is) :
    TargetLines (.linux kernel initrd options) ((.linux, k) :: ds)

/-- The directives of entries: for each its title, and those of its target. -/
inductive EntryLines : List Entry → List (Directive × Str) → Prop
  | nil : EntryLines [] []
  | cons {title : Str} {target : Target} {entries : List Entry} {ds rest : List (Directive × Str)}
    (ht : Plain title) (hds : TargetLines tryFrom target ds) (hrest : EntryLines entries rest) :
    EntryLines (⟨title, target⟩ :: entries) ((.entry, title) :: ds ++ rest)

end

/-- The global directives of a configuration, in any order. -/
structure GlobalLines (cfg : Config) (globals : List (Directive × Str)) : Prop where
  lines : ∃ timeouts autodetects defaults,
    SettingLine .timeout (Numeral cfg.timeout.toNat) (cfg.timeout = 5) timeouts ∧
    SettingLine .autodetect (AutodetectText cfg.autodetect) (cfg.autodetect = true) autodetects ∧
    SettingLine .default (DefaultText cfg.entries cfg.default) (cfg.default = 0) defaults ∧
    globals.Perm (timeouts ++ autodetects ++ defaults)

/-- The directives of a configuration: the global ones and then its entries. -/
structure ConfigLines (tryFrom : Str → Option CString16) (cfg : Config) (ds : List (Directive × Str)) : Prop where
  lines : ∃ globals rest, GlobalLines cfg globals ∧ EntryLines tryFrom cfg.entries rest ∧ ds = globals ++ rest

/-! ## Lines -/

/-- Blanks of a line. -/
def Blanks (s : Str) : Prop := ∀ c ∈ s, isWhitespace c = true ∧ c ≠ '\n'

/-- Nothing, or a comment up to the end of the line. -/
def Comment (s : Str) : Prop := '\n' ∉ s ∧ (s = [] ∨ s.head? = some '#')

instance (s : Str) : Decidable (Blanks s) := List.decidableBAll _ s

instance (s : Str) : Decidable (Comment s) := inferInstanceAs (Decidable (_ ∧ _))

/-- A line with a directive: indented, with blanks in front of the argument and behind it, and
perhaps a comment. -/
inductive DirectiveText (d : Directive) (arg : Str) : Str → Prop
  | intro {indent gap trail comment : Str} (hindent : Blanks indent) (hgap : Blanks gap)
    (hne : arg ≠ [] → gap ≠ []) (htrail : Blanks trail) (hcomment : Comment comment) :
    DirectiveText d arg (indent ++ (d.name.toList ++ (gap ++ arg)) ++ trail ++ comment)

/-- A line with nothing on it but blanks and perhaps a comment. -/
inductive EmptyText : Str → Prop
  | intro {blanks comment : Str} (hblanks : Blanks blanks) (hcomment : Comment comment) :
    EmptyText (blanks ++ comment)

/-- Lines with the given directives, one after another, and empty lines anywhere. -/
inductive LinesText : List (Directive × Str) → List Str → Prop
  | nil : LinesText [] []
  | empty {ds : List (Directive × Str)} {raw : Str} {raws : List Str} (h : EmptyText raw)
    (hrest : LinesText ds raws) : LinesText ds (raw :: raws)
  | directive {d : Directive} {arg : Str} {ds : List (Directive × Str)} {raw : Str} {raws : List Str}
    (h : DirectiveText d arg raw) (hrest : LinesText ds raws) : LinesText ((d, arg) :: ds) (raw :: raws)

/-- A text is a configuration written down. -/
def Written (tryFrom : Str → Option CString16) (cfg : Config) (text : Str) : Prop :=
  ∃ ds raws, ConfigLines tryFrom cfg ds ∧ LinesText ds raws ∧ text = ['\n'].intercalate raws

end Bang
