/-
The parser's state field by field: a line changes each field by what it is and by that field alone,
so that a run over lines is a run for every field. The timeout and the autodetect setting are what
the last line about them says.
-/
import Bang.Config.Blocks

namespace Bang

/-! ## One line -/

/-- The timeout a line sets. -/
def timeoutOf (raw : Str) : UInt64 := ((parseUnsigned (directiveLine raw).2).map UInt64.ofNat).getD 5

def lineTimeout (timeout : UInt64) (raw : Str) : UInt64 :=
  if isDirective .timeout raw then timeoutOf raw else timeout

def lineAutodetect (autodetect : Bool) (raw : Str) : Bool :=
  if isDirective .autodetect raw then !autodetectOff (directiveLine raw).2 else autodetect

/-- The position a line sets, if it gives one. -/
def lineDefault (default : Nat) (raw : Str) : Nat :=
  if isDirective .default raw then (parseUnsigned (directiveLine raw).2).getD default else default

/-- The title a line sets, if it gives no position. -/
def lineDefaultTitle (title : Option Str) (raw : Str) : Option Str :=
  if isDirective .default raw ∧ parseUnsigned (directiveLine raw).2 = none then some (directiveLine raw).2 else title

section
variable (tryFrom : Str → Option CString16)

/-- What a line makes of the entries. -/
def lineEntries (entries : List Entry) (raw : Str) : List Entry :=
  Sections.enter (isDirective .entry) startEntry (blockLine tryFrom) entries raw

variable {tryFrom}

theorem isDirective_iff {d : Directive} {raw : Str} :
    isDirective d raw = true ↔ directiveOf (directiveLine raw).1 = some d := by
  unfold isDirective
  exact decide_eq_true_iff

/-- A line has one directive. -/
theorem isDirective_unique {d d' : Directive} {raw : Str} (hd : isDirective d raw = true)
    (hd' : isDirective d' raw = true) : d = d' :=
  Option.some.inj ((isDirective_iff.1 hd).symm.trans (isDirective_iff.1 hd'))

theorem isDirective_other {d d' : Directive} {raw : Str} (hd : isDirective d raw = true) (hne : d' ≠ d) :
    isDirective d' raw = false :=
  Bool.eq_false_iff.2 fun hd' => hne (isDirective_unique hd' hd)

theorem applyToLast_globals (directive arg : Str) (s : ParseState) :
    (applyToLast tryFrom directive arg s).1 =
      { s with entries := (applyToLast tryFrom directive arg s).1.entries } := by
  unfold applyToLast
  split <;> rfl

/-- A line changes every field by itself. -/
theorem applyLine_fields (s : ParseState) (raw : Str) :
    (applyLine tryFrom s raw).1 =
      { timeout := lineTimeout s.timeout raw
        default := lineDefault s.default raw
        entries := lineEntries tryFrom s.entries raw
        autodetect := lineAutodetect s.autodetect raw
        defaultTitle := lineDefaultTitle s.defaultTitle raw } := by
  have hentries : (applyLine tryFrom s raw).1.entries = lineEntries tryFrom s.entries raw := applyLine_entries s raw
  rw [applyLine_eq] at hentries ⊢
  rw [← hentries]
  unfold lineTimeout lineDefault lineAutodetect lineDefaultTitle isDirective
  rcases hd : directiveOf (directiveLine raw).1 with _ | d
  · rw [applyDirective_of_none hd, applyToLast_globals]
    rfl
  rcases hper : d.perEntry with _ | _
  · unfold applyDirective timeoutOf
    rw [hd]
    cases d with
    | default => rcases hn : parseUnsigned (directiveLine raw).2 with _ | n <;> simp
    | timeout | autodetect | entry => simp
    | _ => cases hper
  · rw [applyDirective_of_perEntry hd hper, applyToLast_globals]
    cases d <;> first | cases hper; done | simp

/-! ## A run over lines -/

/-- A run over lines is a run for every field. -/
theorem applyLines_fields (lines : List Str) : ∀ s : ParseState, applyLines tryFrom s lines =
    { timeout := lines.foldl lineTimeout s.timeout
      default := lines.foldl lineDefault s.default
      entries := lines.foldl (lineEntries tryFrom) s.entries
      autodetect := lines.foldl lineAutodetect s.autodetect
      defaultTitle := lines.foldl lineDefaultTitle s.defaultTitle } := by
  induction lines with
  | nil => intro s; rfl
  | cons raw lines ih =>
    intro s
    show applyLines tryFrom (applyLine tryFrom s raw).1 lines = _
    rw [ih, applyLine_fields]
    rfl

/-- What a run leaves behind, as a configuration. -/
theorem parse_fields (text : Str) : parse tryFrom text = ParseState.finish
    { timeout := (strLines text).foldl lineTimeout 5
      default := (strLines text).foldl lineDefault 0
      entries := (strLines text).foldl (lineEntries tryFrom) []
      autodetect := (strLines text).foldl lineAutodetect true
      defaultTitle := (strLines text).foldl lineDefaultTitle none } := by
  rw [parse, applyLines_fields]
  rfl

/-- The timeout: 5, unless a line says otherwise. -/
def timeoutSetting (lines : List Str) : UInt64 := ((lines.filter (isDirective .timeout)).getLast?.map timeoutOf).getD 5

theorem foldl_lineTimeout (lines : List Str) (timeout : UInt64) :
    lines.foldl lineTimeout timeout = ((lines.filter (isDirective .timeout)).getLast?.map timeoutOf).getD timeout :=
  Sections.foldl_last (isDirective .timeout) timeoutOf lines timeout

theorem foldl_lineAutodetect (lines : List Str) (autodetect : Bool) :
    lines.foldl lineAutodetect autodetect =
      ((lines.filter (isDirective .autodetect)).getLast?.map fun raw => !autodetectOff (directiveLine raw).2).getD
        autodetect :=
  Sections.foldl_last (isDirective .autodetect) (fun raw => !autodetectOff (directiveLine raw).2) lines autodetect

theorem parse_autodetect (text : Str) : (parse tryFrom text).autodetect = autodetectSetting (strLines text) := by
  have hlast := foldl_lineAutodetect (strLines text) true
  rw [parse_fields]
  refine hlast.trans ?_
  unfold autodetectSetting
  cases ((strLines text).filter (isDirective .autodetect)).getLast? <;> rfl

end

end Bang
