/-
Lines that do not apply: an unknown directive, one that belongs into an entry in front of the
first entry, and one for another kind of target. A line leaves the parser's state alone in each of
these cases, so that a text is parsed as if the line were not there.
-/
import Bang.Config.Parse
import Mathlib.Data.List.InsertIdx

namespace Bang

/-! ## Leaving out a line -/

/-- The directive of a line and its argument. -/
def directiveLine (raw : Str) : Str × Str := split (strTrim (beforeHash raw))

/-- The text without its line number `i`. -/
def deleteLine (text : Str) (i : Nat) : Str := ((Pieces.pieces '\n' text).eraseIdx i).flatten

theorem strLines_deleteLine (text : Str) (i : Nat) : strLines (deleteLine text i) = (strLines text).eraseIdx i := by
  rw [strLines, deleteLine, Pieces.pieces_eraseIdx, strLines, List.eraseIdx_map]

/-- A step that leaves the state alone can be left out of a run. -/
theorem foldl_eraseIdx {σ α : Type} (f : σ → α → σ) (s : σ) (l : List α) {i : Nat} {a : α} (ha : l[i]? = some a)
    (h : f ((l.take i).foldl f s) a = (l.take i).foldl f s) : (l.eraseIdx i).foldl f s = l.foldl f s := by
  obtain ⟨hi, rfl⟩ := List.getElem?_eq_some_iff.1 ha
  have hsplit : l = l.take i ++ l[i] :: l.drop (i + 1) := by
    rw [← List.drop_eq_getElem_cons hi, List.take_append_drop]
  calc (l.eraseIdx i).foldl f s = (l.drop (i + 1)).foldl f ((l.take i).foldl f s) := by
        rw [List.eraseIdx_eq_take_drop_succ, List.foldl_append]
    _ = (l.drop (i + 1)).foldl f (f ((l.take i).foldl f s) l[i]) := by rw [h]
    _ = l.foldl f s := by conv_rhs => rw [hsplit, List.foldl_append, List.foldl_cons]

/-! ## Lines that do not apply -/

/-- The directives that belong into an entry. -/
def Directive.perEntry : Directive → Bool
  | .timeout | .autodetect | .default | .entry => false
  | .multiboot | .modules | .chainload | .linux | .initrd | .options => true

/-- The directives that only apply to a kind of target, and to which. -/
def Directive.appliesTo : Directive → Target → Bool
  | .modules, .multiboot .. | .initrd, .linux .. | .options, .linux .. => true
  | .modules, _ | .initrd, _ | .options, _ => false
  | _, _ => true

section
variable (tryFrom : Str → Option CString16)

/-- A line that does not apply where it stands, behind the lines `before`. -/
inductive DoesNotApply (before : List Str) (directive : Str) : Prop
  | unknown (h : directiveOf directive = none)
  | early (d : Directive) (hd : directiveOf directive = some d) (hper : d.perEntry = true)
      (hno : ∀ raw ∈ before, directiveOf (directiveLine raw).1 ≠ some .entry)
  | otherKind (d : Directive) (hd : directiveOf directive = some d) (entry : Entry)
      (hlast : (applyLines tryFrom .start before).entries.getLast? = some entry)
      (hkind : d.appliesTo entry.target = false)

variable {tryFrom}

theorem applyToLast_nil {directive arg : Str} {s : ParseState} (h : s.entries = []) :
    (applyToLast tryFrom directive arg s).1 = s := by
  unfold applyToLast
  rw [h]
  rfl

/-- Without an entry, nothing but an entry line makes one. -/
theorem applyDirective_entries {directive arg : Str} {s : ParseState} (h : s.entries = [])
    (hd : directiveOf directive ≠ some .entry) : (applyDirective tryFrom directive arg s).1.entries = [] := by
  unfold applyDirective
  split
  · exact h
  · exact h
  · split <;> exact h
  · exact absurd ‹_› hd
  · rw [applyToLast_nil h]
    exact h

/-- A directive of another kind than the entry's target changes nothing. -/
theorem applyToEntry_otherKind {directive arg : Str} {d : Directive} {entry : Entry}
    (hd : directiveOf directive = some d) (hkind : d.appliesTo entry.target = false) :
    (applyToEntry tryFrom directive arg entry).1 = entry := by
  unfold applyToEntry
  rw [hd]
  rcases htarget : entry.target with _ | _ | _ <;> rw [htarget] at hkind <;>
    cases d <;> first | rfl | (simp only [Directive.appliesTo] at hkind; cases hkind)

/-- Putting the last entry back. -/
theorem applyToLast_same {directive arg : Str} {s : ParseState}
    (h : ∀ entry, s.entries.getLast? = some entry → (applyToEntry tryFrom directive arg entry).1 = entry) :
    (applyToLast tryFrom directive arg s).1 = s := by
  unfold applyToLast
  split
  · rfl
  · rename_i entry hlast
    simp only [h entry hlast]
    rw [List.dropLast_append_getLast? entry hlast]

/-- An unknown directive changes no entry. -/
theorem applyToEntry_unknown {directive arg : Str} (h : directiveOf directive = none) (entry : Entry) :
    (applyToEntry tryFrom directive arg entry).1 = entry := by
  unfold applyToEntry
  rw [h]

theorem applyDirective_of_none {directive arg : Str} (h : directiveOf directive = none) (s : ParseState) :
    applyDirective tryFrom directive arg s = applyToLast tryFrom directive arg s := by
  unfold applyDirective
  rw [h]

theorem applyDirective_of_perEntry {directive arg : Str} {d : Directive} (h : directiveOf directive = some d)
    (hper : d.perEntry = true) (s : ParseState) :
    applyDirective tryFrom directive arg s = applyToLast tryFrom directive arg s := by
  unfold applyDirective
  rw [h]
  cases d <;> first | rfl | cases hper

/-- A line does what its directive does; one without a directive does nothing. -/
theorem applyLine_eq (s : ParseState) (raw : Str) :
    (applyLine tryFrom s raw).1 = (applyDirective tryFrom (directiveLine raw).1 (directiveLine raw).2 s).1 := by
  unfold applyLine directiveLine
  simp only
  split
  · rename_i hblank
    have hnone : directiveOf (split (strTrim (beforeHash raw))).1 = none := by rw [hblank]; decide
    rw [applyDirective_of_none hnone]
    exact (applyToLast_same fun entry _ => applyToEntry_unknown hnone entry).symm
  · rfl

theorem applyLines_entries (lines : List Str) (hno : ∀ raw ∈ lines, directiveOf (directiveLine raw).1 ≠ some .entry) :
    ∀ s : ParseState, s.entries = [] → (applyLines tryFrom s lines).entries = [] := by
  induction lines with
  | nil => intro s h; exact h
  | cons raw lines ih =>
    intro s h
    refine ih (fun raw' hraw' => hno raw' (List.mem_cons_of_mem _ hraw')) _ ?_
    show (applyLine tryFrom s raw).1.entries = []
    rw [applyLine_eq]
    exact applyDirective_entries h (hno raw (List.mem_cons_self ..))

theorem perEntry_of_appliesTo {d : Directive} {t : Target} (h : d.appliesTo t = false) : d.perEntry = true := by
  cases d <;> cases t <;> first | rfl | cases h

/-- A line that does not apply leaves the state alone. -/
theorem applyLine_of_doesNotApply {before : List Str} {raw : Str}
    (h : DoesNotApply tryFrom before (directiveLine raw).1) :
    (applyLine tryFrom (applyLines tryFrom .start before) raw).1 = applyLines tryFrom .start before := by
  rw [applyLine_eq]
  rcases h with hnone | ⟨d, hd, hper, hno⟩ | ⟨d, hd, entry, hlast, hkind⟩
  · rw [applyDirective_of_none hnone]
    exact applyToLast_same fun entry _ => applyToEntry_unknown hnone entry
  · rw [applyDirective_of_perEntry hd hper]
    exact applyToLast_nil (applyLines_entries before hno _ rfl)
  · rw [applyDirective_of_perEntry hd (perEntry_of_appliesTo hkind)]
    refine applyToLast_same fun entry' hlast' => ?_
    cases hlast.symm.trans hlast'
    exact applyToEntry_otherKind hd hkind

/-- A text is parsed as if a line that does not apply were not there. -/
theorem parse_deleteLine {text : Str} {i : Nat} {raw : Str} (hraw : (strLines text)[i]? = some raw)
    (h : DoesNotApply tryFrom ((strLines text).take i) (directiveLine raw).1) :
    parse tryFrom (deleteLine text i) = parse tryFrom text := by
  unfold parse
  rw [strLines_deleteLine]
  exact congrArg ParseState.finish (foldl_eraseIdx _ _ _ hraw (applyLine_of_doesNotApply h))

end

/-- The conversion to UCS-2, for examples: no NUL, and no character of more than sixteen bits. -/
def ucs2 (s : Str) : Option CString16 :=
  s.mapM fun c => if c.toNat = 0 ∨ c.toNat ≥ 0x10000 then none else some (UInt16.ofNat c.toNat)

end Bang
