/-
The entries of a configuration by its blocks: an entry line starts a block, and what becomes of the
entry is decided by the lines of its block alone. An entry is kept when its block leaves it with
something to boot.
-/
import Bang.Config.Skip
import Bang.Text.Sections

namespace Bang

/-! ## Blocks -/

/-- A line whose directive is `d`. -/
def isDirective (d : Directive) (raw : Str) : Bool := directiveOf (directiveLine raw).1 = some d

/-- The entry lines, each with the lines of its block. -/
def blocks (lines : List Str) : List (Str × List Str) := (Sections.cut (isDirective .entry) lines).2

/-- The entry of an entry line, until a directive says otherwise. -/
def startEntry (raw : Str) : Entry := ⟨(directiveLine raw).2, .multiboot [] none⟩

section
variable (tryFrom : Str → Option CString16)

/-- What a line of its block does to an entry. -/
def blockLine (entry : Entry) (raw : Str) : Entry :=
  (applyToEntry tryFrom (directiveLine raw).1 (directiveLine raw).2 entry).1

/-- The entry of a block. -/
def blockEntry (block : Str × List Str) : Entry := Sections.record startEntry (blockLine tryFrom) block

variable {tryFrom}

/-- A directive that belongs into no entry changes none. -/
theorem applyToEntry_global {directive arg : Str} {d : Directive} (h : directiveOf directive = some d)
    (hper : d.perEntry = false) (entry : Entry) : (applyToEntry tryFrom directive arg entry).1 = entry := by
  unfold applyToEntry
  rw [h]
  cases d <;> first | rfl | cases hper

theorem applyToLast_entries (directive arg : Str) (s : ParseState) :
    (applyToLast tryFrom directive arg s).1.entries =
      s.entries.modifyLast fun entry => (applyToEntry tryFrom directive arg entry).1 := by
  rcases List.eq_nil_or_concat s.entries with h | ⟨entries, entry, h⟩
  · rw [applyToLast_nil h, h]
    rfl
  · rw [List.concat_eq_append] at h
    unfold applyToLast
    simp only [h, List.getLast?_concat, List.dropLast_concat, List.modifyLast_concat]

theorem modifyLast_same {α : Type} {f : α → α} (h : ∀ a, f a = a) (l : List α) : l.modifyLast f = l := by
  rcases List.eq_nil_or_concat l with rfl | ⟨l, a, rfl⟩
  · rfl
  · rw [List.concat_eq_append, List.modifyLast_concat, h]

/-- To the entries, a line is the start of a new one or something for the last. -/
theorem applyLine_entries (s : ParseState) (raw : Str) :
    (applyLine tryFrom s raw).1.entries =
      Sections.enter (isDirective .entry) startEntry (blockLine tryFrom) s.entries raw := by
  rw [applyLine_eq, Sections.enter]
  rcases hd : directiveOf (directiveLine raw).1 with _ | d
  · rw [applyDirective_of_none hd, applyToLast_entries, if_neg (by simp [isDirective, hd])]
    rfl
  by_cases hentry : d = .entry
  · subst hentry
    rw [if_pos (by simp [isDirective, hd])]
    unfold applyDirective
    rw [hd]
    rfl
  rw [if_neg (by simp [isDirective, hd, hentry])]
  rcases hper : d.perEntry with _ | _
  · have hsame : ∀ entry, blockLine tryFrom entry raw = entry := fun entry => applyToEntry_global hd hper entry
    rw [modifyLast_same hsame]
    unfold applyDirective
    rw [hd]
    cases d with
    | default => simp only; split <;> rfl
    | entry => exact absurd rfl hentry
    | timeout | autodetect => rfl
    | _ => cases hper
  · rw [applyDirective_of_perEntry hd hper, applyToLast_entries]
    rfl

/-- The entries behind the last line are the blocks', in order. -/
theorem entries_eq_blocks (lines : List Str) :
    (applyLines tryFrom .start lines).entries = (blocks lines).map (blockEntry tryFrom) := by
  have hentries : lines.foldl (Sections.enter (isDirective .entry) startEntry (blockLine tryFrom))
      ParseState.start.entries = (applyLines tryFrom .start lines).entries :=
    List.foldl_hom (fun s : ParseState => s.entries) fun s raw => (applyLine_entries s raw).symm
  rw [← hentries]
  exact Sections.foldl_enter (isDirective .entry) startEntry (blockLine tryFrom) lines

/-! ## What a block leaves its entry with -/

section
variable (tryFrom)

/-- A line that gives its entry something to boot. -/
def namesTarget (raw : Str) : Bool :=
  match directiveOf (directiveLine raw).1 with
  | some .chainload | some .linux => (tryFrom (directiveLine raw).2).isSome
  | some .multiboot => (tryFrom (directiveLine raw).2).any (· ≠ [])
  | _ => false

/-- A line that takes it away: a kernel whose path is empty. -/
def clearsTarget (raw : Str) : Bool := isDirective .multiboot raw && tryFrom (directiveLine raw).2 = some []

/-- A block that leaves its entry with something to boot. -/
def NamesTarget (block : List Str) : Prop :=
  ∃ before raw after, block = before ++ raw :: after ∧ namesTarget tryFrom raw = true ∧
    ∀ later ∈ after, clearsTarget tryFrom later = false

end

/-- What a line makes of an entry, as far as it is kept. -/
theorem blockLine_filled (entry : Entry) (raw : Str) :
    (blockLine tryFrom entry raw).filled =
      (namesTarget tryFrom raw || (entry.filled && !clearsTarget tryFrom raw)) := by
  obtain ⟨title, target⟩ := entry
  unfold blockLine applyToEntry namesTarget clearsTarget isDirective path
  rcases hd : directiveOf (directiveLine raw).1 with _ | d
  · simp
  rcases hp : tryFrom (directiveLine raw).2 with _ | p
  -- no path: the line is reported, and only a companion path is lost
  · cases d <;> cases target <;> simp [Entry.filled]
  · cases d <;> cases target <;> cases p <;> simp [Entry.filled]

/-- A later line gives the entry something, or this one does and no later line takes it away. -/
theorem namesTarget_cons (raw : Str) (block : List Str) :
    NamesTarget tryFrom (raw :: block) ↔
      NamesTarget tryFrom block ∨ namesTarget tryFrom raw = true ∧ ∀ later ∈ block, clearsTarget tryFrom later = false := by
  constructor
  · rintro ⟨before, raw', after, hsplit, hnames, hkept⟩
    rcases before with _ | ⟨b, before⟩
    · obtain ⟨rfl, rfl⟩ := List.cons.inj hsplit
      exact .inr ⟨hnames, hkept⟩
    · exact .inl ⟨before, raw', after, (List.cons.inj hsplit).2, hnames, hkept⟩
  · rintro (⟨before, raw', after, rfl, hnames, hkept⟩ | ⟨hnames, hkept⟩)
    · exact ⟨raw :: before, raw', after, rfl, hnames, hkept⟩
    · exact ⟨[], raw, block, rfl, hnames, hkept⟩

/-- What a block makes of an entry: it is kept when a line gives it something to boot and no later
one takes it away, or when it had something before. -/
theorem foldl_blockLine_filled (block : List Str) : ∀ entry : Entry,
    (block.foldl (blockLine tryFrom) entry).filled = true ↔
      NamesTarget tryFrom block ∨ entry.filled = true ∧ ∀ raw ∈ block, clearsTarget tryFrom raw = false := by
  induction block with
  | nil =>
    intro entry
    have hnone : ¬ NamesTarget tryFrom [] := by
      rintro ⟨before, raw, after, hsplit, _⟩
      cases before <;> cases hsplit
    simp [hnone]
  | cons raw block ih =>
    intro entry
    rw [List.foldl_cons, ih, blockLine_filled, namesTarget_cons]
    simp only [List.forall_mem_cons, Bool.or_eq_true, Bool.and_eq_true, Bool.not_eq_true']
    tauto

/-- The entry of a block is kept when the block leaves it with something to boot. -/
theorem blockEntry_filled (block : Str × List Str) :
    (blockEntry tryFrom block).filled = true ↔ NamesTarget tryFrom block.2 := by
  have hstart : (startEntry block.1).filled = false := rfl
  unfold blockEntry Sections.record
  rw [foldl_blockLine_filled, hstart]
  simp

/-! ## What is kept of a text -/

/-- Whether loaders are looked for: on, unless the last line about it says otherwise. -/
def autodetectSetting (lines : List Str) : Bool :=
  match (lines.filter (isDirective .autodetect)).getLast? with
  | none => true
  | some raw => !autodetectOff (directiveLine raw).2

/-- Something is kept of a text when one of its blocks leaves its entry with something to boot. -/
theorem parse_entries_ne_nil (text : Str) :
    (parse tryFrom text).entries ≠ [] ↔ ∃ block ∈ blocks (strLines text), NamesTarget tryFrom block.2 := by
  have hentries : (parse tryFrom text).entries =
      ((blocks (strLines text)).map (blockEntry tryFrom)).filter Entry.filled :=
    congrArg (List.filter Entry.filled) (entries_eq_blocks _)
  rw [hentries, ne_eq, List.filter_eq_nil_iff]
  simp only [List.forall_mem_map, blockEntry_filled]
  push Not
  rfl

/-- The default is an entry, if there is one. -/
theorem parse_default_lt {text : Str} (h : (parse tryFrom text).entries ≠ []) :
    (parse tryFrom text).default < (parse tryFrom text).entries.length := by
  have hpos := List.length_pos_iff.2 h
  unfold parse ParseState.finish at hpos ⊢
  simp only at hpos ⊢
  split <;> omega

/-- Without an entry it is the first position. -/
theorem parse_default_nil {text : Str} (h : (parse tryFrom text).entries = []) :
    (parse tryFrom text).default = 0 := by
  unfold parse ParseState.finish at h ⊢
  simp only at h ⊢
  rw [h]
  exact if_pos (Nat.zero_le _)

end

end Bang
