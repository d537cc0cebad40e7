/-
Whether every entry that is kept names something to boot. The filter behind the last line looks for a
Multiboot kernel with an empty path only; a chainload or linux line without an argument leaves its entry
with an empty path as well, and that entry is kept.
-/
import Bang.Config.Unusable

namespace Bang

/-- What a target names to boot. -/
def Target.bootPath : Target → CString16
  | .multiboot kernel _ => kernel
  | .chainload path _ => path
  | .linux kernel _ _ => kernel

section
variable (tryFrom : Str → Option CString16)

/-- A line that gives its entry a path that is not empty. -/
def givesPath (raw : Str) : Bool := (targetLine tryFrom raw).any fun t => t.bootPath ≠ []

/-- Every entry that is kept names something to boot, and only entries whose block gives them a path that is not
empty are kept. -/
structure NamesSomething (text : Str) : Prop where
  kept : ∀ e ∈ (parse tryFrom text).entries, e.target.bootPath ≠ []
  given : (parse tryFrom text).entries.Sublist
    (((blocks (strLines text)).filter fun block => block.2.any (givesPath tryFrom)).map (blockEntry tryFrom))

/-- The last target line of the block is a chainload or linux line with an empty path. -/
def EndsPathless (block : List Str) : Prop :=
  ∃ before raw after, block = before ++ raw :: after ∧
    (isDirective .chainload raw = true ∨ isDirective .linux raw = true) ∧ tryFrom (directiveLine raw).2 = some [] ∧
    ∀ later ∈ after, targetLine tryFrom later = none

variable {tryFrom}

/-! ## The target of a block -/

theorem bootPath_companion (d : Directive) (arg : Str) (t : Target) :
    (t.companion tryFrom d arg).bootPath = t.bootPath := by
  cases d <;> cases t <;> rfl

theorem blockEntry_bootPath (block : Str × List Str) : (blockEntry tryFrom block).target.bootPath =
    ((lastTarget tryFrom block.2).getD (.multiboot [] none)).bootPath :=
  blockEntry_lastTarget Target.bootPath bootPath_companion block.1 block.2

theorem lastTarget_eq_some {block : List Str} {t : Target} : lastTarget tryFrom block = some t ↔
    ∃ before raw after, block = before ++ raw :: after ∧ targetLine tryFrom raw = some t ∧
      ∀ later ∈ after, targetLine tryFrom later = none := by
  unfold lastTarget
  rw [List.findSome?_eq_some_iff]
  constructor
  · rintro ⟨front, raw, back, hsplit, ht, hnone⟩
    refine ⟨back.reverse, raw, front.reverse, ?_, ht, fun later hlater => hnone later (List.mem_reverse.1 hlater)⟩
    rw [← List.reverse_inj, hsplit]
    simp
  · rintro ⟨before, raw, after, rfl, ht, hnone⟩
    exact ⟨after.reverse, raw, before.reverse, by simp, ht, fun later hlater => hnone later (List.mem_reverse.1 hlater)⟩

/-- A target that is kept without a path is that of a chainload or linux line. -/
theorem targetLine_pathless {raw : Str} :
    (∃ t, targetLine tryFrom raw = some t ∧ (Entry.mk [] t).filled = true ∧ t.bootPath = []) ↔
      (isDirective .chainload raw = true ∨ isDirective .linux raw = true) ∧ tryFrom (directiveLine raw).2 = some [] := by
  unfold targetLine isDirective
  rcases hd : directiveOf (directiveLine raw).1 with _ | d
  · simp
  rcases hp : tryFrom (directiveLine raw).2 with _ | p
  · cases d <;> simp
  · cases d <;> simp [Entry.filled, Target.bootPath]

/-- The entry of a block is kept without a path exactly when its block ends in such a line. -/
theorem blockEntry_pathless (block : Str × List Str) :
    (blockEntry tryFrom block).filled = true ∧ (blockEntry tryFrom block).target.bootPath = [] ↔
      EndsPathless tryFrom block.2 := by
  rw [(blockEntry_kind block.1 block.2 .modules).2, blockEntry_bootPath]
  unfold EndsPathless
  constructor
  · rintro ⟨hfilled, hpath⟩
    cases hlast : lastTarget tryFrom block.2 with
    | none =>
      rw [hlast] at hfilled
      cases hfilled
    | some t =>
      rw [hlast] at hfilled hpath
      obtain ⟨before, raw, after, hsplit, ht, hafter⟩ := lastTarget_eq_some.1 hlast
      obtain ⟨hkind, harg⟩ := targetLine_pathless.1 ⟨t, ht, hfilled, hpath⟩
      exact ⟨before, raw, after, hsplit, hkind, harg, hafter⟩
  · rintro ⟨before, raw, after, hsplit, hkind, harg, hafter⟩
    obtain ⟨t, ht, hfilled, hpath⟩ := targetLine_pathless.2 ⟨hkind, harg⟩
    rw [lastTarget_eq_some.2 ⟨before, raw, after, hsplit, ht, hafter⟩]
    exact ⟨hfilled, hpath⟩

/-- A path that is not empty was given by a line of the block. -/
theorem any_givesPath {block : Str × List Str} (h : (blockEntry tryFrom block).target.bootPath ≠ []) :
    block.2.any (givesPath tryFrom) = true := by
  rw [blockEntry_bootPath] at h
  cases hlast : lastTarget tryFrom block.2 with
  | none =>
    rw [hlast] at h
    exact absurd rfl h
  | some t =>
    rw [hlast] at h
    obtain ⟨before, raw, after, hsplit, ht, -⟩ := lastTarget_eq_some.1 hlast
    refine List.any_eq_true.2 ⟨raw, ?_, ?_⟩
    · rw [hsplit]
      exact List.mem_append_right _ List.mem_cons_self
    · unfold givesPath
      rw [ht]
      exact decide_eq_true h

/-- Every entry that is kept names something to boot, exactly when no block has a chainload or linux line with an
empty path for its last target line. -/
theorem namesSomething_iff (tryFrom : Str → Option CString16) (text : Str) :
    NamesSomething tryFrom text ↔ ∀ block ∈ blocks (strLines text), ¬ EndsPathless tryFrom block.2 := by
  have hentries : (parse tryFrom text).entries =
      ((blocks (strLines text)).filter fun block => (blockEntry tryFrom block).filled).map (blockEntry tryFrom) := by
    refine (congrArg (List.filter Entry.filled) (entries_eq_blocks _)).trans ?_
    rw [List.filter_map]
    rfl
  constructor
  · intro h block hblock hends
    obtain ⟨hfilled, hpath⟩ := (blockEntry_pathless block).2 hends
    refine h.kept _ ?_ hpath
    rw [hentries]
    exact List.mem_map_of_mem (List.mem_filter.2 ⟨hblock, hfilled⟩)
  · intro h
    have hkept : ∀ block ∈ (blocks (strLines text)).filter fun block => (blockEntry tryFrom block).filled,
        (blockEntry tryFrom block).target.bootPath ≠ [] := by
      intro block hblock hpath
      obtain ⟨hblock, hfilled⟩ := List.mem_filter.1 hblock
      exact h block hblock ((blockEntry_pathless block).1 ⟨hfilled, hpath⟩)
    constructor
    · intro e he
      rw [hentries] at he
      obtain ⟨block, hblock, rfl⟩ := List.mem_map.1 he
      exact hkept block hblock
    · rw [hentries]
      apply List.Sublist.map
      rw [← List.filter_eq_self.2 fun block hblock => any_givesPath (hkept block hblock)]
      exact List.filter_sublist.filter _

end

/-- A chainload line without an argument: the entry is kept, with nothing to boot. -/
theorem not_namesSomething_chainload : ¬ NamesSomething ucs2 "entry Shell\n  chainload\n".toList := by
  intro h
  have hparse : (parse ucs2 "entry Shell\n  chainload\n".toList).entries = [⟨"Shell".toList, .chainload [] none⟩] := by
    decide +kernel
  refine h.kept ⟨"Shell".toList, .chainload [] none⟩ ?_ rfl
  rw [hparse]
  exact List.mem_singleton_self _

end Bang
