/-
What the lines of a block make of its target. A target line replaces the whole target, and a
companion line sets one thing of a target of its kind: companion lines behind the last target line
are all in the target, and those in front of it are lost.
-/
import Bang.Config.Fields

namespace Bang

/-! ## Target lines and companion lines -/

/-- The directives that go with a target. -/
def Directive.companion : Directive → Bool
  | .modules | .initrd | .options => true
  | _ => false

section
variable (tryFrom : Str → Option CString16)

/-- The target a line gives its entry: it names one, with a path that can be used. -/
def targetLine (raw : Str) : Option Target :=
  match directiveOf (directiveLine raw).1 with
  | some .multiboot => (tryFrom (directiveLine raw).2).map fun p => .multiboot p none
  | some .chainload => (tryFrom (directiveLine raw).2).map fun p => .chainload p none
  | some .linux => (tryFrom (directiveLine raw).2).map fun p => .linux p none []
  | _ => none

/-- What a companion sets in a target. -/
def Target.companion (d : Directive) (arg : Str) (t : Target) : Target :=
  match d, t with
  | .modules, .multiboot kernel _ => .multiboot kernel (tryFrom arg)
  | .initrd, .linux kernel _ cmdline => .linux kernel (tryFrom arg) cmdline
  | .options, .linux kernel initrd _ => .linux kernel initrd arg
  | _, t => t

variable {tryFrom}

/-- Said again, a companion is what is said last. -/
theorem Target.companion_again {d : Directive} (arg arg' : Str) (t : Target) :
    (t.companion tryFrom d arg).companion tryFrom d arg' = t.companion tryFrom d arg' := by
  cases d <;> cases t <;> rfl

/-- Two companions of a target do not meet. -/
theorem Target.companion_comm {d d' : Directive} (hne : d ≠ d') (arg arg' : Str) (t : Target) :
    (t.companion tryFrom d arg).companion tryFrom d' arg' = (t.companion tryFrom d' arg').companion tryFrom d arg := by
  cases d <;> cases d' <;> first | exact absurd rfl hne | cases t <;> rfl

theorem blockLine_target {raw : Str} {t : Target} (h : targetLine tryFrom raw = some t) (entry : Entry) :
    blockLine tryFrom entry raw = { entry with target := t } := by
  unfold targetLine at h
  unfold blockLine applyToEntry path
  rcases hd : directiveOf (directiveLine raw).1 with _ | d <;> rw [hd] at h
  · cases h
  rcases hp : tryFrom (directiveLine raw).2 with _ | p <;> rw [hp] at h <;> cases d <;> cases h <;> rfl

theorem blockLine_companion {raw : Str} {d : Directive} (hd : isDirective d raw = true) (hcomp : d.companion = true)
    (entry : Entry) : blockLine tryFrom entry raw =
      { entry with target := entry.target.companion tryFrom d (directiveLine raw).2 } := by
  obtain ⟨title, target⟩ := entry
  unfold blockLine applyToEntry path
  rw [isDirective_iff.1 hd]
  cases d <;> cases hcomp <;> cases target <;>
    rcases hp : tryFrom (directiveLine raw).2 with _ | p <;> simp [Target.companion, hp]

/-- Any other line changes nothing. -/
theorem blockLine_same {raw : Str} (htarget : targetLine tryFrom raw = none)
    (hcomp : ∀ d, d.companion = true → isDirective d raw = false) (entry : Entry) :
    blockLine tryFrom entry raw = entry := by
  unfold targetLine at htarget
  unfold blockLine applyToEntry path
  rcases hd : directiveOf (directiveLine raw).1 with _ | d
  · rfl
  rw [hd] at htarget
  rcases hc : d.companion with _ | _
  · cases d with
    | multiboot | chainload | linux =>
      simp only [Option.map_eq_none_iff] at htarget
      rw [htarget]
    | modules | initrd | options => cases hc
    | _ => rfl
  · have hno := hcomp d hc
    rw [isDirective_iff.2 hd] at hno
    cases hno

/-- A line that is no target line is a companion line or changes nothing. -/
theorem companion_or_same {raw : Str} (htarget : targetLine tryFrom raw = none) :
    (∃ d, d.companion = true ∧ isDirective d raw = true) ∨ ∀ entry, blockLine tryFrom entry raw = entry := by
  by_cases h : ∃ d, d.companion = true ∧ isDirective d raw = true
  · exact .inl h
  · refine .inr (blockLine_same htarget fun d hd => ?_)
    exact Bool.eq_false_iff.2 fun hraw => h ⟨d, hd, hraw⟩

theorem targetLine_of_companion {raw : Str} {d : Directive} (hd : isDirective d raw = true)
    (hcomp : d.companion = true) : targetLine tryFrom raw = none := by
  unfold targetLine
  rw [isDirective_iff.1 hd]
  cases d <;> first | rfl | cases hcomp

/-- What no companion that a line can be changes, the line does not change. -/
theorem blockLine_leaves {β : Sort*} (f : Entry → β) {raw : Str} (htarget : targetLine tryFrom raw = none)
    (hf : ∀ d, isDirective d raw = true → ∀ arg entry,
      f { entry with target := entry.target.companion tryFrom d arg } = f entry) (entry : Entry) :
    f (blockLine tryFrom entry raw) = f entry := by
  rcases companion_or_same htarget with ⟨d, hcomp, hd⟩ | hsame
  · rw [blockLine_companion hd hcomp]
    exact hf d hd _ _
  · rw [hsame]

/-- What no companion but `d` changes, lines do not change that are neither target lines nor about `d`. -/
theorem foldl_leaves {β : Sort*} (f : Entry → β) {d : Directive}
    (hf : ∀ d', d' ≠ d → ∀ arg entry, f { entry with target := entry.target.companion tryFrom d' arg } = f entry)
    (after : List Str) (h : ∀ later ∈ after, targetLine tryFrom later = none ∧ isDirective d later = false) :
    ∀ entry, f (after.foldl (blockLine tryFrom) entry) = f entry := by
  induction after with
  | nil => intro entry; rfl
  | cons raw after ih =>
    intro entry
    obtain ⟨htarget, hother⟩ := h raw (List.mem_cons_self ..)
    rw [List.foldl_cons, ih fun later hlater => h later (List.mem_cons_of_mem _ hlater)]
    refine blockLine_leaves f htarget (fun d' hd' => hf d' ?_) entry
    rintro rfl
    rw [hd'] at hother
    cases hother

theorem blockLine_title (entry : Entry) (raw : Str) : (blockLine tryFrom entry raw).title = entry.title := by
  rcases ht : targetLine tryFrom raw with _ | t
  · exact blockLine_leaves Entry.title ht (fun _ _ _ _ => rfl) entry
  · rw [blockLine_target ht]

/-! ## A companion line and later lines -/

/-- A later target line, or a later line with the same directive, says it again. -/
theorem blockLine_overridden {d : Directive} {raw raw' : Str} (hd : isDirective d raw = true)
    (hcomp : d.companion = true) (h : targetLine tryFrom raw' ≠ none ∨ isDirective d raw' = true) (entry : Entry) :
    blockLine tryFrom (blockLine tryFrom entry raw) raw' = blockLine tryFrom entry raw' := by
  rcases h with htarget | hd'
  · obtain ⟨t, ht⟩ := Option.ne_none_iff_exists'.1 htarget
    rw [blockLine_target ht, blockLine_target ht, blockLine_title]
  · rw [blockLine_companion hd hcomp, blockLine_companion hd' hcomp, blockLine_companion hd' hcomp,
      Target.companion_again]

/-- No other line does. -/
theorem blockLine_comm {d : Directive} {raw raw' : Str} (hd : isDirective d raw = true) (hcomp : d.companion = true)
    (htarget : targetLine tryFrom raw' = none) (hother : isDirective d raw' = false) (entry : Entry) :
    blockLine tryFrom (blockLine tryFrom entry raw) raw' = blockLine tryFrom (blockLine tryFrom entry raw') raw := by
  rcases companion_or_same htarget with ⟨d', hcomp', hd'⟩ | hsame
  · have hne : d ≠ d' := by
      rintro rfl
      rw [hd'] at hother
      cases hother
    simp only [blockLine_companion hd hcomp, blockLine_companion hd' hcomp', Target.companion_comm hne]
  · rw [hsame, hsame]

/-- The lines behind a companion line, where one of them says it again. -/
theorem foldl_overridden {d : Directive} {raw : Str} (hd : isDirective d raw = true) (hcomp : d.companion = true)
    (after : List Str) (h : ∃ later ∈ after, targetLine tryFrom later ≠ none ∨ isDirective d later = true) :
    ∀ entry, after.foldl (blockLine tryFrom) (blockLine tryFrom entry raw) = after.foldl (blockLine tryFrom) entry := by
  induction after with
  | nil =>
    obtain ⟨later, hlater, -⟩ := h
    cases hlater
  | cons raw' after ih =>
    intro entry
    rw [List.foldl_cons, List.foldl_cons]
    by_cases hraw' : targetLine tryFrom raw' ≠ none ∨ isDirective d raw' = true
    · rw [blockLine_overridden hd hcomp hraw']
    · push Not at hraw'
      rw [blockLine_comm hd hcomp hraw'.1 (Bool.eq_false_iff.2 hraw'.2)]
      refine ih ?_ _
      obtain ⟨later, hlater, hsays⟩ := h
      rcases List.mem_cons.1 hlater with rfl | hlater
      · exact absurd hsays (by push Not; exact hraw')
      · exact ⟨later, hlater, hsays⟩

/-- The lines behind a companion line, where none does. -/
theorem foldl_kept {d : Directive} {raw : Str} (hd : isDirective d raw = true) (hcomp : d.companion = true)
    (after : List Str) (h : ∀ later ∈ after, targetLine tryFrom later = none ∧ isDirective d later = false) :
    ∀ entry, after.foldl (blockLine tryFrom) (blockLine tryFrom entry raw) =
      blockLine tryFrom (after.foldl (blockLine tryFrom) entry) raw := by
  induction after with
  | nil => intro entry; rfl
  | cons raw' after ih =>
    intro entry
    obtain ⟨htarget, hother⟩ := h raw' (List.mem_cons_self ..)
    rw [List.foldl_cons, List.foldl_cons, blockLine_comm hd hcomp htarget hother]
    exact ih (fun later hlater => h later (List.mem_cons_of_mem _ hlater)) _

/-! ## What is accepted and what is carried -/

section
variable (tryFrom)

/-- A target that carries what a companion line says. -/
def Target.Carries (d : Directive) (arg : Str) (t : Target) : Prop :=
  match d, t with
  | .modules, .multiboot _ modules => modules = tryFrom arg
  | .initrd, .linux _ initrd _ => initrd = tryFrom arg
  | .options, .linux _ _ cmdline => cmdline = arg
  | _, _ => False

/-- A companion line that is applied without a report. -/
def Accepted (raw : Str) (entry : Entry) : Prop :=
  (applyToEntry tryFrom (directiveLine raw).1 (directiveLine raw).2 entry).2 = none

end

/-- What is accepted is for a target of this kind, and a path that can be used. -/
theorem Accepted.usable {d : Directive} {raw : Str} {entry : Entry} (h : Accepted tryFrom raw entry)
    (hd : isDirective d raw = true) (hcomp : d.companion = true) :
    d.appliesTo entry.target = true ∧ (d = .options ∨ tryFrom (directiveLine raw).2 ≠ none) := by
  obtain ⟨title, target⟩ := entry
  unfold Accepted applyToEntry path at h
  rw [isDirective_iff.1 hd] at h
  rcases hp : tryFrom (directiveLine raw).2 with _ | p <;> rw [hp] at h <;>
    cases d <;> cases hcomp <;> cases target <;> first | (cases h; done) | simp [Directive.appliesTo]

theorem carries_companion {d : Directive} {t : Target} (hcomp : d.companion = true) (h : d.appliesTo t = true)
    (arg : Str) : (t.companion tryFrom d arg).Carries tryFrom d arg := by
  cases d <;> cases hcomp <;> cases t <;> first | rfl | cases h

/-- A new target has no companions. -/
theorem targetLine_eq {raw : Str} {t : Target} (h : targetLine tryFrom raw = some t) :
    ∃ p, t = .multiboot p none ∨ t = .chainload p none ∨ t = .linux p none [] := by
  unfold targetLine at h
  split at h
  · obtain ⟨p, -, rfl⟩ := Option.map_eq_some_iff.1 h
    exact ⟨p, .inl rfl⟩
  · obtain ⟨p, -, rfl⟩ := Option.map_eq_some_iff.1 h
    exact ⟨p, .inr (.inl rfl)⟩
  · obtain ⟨p, -, rfl⟩ := Option.map_eq_some_iff.1 h
    exact ⟨p, .inr (.inr rfl)⟩
  · cases h

/-- It carries empty options and nothing else of what can be accepted. -/
theorem carries_targetLine {raw : Str} {t : Target} (ht : targetLine tryFrom raw = some t) {d : Directive}
    (h : d.appliesTo t = true) {arg : Str} (harg : d = .options ∨ tryFrom arg ≠ none) (hcomp : d.companion = true) :
    t.Carries tryFrom d arg ↔ d = .options ∧ arg = [] := by
  obtain ⟨p, rfl | rfl | rfl⟩ := targetLine_eq ht <;> cases d <;> cases hcomp <;>
    simp_all [Directive.appliesTo, Target.Carries, eq_comm]

/-- A companion carries no other one, and leaves the kind of the target as it is. -/
theorem carries_companion_other {d d' : Directive} (hne : d ≠ d') (arg arg' : Str) (t : Target) :
    (t.companion tryFrom d' arg').Carries tryFrom d arg ↔ t.Carries tryFrom d arg := by
  cases d <;> cases d' <;> first | exact absurd rfl hne | cases t <;> rfl

theorem appliesTo_companion (d d' : Directive) (arg : Str) (t : Target) :
    d.appliesTo (t.companion tryFrom d' arg) = d.appliesTo t := by
  cases d <;> cases d' <;> cases t <;> rfl

/-- A companion line that is accepted, and not said again in its block, is carried by a target of its
kind exactly when no target line stands behind it, or when it says what a new target says anyway. -/
theorem carries_iff {text heading raw : Str} {before after : List Str} {d : Directive}
    (hblock : (heading, before ++ raw :: after) ∈ blocks (strLines text)) (hcomp : d.companion = true)
    (hd : isDirective d raw = true) (haccepted : Accepted tryFrom raw (blockEntry tryFrom (heading, before)))
    (hlast : ∀ later ∈ after, isDirective d later = false)
    (hkind : d.appliesTo (blockEntry tryFrom (heading, before ++ raw :: after)).target = true) :
    blockEntry tryFrom (heading, before ++ raw :: after) ∈ (applyLines tryFrom .start (strLines text)).entries ∧
      ((blockEntry tryFrom (heading, before ++ raw :: after)).target.Carries tryFrom d (directiveLine raw).2 ↔
        (∀ later ∈ after, targetLine tryFrom later = none) ∨ (d = .options ∧ (directiveLine raw).2 = [])) := by
  refine ⟨?_, ?_⟩
  · rw [entries_eq_blocks]
    exact List.mem_map_of_mem hblock
  obtain ⟨happlies, husable⟩ := haccepted.usable hd hcomp
  have hfinal : blockEntry tryFrom (heading, before ++ raw :: after) =
      after.foldl (blockLine tryFrom) (blockLine tryFrom (blockEntry tryFrom (heading, before)) raw) :=
    List.foldl_append ..
  rw [hfinal] at hkind ⊢
  by_cases htargets : ∀ later ∈ after, targetLine tryFrom later = none
  · refine iff_of_true ?_ (.inl htargets)
    have hcarries := foldl_leaves (fun entry => entry.target.Carries tryFrom d (directiveLine raw).2)
      (fun d' hne arg entry => propext (carries_companion_other hne.symm _ arg entry.target)) after
      fun later hlater => ⟨htargets later hlater, hlast later hlater⟩
    rw [hcarries, blockLine_companion hd hcomp]
    exact carries_companion hcomp happlies _
  · rw [or_iff_right htargets]
    push Not at htargets
    obtain ⟨l₁, later, l₂, rfl, htarget, hnone⟩ := Sections.exists_last htargets
    obtain ⟨t, ht⟩ := Option.ne_none_iff_exists'.1 htarget
    have hbehind : ∀ x ∈ l₂, targetLine tryFrom x = none ∧ isDirective d x = false := fun x hx =>
      ⟨not_not.1 (hnone x hx), hlast x (List.mem_append_right _ (List.mem_cons_of_mem _ hx))⟩
    have hcarries := foldl_leaves (fun entry => entry.target.Carries tryFrom d (directiveLine raw).2)
      (fun d' hne arg entry => propext (carries_companion_other hne.symm _ arg entry.target)) l₂ hbehind
    have happlies' := foldl_leaves (fun entry => d.appliesTo entry.target)
      (fun d' _ arg entry => appliesTo_companion d d' arg entry.target) l₂ hbehind
    rw [List.foldl_append, List.foldl_cons] at hkind ⊢
    rw [happlies', blockLine_target ht] at hkind
    rw [hcarries, blockLine_target ht]
    exact carries_targetLine ht hkind husable hcomp

end

/-- A modules line behind the multiboot line is carried. -/
theorem carries_modules_last :
    (blockEntry ucs2 ("entry Quark".toList,
      ["  multiboot \\kernel.bin".toList] ++ "  modules \\drivers".toList :: [])).target.Carries ucs2 .modules
        (directiveLine "  modules \\drivers".toList).2 := by
  have hblock : ("entry Quark".toList, ["  multiboot \\kernel.bin".toList] ++ "  modules \\drivers".toList :: []) ∈
      blocks (strLines "entry Quark\n  multiboot \\kernel.bin\n  modules \\drivers\n".toList) := by decide +kernel
  have haccepted : Accepted ucs2 "  modules \\drivers".toList
      (blockEntry ucs2 ("entry Quark".toList, ["  multiboot \\kernel.bin".toList])) := show _ = _ by decide +kernel
  have hd : isDirective .modules "  modules \\drivers".toList = true := by decide +kernel
  have hkind : Directive.appliesTo .modules (blockEntry ucs2 ("entry Quark".toList,
      ["  multiboot \\kernel.bin".toList] ++ "  modules \\drivers".toList :: [])).target = true := by decide +kernel
  have hiff := (carries_iff hblock rfl hd haccepted (fun later h => by cases h) hkind).2
  exact hiff.2 (.inl fun later h => by cases h)

/-- In front of it, it is accepted as well, and lost. -/
theorem not_carries_modules_first :
    ("entry Quark".toList, [] ++ "  modules \\drivers".toList :: ["  multiboot \\kernel.bin".toList]) ∈
        blocks (strLines "entry Quark\n  modules \\drivers\n  multiboot \\kernel.bin\n".toList) ∧
      isDirective .modules "  modules \\drivers".toList = true ∧
      Accepted ucs2 "  modules \\drivers".toList (blockEntry ucs2 ("entry Quark".toList, [])) ∧
      isDirective .modules "  multiboot \\kernel.bin".toList = false ∧
      Directive.appliesTo .modules (blockEntry ucs2 ("entry Quark".toList,
        [] ++ "  modules \\drivers".toList :: ["  multiboot \\kernel.bin".toList])).target = true ∧
      ¬ (blockEntry ucs2 ("entry Quark".toList,
        [] ++ "  modules \\drivers".toList :: ["  multiboot \\kernel.bin".toList])).target.Carries ucs2 .modules
          (directiveLine "  modules \\drivers".toList).2 := by
  have htarget : (blockEntry ucs2 ("entry Quark".toList,
      [] ++ "  modules \\drivers".toList :: ["  multiboot \\kernel.bin".toList])).target =
      .multiboot (cstr16 "\\kernel.bin") none := by decide +kernel
  have hpath : ucs2 (directiveLine "  modules \\drivers".toList).2 = some (cstr16 "\\drivers") := by decide +kernel
  refine ⟨by decide +kernel, by decide +kernel, show _ = _ by decide +kernel, by decide +kernel, ?_, ?_⟩
  · rw [htarget]
    rfl
  · rw [htarget]
    intro h
    exact absurd (h.trans hpath) (by decide)

end Bang
