/-
A machine nobody sits at: with no key pressed the countdown ends, whatever its length, and what is
booted is the configured default, whatever loaders were found, if the menu they are in can be drawn. The
measure is the ticks that are left: the tick counter wraps around, and where it does a multiple of ten
comes early.
-/
import Bang.Config.Printing
import Bang.Menu.Offered

namespace Bang

/-! ## The clock -/

/-- The ticks up to the next multiple of ten, the end of the counter being one. -/
def ticksLeft (ticks : UInt64) : Nat := min (10 - ticks.toNat % 10) (2 ^ 64 - ticks.toNat)

/-- The ticks up to the end of the countdown, at most. -/
def MenuState.patience (s : MenuState) : Nat := (s.remaining.toNat - 1) * 10 + ticksLeft s.ticks

theorem ticksLeft_pos (ticks : UInt64) : 0 < ticksLeft ticks := by
  have := ticks.toNat_lt
  unfold ticksLeft
  omega

theorem ticksLeft_le (ticks : UInt64) : ticksLeft ticks ≤ 10 := by
  unfold ticksLeft
  omega

/-- A tick that is no multiple of ten brings the next one nearer. -/
theorem ticksLeft_succ {ticks : UInt64} (h : (ticks + 1) % 10 ≠ 0) : ticksLeft (ticks + 1) + 1 = ticksLeft ticks := by
  have hlt := ticks.toNat_lt
  have hnext : (ticks + 1).toNat = (ticks.toNat + 1) % 2 ^ 64 := UInt64.toNat_add ..
  have hmod : (ticks + 1).toNat % 10 ≠ 0 := fun hzero => h (UInt64.toNat_inj.1 hzero)
  unfold ticksLeft
  rw [hnext] at hmod ⊢
  rcases Nat.lt_or_ge (ticks.toNat + 1) (2 ^ 64) with hin | hover
  · rw [Nat.mod_eq_of_lt hin] at hmod ⊢
    omega
  · -- the counter wraps to zero, which is a multiple of ten
    have hend : ticks.toNat + 1 = 2 ^ 64 := by omega
    rw [hend] at hmod
    exact absurd rfl hmod

section
variable {cfg : Config}

/-- A tick of the countdown: the default is booted, or the end is nearer. -/
theorem tick_idle {s : MenuState} (hcounting : s.counting = true) (hremaining : s.remaining ≠ 0)
    (hselected : s.selected < cfg.entries.length) :
    tick cfg s = some (.chosen s.selected) ∨
      ∃ s', tick cfg s = some (.waiting s') ∧ s'.selected = s.selected ∧ s'.counting = true ∧ s'.remaining ≠ 0 ∧
        s'.patience < s.patience := by
  unfold tick
  rw [if_pos hcounting]
  simp only
  by_cases hten : (s.ticks + 1) % 10 = 0
  · rw [if_pos hten]
    by_cases hzero : s.remaining - 1 = 0
    · rw [if_pos hzero]
      exact .inl rfl
    · obtain ⟨line, hline⟩ := countdown_isSome hselected (s.remaining - 1)
      rw [if_neg hzero, hline]
      refine .inr ⟨_, rfl, rfl, hcounting, hzero, ?_⟩
      have hpos : 0 < s.remaining.toNat := by
        rcases Nat.eq_zero_or_pos s.remaining.toNat with h | h
        · exact absurd (UInt64.toNat_inj.1 h) hremaining
        · exact h
      have hless : (s.remaining - 1).toNat = s.remaining.toNat - 1 :=
        UInt64.toNat_sub_of_le _ _ (UInt64.le_iff_toNat_le.2 hpos)
      have hmore : (s.remaining - 1).toNat ≠ 0 := fun h => hzero (UInt64.toNat_inj.1 h)
      have hle := ticksLeft_le (s.ticks + 1)
      have hleft := ticksLeft_pos s.ticks
      unfold MenuState.patience
      simp only
      omega
  · rw [if_neg hten]
    refine .inr ⟨_, rfl, rfl, hcounting, hremaining, ?_⟩
    have hnear := ticksLeft_succ hten
    unfold MenuState.patience
    simp only
    omega

/-- With no key pressed the loop ends with what is selected, within the ticks that are left. -/
theorem waitKey_idle (polls : List (Option Key)) (hidle : ∀ key ∈ polls, key = none) : ∀ s : MenuState,
    s.counting = true → s.remaining ≠ 0 → s.selected < cfg.entries.length →
      waitKey cfg s polls = some (.chosen s.selected) ∨
        polls.length < s.patience ∧ ∃ s', waitKey cfg s polls = some (.waiting s') := by
  induction polls with
  | nil =>
    intro s _ _ _
    refine .inr ⟨?_, s, rfl⟩
    have := ticksLeft_pos s.ticks
    unfold MenuState.patience
    exact Nat.lt_of_lt_of_le this (Nat.le_add_left ..)
  | cons key polls ih =>
    intro s hcounting hremaining hselected
    rw [hidle key (List.mem_cons_self ..)]
    unfold waitKey
    simp only [pollKey]
    rcases tick_idle hcounting hremaining hselected with htick | ⟨s', htick, hsame, hcounting', hremaining', hless⟩
    · rw [htick]
      exact .inl rfl
    · rw [htick]
      rcases ih (fun k hk => hidle k (List.mem_cons_of_mem _ hk)) s' hcounting' hremaining' (hsame ▸ hselected) with
        hchosen | ⟨hlen, s'', hwaiting⟩
      · exact .inl (by rw [hsame] at hchosen; exact hchosen)
      · refine .inr ⟨?_, s'', hwaiting⟩
        rw [List.length_cons]
        omega

/-- The menu of a machine nobody sits at: the default is chosen, at the latest when the time is up. -/
theorem choose_idle (h : cfg.default < cfg.entries.length) (fixed : Bool) {polls : List (Option Key)}
    (hidle : ∀ key ∈ polls, key = none) :
    choose cfg fixed polls = some (.chosen cfg.default) ∨
      polls.length < 10 * cfg.timeout.toNat ∧ ∃ s, choose cfg fixed polls = some (.waiting s) := by
  unfold choose
  split
  · exact .inl rfl
  · rename_i hmenu
    have htimeout : cfg.timeout ≠ 0 := fun hzero => hmenu (.inr hzero)
    have hpos : 0 < cfg.timeout.toNat := by
      rcases Nat.eq_zero_or_pos cfg.timeout.toNat with hzero | hpos
      · exact absurd (UInt64.toNat_inj.1 hzero) htimeout
      · exact hpos
    have hloop := @waitKey_idle cfg polls hidle ⟨cfg.default, cfg.timeout, true, 0⟩ rfl htimeout h
    have hpatience : MenuState.patience ⟨cfg.default, cfg.timeout, true, 0⟩ = 10 * cfg.timeout.toNat := by
      have hten : ticksLeft 0 = 10 := by decide
      unfold MenuState.patience
      simp only [hten]
      omega
    rw [hpatience] at hloop
    simp only
    split
    · obtain ⟨line, hline⟩ := countdown_isSome h cfg.timeout
      rw [hline]
      exact hloop
    · exact hloop

end

/-! ## What is booted -/

section
variable {tryFrom : Str → Option CString16} {κ : Type} {con : Console κ} {k k₁ : κ} {cfg : Config}

/-- With no key pressed an entry is booted, at the latest ten ticks for each second of the timeout later. -/
def BootsAlone (con : Console κ) (cfg : Config) (k : κ) (entry : Entry) : Prop :=
  ∀ polls : List (Option Key), (∀ key ∈ polls, key = none) →
    (∃ k', mainEntryDrawing con cfg k polls = some (.chosen entry, k')) ∨
      polls.length < 10 * cfg.timeout.toNat ∧ ∃ s k', mainEntryDrawing con cfg k polls = some (.waiting s, k')

theorem mainEntry_idle {entry : Entry} (hentry : cfg.entries[cfg.default]? = some entry) (fixed : Bool)
    {polls : List (Option Key)} (hidle : ∀ key ∈ polls, key = none) :
    mainEntry cfg fixed polls = some (.chosen entry) ∨
      polls.length < 10 * cfg.timeout.toNat ∧ ∃ s, mainEntry cfg fixed polls = some (.waiting s) := by
  unfold mainEntry
  rcases choose_idle (List.getElem?_eq_some_iff.1 hentry).1 fixed hidle with hchosen | ⟨hlen, s, hwaiting⟩
  · left
    rw [hchosen]
    show (cfg.entries[cfg.default]?).map Turn.chosen = _
    rw [hentry]
    rfl
  · right
    rw [hwaiting]
    exact ⟨hlen, s, rfl⟩

/-- The default is booted exactly when the menu is not drawn, or can be. -/
theorem bootsAlone_iff {entry : Entry} (hentry : cfg.entries[cfg.default]? = some entry) :
    BootsAlone con cfg k entry ↔ MenuShows con cfg k := by
  have hdefault : cfg.entries ≠ [] → cfg.default < cfg.entries.length := fun _ =>
    (List.getElem?_eq_some_iff.1 hentry).1
  constructor
  · intro h
    rcases h [] (List.forall_mem_nil _) with ⟨k', hrun⟩ | ⟨-, s, k', hrun⟩
    · exact ((mainEntryDrawing_iff hdefault).1 ⟨k', hrun⟩).1
    · exact ((mainEntryDrawing_iff hdefault).1 ⟨k', hrun⟩).1
  · intro hshows polls hidle
    rcases mainEntry_idle hentry (plan con cfg.entries.length k).1.isSome hidle with hchosen | ⟨hlen, s, hwaiting⟩
    · exact .inl ((mainEntryDrawing_iff hdefault).2 ⟨hshows, hchosen⟩)
    · obtain ⟨k', hrun⟩ := (mainEntryDrawing_iff hdefault).2 ⟨hshows, hwaiting⟩
      exact .inr ⟨hlen, s, k', hrun⟩

/-- Whatever loaders are found, the configured entries stand in front of them, in order; and with no key pressed the
configured default is booted, the same entry in every run, exactly when the menu is not drawn or can be. -/
theorem unattended_iff {text : Str} (hparse : parsePrinting tryFrom con text k = some (cfg, k₁))
    (hkept : cfg.entries ≠ []) : ∃ entry, cfg.entries[cfg.default]? = some entry ∧
      ∀ scan : List Found, cfg.entries <+: (merged cfg scan).entries ∧
        (BootsAlone con (merged cfg scan) k₁ entry ↔ MenuShows con (merged cfg scan) k₁) := by
  obtain ⟨rfl, -⟩ := parsePrinting_some hparse
  have hdefault := parse_default_lt hkept
  refine ⟨_, List.getElem?_eq_getElem hdefault, fun scan => ?_⟩
  have hkeeps := merged_keeps (parse tryFrom text) scan
  -- the default is at its place whatever is behind the configured entries
  have hentry : (merged (parse tryFrom text) scan).entries[(merged (parse tryFrom text) scan).default]? =
      some (parse tryFrom text).entries[(parse tryFrom text).default] := by
    obtain ⟨behind, hbehind⟩ := hkeeps
    rw [merged_default, ← hbehind, List.getElem?_append_left hdefault, List.getElem?_eq_getElem hdefault]
  exact ⟨hkeeps, bootsAlone_iff hentry⟩

end

/-- A second's countdown, with a loader found. -/
theorem unattended_quark : ∃ cfg entry,
    parsePrinting ucs2 ucs2Console "timeout 1\nentry Quark\n  multiboot \\kernel.bin\n".toList () = some (cfg, ()) ∧
      BootsAlone ucs2Console (merged cfg [⟨"rEFInd".toList, 1, cstr16 "\\EFI\\refind\\refind_x64.efi"⟩]) () entry := by
  have hparse : parsePrinting ucs2 ucs2Console "timeout 1\nentry Quark\n  multiboot \\kernel.bin\n".toList () =
      some (⟨1, 0, [⟨"Quark".toList, .multiboot (cstr16 "\\kernel.bin") none⟩], true⟩, ()) := by
    decide +kernel
  obtain ⟨entry, -, hboots⟩ := unattended_iff hparse (by decide)
  refine ⟨_, entry, hparse, (hboots _).2.2 (.inr (Drawable.of_basic ?_))⟩
  decide +kernel

/-- A title outside UCS-2, and five seconds: alone, its entry is booted at once; with a loader found the menu is drawn,
and that panics. -/
theorem not_unattended : ∃ cfg entry,
    parsePrinting ucs2 ucs2Console "timeout 5\nentry 😀\n  multiboot \\kernel.bin\n".toList () = some (cfg, ()) ∧
      mainEntryDrawing ucs2Console (merged cfg []) () [] = some (.chosen entry, ()) ∧
      ∀ polls, mainEntryDrawing ucs2Console
        (merged cfg [⟨"rEFInd".toList, 1, cstr16 "\\EFI\\refind\\refind_x64.efi"⟩]) () polls = none := by
  refine ⟨⟨5, 0, [⟨['😀'], .multiboot (cstr16 "\\kernel.bin") none⟩], true⟩, _, by decide +kernel, rfl, fun polls => ?_⟩
  refine Option.eq_none_iff_forall_ne_some.2 fun r hrun => ?_
  rcases ((mainEntryDrawing_iff fun _ => by decide +kernel).1 ⟨r.2, hrun⟩).1 with hnow | hdraw
  · exact absurd hnow (by decide +kernel)
  · exact absurd (hdraw.lines 0 _ rfl) (by decide +kernel)

end Bang
