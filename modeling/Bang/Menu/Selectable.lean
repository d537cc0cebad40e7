/-
What can be booted from the menu: with it on the screen, every entry that is offered, by going down to it; and where
there is no time to press a key, the default alone.
-/
import Bang.Menu.Offered

namespace Bang

/-- The key that goes down, and the one that chooses. -/
def downKey : Key := .special scanDown
def enterKey : Key := .printable '\r'

section
variable {cfg : Config}

/-- Going down stops the clock and selects the next entry, behind the last one the first. -/
theorem waitKey_down (s : MenuState) (polls : List (Option Key)) : waitKey cfg s (some downKey :: polls) =
    waitKey cfg { s with selected := (s.selected + 1) % cfg.entries.length, counting := false } polls := by
  rw [waitKey]
  rfl

theorem waitKey_enter (s : MenuState) (polls : List (Option Key)) :
    waitKey cfg s (some enterKey :: polls) = some (.chosen s.selected) := by
  rw [waitKey]
  rfl

/-- Down so many times, and then that one. -/
theorem waitKey_down_enter (k : Nat) : ∀ s : MenuState, s.selected < cfg.entries.length →
    waitKey cfg s (List.replicate k (some downKey) ++ [some enterKey]) =
      some (.chosen ((s.selected + k) % cfg.entries.length)) := by
  induction k with
  | zero =>
    intro s hs
    rw [List.replicate_zero, List.nil_append, waitKey_enter, Nat.add_zero, Nat.mod_eq_of_lt hs]
  | succ k ih =>
    intro s hs
    have hpos : 0 < cfg.entries.length := Nat.zero_lt_of_lt hs
    rw [List.replicate_succ, List.cons_append, waitKey_down, ih _ (Nat.mod_lt _ hpos)]
    show some (Turn.chosen (((s.selected + 1) % cfg.entries.length + k) % cfg.entries.length)) = _
    rw [Nat.mod_add_mod, Nat.add_assoc, Nat.add_comm 1 k]

/-- An entry can be chosen exactly when it is the default, or the menu waits at all. -/
theorem choose_iff (h : cfg.default < cfg.entries.length) (fixed : Bool) (i : Nat) :
    (∃ polls, choose cfg fixed polls = some (.chosen i)) ↔
      i < cfg.entries.length ∧ (i = cfg.default ∨ cfg.timeout ≠ 0) := by
  constructor
  · rintro ⟨polls, hchosen⟩
    obtain ⟨turn, hturn, hvalid⟩ := choose_valid h fixed polls
    cases hchosen.symm.trans hturn
    refine ⟨hvalid, ?_⟩
    by_cases htimeout : cfg.timeout = 0
    · rw [choose, if_pos (.inr htimeout)] at hchosen
      cases hchosen
      exact .inl rfl
    · exact .inr htimeout
  · rintro ⟨hi, hwaits⟩
    by_cases hnow : cfg.entries.length ≤ 1 ∨ cfg.timeout = 0
    · -- nothing is waited for, and the entry is the default
      have hdefault : i = cfg.default := by
        rcases hnow with hone | hzero
        · omega
        · exact hwaits.resolve_right (not_not.2 hzero)
      refine ⟨[], ?_⟩
      rw [choose, if_pos hnow, hdefault]
    · -- so many times down that the selection comes around to the entry
      have hsum : (cfg.default + (cfg.entries.length - cfg.default + i)) % cfg.entries.length = i := by
        rw [← Nat.add_assoc, Nat.add_sub_cancel' h.le, Nat.add_mod_left, Nat.mod_eq_of_lt hi]
      refine ⟨List.replicate (cfg.entries.length - cfg.default + i) (some downKey) ++ [some enterKey], ?_⟩
      rw [choose, if_neg hnow]
      simp only
      obtain ⟨line, hline⟩ := countdown_isSome h cfg.timeout
      rw [hline, Option.bind_some, ite_self, waitKey_down_enter _ _ h, hsum]

end

/-- The same of `main`, if the menu is not drawn or can be. -/
theorem mainEntryDrawing_chosen {κ : Type} {con : Console κ} {cfg : Config}
    (hdefault : cfg.entries ≠ [] → cfg.default < cfg.entries.length) (k : κ) (entry : Entry) :
    (∃ polls k', mainEntryDrawing con cfg k polls = some (.chosen entry, k')) ↔ MenuShows con cfg k ∧
      ∃ i, cfg.entries[i]? = some entry ∧ (i = cfg.default ∨ cfg.timeout ≠ 0) := by
  simp only [mainEntryDrawing_iff hdefault, exists_and_left]
  refine and_congr_right fun _ => ?_
  unfold mainEntry
  constructor
  · rintro ⟨polls, hchosen⟩
    obtain ⟨turn, hturn, hentry⟩ := Option.bind_eq_some_iff.1 hchosen
    rcases turn with s | i
    · cases hentry
    · obtain ⟨entry', hget, hentry⟩ := Option.map_eq_some_iff.1 hentry
      cases hentry
      have hsome : cfg.entries ≠ [] := List.ne_nil_of_mem (List.mem_of_getElem? hget)
      exact ⟨i, hget, ((choose_iff (hdefault hsome) _ i).1 ⟨polls, hturn⟩).2⟩
  · rintro ⟨i, hget, hwaits⟩
    have hsome : cfg.entries ≠ [] := List.ne_nil_of_mem (List.mem_of_getElem? hget)
    obtain ⟨polls, hturn⟩ := (choose_iff (hdefault hsome) (plan con cfg.entries.length k).1.isSome i).2
      ⟨(List.getElem?_eq_some_iff.1 hget).1, hwaits⟩
    refine ⟨polls, ?_⟩
    rw [hturn]
    show (cfg.entries[i]?).map Turn.chosen = _
    rw [hget]
    rfl

/-- Whatever is configured and whatever is found: if what is said of the configuration can be shown, and the menu is not
drawn or can be, each entry of it can be booted by keys, unless the timeout is zero, when it is the default alone; and
if not, no entry can. -/
theorem selectable_iff {tryFrom : Str → Option CString16} {file : Option Str} {scan : List Found} {κ : Type}
    (con : Console κ) (k : κ) (entry : Entry) :
    (∃ polls k', mainEntryPrinting tryFrom con file scan k polls = some (.chosen entry, k')) ↔
      ∃ cfg k₁, configured tryFrom con file k = some (cfg, k₁) ∧ MenuShows con (merged cfg scan) k₁ ∧
        ∃ i, (merged cfg scan).entries[i]? = some entry ∧
          (i = (merged cfg scan).default ∨ (merged cfg scan).timeout ≠ 0) := by
  have hdefault : ∀ {cfg k₁}, configured tryFrom con file k = some (cfg, k₁) → (merged cfg scan).entries ≠ [] →
      (merged cfg scan).default < (merged cfg scan).entries.length := by
    intro cfg k₁ hconfigured
    rw [configured_some hconfigured]
    exact offered_default_lt
  constructor
  · rintro ⟨polls, k', hrun⟩
    obtain ⟨⟨cfg, k₁⟩, hconfigured, hchosen⟩ := Option.bind_eq_some_iff.1 hrun
    exact ⟨cfg, k₁, hconfigured, (mainEntryDrawing_chosen (hdefault hconfigured) k₁ entry).1 ⟨polls, k', hchosen⟩⟩
  · rintro ⟨cfg, k₁, hconfigured, hboots⟩
    obtain ⟨polls, k', hchosen⟩ := (mainEntryDrawing_chosen (hdefault hconfigured) k₁ entry).2 hboots
    exact ⟨polls, k', Option.bind_eq_some_iff.2 ⟨(cfg, k₁), hconfigured, hchosen⟩⟩

/-- Two entries and a timeout: the second is booted, which is not the default. -/
theorem selectable_second : ∃ polls k',
    mainEntryPrinting ucs2 ucs2Console (some "entry A\n  multiboot \\a\nentry B\n  multiboot \\b\n".toList) [] ()
      polls = some (.chosen ⟨"B".toList, .multiboot (cstr16 "\\b") none⟩, k') :=
  (selectable_iff ucs2Console () _).2
    ⟨⟨5, 0, [⟨"A".toList, .multiboot (cstr16 "\\a") none⟩, ⟨"B".toList, .multiboot (cstr16 "\\b") none⟩], true⟩, (),
      by decide +kernel, .inr (Drawable.of_basic (by decide +kernel)), 1, by decide +kernel, .inr (by decide +kernel)⟩

end Bang
