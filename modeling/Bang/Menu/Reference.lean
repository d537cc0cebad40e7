/-
The menu as a reference machine, which keeps no state: what is chosen after some polls is read off the polls
themselves. Without a key in its time the countdown ends with the default; after a key it never does, and
the first poll that decides is what counts. The menu agrees with it wherever its titles can be shown, and nowhere else.
-/
import Bang.Menu.Drawing
import Mathlib.Data.List.Count

namespace Bang

/-! ## The reference -/

/-- How often a key with a scan code comes in some polls. -/
def presses (scan : UInt16) (polls : List (Option Key)) : Nat := polls.count (some (.special scan))

/-- The selection among `n` entries behind some polls: one down for each DOWN, one up for each UP. -/
def selection (n default : Nat) (polls : List (Option Key)) : Nat :=
  (((default : Int) + presses scanDown polls - presses scanUp polls) % n).toNat

/-- What a poll decides, with one of `n` entries selected: Enter takes it, and a digit the entry it numbers. -/
def decision (n selected : Nat) : Option Key → Option Nat
  | some (.printable c) =>
    if c = '\r' ∨ c = '\n' then some selected
    else (toDigit c).bind fun d => if 1 ≤ d ∧ d ≤ n then some (d - 1) else none
  | _ => none

/-- No key comes before the time is up. -/
def Idle (timeout : Nat) (polls : List (Option Key)) : Prop := ∀ key ∈ polls.take (10 * timeout), key = none

instance (timeout : Nat) (polls : List (Option Key)) : Decidable (Idle timeout polls) :=
  inferInstanceAs (Decidable (∀ key ∈ _, _))

/-- What is chosen after some polls, if anything is. -/
def reference (n default timeout : Nat) (polls : List (Option Key)) : Option Nat :=
  if Idle timeout polls then if 10 * timeout ≤ polls.length then some default else none
  else
    (polls.findIdx? fun key => (decision n 0 key).isSome).bind fun j =>
      polls[j]?.bind (decision n (selection n default (polls.take j)))

/-- A turn that agrees with the reference: it chooses what the reference chooses, and waits with the same selection. -/
def Turn.Agrees (n default timeout : Nat) (polls : List (Option Key)) : Turn Nat → Prop
  | .chosen i => reference n default timeout polls = some i
  | .waiting s => reference n default timeout polls = none ∧ s.selected = selection n default polls

/-! ## One key -/

/-- The selection behind a poll. -/
def moved (n selected : Nat) : Option Key → Nat
  | some (.special scan) =>
    if scan = scanUp then if selected = 0 then n - 1 else selected - 1
    else if scan = scanDown then (selected + 1) % n
    else selected
  | _ => selected

theorem selection_nil {n default : Nat} (h : default < n) : selection n default [] = default := by
  have hmod : ((default : Int) + (0 : Nat) - (0 : Nat)) % n = default := by
    rw [Int.natCast_zero, Int.add_zero, Int.sub_zero]
    exact Int.emod_eq_of_lt (Int.natCast_nonneg _) (Int.ofNat_lt.2 h)
  unfold selection presses
  rw [List.count_nil, List.count_nil, hmod]
  rfl

theorem selection_lt {n : Nat} (hn : 0 < n) (default : Nat) (polls : List (Option Key)) :
    selection n default polls < n := by
  have hpos : (0 : Int) < n := Int.ofNat_lt.2 hn
  have hlt := Int.emod_lt_of_pos ((default : Int) + presses scanDown polls - presses scanUp polls) hpos
  have hnonneg :=
    Int.emod_nonneg ((default : Int) + presses scanDown polls - presses scanUp polls) (show (n : Int) ≠ 0 by omega)
  unfold selection
  omega

/-- A step down, or up, from a remainder. -/
theorem toNat_emod_succ {n : Nat} (hn : 0 < n) (x : Int) :
    ((x + 1) % n).toNat = ((x % n).toNat + 1) % n := by
  have hnonneg := Int.emod_nonneg x (show (n : Int) ≠ 0 by omega)
  have hcast : (((x % n).toNat + 1 : Nat) : Int) = x % n + 1 := by omega
  rw [← Int.emod_add_emod, ← hcast, ← Int.natCast_emod, Int.toNat_natCast]

theorem toNat_emod_pred {n : Nat} (hn : 0 < n) (x : Int) :
    ((x - 1) % n).toNat = if (x % n).toNat = 0 then n - 1 else (x % n).toNat - 1 := by
  have hpos : (0 : Int) < n := Int.ofNat_lt.2 hn
  have hnonneg := Int.emod_nonneg x (show (n : Int) ≠ 0 by omega)
  have hlt := Int.emod_lt_of_pos x hpos
  rw [← Int.emod_sub_emod]
  split
  · rename_i hzero
    have hx : x % n = 0 := by omega
    rw [hx, ← Int.add_emod_right, Int.emod_eq_of_lt (by omega) (by omega)]
    omega
  · rename_i hne
    rw [Int.emod_eq_of_lt (by omega) (by omega)]
    omega

theorem selection_append {n : Nat} (hn : 0 < n) (default : Nat) (before : List (Option Key)) (key : Option Key) :
    selection n default (before ++ [key]) = moved n (selection n default before) key := by
  have hcount : ∀ scan, presses scan (before ++ [key]) =
      presses scan before + if key = some (.special scan) then 1 else 0 := by
    intro scan
    unfold presses
    rw [List.count_append, List.count_singleton]
    simp only [beq_iff_eq]
  unfold selection
  rw [hcount, hcount]
  generalize presses scanDown before = downs
  generalize presses scanUp before = ups
  rcases key with _ | scan | c
  · rw [if_neg (by simp), if_neg (by simp)]
    simp [moved]
  · dsimp only [moved]
    by_cases hup : scan = scanUp
    · subst hup
      rw [if_neg (by decide), if_pos rfl, if_pos rfl, ← toNat_emod_pred hn]
      congr 2
      omega
    · rw [if_neg hup]
      by_cases hdown : scan = scanDown
      · subst hdown
        rw [if_pos rfl, if_neg (by decide), if_pos rfl, ← toNat_emod_succ hn]
        congr 2
        omega
      · rw [if_neg (by simp [hdown]), if_neg (by simp [hup]), if_neg hdown]
        simp
  · rw [if_neg (by simp), if_neg (by simp)]
    simp [moved]

/-- Whether a poll decides is not up to the selection. -/
theorem decision_eq_none {n selected selected' : Nat} {key : Option Key} (h : decision n selected key = none) :
    decision n selected' key = none := by
  rcases key with _ | scan | c
  · rfl
  · rfl
  · unfold decision at h ⊢
    dsimp only at h ⊢
    split at h
    · cases h
    · rename_i henter
      rw [if_neg henter, h]

section
variable {cfg : Config}

theorem pressKey_eq (s : MenuState) (key : Key) : pressKey cfg s key =
    match decision cfg.entries.length s.selected (some key) with
    | some i => .chosen i
    | none => .waiting { s with selected := moved cfg.entries.length s.selected (some key) } := by
  unfold pressKey decision moved
  rcases key with scan | c
  · dsimp only
    split
    · rfl
    · split <;> rfl
  · dsimp only
    split
    · rfl
    · rcases toDigit c with _ | d
      · rfl
      · dsimp only [Option.bind_some]
        split <;> rfl

/-! ## What holds behind some polls -/

/-- The state behind some polls that decided nothing: the clock runs until a key comes. -/
structure Behind (cfg : Config) (before : List (Option Key)) (s : MenuState) : Prop where
  undecided : ∀ key ∈ before, decision cfg.entries.length 0 key = none
  selected : s.selected = selection cfg.entries.length cfg.default before
  running : s.counting = true → (∀ key ∈ before, key = none) ∧ before.length < 10 * cfg.timeout.toNat ∧
    s.ticks.toNat = before.length ∧ s.remaining.toNat = cfg.timeout.toNat - before.length / 10
  stopped : s.counting = false → ¬ Idle cfg.timeout.toNat before

theorem Idle.of_append {timeout : Nat} {before after : List (Option Key)} (h : Idle timeout (before ++ after)) :
    Idle timeout before := by
  intro key hkey
  refine h key ?_
  rw [List.take_append]
  exact List.mem_append_left _ hkey

/-- A poll with a key, while the clock runs or after it was stopped, is not idle. -/
theorem Behind.not_idle {before : List (Option Key)} {s : MenuState} (h : Behind cfg before s) (key : Key)
    (after : List (Option Key)) : ¬ Idle cfg.timeout.toNat (before ++ some key :: after) := by
  intro hidle
  rcases hcounting : s.counting with _ | _
  · exact h.stopped hcounting hidle.of_append
  · obtain ⟨-, hlt, -, -⟩ := h.running hcounting
    -- while the clock runs, the key is among the polls the countdown waits for
    have hmem : some key ∈ (before ++ some key :: after).take (10 * cfg.timeout.toNat) := by
      rw [List.take_append]
      apply List.mem_append_right
      obtain ⟨m, hm⟩ : ∃ m, 10 * cfg.timeout.toNat - before.length = m + 1 := Nat.exists_eq_add_one.2 (by omega)
      rw [hm, List.take_succ_cons]
      exact List.mem_cons_self
    cases hidle _ hmem

/-! ## What the reference chooses -/

theorem reference_waiting {before : List (Option Key)} {s : MenuState} (h : Behind cfg before s) :
    reference cfg.entries.length cfg.default cfg.timeout.toNat before = none := by
  unfold reference
  rcases hcounting : s.counting with _ | _
  · have hnone : before.findIdx? (fun key => (decision cfg.entries.length 0 key).isSome) = none := by
      rw [List.findIdx?_eq_none_iff]
      intro key hkey
      rw [h.undecided key hkey]
      rfl
    rw [if_neg (h.stopped hcounting), hnone]
    rfl
  · obtain ⟨hnone, hlt, -, -⟩ := h.running hcounting
    have hidle : Idle cfg.timeout.toNat before := fun key hkey => hnone key (List.mem_of_mem_take hkey)
    rw [if_pos hidle, if_neg (by omega)]

theorem reference_decides {before after : List (Option Key)} {s : MenuState} {key : Key} {i : Nat}
    (h : Behind cfg before s) (hkey : decision cfg.entries.length s.selected (some key) = some i) :
    reference cfg.entries.length cfg.default cfg.timeout.toNat (before ++ some key :: after) = some i := by
  have hsome : (decision cfg.entries.length 0 (some key)).isSome = true := by
    rw [Option.isSome_iff_ne_none]
    intro hnone
    rw [decision_eq_none hnone] at hkey
    cases hkey
  -- no key in front of this one decided anything
  have hfirst : (before ++ some key :: after).findIdx? (fun key => (decision cfg.entries.length 0 key).isSome) =
      some before.length := by
    rw [List.findIdx?_append, List.findIdx?_eq_none_iff.2, List.findIdx?_cons, if_pos hsome]
    · simp
    · intro key hkey
      rw [h.undecided key hkey]
      rfl
  unfold reference
  rw [if_neg (h.not_idle key after), hfirst, Option.bind_some, List.take_left, ← h.selected,
    List.getElem?_append_right (Nat.le_refl _), Nat.sub_self]
  exact hkey

theorem reference_fires {n default timeout : Nat} {before : List (Option Key)} (hnone : ∀ key ∈ before, key = none)
    (hlen : before.length = 10 * timeout) (after : List (Option Key)) :
    reference n default timeout (before ++ after) = some default := by
  have hidle : Idle timeout (before ++ after) := by
    unfold Idle
    rw [← hlen, List.take_left]
    exact hnone
  unfold reference
  rw [if_pos hidle, if_pos (by rw [List.length_append]; omega)]

/-! ## One turn -/

/-- A tick of the clock, as long as the counter does not wrap: at the last the selected entry is booted. -/
theorem tick_running {s : MenuState} {m : Nat} (hselected : s.selected < cfg.entries.length)
    (hwrap : 10 * cfg.timeout.toNat < 2 ^ 64) (hcounting : s.counting = true) (hlt : m < 10 * cfg.timeout.toNat)
    (hticks : s.ticks.toNat = m) (hremaining : s.remaining.toNat = cfg.timeout.toNat - m / 10) :
    (m + 1 = 10 * cfg.timeout.toNat ∧ tick cfg s = some (.chosen s.selected)) ∨
      (m + 1 < 10 * cfg.timeout.toNat ∧ ∃ s', tick cfg s = some (.waiting s') ∧ s'.selected = s.selected ∧
        s'.counting = true ∧ s'.ticks.toNat = m + 1 ∧ s'.remaining.toNat = cfg.timeout.toNat - (m + 1) / 10) := by
  have hnext : (s.ticks + 1).toNat = m + 1 := by
    rw [UInt64.toNat_add, hticks]
    show (m + 1) % 2 ^ 64 = m + 1
    exact Nat.mod_eq_of_lt (by omega)
  have hten : (s.ticks + 1) % 10 = 0 ↔ (m + 1) % 10 = 0 := by
    rw [← UInt64.toNat_inj, UInt64.toNat_mod, hnext]
    rfl
  have hless : (s.remaining - 1).toNat = cfg.timeout.toNat - m / 10 - 1 := by
    rw [UInt64.toNat_sub_of_le _ _ (UInt64.le_iff_toNat_le.2 (by rw [hremaining]; show 1 ≤ _; omega)), hremaining]
    rfl
  have hzero : s.remaining - 1 = 0 ↔ cfg.timeout.toNat - m / 10 - 1 = 0 := by
    rw [← UInt64.toNat_inj, hless]
    rfl
  unfold tick
  rw [if_pos hcounting]
  dsimp only
  -- every tenth tick ends a second, and the last second ends the countdown
  by_cases hmod : (m + 1) % 10 = 0
  · rw [if_pos (hten.2 hmod)]
    by_cases hlast : cfg.timeout.toNat - m / 10 - 1 = 0
    · rw [if_pos (hzero.2 hlast)]
      refine .inl ⟨by omega, rfl⟩
    · obtain ⟨line, hline⟩ := countdown_isSome hselected (s.remaining - 1)
      rw [if_neg fun h => hlast (hzero.1 h), hline]
      refine .inr ⟨by omega, _, rfl, rfl, hcounting, hnext, ?_⟩
      show (s.remaining - 1).toNat = _
      omega
  · rw [if_neg fun h => hmod (hten.1 h)]
    refine .inr ⟨by omega, _, rfl, rfl, hcounting, hnext, ?_⟩
    show s.remaining.toNat = _
    omega

/-- Behind a poll without a key. -/
theorem Behind.tick_none {before : List (Option Key)} {s : MenuState} (h : Behind cfg before s)
    (hn : 0 < cfg.entries.length) (hwrap : 10 * cfg.timeout.toNat < 2 ^ 64) (hdefault : cfg.default < cfg.entries.length) :
    (tick cfg s = some (.chosen cfg.default) ∧ (∀ key ∈ before, key = none) ∧
        before.length + 1 = 10 * cfg.timeout.toNat) ∨
      ∃ s', tick cfg s = some (.waiting s') ∧ Behind cfg (before ++ [none]) s' := by
  have hundecided : ∀ key ∈ before ++ [none], decision cfg.entries.length 0 key = none := by
    intro key hkey
    rcases List.mem_append.1 hkey with hkey | hkey
    · exact h.undecided key hkey
    · rw [List.mem_singleton.1 hkey]
      rfl
  have hsame : selection cfg.entries.length cfg.default (before ++ [none]) = s.selected := by
    rw [selection_append hn, ← h.selected]
    rfl
  rcases hcounting : s.counting with _ | _
  · refine .inr ⟨s, ?_, hundecided, hsame.symm, ?_, fun _ hidle => h.stopped hcounting hidle.of_append⟩
    · unfold tick
      rw [hcounting]
      rfl
    · intro hrunning
      rw [hcounting] at hrunning
      cases hrunning
  · obtain ⟨hnone, hlt, hticks, hremaining⟩ := h.running hcounting
    have hselected : s.selected < cfg.entries.length := h.selected ▸ selection_lt hn _ _
    have hall : ∀ key ∈ before ++ [none], key = none := by
      intro key hkey
      rcases List.mem_append.1 hkey with hkey | hkey
      · exact hnone key hkey
      · exact List.mem_singleton.1 hkey
    rcases tick_running hselected hwrap hcounting hlt hticks hremaining with
      ⟨hend, htick⟩ | ⟨hmore, s', htick, hkeeps, hcounting', hticks', hremaining'⟩
    · -- nothing was pressed, so the default is still selected
      have hstart : s.selected = cfg.default := by
        rw [h.selected, List.eq_replicate_of_mem hnone]
        unfold selection presses
        rw [List.count_replicate, List.count_replicate, if_neg (by simp), if_neg (by simp)]
        exact selection_nil hdefault
      rw [hstart] at htick
      exact .inl ⟨htick, hnone, hend⟩
    · refine .inr ⟨s', htick, hundecided, hkeeps.trans hsame.symm, fun _ => ⟨hall, ?_, ?_, ?_⟩, ?_⟩
      · rw [List.length_append]
        exact hmore
      · rw [hticks', List.length_append]
        rfl
      · rw [hremaining', List.length_append]
        rfl
      · intro hstopped
        rw [hcounting'] at hstopped
        cases hstopped

/-- Behind a key that decides nothing: the clock stands still. -/
theorem Behind.press {before : List (Option Key)} {s : MenuState} (h : Behind cfg before s)
    (hn : 0 < cfg.entries.length) {key : Key} (hkey : decision cfg.entries.length s.selected (some key) = none) :
    Behind cfg (before ++ [some key])
      { s with counting := false, selected := moved cfg.entries.length s.selected (some key) } := by
  refine ⟨?_, ?_, (fun hrunning => by cases hrunning), fun _ => h.not_idle key []⟩
  · intro k hk
    rcases List.mem_append.1 hk with hk | hk
    · exact h.undecided k hk
    · rw [List.mem_singleton.1 hk]
      exact decision_eq_none hkey
  · rw [selection_append hn, ← h.selected]

/-! ## A whole run -/

/-- With two entries and a timeout, there is a menu. -/
theorem menu_of_two (hentries : 2 ≤ cfg.entries.length) (htimeout : 1 ≤ cfg.timeout.toNat) :
    ¬ (cfg.entries.length ≤ 1 ∨ cfg.timeout = 0) := by
  rintro (hle | hzero)
  · omega
  · rw [hzero] at htimeout
    exact absurd htimeout (by decide)

/-- From any state behind some polls, the loop goes on as the reference does. -/
theorem waitKey_agrees (hdefault : cfg.default < cfg.entries.length) (hwrap : 10 * cfg.timeout.toNat < 2 ^ 64)
    (polls : List (Option Key)) : ∀ (before : List (Option Key)) (s : MenuState), Behind cfg before s →
      ∃ turn, waitKey cfg s polls = some turn ∧
        turn.Agrees cfg.entries.length cfg.default cfg.timeout.toNat (before ++ polls) := by
  have hn : 0 < cfg.entries.length := by omega
  induction polls with
  | nil =>
    intro before s h
    refine ⟨_, rfl, ?_⟩
    rw [List.append_nil]
    exact ⟨reference_waiting h, h.selected⟩
  | cons key polls ih =>
    intro before s h
    have hnext : before ++ key :: polls = (before ++ [key]) ++ polls := by
      rw [List.append_assoc]
      rfl
    unfold waitKey
    rcases key with _ | key
    · dsimp only [pollKey]
      rcases h.tick_none hn hwrap hdefault with ⟨htick, hnone, hend⟩ | ⟨s', htick, h'⟩
      · rw [htick]
        refine ⟨_, rfl, ?_⟩
        rw [hnext]
        refine reference_fires (fun key hkey => ?_) (by rw [List.length_append]; exact hend) polls
        rcases List.mem_append.1 hkey with hkey | hkey
        · exact hnone key hkey
        · exact List.mem_singleton.1 hkey
      · rw [htick, hnext]
        exact ih _ s' h'
    · rw [pollKey, pressKey_eq]
      dsimp only
      rcases hkey : decision cfg.entries.length s.selected (some key) with _ | i
      · rw [hnext]
        exact ih _ _ (h.press hn hkey)
      · exact ⟨_, rfl, reference_decides h hkey⟩

theorem choose_agrees (hentries : 2 ≤ cfg.entries.length) (hdefault : cfg.default < cfg.entries.length)
    (htimeout : 1 ≤ cfg.timeout.toNat) (hwrap : 10 * cfg.timeout.toNat < 2 ^ 64) (polls : List (Option Key)) :
    ∃ turn : Turn Nat, turn.Agrees cfg.entries.length cfg.default cfg.timeout.toNat polls ∧
      turn.Valid cfg.entries.length ∧ ∀ fixed, choose cfg fixed polls = some turn := by
  have hstart : Behind cfg [] ⟨cfg.default, cfg.timeout, true, 0⟩ := by
    refine ⟨(fun key hkey => by cases hkey), (selection_nil hdefault).symm, fun _ => ?_, (fun h => by cases h)⟩
    refine ⟨(fun key hkey => by cases hkey), ?_, rfl, rfl⟩
    rw [List.length_nil]
    omega
  obtain ⟨turn, hturn, hagrees⟩ := waitKey_agrees hdefault hwrap polls [] _ hstart
  have hchoose : ∀ fixed, choose cfg fixed polls = some turn := by
    intro fixed
    obtain ⟨line, hline⟩ := countdown_isSome hdefault cfg.timeout
    unfold choose
    rw [if_neg (menu_of_two hentries htimeout)]
    dsimp only
    rw [hline]
    cases fixed <;> exact hturn
  obtain ⟨turn', hturn', hvalid⟩ := choose_valid hdefault true polls
  rw [hchoose] at hturn'
  exact ⟨turn, hagrees, Option.some.inj hturn' ▸ hvalid, hchoose⟩

/-- Whatever is pressed, there is one turn that agrees with the reference and selects or chooses one of the entries;
and on any console, however it shows the menu, the menu takes that turn exactly when it can show the titles. -/
theorem choose_agrees_iff (hentries : 2 ≤ cfg.entries.length) (hdefault : cfg.default < cfg.entries.length)
    (htimeout : 1 ≤ cfg.timeout.toNat) (hwrap : 10 * cfg.timeout.toNat < 2 ^ 64) (polls : List (Option Key)) :
    ∃ turn : Turn Nat, turn.Agrees cfg.entries.length cfg.default cfg.timeout.toNat polls ∧
      turn.Valid cfg.entries.length ∧ ∀ {κ : Type} (con : Console κ) (k : κ),
        (∃ k', chooseDrawing con cfg k polls = some (turn, k')) ↔
          Drawable con (plan con cfg.entries.length k).1 cfg := by
  obtain ⟨turn, hagrees, hvalid, hchoose⟩ := choose_agrees hentries hdefault htimeout hwrap polls
  refine ⟨turn, hagrees, hvalid, fun con k => ?_⟩
  rw [chooseDrawing_iff fun _ => hdefault, and_iff_left (hchoose _), MenuShows,
    or_iff_right (menu_of_two hentries htimeout)]

end

/-- Two entries and a second's time: DOWN and Enter choose the second entry, on a console without a cursor. -/
theorem choose_agrees_down : ∃ k', chooseDrawing ucs2Console
    { Config.builtin with timeout := 1, entries := Config.builtin.entries ++ Config.builtin.entries } ()
      [none, some (.special scanDown), none, some (.printable '\r')] = some (.chosen 1, k') := by
  obtain ⟨turn, hagrees, -, hrun⟩ := @choose_agrees_iff
    { Config.builtin with timeout := 1, entries := Config.builtin.entries ++ Config.builtin.entries }
    (by decide) (by decide) (by decide) (by decide)
    [none, some (.special scanDown), none, some (.printable '\r')]
  rcases turn with s | i
  · exact absurd hagrees.1 (by decide)
  · have hone : i = 1 := Option.some.inj (hagrees.symm.trans (by decide))
    exact hone ▸ (hrun ucs2Console ()).2 (Drawable.of_basic (by decide))

/-- A menu with a title outside UCS-2, and a second's time: the reference chooses the default at the tenth poll, and
the menu panics. -/
theorem not_choose_agrees : reference 2 0 1 (List.replicate 10 none) = some 0 ∧
    chooseDrawing ucs2Console
      { Config.builtin with timeout := 1, entries := [⟨['😀'], .multiboot [] none⟩, ⟨['B'], .multiboot [] none⟩] } ()
      (List.replicate 10 none) = none := by
  refine ⟨by decide, Option.not_isSome_iff_eq_none.1 fun hrun => ?_⟩
  rcases (chooseDrawing_isSome fun _ => by decide).1 hrun with hnow | hdraw
  · exact absurd hnow (by decide)
  · exact absurd (hdraw.lines 0 _ rfl) (by decide)

end Bang
