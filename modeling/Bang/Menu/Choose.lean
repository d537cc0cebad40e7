/-
Choosing what to boot (`src/menu.rs`): the countdown, the keys and what they select. The firmware's
keyboard is the list of what each poll of it yields. What is drawn stands in `Bang.Menu.Drawing`, with
the function itself; here it is left out, but for the line that names the selected entry. Such a line is
read from the list of entries, and an index outside the list is a panic.
-/
import Bang.Config.Parse

namespace Bang

/-! ## The menu -/

/-- A key: a scan code, or a character. -/
inductive Key
  | special (scan : UInt16)
  | printable (c : Char)
  deriving DecidableEq, Repr

/-- `ScanCode::UP`. -/
def scanUp : UInt16 := 1

/-- `ScanCode::DOWN`. -/
def scanDown : UInt16 := 2

/-- The variables of the loop. -/
structure MenuState where
  selected : Nat
  remaining : UInt64
  counting : Bool
  ticks : UInt64
  deriving DecidableEq, Repr

/-- How a turn of the loop ends: it goes on, or something is chosen. -/
inductive Turn (α : Type)
  | waiting (s : MenuState)
  | chosen (a : α)
  deriving DecidableEq, Repr

/-- The line about the entry that is booted next; `none` is a panic. -/
def countdown (cfg : Config) (selected : Nat) (remaining : UInt64) : Option Str :=
  (cfg.entries[selected]?).map fun entry =>
    "    booting \"".toList ++ entry.title ++ "\" in ".toList ++ (toString remaining).toList ++ "s ...".toList

/-- What a key does. -/
def pressKey (cfg : Config) (s : MenuState) : Key → Turn Nat
  | .special scan =>
    if scan = scanUp then
      .waiting { s with selected := if s.selected = 0 then cfg.entries.length - 1 else s.selected - 1 }
    else if scan = scanDown then .waiting { s with selected := (s.selected + 1) % cfg.entries.length }
    else .waiting s
  | .printable c =>
    if c = '\r' ∨ c = '\n' then .chosen s.selected
    else
      -- a digit picks an entry directly
      match toDigit c with
      | some i => if i ≥ 1 ∧ i ≤ cfg.entries.length then .chosen (i - 1) else .waiting s
      | none => .waiting s

/-- One poll of the keyboard: any key stops the clock. -/
def pollKey (cfg : Config) (s : MenuState) : Option Key → Turn Nat
  | none => .waiting s
  | some key => pressKey cfg { s with counting := false } key

/-- A tenth of a second. -/
def tick (cfg : Config) (s : MenuState) : Option (Turn Nat) :=
  if s.counting then
    let s := { s with ticks := s.ticks + 1 }
    if s.ticks % 10 = 0 then
      let s := { s with remaining := s.remaining - 1 }
      if s.remaining = 0 then some (.chosen s.selected)
      else (countdown cfg s.selected s.remaining).map fun _ => .waiting s
    else some (.waiting s)
  else some (.waiting s)

/-- The loop, as far as the keyboard has been polled. -/
def waitKey (cfg : Config) (s : MenuState) : List (Option Key) → Option (Turn Nat)
  | [] => some (.waiting s)
  | key :: polls =>
    match pollKey cfg s key with
    | .chosen i => some (.chosen i)
    | .waiting s =>
      match tick cfg s with
      | none => none
      | some (.chosen i) => some (.chosen i)
      | some (.waiting s) => waitKey cfg s polls

/-- What asking for an entry comes to if all that is drawn can be shown (`chooseDrawing_iff`); `fixed` says
whether the menu has a place of its own on the screen, where the countdown is on show from the start. -/
def choose (cfg : Config) (fixed : Bool) (polls : List (Option Key)) : Option (Turn Nat) :=
  if cfg.entries.length ≤ 1 ∨ cfg.timeout = 0 then some (.chosen cfg.default)
  else
    let s := { selected := cfg.default, remaining := cfg.timeout, counting := true, ticks := 0 }
    if fixed then (countdown cfg s.selected s.remaining).bind fun _ => waitKey cfg s polls
    else waitKey cfg s polls

/-- A key moves the selection, if that, or chooses. -/
theorem pressKey_cases (cfg : Config) (s : MenuState) (key : Key) :
    (∃ selected, pressKey cfg s key = .waiting { s with selected := selected }) ∨ ∃ i, pressKey cfg s key = .chosen i := by
  rcases key with scan | c
  · unfold pressKey
    dsimp only
    split
    · exact .inl ⟨_, rfl⟩
    · split <;> exact .inl ⟨_, rfl⟩
  · unfold pressKey
    dsimp only
    split
    · exact .inr ⟨_, rfl⟩
    · split
      · split
        · exact .inr ⟨_, rfl⟩
        · exact .inl ⟨_, rfl⟩
      · exact .inl ⟨_, rfl⟩

/-! ## The selection is an entry -/

/-- A turn whose selection, or choice, is one of `n` entries. -/
def Turn.Valid (n : Nat) : Turn Nat → Prop
  | .waiting s => s.selected < n
  | .chosen i => i < n

theorem countdown_isSome {cfg : Config} {selected : Nat} (h : selected < cfg.entries.length) (remaining : UInt64) :
    ∃ line, countdown cfg selected remaining = some line := by
  unfold countdown
  rw [List.getElem?_eq_getElem h]
  exact ⟨_, rfl⟩

theorem pressKey_valid {cfg : Config} {s : MenuState} (h : s.selected < cfg.entries.length) (key : Key) :
    (pressKey cfg s key).Valid cfg.entries.length := by
  have hpos : 0 < cfg.entries.length := by omega
  unfold pressKey
  rcases key with scan | c <;> simp only
  · split
    · show (if s.selected = 0 then cfg.entries.length - 1 else s.selected - 1) < cfg.entries.length
      split <;> omega
    · split
      · exact Nat.mod_lt _ hpos
      · exact h
  · split
    · exact h
    · split
      · split
        · show _ - 1 < cfg.entries.length
          omega
        · exact h
      · exact h

theorem pollKey_valid {cfg : Config} {s : MenuState} (h : s.selected < cfg.entries.length) (key : Option Key) :
    (pollKey cfg s key).Valid cfg.entries.length := by
  rcases key with _ | key
  · exact h
  · exact pressKey_valid (s := { s with counting := false }) h key

/-- A tick leaves the selection alone, and finds the entry it names. -/
theorem tick_valid {cfg : Config} {s : MenuState} (h : s.selected < cfg.entries.length) :
    ∃ turn, tick cfg s = some turn ∧ turn.Valid cfg.entries.length := by
  unfold tick
  simp only
  split
  · split
    · split
      · exact ⟨_, rfl, h⟩
      · obtain ⟨line, hline⟩ := countdown_isSome h (s.remaining - 1)
        rw [hline]
        exact ⟨_, rfl, h⟩
    · exact ⟨_, rfl, h⟩
  · exact ⟨_, rfl, h⟩

/-- Whatever is pressed, the loop never names an entry that is not there. -/
theorem waitKey_valid {cfg : Config} (polls : List (Option Key)) : ∀ s : MenuState,
    s.selected < cfg.entries.length →
      ∃ turn, waitKey cfg s polls = some turn ∧ turn.Valid cfg.entries.length := by
  induction polls with
  | nil => intro s h; exact ⟨_, rfl, h⟩
  | cons key polls ih =>
    intro s h
    have hpoll := pollKey_valid h key
    unfold waitKey
    rcases hkey : pollKey cfg s key with s' | i <;> rw [hkey] at hpoll
    · obtain ⟨turn, hturn, hvalid⟩ := tick_valid (show s'.selected < cfg.entries.length from hpoll)
      simp only [hturn]
      rcases turn with s'' | i
      · exact ih s'' hvalid
      · exact ⟨_, rfl, hvalid⟩
    · exact ⟨_, rfl, hpoll⟩

/-- With a default that is an entry, so is whatever is chosen. -/
theorem choose_valid {cfg : Config} (h : cfg.default < cfg.entries.length) (fixed : Bool)
    (polls : List (Option Key)) :
    ∃ turn, choose cfg fixed polls = some turn ∧ turn.Valid cfg.entries.length := by
  unfold choose
  split
  · exact ⟨_, rfl, h⟩
  · simp only
    split
    · obtain ⟨line, hline⟩ := countdown_isSome h cfg.timeout
      rw [hline]
      exact waitKey_valid polls _ h
    · exact waitKey_valid polls _ h

/-- With no entry at all the default is chosen, whatever it is. -/
theorem choose_nil {cfg : Config} (h : cfg.entries = []) (fixed : Bool) (polls : List (Option Key)) :
    choose cfg fixed polls = some (.chosen cfg.default) := by
  unfold choose
  rw [h, if_pos (.inl (Nat.zero_le 1))]

end Bang
