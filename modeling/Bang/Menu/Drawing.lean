/-
What the menu draws (`src/menu.rs`), and the choice with its drawing, which panics where the console cannot show what
is printed: a character of a title, as all else is in Basic Latin. Where the console will not move its cursor, the
menu is printed again instead.
-/
import Bang.Menu.Choose
import Bang.Text.Screen

namespace Bang

/-! ## The layout -/

/-- Where the menu's lines live. -/
structure Layout where
  origin : Nat
  cols : Nat
  entries : Nat
  deriving DecidableEq, Repr

def Layout.titleRow (l : Layout) : Nat := l.origin

def Layout.entryRow (l : Layout) (i : Nat) : Nat := l.origin + 2 + i

def Layout.hintRow (l : Layout) : Nat := l.origin + 3 + l.entries

def Layout.statusRow (l : Layout) : Nat := l.origin + 4 + l.entries

/-- Rows from `origin` to the last one written, inclusive. -/
def Layout.height (l : Layout) : Nat := 5 + l.entries

/-- The columns a line covers: one is left alone at the end. -/
def Layout.width (l : Layout) : Nat := l.cols - 1

/-! ## Texts -/

/-- The digits of a number, the last one first. -/
def lowDigits (n : Nat) : Str := if h : n = 0 then [] else Char.ofNat (48 + n % 10) :: lowDigits (n / 10)
  termination_by n
  decreasing_by omega

/-- Append a number. -/
def pushNum (s : Str) (n : Nat) : Str := if n = 0 then s ++ ['0'] else s ++ (lowDigits n).reverse

/-- The line of an entry in a menu that stays where it is. -/
def entryText (selected i : Nat) (e : Entry) : Str :=
  let mark := if i = selected then '>' else ' '
  pushNum ("     ".toList ++ [mark] ++ [' ']) (i + 1) ++ ['.'] ++ [' '] ++ e.title

/-- The line about the entry that is booted next; `none` is a panic. -/
def countdownText (cfg : Config) (selected : Nat) (remaining : UInt64) : Option Str :=
  (cfg.entries[selected]?).map fun entry =>
    pushNum ("    booting \"".toList ++ entry.title ++ "\" in ".toList) remaining.toNat ++ "s ...".toList

def titleText : Str := "    Select what to boot:".toList

def hintText : Str := "    up/down to move, a number to pick, enter to boot".toList

def cancelledText : Str := "    (countdown cancelled)".toList

/-! ## Drawing -/

section
variable {κ : Type} (con : Console κ)

/-- Write one line where it belongs, blanking the rest of the row. -/
def Layout.line (l : Layout) (row : Nat) (text : Str) (k : κ) : Option κ :=
  con.print (Screen.fit ' ' l.width text) (con.setCursor 0 row k).1

/-- Work out where the menu can go, if the console will let us place it at all. -/
def plan (entries : Nat) (k : κ) : Option Layout × κ :=
  match con.currentMode k with
  | none => (none, k)
  | some (cols, rows) =>
    let layout : Layout := ⟨con.cursorRow k, cols, entries⟩
    if cols < 20 ∨ layout.origin + layout.height > rows then (none, k)
    else
      -- whether the cursor goes where it is told
      let (k, moved) := con.setCursor 0 layout.origin k
      (if moved then some layout else none, k)

/-- The lines of entries from number `i` on. -/
def Layout.entryLines (l : Layout) (selected : Nat) : Nat → List Entry → κ → Option κ
  | _, [], k => some k
  | i, e :: es, k => do
    let k ← l.line con (l.entryRow i) (entryText selected i e) k
    l.entryLines selected (i + 1) es k

/-- Just the list, which is all that changes when the selection moves. -/
def Layout.drawEntries (l : Layout) (cfg : Config) (selected : Nat) (k : κ) : Option κ :=
  l.entryLines con selected 0 cfg.entries k

/-- The whole menu, once. -/
def Layout.draw (l : Layout) (cfg : Config) (selected : Nat) (k : κ) : Option κ := do
  let k ← l.line con l.titleRow titleText k
  let k ← l.line con (l.titleRow + 1) [] k
  let k ← l.drawEntries con cfg selected k
  let k ← l.line con (l.entryRow cfg.entries.length) [] k
  let k ← l.line con l.hintRow hintText k
  l.line con l.statusRow [] k

/-- The line of an entry in a menu that is printed. -/
def printedText (selected i : Nat) (e : Entry) : Str :=
  let mark := if i = selected then ">" else " "
  "     ".toList ++ mark.toList ++ " ".toList ++ (toString (i + 1)).toList ++ ". ".toList ++ e.title

/-- The entries from number `i` on, printed. -/
def printEntries (selected : Nat) : Nat → List Entry → κ → Option κ
  | _, [], k => some k
  | i, e :: es, k => do
    let k ← con.println (printedText selected i e) k
    printEntries selected (i + 1) es k

/-- What a console that will not move its cursor gets: the menu again, below the last one. -/
def renderScrolling (cfg : Config) (selected : Nat) (k : κ) : Option κ := do
  let k ← con.println [] k
  let k ← con.println titleText k
  let k ← con.println [] k
  let k ← printEntries con selected 0 cfg.entries k
  let k ← con.println [] k
  con.println hintText k

/-- The status row's line, or a line of its own. -/
def showStatus (layout : Option Layout) (text : Str) (k : κ) : Option κ :=
  match layout with
  | some l => l.line con l.statusRow text k
  | none => con.println text k

/-- The list with its mark moved, or all of it again. -/
def showSelection (layout : Option Layout) (cfg : Config) (selected : Nat) (k : κ) : Option κ :=
  match layout with
  | some l => l.drawEntries con cfg selected k
  | none => renderScrolling con cfg selected k

/-- What is booted next, and when. -/
def showCountdown (layout : Option Layout) (cfg : Config) (selected : Nat) (remaining : UInt64) (k : κ) : Option κ :=
  match layout with
  | some l => (countdownText cfg selected remaining).bind fun text => l.line con l.statusRow text k
  | none => (countdown cfg selected remaining).bind fun text => con.println text k

/-! ## The choice -/

/-- What a key does. -/
def drawKey (layout : Option Layout) (cfg : Config) (s : MenuState) (k : κ) : Key → Option (Turn Nat × κ)
  | .special scan =>
    if scan = scanUp then
      let selected := if s.selected = 0 then cfg.entries.length - 1 else s.selected - 1
      (showSelection con layout cfg selected k).map fun k => (.waiting { s with selected := selected }, k)
    else if scan = scanDown then
      let selected := (s.selected + 1) % cfg.entries.length
      (showSelection con layout cfg selected k).map fun k => (.waiting { s with selected := selected }, k)
    else some (.waiting s, k)
  | .printable c =>
    if c = '\r' ∨ c = '\n' then some (.chosen s.selected, k)
    else
      match toDigit c with
      | some i => if i ≥ 1 ∧ i ≤ cfg.entries.length then some (.chosen (i - 1), k) else some (.waiting s, k)
      | none => some (.waiting s, k)

/-- The first key is told that it has stopped the clock. -/
def showCancelled (layout : Option Layout) (s : MenuState) (k : κ) : Option κ :=
  if s.counting then showStatus con layout cancelledText k else some k

/-- One poll of the keyboard: any key stops the clock. -/
def drawPoll (layout : Option Layout) (cfg : Config) (s : MenuState) (k : κ) : Option Key → Option (Turn Nat × κ)
  | none => some (.waiting s, k)
  | some key => do
    let k ← showCancelled con layout s k
    drawKey con layout cfg { s with counting := false } k key

/-- A tenth of a second. -/
def drawTick (layout : Option Layout) (cfg : Config) (s : MenuState) (k : κ) : Option (Turn Nat × κ) :=
  if s.counting then
    let s := { s with ticks := s.ticks + 1 }
    if s.ticks % 10 = 0 then
      let s := { s with remaining := s.remaining - 1 }
      if s.remaining = 0 then some (.chosen s.selected, k)
      else (showCountdown con layout cfg s.selected s.remaining k).map fun k => (.waiting s, k)
    else some (.waiting s, k)
  else some (.waiting s, k)

/-- The loop, as far as the keyboard has been polled. -/
def drawLoop (layout : Option Layout) (cfg : Config) (s : MenuState) (k : κ) : List (Option Key) →
    Option (Turn Nat × κ)
  | [] => some (.waiting s, k)
  | key :: polls =>
    match drawPoll con layout cfg s k key with
    | none => none
    | some (.chosen i, k) => some (.chosen i, k)
    | some (.waiting s, k) =>
      match drawTick con layout cfg s k with
      | none => none
      | some (.chosen i, k) => some (.chosen i, k)
      | some (.waiting s, k) => drawLoop layout cfg s k polls

/-- The menu, before the first poll. -/
def drawMenu (layout : Option Layout) (cfg : Config) (k : κ) : Option κ :=
  match layout with
  | some l => do
    let k ← l.draw con cfg cfg.default (con.enableCursor false k)
    showCountdown con layout cfg cfg.default cfg.timeout k
  | none => renderScrolling con cfg cfg.default k

/-- The cursor below the menu, once something is chosen. -/
def leaveMenu (layout : Option Layout) : Turn Nat × κ → Turn Nat × κ
  | (.waiting s, k) => (.waiting s, k)
  | (.chosen i, k) =>
    match layout with
    | some l => (.chosen i, (con.setCursor 0 (l.statusRow + 1) (con.enableCursor true k)).1)
    | none => (.chosen i, k)

/-- Ask which entry to boot, as far as the keyboard has been polled; `none` is a panic. -/
def chooseDrawing (cfg : Config) (k : κ) (polls : List (Option Key)) : Option (Turn Nat × κ) :=
  if cfg.entries.length ≤ 1 ∨ cfg.timeout = 0 then some (.chosen cfg.default, k)
  else
    let (layout, k) := plan con cfg.entries.length k
    match drawMenu con layout cfg k with
    | none => none
    | some k => (drawLoop con layout cfg ⟨cfg.default, cfg.timeout, true, 0⟩ k polls).map (leaveMenu con layout)

end

/-! ## Numbers -/

theorem lowDigits_reverse (n : Nat) (h : n ≠ 0) : (lowDigits n).reverse = Nat.toDigits 10 n := by
  have hdigit : ∀ d < 10, Char.ofNat (48 + d) = Nat.digitChar d := by decide
  induction n using Nat.strongRecOn with
  | ind n ih =>
    rw [lowDigits, dif_neg h, List.reverse_cons, hdigit _ (Nat.mod_lt _ (by decide))]
    rcases Nat.lt_or_ge n 10 with hlt | hge
    · rw [Nat.div_eq_of_lt hlt, Nat.mod_eq_of_lt hlt, Nat.toDigits_of_lt_base hlt, lowDigits]
      rfl
    · rw [ih (n / 10) (by omega) (by omega), ← Nat.toDigits_of_base_le (by decide) hge]

/-- What is appended is the decimal numeral. -/
theorem pushNum_eq (s : Str) (n : Nat) : pushNum s n = s ++ (toString n).toList := by
  have hrepr : (toString n).toList = Nat.toDigits 10 n := String.toList_ofList
  unfold pushNum
  rw [hrepr]
  split
  · rename_i h
    rw [h, Nat.toDigits_zero]
  · rename_i h
    rw [lowDigits_reverse n h]

theorem basic_number (n : Nat) : (toString n).toList.all basicLatin = true := by
  have hrepr : (toString n).toList = Nat.toDigits 10 n := String.toList_ofList
  rw [hrepr, List.all_eq_true]
  intro c hc
  have hdigit := Nat.isDigit_of_mem_toDigits (by decide) (by decide) hc
  have hrange : 48 ≤ c.toNat ∧ c.toNat ≤ 57 := by
    simpa [Char.isDigit, Char.le_def, UInt32.le_iff_toNat_le] using hdigit
  simp only [basicLatin, Bool.or_eq_true, Bool.and_eq_true, decide_eq_true_eq]
  omega

/-- Both ways of showing it, the countdown is one text. -/
theorem countdownText_eq (cfg : Config) (selected : Nat) (remaining : UInt64) :
    countdownText cfg selected remaining = countdown cfg selected remaining := by
  unfold countdownText countdown
  simp only [pushNum_eq]
  rfl

section
variable {κ : Type} (con : Console κ) (layout : Option Layout) (cfg : Config)

theorem showCountdown_eq (selected : Nat) (remaining : UInt64) (k : κ) :
    showCountdown con layout cfg selected remaining k =
      (countdown cfg selected remaining).bind fun text => showStatus con layout text k := by
  rcases layout with _ | l
  · rfl
  · unfold showCountdown
    rw [countdownText_eq]
    rfl

/-- To show the countdown, there is a line of it. -/
theorem showCountdown_some {selected : Nat} {remaining : UInt64} {k k' : κ}
    (h : showCountdown con layout cfg selected remaining k = some k') :
    ∃ text, countdown cfg selected remaining = some text ∧ showStatus con layout text k = some k' := by
  rw [showCountdown_eq] at h
  exact Option.bind_eq_some_iff.1 h

/-! ## What is shown of a title -/

/-- What a line shows of a title that has `before` characters in front of it. -/
def shownTitle (before : Nat) (title : Str) : Str :=
  match layout with
  | some l => title.take (l.width - before)
  | none => title

/-- What the menu shows of the titles can be shown: in its entry's line, behind the number, and of the default in the
countdown. -/
structure Drawable : Prop where
  lines : ∀ i e, cfg.entries[i]? = some e → con.Shows (shownTitle layout (9 + (toString (i + 1)).length) e.title)
  countdown : ∀ e, cfg.entries[cfg.default]? = some e → con.Shows (shownTitle layout 13 e.title)

/-- The menu is not drawn at all, or can be. -/
def MenuShows (k : κ) : Prop :=
  (cfg.entries.length ≤ 1 ∨ cfg.timeout = 0) ∨ Drawable con (plan con cfg.entries.length k).1 cfg

variable {con layout cfg}

theorem shows_fit {front title back : Str} (hfront : front.all basicLatin = true) (hback : back.all basicLatin = true)
    (width : Nat) : con.Shows (Screen.fit ' ' width (front ++ title ++ back)) ↔
      con.Shows (title.take (width - front.length)) := by
  have htake : ∀ (n : Nat) {text : Str}, text.all basicLatin = true → con.Shows (text.take n) := fun n text h =>
    Console.shows_basic (List.all_eq_true.2 fun c hc => List.all_eq_true.1 h c (List.mem_of_mem_take hc))
  have hblank : ∀ n, con.Shows (List.replicate n ' ') := fun n =>
    Console.shows_basic (List.all_eq_true.2 fun c hc => by rw [List.eq_of_mem_replicate hc]; decide)
  unfold Screen.fit List.rightpad
  rw [List.take_append, List.take_append, Console.shows_append, Console.shows_append, Console.shows_append]
  rw [and_iff_left (hblank _), and_iff_left (htake _ hback), and_iff_right (htake _ hfront)]

theorem shows_fit_basic {text : Str} (h : text.all basicLatin = true) (width : Nat) :
    con.Shows (Screen.fit ' ' width text) := by
  have hfit := @shows_fit κ con text [] [] h rfl width
  rw [List.append_nil, List.append_nil, List.take_nil] at hfit
  exact hfit.2 rfl

/-- The characters of an entry's line in front of its title. -/
theorem entryText_eq (selected i : Nat) (e : Entry) : ∃ front : Str, front.all basicLatin = true ∧
    front.length = 9 + (toString (i + 1)).length ∧ entryText selected i e = front ++ e.title ++ [] := by
  refine ⟨"     ".toList ++ [if i = selected then '>' else ' '] ++ [' '] ++ (toString (i + 1)).toList ++ ['.'] ++ [' '],
    ?_, ?_, ?_⟩
  · have hnumber := basic_number (i + 1)
    simp only [List.all_append, Bool.and_eq_true, hnumber]
    split <;> decide
  · simp only [List.length_append, List.length_singleton, String.length_toList]
    show 5 + 1 + 1 + _ + 1 + 1 = _
    omega
  · unfold entryText
    dsimp only
    rw [pushNum_eq, List.append_nil]

theorem printedText_shows (selected i : Nat) (e : Entry) : con.Shows (printedText selected i e) ↔ con.Shows e.title := by
  have hfront : ("     ".toList ++ (if i = selected then ">" else " ").toList ++ " ".toList ++ (toString (i + 1)).toList ++
      ". ".toList).all basicLatin = true := by
    have hnumber := basic_number (i + 1)
    simp only [List.all_append, Bool.and_eq_true, hnumber]
    split <;> decide
  unfold printedText
  rw [Console.shows_append, and_iff_right (Console.shows_basic hfront)]

/-- The line of the countdown, with the title in it. -/
theorem countdown_eq {selected : Nat} {e : Entry} (h : cfg.entries[selected]? = some e) (remaining : UInt64) :
    ∃ back : Str, back.all basicLatin = true ∧
      countdown cfg selected remaining = some ("    booting \"".toList ++ e.title ++ back) := by
  refine ⟨"\" in ".toList ++ (toString remaining).toList ++ "s ...".toList, ?_, ?_⟩
  · have hnumber : (toString remaining).toList.all basicLatin = true := basic_number remaining.toNat
    simp only [List.all_append, Bool.and_eq_true, hnumber]
    decide
  · unfold countdown
    rw [h]
    simp only [Option.map_some, List.append_assoc]

/-! ## What can be drawn -/

theorem bind_isSome {α β : Type} {x : Option α} {f : α → Option β} {p q : Prop} (hx : x.isSome ↔ p)
    (hf : ∀ a, (f a).isSome ↔ q) : (x >>= f).isSome ↔ p ∧ q := by
  rcases x with _ | a
  · exact iff_of_false (fun h => by cases h) fun h => by simpa using hx.2 h.1
  · rw [and_iff_right (hx.1 rfl)]
    exact hf a

/-- A step that goes through in front of others. -/
theorem bind_isSome_of {α β : Type} {x : Option α} {f : α → Option β} {q : Prop} (hx : x.isSome)
    (hf : ∀ a, (f a).isSome ↔ q) : (x >>= f).isSome ↔ q :=
  (bind_isSome (p := True) (iff_true_intro hx) hf).trans (and_iff_right trivial)

theorem line_isSome {l : Layout} {row : Nat} {text : Str} {k : κ} :
    (l.line con row text k).isSome ↔ con.Shows (Screen.fit ' ' l.width text) :=
  Console.print_isSome

theorem line_basic (l : Layout) (row : Nat) {text : Str} (h : text.all basicLatin = true) (k : κ) :
    (l.line con row text k).isSome :=
  line_isSome.2 (shows_fit_basic h _)

theorem entryLine_isSome {l : Layout} {row selected i : Nat} {e : Entry} {k : κ} :
    (l.line con row (entryText selected i e) k).isSome ↔
      con.Shows (shownTitle (some l) (9 + (toString (i + 1)).length) e.title) := by
  obtain ⟨front, hfront, hlen, heq⟩ := entryText_eq selected i e
  rw [line_isSome, heq, shows_fit hfront rfl, hlen]
  rfl

theorem entryLines_isSome {l : Layout} {selected : Nat} (es : List Entry) : ∀ (i : Nat) (k : κ),
    (l.entryLines con selected i es k).isSome ↔ ∀ j e, es[j]? = some e →
      con.Shows (shownTitle (some l) (9 + (toString (i + j + 1)).length) e.title) := by
  induction es with
  | nil => exact fun i k => iff_of_true rfl fun j e he => by simp at he
  | cons e es ih =>
    intro i k
    rw [Layout.entryLines, bind_isSome entryLine_isSome (ih (i + 1))]
    constructor
    · rintro ⟨hfirst, hrest⟩ (_ | j) e' he
      · cases he
        exact hfirst
      · have := hrest j e' he
        rwa [Nat.add_right_comm i 1 j] at this
    · intro h
      refine ⟨h 0 e rfl, fun j e' he => ?_⟩
      rw [Nat.add_right_comm i 1 j]
      exact h (j + 1) e' he

theorem drawEntries_isSome {l : Layout} {selected : Nat} {k : κ} : (l.drawEntries con cfg selected k).isSome ↔
    ∀ i e, cfg.entries[i]? = some e → con.Shows (shownTitle (some l) (9 + (toString (i + 1)).length) e.title) := by
  have hlines := @entryLines_isSome κ con l selected cfg.entries 0 k
  simp only [Nat.zero_add] at hlines
  exact hlines

theorem draw_isSome {l : Layout} {selected : Nat} {k : κ} : (l.draw con cfg selected k).isSome ↔
    ∀ i e, cfg.entries[i]? = some e → con.Shows (shownTitle (some l) (9 + (toString (i + 1)).length) e.title) := by
  refine bind_isSome_of (line_basic l _ (by decide) k) fun k => ?_
  refine bind_isSome_of (line_basic l _ rfl k) fun k => ?_
  refine (bind_isSome drawEntries_isSome fun k => ?_).trans (and_iff_left trivial)
  refine bind_isSome_of (line_basic l _ rfl k) fun k => ?_
  refine bind_isSome_of (line_basic l _ (by decide) k) fun k => ?_
  exact iff_true_intro (line_basic l _ rfl k)

theorem println_basic {text : Str} (h : text.all basicLatin = true) (k : κ) : (con.println text k).isSome :=
  Console.println_isSome.2 (Console.shows_basic h)

theorem printEntries_isSome {selected : Nat} (es : List Entry) : ∀ (i : Nat) (k : κ),
    (printEntries con selected i es k).isSome ↔ ∀ e ∈ es, con.Shows e.title := by
  induction es with
  | nil => exact fun i k => iff_of_true rfl fun e he => by cases he
  | cons e es ih =>
    intro i k
    rw [printEntries, bind_isSome (Console.println_isSome.trans (printedText_shows selected i e)) (ih (i + 1)),
      List.forall_mem_cons]

theorem renderScrolling_isSome {selected : Nat} {k : κ} :
    (renderScrolling con cfg selected k).isSome ↔ ∀ e ∈ cfg.entries, con.Shows e.title := by
  refine bind_isSome_of (println_basic rfl k) fun k => ?_
  refine bind_isSome_of (println_basic (by decide) k) fun k => ?_
  refine bind_isSome_of (println_basic rfl k) fun k => ?_
  refine (bind_isSome (printEntries_isSome _ _ _) fun k => ?_).trans (and_iff_left trivial)
  refine bind_isSome_of (println_basic rfl k) fun k => ?_
  exact iff_true_intro (println_basic (by decide) k)

/-- In either way to show the menu, what counts are the titles in the entries' lines. -/
theorem showSelection_isSome {selected : Nat} {k : κ} : (showSelection con layout cfg selected k).isSome ↔
    ∀ i e, cfg.entries[i]? = some e → con.Shows (shownTitle layout (9 + (toString (i + 1)).length) e.title) := by
  rcases layout with _ | l
  · refine renderScrolling_isSome.trans ⟨fun h i e he => h e (List.mem_of_getElem? he), fun h e he => ?_⟩
    obtain ⟨i, hi⟩ := List.getElem?_of_mem he
    exact h i e hi
  · exact drawEntries_isSome

theorem showStatus_basic {text : Str} (h : text.all basicLatin = true) (k : κ) : (showStatus con layout text k).isSome := by
  rcases layout with _ | l
  · exact println_basic h k
  · exact line_basic l _ h k

theorem showCountdown_isSome {selected : Nat} {e : Entry} (h : cfg.entries[selected]? = some e) {remaining : UInt64}
    {k : κ} : (showCountdown con layout cfg selected remaining k).isSome ↔ con.Shows (shownTitle layout 13 e.title) := by
  obtain ⟨back, hback, hline⟩ := countdown_eq h remaining
  have hfront : "    booting \"".toList.all basicLatin = true := by decide
  rw [showCountdown_eq, hline, Option.bind_some]
  rcases layout with _ | l
  · exact Console.println_isSome.trans (Console.shows_within hfront hback)
  · exact line_isSome.trans (shows_fit hfront hback _)

/-- The menu can be drawn before the first poll exactly when its titles can be shown. -/
theorem drawMenu_isSome (hdefault : cfg.default < cfg.entries.length) {k : κ} :
    (drawMenu con layout cfg k).isSome ↔ Drawable con layout cfg := by
  have hentry := List.getElem?_eq_getElem hdefault
  rcases layout with _ | l
  · refine renderScrolling_isSome.trans ⟨fun h => ⟨fun i e he => ?_, fun e he => ?_⟩, fun h e he => ?_⟩
    · exact h e (List.mem_of_getElem? he)
    · exact h e (List.mem_of_getElem? he)
    · obtain ⟨i, hi⟩ := List.getElem?_of_mem he
      exact h.lines i e hi
  · refine (bind_isSome draw_isSome fun k => showCountdown_isSome hentry).trans ⟨fun h => ⟨h.1, fun e he => ?_⟩, fun h => ?_⟩
    · cases hentry.symm.trans he
      exact h.2
    · exact ⟨h.lines, h.countdown _ hentry⟩

/-- Any console shows titles in Basic Latin. -/
theorem Drawable.of_basic (h : cfg.entries.all (fun e => e.title.all basicLatin) = true) :
    Drawable con layout cfg := by
  have hshown : ∀ (before : Nat) (e : Entry), e ∈ cfg.entries → con.Shows (shownTitle layout before e.title) := by
    intro before e he
    have htitle := List.all_eq_true.1 (List.all_eq_true.1 h e he)
    rcases layout with _ | l
    · exact Console.shows_basic (List.all_eq_true.2 htitle)
    · exact Console.shows_basic (List.all_eq_true.2 fun c hc => htitle c (List.mem_of_mem_take hc))
  exact ⟨fun i e he => hshown _ e (List.mem_of_getElem? he), fun e he => hshown _ e (List.mem_of_getElem? he)⟩

/-- To draw the countdown, a default is needed. -/
theorem default_lt_of_drawMenu {l : Layout} {k k' : κ} (h : drawMenu con (some l) cfg k = some k') :
    cfg.default < cfg.entries.length := by
  obtain ⟨k₁, -, hcountdown⟩ := Option.bind_eq_some_iff.1 h
  obtain ⟨text, htext, -⟩ := showCountdown_some con (some l) cfg hcountdown
  obtain ⟨e, he, -⟩ := Option.map_eq_some_iff.1 htext
  exact (List.getElem?_eq_some_iff.1 he).1

/-! ## The drawing decides nothing -/

/-- What a key does: the selection moves and is shown; or nothing is drawn, and either nothing else happens or
something is chosen. -/
theorem drawKey_cases (s : MenuState) (k : κ) (key : Key) :
    (∃ selected, pressKey cfg s key = .waiting { s with selected := selected } ∧
      drawKey con layout cfg s k key =
        (showSelection con layout cfg selected k).map fun k => (.waiting { s with selected := selected }, k)) ∨
    (pressKey cfg s key = .waiting s ∨ ∃ i, pressKey cfg s key = .chosen i) ∧
      drawKey con layout cfg s k key = some (pressKey cfg s key, k) := by
  unfold drawKey pressKey
  rcases key with scan | c
  · dsimp only
    by_cases hup : scan = scanUp
    · rw [if_pos hup, if_pos hup]
      exact .inl ⟨_, rfl, rfl⟩
    rw [if_neg hup, if_neg hup]
    by_cases hdown : scan = scanDown
    · rw [if_pos hdown, if_pos hdown]
      exact .inl ⟨_, rfl, rfl⟩
    · rw [if_neg hdown, if_neg hdown]
      exact .inr ⟨.inl rfl, rfl⟩
  · dsimp only
    by_cases henter : c = '\r' ∨ c = '\n'
    · rw [if_pos henter, if_pos henter]
      exact .inr ⟨.inr ⟨_, rfl⟩, rfl⟩
    rw [if_neg henter, if_neg henter]
    rcases toDigit c with _ | i
    · exact .inr ⟨.inl rfl, rfl⟩
    · dsimp only
      split
      · exact .inr ⟨.inr ⟨_, rfl⟩, rfl⟩
      · exact .inr ⟨.inl rfl, rfl⟩

theorem drawKey_some {s : MenuState} {k k' : κ} {key : Key} {turn : Turn Nat}
    (h : drawKey con layout cfg s k key = some (turn, k')) : turn = pressKey cfg s key := by
  rcases @drawKey_cases κ con layout cfg s k key with ⟨selected, hkey, hdraw⟩ | ⟨-, hdraw⟩
  · rw [hdraw] at h
    obtain ⟨k₁, -, hturn⟩ := Option.map_eq_some_iff.1 h
    cases hturn
    exact hkey.symm
  · cases h.symm.trans hdraw
    rfl

theorem drawPoll_some {s : MenuState} {k k' : κ} {key : Option Key} {turn : Turn Nat}
    (h : drawPoll con layout cfg s k key = some (turn, k')) : turn = pollKey cfg s key := by
  rcases key with _ | key
  · exact (Prod.mk.inj (Option.some.inj h)).1.symm
  · unfold drawPoll at h
    obtain ⟨_, -, h⟩ := Option.bind_eq_some_iff.1 h
    exact drawKey_some h

/-- What a tick does: the countdown is shown with a second less; or nothing is drawn, and the tick is counted or the
time is up. -/
theorem drawTick_cases (s : MenuState) (k : κ) :
    (s.counting = true ∧ ∃ ticks remaining,
      tick cfg s = ((countdown cfg s.selected remaining).map fun _ =>
        .waiting { s with ticks := ticks, remaining := remaining }) ∧
      drawTick con layout cfg s k = (showCountdown con layout cfg s.selected remaining k).map fun k =>
        (.waiting { s with ticks := ticks, remaining := remaining }, k)) ∨
    ∃ turn, (turn = .chosen s.selected ∨ ∃ ticks, turn = .waiting { s with ticks := ticks }) ∧
      tick cfg s = some turn ∧ drawTick con layout cfg s k = some (turn, k) := by
  unfold drawTick tick
  by_cases hcounting : s.counting = true
  · rw [if_pos hcounting, if_pos hcounting]
    dsimp only
    by_cases hten : (s.ticks + 1) % 10 = 0
    · rw [if_pos hten, if_pos hten]
      by_cases hzero : s.remaining - 1 = 0
      · rw [if_pos hzero, if_pos hzero]
        exact .inr ⟨_, .inl rfl, rfl, rfl⟩
      · rw [if_neg hzero, if_neg hzero]
        exact .inl ⟨hcounting, _, _, rfl, rfl⟩
    · rw [if_neg hten, if_neg hten]
      exact .inr ⟨_, .inr ⟨_, rfl⟩, rfl, rfl⟩
  · rw [if_neg hcounting, if_neg hcounting]
    exact .inr ⟨_, .inr ⟨s.ticks, rfl⟩, rfl, rfl⟩

theorem drawTick_some {s : MenuState} {k k' : κ} {turn : Turn Nat} (h : drawTick con layout cfg s k = some (turn, k')) :
    tick cfg s = some turn := by
  rcases @drawTick_cases κ con layout cfg s k with ⟨-, ticks, remaining, htick, hdraw⟩ | ⟨turn', -, htick, hdraw⟩
  · rw [hdraw] at h
    obtain ⟨k₁, hshown, hturn⟩ := Option.map_eq_some_iff.1 h
    cases hturn
    obtain ⟨text, htext, -⟩ := showCountdown_some con layout cfg hshown
    rw [htick, htext]
    rfl
  · cases h.symm.trans hdraw
    exact htick

theorem drawLoop_some (polls : List (Option Key)) : ∀ {s : MenuState} {k k' : κ} {turn : Turn Nat},
    drawLoop con layout cfg s k polls = some (turn, k') → waitKey cfg s polls = some turn := by
  induction polls with
  | nil =>
    intro s k k' turn h
    exact congrArg some (Prod.mk.inj (Option.some.inj h)).1
  | cons key polls ih =>
    intro s k k' turn h
    unfold drawLoop at h
    unfold waitKey
    rcases hpoll : drawPoll con layout cfg s k key with _ | ⟨s' | i, k₁⟩ <;> rw [hpoll] at h
    · cases h
    · rw [← drawPoll_some hpoll]
      dsimp only at h ⊢
      rcases htick : drawTick con layout cfg s' k₁ with _ | ⟨s'' | i, k₂⟩ <;> rw [htick] at h
      · cases h
      · rw [drawTick_some htick]
        exact ih h
      · rw [drawTick_some htick]
        exact congrArg some (Prod.mk.inj (Option.some.inj h)).1
    · rw [← drawPoll_some hpoll]
      exact congrArg some (Prod.mk.inj (Option.some.inj h)).1

theorem leaveMenu_fst (turn : Turn Nat × κ) : (leaveMenu con layout turn).1 = turn.1 := by
  obtain ⟨s | i, k⟩ := turn
  · rfl
  · cases layout <;> rfl

/-- What is chosen, and when, is the same with the drawing as without. -/
theorem chooseDrawing_some {k k' : κ} {polls : List (Option Key)} {turn : Turn Nat}
    (h : chooseDrawing con cfg k polls = some (turn, k')) :
    choose cfg (plan con cfg.entries.length k).1.isSome polls = some turn := by
  unfold chooseDrawing at h
  unfold choose
  split at h
  · rename_i hnow
    rw [if_pos hnow]
    exact congrArg some (Prod.mk.inj (Option.some.inj h)).1
  · rename_i hnow
    rw [if_neg hnow]
    generalize plan con cfg.entries.length k = placed at h ⊢
    obtain ⟨layout, k₁⟩ := placed
    dsimp only at h ⊢
    rcases hmenu : drawMenu con layout cfg k₁ with _ | k₂ <;> rw [hmenu] at h
    · cases h
    · obtain ⟨⟨turn', k₃⟩, hloop, hleave⟩ := Option.map_eq_some_iff.1 h
      have hsame : turn' = turn := by
        have hfst := @leaveMenu_fst κ con layout (turn', k₃)
        rw [hleave] at hfst
        exact hfst.symm
      have hwaits := drawLoop_some polls hloop
      rw [hsame] at hwaits
      rcases layout with _ | l
      · exact hwaits
      · obtain ⟨_, -, hcountdown⟩ := Option.bind_eq_some_iff.1 hmenu
        obtain ⟨text, htext, -⟩ := showCountdown_some con (some l) cfg hcountdown
        show (countdown cfg cfg.default cfg.timeout).bind _ = _
        rw [htext]
        exact hwaits

/-! ## Once the menu is on the screen -/

/-- The state of the menu while it runs: an entry is selected, the default as long as the clock runs. -/
structure Running (cfg : Config) (s : MenuState) : Prop where
  selected : s.selected < cfg.entries.length
  clock : s.counting = true → s.selected = cfg.default

theorem Running.poll {s s' : MenuState} (h : Running cfg s) {key : Option Key} (hpoll : pollKey cfg s key = .waiting s') :
    Running cfg s' := by
  have hvalid := pollKey_valid h.selected key
  rw [hpoll] at hvalid
  refine ⟨hvalid, fun hcounting => ?_⟩
  rcases key with _ | key
  · cases hpoll
    exact h.clock hcounting
  · -- any key stops the clock
    rcases pressKey_cases cfg { s with counting := false } key with ⟨selected, hkey⟩ | ⟨i, hkey⟩
    · cases hpoll.symm.trans hkey
      cases hcounting
    · cases hpoll.symm.trans hkey

theorem Running.tick {s s' : MenuState} (h : Running cfg s) (htick : tick cfg s = some (.waiting s')) :
    Running cfg s' := by
  unfold Bang.tick at htick
  split at htick
  · dsimp only at htick
    split at htick
    · split at htick
      · cases htick
      · obtain ⟨_, -, htick⟩ := Option.map_eq_some_iff.1 htick
        exact (Turn.waiting.inj htick) ▸ ⟨h.selected, h.clock⟩
    · exact (Turn.waiting.inj (Option.some.inj htick)) ▸ ⟨h.selected, h.clock⟩
  · exact (Turn.waiting.inj (Option.some.inj htick)) ▸ h

theorem Running.run (polls : List (Option Key)) : ∀ {s s' : MenuState}, Running cfg s →
    waitKey cfg s polls = some (.waiting s') → Running cfg s' := by
  induction polls with
  | nil => exact fun h hrun => Turn.waiting.inj (Option.some.inj hrun) ▸ h
  | cons key polls ih =>
    intro s s' h hrun
    unfold waitKey at hrun
    rcases hpoll : pollKey cfg s key with s₁ | i <;> rw [hpoll] at hrun
    · dsimp only at hrun
      rcases htick : Bang.tick cfg s₁ with _ | s₂ | i <;> rw [htick] at hrun
      · cases hrun
      · exact ih ((h.poll hpoll).tick htick) hrun
      · cases hrun
    · cases hrun

theorem drawPoll_isSome (hdraw : Drawable con layout cfg) (s : MenuState) (k : κ) (key : Option Key) :
    (drawPoll con layout cfg s k key).isSome := by
  rcases key with _ | key
  · rfl
  · have hkey : ∀ s (k : κ), (drawKey con layout cfg s k key).isSome := by
      intro s k
      rcases @drawKey_cases κ con layout cfg s k key with ⟨selected, -, hkey⟩ | ⟨-, hkey⟩
      · rw [hkey, Option.isSome_map]
        exact showSelection_isSome.2 hdraw.lines
      · rw [hkey]
        rfl
    unfold drawPoll
    refine (bind_isSome_of ?_ fun k => iff_true_intro (hkey { s with counting := false } k)).2 trivial
    unfold showCancelled
    split
    · exact showStatus_basic (by decide) k
    · rfl

theorem drawTick_isSome (hdraw : Drawable con layout cfg) {s : MenuState} (h : Running cfg s) (k : κ) :
    (drawTick con layout cfg s k).isSome := by
  rcases @drawTick_cases κ con layout cfg s k with ⟨hcounting, _, remaining, -, hdrawn⟩ | ⟨_, -, -, hdrawn⟩
  · have hentry := List.getElem?_eq_getElem h.selected
    rw [hdrawn, Option.isSome_map, showCountdown_isSome hentry]
    exact hdraw.countdown _ (h.clock hcounting ▸ hentry)
  · rw [hdrawn]
    rfl

theorem drawLoop_isSome (hdraw : Drawable con layout cfg) (polls : List (Option Key)) : ∀ {s : MenuState} {k : κ},
    Running cfg s → (drawLoop con layout cfg s k polls).isSome := by
  induction polls with
  | nil => exact fun _ => rfl
  | cons key polls ih =>
    intro s k h
    obtain ⟨⟨turn, k₁⟩, hpoll⟩ := Option.isSome_iff_exists.1 (drawPoll_isSome hdraw s k key)
    unfold drawLoop
    rw [hpoll]
    rcases turn with s' | i
    · have h' := h.poll (drawPoll_some hpoll).symm
      obtain ⟨⟨turn, k₂⟩, htick⟩ := Option.isSome_iff_exists.1 (drawTick_isSome hdraw h' k₁)
      dsimp only
      rw [htick]
      rcases turn with s'' | i
      · exact ih (h'.tick (drawTick_some htick))
      · rfl
    · rfl

/-- The menu runs without a panic exactly when it is not drawn, or its titles can be shown. -/
theorem chooseDrawing_isSome (hdefault : cfg.entries ≠ [] → cfg.default < cfg.entries.length) {k : κ}
    {polls : List (Option Key)} : (chooseDrawing con cfg k polls).isSome ↔ MenuShows con cfg k := by
  unfold chooseDrawing MenuShows
  split
  · rename_i hnow
    exact iff_of_true rfl (.inl hnow)
  · rename_i hnow
    have hdefault := hdefault fun hnil => hnow (.inl (by rw [hnil]; exact Nat.zero_le 1))
    rw [or_iff_right hnow]
    generalize plan con cfg.entries.length k = placed
    obtain ⟨layout, k₁⟩ := placed
    have hmenu := @drawMenu_isSome κ con layout cfg hdefault k₁
    dsimp only
    rcases hdrawn : drawMenu con layout cfg k₁ with _ | k₂ <;> rw [hdrawn] at hmenu
    · exact iff_of_false (fun h => by cases h) fun h => by simpa using hmenu.2 h
    · have hdraw := hmenu.1 rfl
      refine iff_of_true ?_ hdraw
      dsimp only
      rw [Option.isSome_map]
      exact drawLoop_isSome hdraw polls ⟨hdefault, fun _ => rfl⟩

/-- With its drawing, the menu comes to what it does without, if it can be drawn. -/
theorem chooseDrawing_iff (hdefault : cfg.entries ≠ [] → cfg.default < cfg.entries.length) {k : κ}
    {polls : List (Option Key)} {turn : Turn Nat} : (∃ k', chooseDrawing con cfg k polls = some (turn, k')) ↔
      MenuShows con cfg k ∧ choose cfg (plan con cfg.entries.length k).1.isSome polls = some turn := by
  have hshown := @chooseDrawing_isSome κ con cfg hdefault k polls
  constructor
  · rintro ⟨k', hrun⟩
    exact ⟨hshown.1 (Option.isSome_iff_exists.2 ⟨_, hrun⟩), chooseDrawing_some hrun⟩
  · rintro ⟨hshows, hchoose⟩
    obtain ⟨⟨turn', k'⟩, hrun⟩ := Option.isSome_iff_exists.1 (hshown.2 hshows)
    cases (chooseDrawing_some hrun).symm.trans hchoose
    exact ⟨k', hrun⟩

end

end Bang
