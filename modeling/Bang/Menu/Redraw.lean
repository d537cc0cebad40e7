/-
What the menu has on the screen. The lines that a key or a tick writes again are those it changes, so that
the screen is at all times what drawing the whole menu would make of it, and nothing outside the menu's rows
is touched.
-/
import Bang.Menu.Drawing

namespace Bang

/-! ## The menu's lines -/

/-- The lines of the menu, with an entry selected and something on the status row. -/
def menuLines (cfg : Config) (selected : Nat) (status : Str) : List Str :=
  [titleText, []] ++ cfg.entries.mapIdx (entryText selected) ++ [[], hintText, status]

/-- What the status row is for; `none` is a panic. -/
def statusText (cfg : Config) (s : MenuState) : Option Str :=
  if s.counting then countdown cfg s.selected s.remaining else some cancelledText

/-- A console of a size that prints: what is printed at the start of a row takes as many cells of the row as it has
characters, and moving or switching the cursor changes none. -/
structure Console.Prints {κ : Type} (con : Console κ) (cols rows : Nat) (screen : κ → Screen Char) : Prop where
  print : ∀ k row text k', row < rows → text.length < cols → con.print text (con.setCursor 0 row k).1 = some k' →
    screen k' = (screen k).put row text
  moves : ∀ col row k, screen (con.setCursor col row k).1 = screen k
  switches : ∀ visible k, screen (con.enableCursor visible k) = screen k

section
variable {κ : Type} (con : Console κ) (cfg : Config) (l : Layout)

/-- The whole menu, drawn for a state. -/
def redraw (s : MenuState) (k : κ) : Option κ :=
  (statusText cfg s).bind fun text => (l.draw con cfg s.selected k).bind (l.line con l.statusRow text)

variable (screen : κ → Screen Char)

/-- The screen shows the menu for a state, over what was there elsewhere. -/
def Shown (k₀ : κ) (s : MenuState) (k : κ) : Prop :=
  ∃ status, statusText cfg s = some status ∧
    screen k = (screen k₀).block ' ' l.origin l.width (menuLines cfg s.selected status)

/-- The screen is as if the whole menu had just been drawn: line by line, with the mark on the entry that is selected
and on no other, and the same on whatever console it is drawn. -/
structure Redrawn (k₀ : κ) (s : MenuState) (k : κ) : Prop where
  shown : Shown cfg l screen k₀ s k
  mark : ∀ i < cfg.entries.length, screen k (l.entryRow i) 5 = '>' ↔ i = s.selected
  fresh : ∀ k₁, ∃ k₂, redraw con cfg l s k₁ = some k₂ ∧
    ∀ r c, l.origin ≤ r → r ≤ l.statusRow → c < l.width → screen k r c = screen k₂ r c

/-- What is outside the menu's rows and columns is as it was. -/
def Untouched (k₀ k : κ) : Prop :=
  ∀ r c, r < l.origin ∨ l.statusRow < r ∨ l.width ≤ c → screen k r c = screen k₀ r c

variable {con cfg l screen}

theorem length_menuLines (cfg : Config) (selected : Nat) (status : Str) :
    (menuLines cfg selected status).length = cfg.entries.length + 5 := by
  unfold menuLines
  simp

/-! ## Drawing -/

/-- A layout that the console has room for. -/
structure Layout.Fits (l : Layout) (cfg : Config) (cols rows : Nat) : Prop where
  entries : l.entries = cfg.entries.length
  columns : l.cols = cols
  wide : 20 ≤ cols
  high : l.origin + l.height ≤ rows

section
variable {cols rows : Nat} (hcon : con.Prints cols rows screen) (hfits : l.Fits cfg cols rows)
include hcon hfits

theorem screen_line {i : Nat} (hi : i < cfg.entries.length + 5) {text : Str} {k k' : κ}
    (h : l.line con (l.origin + i) text k = some k') :
    screen k' = (screen k).put (l.origin + i) (Screen.fit ' ' l.width text) := by
  have hrow : l.origin + i < rows := by
    have hhigh := hfits.high
    unfold Layout.height at hhigh
    rw [hfits.entries] at hhigh
    omega
  have hwidth : (Screen.fit ' ' l.width text).length < cols := by
    have hwide := hfits.wide
    rw [Screen.length_fit, Layout.width, hfits.columns]
    omega
  exact hcon.print k (l.origin + i) _ k' hrow hwidth h

/-- A line of the menu, in place of the one that is there. -/
theorem screen_line_block {k k' : κ} {sc : Screen Char} (front rest : List Str)
    (hscreen : screen k = sc.block ' ' l.origin l.width (front ++ rest)) (hlt : front.length < cfg.entries.length + 5)
    {row : Nat} (hrow : row = l.origin + front.length) {text : Str} (h : l.line con row text k = some k') :
    screen k' = sc.block ' ' l.origin l.width (front ++ text :: rest.drop 1) := by
  subst hrow
  rw [screen_line hcon hfits hlt h, hscreen, Screen.block_put]

/-- A line behind the last one. -/
theorem screen_line_append {k k' : κ} {sc : Screen Char} {lines : List Str}
    (hscreen : screen k = sc.block ' ' l.origin l.width lines) (hlt : lines.length < cfg.entries.length + 5)
    {row : Nat} (hrow : row = l.origin + lines.length) {text : Str} (h : l.line con row text k = some k') :
    screen k' = sc.block ' ' l.origin l.width (lines ++ [text]) :=
  screen_line_block hcon hfits lines [] (by rw [List.append_nil]; exact hscreen) hlt hrow h

theorem screen_entryLines (selected : Nat) (es : List Entry) : ∀ (i : Nat) {k k' : κ},
    i + es.length ≤ cfg.entries.length → l.entryLines con selected i es k = some k' → screen k' =
      Screen.putLines ' ' l.width (screen k) (l.origin + (2 + i)) (es.mapIdx fun j => entryText selected (i + j)) := by
  induction es with
  | nil =>
    intro i k k' _ h
    cases h
    rfl
  | cons e es ih =>
    intro i k k' hlen h
    rw [List.length_cons] at hlen
    have hnext : (fun j => entryText selected (i + 1 + j)) = fun j => entryText selected (i + (j + 1)) :=
      funext fun j => by rw [Nat.add_assoc, Nat.add_comm 1]
    have hrow : l.entryRow i = l.origin + (2 + i) := Nat.add_assoc ..
    unfold Layout.entryLines at h
    obtain ⟨k₁, hline, hrest⟩ := Option.bind_eq_some_iff.1 h
    rw [hrow] at hline
    rw [ih (i + 1) (by omega) hrest, screen_line hcon hfits (by omega) hline, List.mapIdx_cons, hnext]
    rfl

/-- The list of the entries, in place of the one that is there or behind the last line. -/
theorem screen_drawEntries {k k' : κ} {sc : Screen Char} {front : List Str} (rest : List Str)
    (hscreen : screen k = sc.block ' ' l.origin l.width (front ++ rest)) (hfront : front.length = 2) {selected : Nat}
    (h : l.drawEntries con cfg selected k = some k') : screen k' = sc.block ' ' l.origin l.width
      (front ++ cfg.entries.mapIdx (entryText selected) ++ rest.drop cfg.entries.length) := by
  have hlines := screen_entryLines hcon hfits selected cfg.entries 0 (Nat.le_of_eq (Nat.zero_add _)) h
  simp only [Nat.zero_add, Nat.add_zero] at hlines
  rw [hlines, hscreen, ← hfront, Screen.block_putLines, List.length_mapIdx]

/-- The whole menu, over any screen. -/
theorem screen_draw {selected : Nat} {k k' : κ} (h : l.draw con cfg selected k = some k') :
    screen k' = (screen k).block ' ' l.origin l.width (menuLines cfg selected []) := by
  have hsame := hfits.entries
  have hstart := (Screen.block_nil (screen k) ' ' l.origin l.width).symm
  unfold Layout.draw at h
  -- from the first row on, each line goes behind the last
  obtain ⟨k₁, h₁, h⟩ := Option.bind_eq_some_iff.1 h
  have htitle := screen_line_append hcon hfits hstart (by simp) (show l.titleRow = _ from rfl) h₁
  obtain ⟨k₂, h₂, h⟩ := Option.bind_eq_some_iff.1 h
  have habove := screen_line_append hcon hfits htitle (by simp) (show l.titleRow + 1 = _ from rfl) h₂
  rw [← List.append_nil ([] ++ [titleText] ++ [[]])] at habove
  obtain ⟨k₃, h₃, h⟩ := Option.bind_eq_some_iff.1 h
  have hentries := screen_drawEntries hcon hfits [] habove rfl h₃
  rw [List.drop_nil, List.append_nil] at hentries
  obtain ⟨k₄, h₄, h⟩ := Option.bind_eq_some_iff.1 h
  have hbelow := screen_line_append hcon hfits hentries (by simp)
    (show l.entryRow cfg.entries.length = _ by simp [Layout.entryRow]; omega) h₄
  obtain ⟨k₅, h₅, h₆⟩ := Option.bind_eq_some_iff.1 h
  have hhint := screen_line_append hcon hfits hbelow (by simp)
    (show l.hintRow = _ by simp [Layout.hintRow]; omega) h₅
  have hstatus := screen_line_append hcon hfits hhint (by simp)
    (show l.statusRow = _ by simp [Layout.statusRow]; omega) h₆
  unfold menuLines
  simpa using hstatus

/-- The status row, in a menu. -/
theorem screen_status {k k' : κ} {sc : Screen Char} {selected : Nat} {status : Str}
    (hscreen : screen k = sc.block ' ' l.origin l.width (menuLines cfg selected status)) {text : Str}
    (h : l.line con l.statusRow text k = some k') :
    screen k' = sc.block ' ' l.origin l.width (menuLines cfg selected text) := by
  have hsame := hfits.entries
  have hlines : ∀ status, menuLines cfg selected status =
      ([titleText, []] ++ cfg.entries.mapIdx (entryText selected) ++ [[], hintText]) ++ [status] := by
    intro status
    unfold menuLines
    simp
  rw [hlines] at hscreen ⊢
  exact screen_line_block hcon hfits _ _ hscreen (by simp)
    (show l.statusRow = _ by simp [Layout.statusRow]; omega) h

/-- The list of the entries, in a menu. -/
theorem screen_selection {k k' : κ} {sc : Screen Char} {selected : Nat} {status : Str}
    (hscreen : screen k = sc.block ' ' l.origin l.width (menuLines cfg selected status)) {selected' : Nat}
    (h : l.drawEntries con cfg selected' k = some k') :
    screen k' = sc.block ' ' l.origin l.width (menuLines cfg selected' status) := by
  have hentries := screen_drawEntries hcon hfits (cfg.entries.mapIdx (entryText selected) ++ [[], hintText, status])
    (hscreen.trans (by rw [menuLines, List.append_assoc])) rfl h
  rw [hentries, List.drop_left' List.length_mapIdx, menuLines]

/-! ## One turn -/

variable {k₀ : κ}

/-- What is shown behind a turn: if the menu waits, the menu for its state. -/
def Turn.Shown (screen : κ → Screen Char) (cfg : Config) (l : Layout) (k₀ : κ) (turn : Turn Nat × κ) : Prop :=
  ∃ s, (∀ s', turn.1 = .waiting s' → s' = s) ∧ Bang.Shown cfg l screen k₀ s turn.2

omit hcon hfits in
theorem Shown.turn {s : MenuState} {k : κ} (h : Shown cfg l screen k₀ s k) :
    Turn.Shown screen cfg l k₀ (.waiting s, k) :=
  ⟨s, (fun _ hs => (Turn.waiting.inj hs).symm), h⟩

omit hcon hfits in
theorem Shown.chosen {s : MenuState} {k : κ} (h : Shown cfg l screen k₀ s k) (i : Nat) :
    Turn.Shown screen cfg l k₀ (.chosen i, k) :=
  ⟨s, (fun _ hs => by cases hs), h⟩

theorem drawKey_shown {s : MenuState} {k : κ} (h : Shown cfg l screen k₀ s k) (hcounting : s.counting = false)
    {key : Key} {turn : Turn Nat × κ} (hturn : drawKey con (some l) cfg s k key = some turn) :
    Turn.Shown screen cfg l k₀ turn := by
  rcases @drawKey_cases κ con (some l) cfg s k key with ⟨selected, -, hkey⟩ | ⟨hsame | ⟨i, hchosen⟩, hkey⟩
  · -- the list is redrawn, and the status row stays
    rw [hkey] at hturn
    obtain ⟨k', hdrawn, rfl⟩ := Option.map_eq_some_iff.1 hturn
    obtain ⟨status, hstatus, hscreen⟩ := h
    refine Shown.turn ⟨status, ?_, screen_selection hcon hfits hscreen hdrawn⟩
    unfold statusText at hstatus ⊢
    rw [hcounting] at hstatus ⊢
    exact hstatus
  · rw [hsame] at hkey
    exact Option.some.inj (hkey.symm.trans hturn) ▸ h.turn
  · rw [hchosen] at hkey
    exact Option.some.inj (hkey.symm.trans hturn) ▸ h.chosen i

theorem drawPoll_shown {s : MenuState} {k : κ} (h : Shown cfg l screen k₀ s k) {key : Option Key}
    {turn : Turn Nat × κ} (hturn : drawPoll con (some l) cfg s k key = some turn) :
    Turn.Shown screen cfg l k₀ turn := by
  rcases key with _ | key
  · exact Option.some.inj hturn ▸ h.turn
  · unfold drawPoll at hturn
    obtain ⟨k', hcancelled, hkey⟩ := Option.bind_eq_some_iff.1 hturn
    refine drawKey_shown hcon hfits ?_ rfl hkey
    obtain ⟨status, hstatus, hscreen⟩ := h
    unfold showCancelled at hcancelled
    split at hcancelled
    · -- the first key puts a notice in place of the countdown
      exact ⟨cancelledText, rfl, screen_status hcon hfits hscreen hcancelled⟩
    · rename_i hcounting
      cases hcancelled
      refine ⟨status, ?_, hscreen⟩
      unfold statusText at hstatus
      rw [if_neg hcounting] at hstatus
      exact hstatus

theorem drawTick_shown {s : MenuState} {k : κ} (h : Shown cfg l screen k₀ s k) {turn : Turn Nat × κ}
    (hturn : drawTick con (some l) cfg s k = some turn) : Turn.Shown screen cfg l k₀ turn := by
  rcases @drawTick_cases κ con (some l) cfg s k with ⟨hcounting, _, _, -, htick⟩ | ⟨_, hkind, -, htick⟩ <;>
    rw [htick] at hturn
  · obtain ⟨k', hcountdown, rfl⟩ := Option.map_eq_some_iff.1 hturn
    obtain ⟨text, htext, hline⟩ := showCountdown_some con (some l) cfg hcountdown
    obtain ⟨status, -, hscreen⟩ := h
    refine Shown.turn ⟨text, ?_, screen_status hcon hfits hscreen hline⟩
    unfold statusText
    rw [if_pos hcounting]
    exact htext
  · cases hturn
    rcases hkind with rfl | ⟨ticks, rfl⟩
    · exact h.chosen _
    · exact Shown.turn h

/-! ## A whole run -/

theorem drawLoop_shown (polls : List (Option Key)) : ∀ {s : MenuState} {k : κ}, Shown cfg l screen k₀ s k →
    ∀ {turn : Turn Nat × κ}, drawLoop con (some l) cfg s k polls = some turn → Turn.Shown screen cfg l k₀ turn := by
  induction polls with
  | nil =>
    intro s k h turn hturn
    exact Option.some.inj hturn ▸ h.turn
  | cons key polls ih =>
    intro s k h turn hturn
    unfold drawLoop at hturn
    rcases hkey : drawPoll con (some l) cfg s k key with _ | ⟨s' | i, k'⟩ <;> rw [hkey] at hturn
    · cases hturn
    · obtain ⟨s₁, hsame, hshown⟩ := drawPoll_shown hcon hfits h hkey
      obtain rfl := hsame s' rfl
      dsimp only at hturn hshown
      rcases htick : drawTick con (some l) cfg s' k' with _ | ⟨s'' | i, k''⟩ <;> rw [htick] at hturn
      · cases hturn
      · obtain ⟨s₂, hsame', hshown'⟩ := drawTick_shown hcon hfits hshown htick
        obtain rfl := hsame' s'' rfl
        exact ih hshown' hturn
      · exact Option.some.inj hturn ▸ drawTick_shown hcon hfits hshown htick
    · exact Option.some.inj hturn ▸ drawPoll_shown hcon hfits h hkey

theorem drawMenu_shown {k k' : κ} (hmenu : drawMenu con (some l) cfg k = some k') :
    Shown cfg l screen k ⟨cfg.default, cfg.timeout, true, 0⟩ k' := by
  obtain ⟨k₁, hdrawn, hcountdown⟩ := Option.bind_eq_some_iff.1 hmenu
  obtain ⟨text, htext, hline⟩ := showCountdown_some con (some l) cfg hcountdown
  refine ⟨text, htext, ?_⟩
  rw [← hcon.switches false k]
  exact screen_status hcon hfits (screen_draw hcon hfits hdrawn) hline

end

/-! ## The screen -/

section
variable {cols rows : Nat} {k k₀ k' : κ}

/-- A layout is one that the console has room for, and to find it nothing is written. -/
theorem plan_fits (hcon : con.Prints cols rows screen) (hmode : con.currentMode k = some (cols, rows))
    (hplan : plan con cfg.entries.length k = (some l, k')) : l.Fits cfg cols rows ∧ screen k' = screen k := by
  unfold plan at hplan
  rw [hmode] at hplan
  dsimp only at hplan
  split at hplan
  · cases hplan
  · rename_i hroom
    push Not at hroom
    obtain ⟨hlayout, rfl⟩ := Prod.mk.inj hplan
    split at hlayout
    · obtain rfl := Option.some.inj hlayout
      exact ⟨⟨rfl, rfl, hroom.1, hroom.2⟩, hcon.moves ..⟩
    · cases hlayout

theorem leaveMenu_screen (hcon : con.Prints cols rows screen) (turn : Turn Nat × κ) :
    screen (leaveMenu con (some l) turn).2 = screen turn.2 := by
  obtain ⟨s | i, k⟩ := turn
  · rfl
  · show screen (con.setCursor 0 (l.statusRow + 1) (con.enableCursor true k)).1 = screen k
    rw [hcon.moves, hcon.switches]

/-- A cell of one of the menu's rows. -/
theorem cell_of_shown {selected : Nat} {status : Str}
    (hscreen : screen k = (screen k₀).block ' ' l.origin l.width (menuLines cfg selected status)) {i c : Nat}
    (hi : i < (menuLines cfg selected status).length) (hc : c < l.width) :
    screen k (l.origin + i) c = (menuLines cfg selected status)[i][c]?.getD ' ' := by
  rw [hscreen, Screen.block_line _ _ _ _ hi hc]

theorem Shown.untouched (hfits : l.Fits cfg cols rows) {s : MenuState} (h : Shown cfg l screen k₀ s k) :
    Untouched l screen k₀ k := by
  obtain ⟨status, -, hscreen⟩ := h
  intro r c hout
  rw [hscreen, Screen.block_outside]
  have hsame := hfits.entries
  rw [length_menuLines]
  unfold Layout.statusRow at hout
  omega

/-- The mark in the line of an entry. -/
theorem entryText_mark (selected i : Nat) (e : Entry) :
    (entryText selected i e)[5]? = some (if i = selected then '>' else ' ') := by
  unfold entryText
  dsimp only
  rw [pushNum_eq]
  simp

theorem Shown.mark (hfits : l.Fits cfg cols rows) {s : MenuState} (h : Shown cfg l screen k₀ s k) {i : Nat}
    (hi : i < cfg.entries.length) : screen k (l.entryRow i) 5 = '>' ↔ i = s.selected := by
  obtain ⟨status, -, hscreen⟩ := h
  have hrow : l.entryRow i = l.origin + (2 + i) := Nat.add_assoc ..
  have hlen := length_menuLines cfg s.selected status
  have hwide : 5 < l.width := by
    have := hfits.wide
    rw [Layout.width, hfits.columns]
    omega
  have hline : (menuLines cfg s.selected status)[2 + i]? = some (entryText s.selected i cfg.entries[i]) := by
    unfold menuLines
    rw [List.append_assoc, List.getElem?_append_right (by simp), List.getElem?_append_left (by simp; omega)]
    simp [hi]
  rw [hrow, cell_of_shown hscreen (by omega) hwide, (List.getElem?_eq_some_iff.1 hline).2, entryText_mark]
  simp

/-- The whole menu can be drawn again for any state it gets into. -/
theorem redraw_isSome {s : MenuState} (hdraw : Drawable con (some l) cfg) (hrunning : Running cfg s) (k : κ) :
    (redraw con cfg l s k).isSome := by
  obtain ⟨k₁, hlines⟩ := Option.isSome_iff_exists.1 ((@draw_isSome κ con cfg l s.selected k).2 hdraw.lines)
  unfold redraw statusText
  rw [hlines]
  split
  · rename_i hcounting
    have hdefault := hrunning.selected
    rw [hrunning.clock hcounting] at hdefault ⊢
    have hentry := List.getElem?_eq_getElem hdefault
    have hshown := (@showCountdown_isSome κ con (some l) cfg _ _ hentry s.remaining k₁).2 (hdraw.countdown _ hentry)
    rw [showCountdown_eq] at hshown
    exact hshown
  · exact line_basic l _ (by decide) k₁

theorem Shown.fresh (hcon : con.Prints cols rows screen) (hfits : l.Fits cfg cols rows)
    (hdraw : Drawable con (some l) cfg) {s : MenuState} (hrunning : Running cfg s) (h : Shown cfg l screen k₀ s k)
    (k₁ : κ) : ∃ k₂, redraw con cfg l s k₁ = some k₂ ∧
      ∀ r c, l.origin ≤ r → r ≤ l.statusRow → c < l.width → screen k r c = screen k₂ r c := by
  obtain ⟨status, hstatus, hscreen⟩ := h
  obtain ⟨k₂, hredraw⟩ := Option.isSome_iff_exists.1 (redraw_isSome hdraw hrunning k₁)
  refine ⟨k₂, hredraw, ?_⟩
  unfold redraw at hredraw
  rw [hstatus, Option.bind_some] at hredraw
  obtain ⟨k₃, hmenu, hline⟩ := Option.bind_eq_some_iff.1 hredraw
  have hdrawn := screen_status hcon hfits (screen_draw hcon hfits hmenu) hline
  intro r c hlow hhigh hc
  obtain ⟨i, rfl⟩ := Nat.exists_eq_add_of_le hlow
  have hi : i < (menuLines cfg s.selected status).length := by
    have hsame := hfits.entries
    unfold Layout.statusRow at hhigh
    rw [length_menuLines]
    omega
  rw [cell_of_shown hscreen hi hc, cell_of_shown hdrawn hi hc]

/-- Whatever is pressed, and after every tick: as long as the menu waits, the screen is as if all of the menu had
just been drawn for its state; and nothing outside its rows, which are rows of the console, is ever written. -/
theorem menu_redrawn (hcon : con.Prints cols rows screen) (hmode : con.currentMode k = some (cols, rows))
    (hplan : plan con cfg.entries.length k = (some l, k₀)) (polls : List (Option Key)) {turn : Turn Nat}
    (hrun : chooseDrawing con cfg k polls = some (turn, k')) :
    (∀ s, turn = .waiting s → Redrawn con cfg l screen k s k') ∧ Untouched l screen k k' ∧ l.statusRow < rows := by
  obtain ⟨hfits, hsame⟩ := plan_fits hcon hmode hplan
  have hrow : l.statusRow < rows := by
    have hhigh := hfits.high
    unfold Layout.height at hhigh
    unfold Layout.statusRow
    omega
  unfold chooseDrawing at hrun
  split at hrun
  · obtain ⟨rfl, rfl⟩ := Prod.mk.inj (Option.some.inj hrun)
    exact ⟨(fun s hs => by cases hs), fun _ _ _ => rfl, hrow⟩
  · rw [hplan] at hrun
    dsimp only at hrun
    rcases hmenu : drawMenu con (some l) cfg k₀ with _ | k₁ <;> rw [hmenu] at hrun
    · cases hrun
    · obtain ⟨⟨turn', k₂⟩, hloop, hleave⟩ := Option.map_eq_some_iff.1 hrun
      obtain ⟨s, hturn, hshown⟩ := drawLoop_shown hcon hfits polls (drawMenu_shown hcon hfits hmenu) hloop
      have hscreen : screen k' = screen k₂ := by
        rw [← leaveMenu_screen hcon (turn', k₂), hleave]
      have hfirst : turn = turn' := by
        have hleft := @leaveMenu_fst κ con (some l) (turn', k₂)
        rw [hleave] at hleft
        exact hleft
      have hshown' : Shown cfg l screen k s k' := by
        obtain ⟨status, hstatus, hblock⟩ := hshown
        exact ⟨status, hstatus, by rw [hscreen, ← hsame]; exact hblock⟩
      refine ⟨?_, hshown'.untouched hfits, hrow⟩
      intro s' hs'
      have hwaits := hfirst.symm.trans hs'
      obtain rfl := hturn s' hwaits
      -- what has been drawn once can be drawn again, as the clock only runs for the default
      have hdefault := default_lt_of_drawMenu hmenu
      have hdraw := (drawMenu_isSome hdefault).1 (Option.isSome_iff_exists.2 ⟨k₁, hmenu⟩)
      have hrunning := Running.run polls ⟨hdefault, fun _ => rfl⟩ (hwaits ▸ drawLoop_some polls hloop)
      exact ⟨hshown', fun i hi => hshown'.mark hfits hi, hshown'.fresh hcon hfits hdraw hrunning⟩

end
end

/-- A console of 80 columns and 25 rows, with its cursor, that writes to the right of it. -/
def gridConsole : Console (Screen Char × Nat × Nat) where
  currentMode _ := some (80, 25)
  cursorRow k := k.2.2
  setCursor col row k := ((k.1, col, row), true)
  enableCursor _ k := k
  shows := ucs2Console.shows
  basic := ucs2Console.basic
  write text k :=
    (fun r c => if r = k.2.2 ∧ k.2.1 ≤ c then text[c - k.2.1]?.getD (k.1 r c) else k.1 r c, k.2.1 + text.length, k.2.2)

theorem gridConsole_prints : gridConsole.Prints 80 25 Prod.fst := by
  refine ⟨?_, fun _ _ _ => rfl, fun _ _ => rfl⟩
  intro k row text k' _ _ h
  obtain ⟨-, h⟩ := Option.ite_none_right_eq_some.1 h
  rw [← Option.some.inj h]
  funext r c
  show (if r = row ∧ 0 ≤ c then text[c]?.getD (k.1 r c) else k.1 r c) = k.1.put row text r c
  simp [Screen.put]

/-- Two entries and a second's time: after DOWN the mark is on the second entry, and the screen as if drawn so. -/
theorem menu_redrawn_down : ∃ s k', chooseDrawing gridConsole
    { Config.builtin with timeout := 1, entries := Config.builtin.entries ++ Config.builtin.entries }
    (fun _ _ => 'x', 0, 2) [none, some (.special scanDown)] = some (.waiting s, k') ∧ k'.1 5 5 = '>' := by
  have hdrawn : (chooseDrawing gridConsole
      { Config.builtin with timeout := 1, entries := Config.builtin.entries ++ Config.builtin.entries }
      (fun _ _ => 'x', 0, 2) [none, some (.special scanDown)]).isSome := by
    refine (chooseDrawing_isSome fun _ => by decide).2 (.inr (Drawable.of_basic ?_))
    decide
  obtain ⟨⟨turn, k'⟩, hrun⟩ := Option.isSome_iff_exists.1 hdrawn
  have hwaits : choose { Config.builtin with timeout := 1, entries := Config.builtin.entries ++ Config.builtin.entries }
      true [none, some (.special scanDown)] = some (.waiting ⟨1, 1, false, 1⟩) := by
    decide
  obtain rfl := Option.some.inj (hwaits.symm.trans (chooseDrawing_some hrun))
  obtain ⟨hredrawn, -, -⟩ := menu_redrawn (l := ⟨2, 80, 2⟩) gridConsole_prints rfl rfl _ hrun
  exact ⟨_, k', hrun, ((hredrawn _ rfl).mark 1 (by decide)).2 rfl⟩

end Bang
