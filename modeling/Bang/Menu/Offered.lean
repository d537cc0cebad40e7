/-
The first half of `main` (`src/main.rs`): the entries of the configuration and the loaders that were
found next to them, the menu, and the entry at the index it returns. That index is one of the
entries exactly when there is an entry at all; a text none of whose blocks names something to boot
leaves an empty list, unless a loader is found.
-/
import Bang.Config.Fields
import Bang.Config.Printing
import Bang.Discover.Scan
import Bang.Menu.Drawing

namespace Bang

/-! ## What is offered -/

/-- Whether a loader is among the entries. -/
def already (entries : List Entry) (found : Found) : Bool :=
  entries.any fun e =>
    match e.target with
    | .chainload path device => path = found.path && device.getD found.device = found.device
    | _ => false

/-- A loader goes behind the entries, unless it is among them. -/
def offer (entries : List Entry) (found : Found) : List Entry :=
  if already entries found then entries
  else entries ++ [⟨found.title, .chainload found.path (some found.device)⟩]

/-- What is installed goes behind what was written down, if loaders are to be looked for. -/
def merged (cfg : Config) (scan : List Found) : Config :=
  if cfg.autodetect then { cfg with entries := scan.foldl offer cfg.entries } else cfg

/-- `&cfg.entries[choice]`, once there is a choice; `none` is a panic. -/
def chosenEntry (cfg : Config) : Turn Nat → Option (Turn Entry)
  | .waiting s => some (.waiting s)
  | .chosen choice => (cfg.entries[choice]?).map .chosen

/-- `main` up to the entry it boots, if the menu can be drawn. -/
def mainEntry (cfg : Config) (fixed : Bool) (polls : List (Option Key)) : Option (Turn Entry) :=
  (choose cfg fixed polls).bind (chosenEntry cfg)

/-- `main` up to the entry it boots, from what there is to boot on. -/
def mainEntryDrawing {κ : Type} (con : Console κ) (cfg : Config) (k : κ) (polls : List (Option Key)) :
    Option (Turn Entry × κ) :=
  (chooseDrawing con cfg k polls).bind fun (turn, k) => (chosenEntry cfg turn).map fun turn => (turn, k)

/-- `main` up to the entry it boots: `file` is the text of `\bang.cfg`, if there is one. -/
def mainEntryPrinting (tryFrom : Str → Option CString16) {κ : Type} (con : Console κ) (file : Option Str)
    (scan : List Found) (k : κ) (polls : List (Option Key)) : Option (Turn Entry × κ) :=
  (configured tryFrom con file k).bind fun (cfg, k) => mainEntryDrawing con (merged cfg scan) k polls

section
variable (tryFrom : Str → Option CString16)

/-- What there is to boot: `file` is the text of `\bang.cfg`, if there is one. -/
def offered (file : Option Str) (scan : List Found) : Config :=
  merged ((file.map (parse tryFrom)).getD .builtin) scan

/-- What is chosen is one of the entries, and `main` finds it. -/
def ChoosesEntry (cfg : Config) (fixed : Bool) (polls : List (Option Key)) : Prop :=
  (∀ i, choose cfg fixed polls = some (.chosen i) → i < cfg.entries.length) ∧ mainEntry cfg fixed polls ≠ none

/-- A text with something to boot: a block of its own names it, or a loader may be offered and is
found. -/
def HasEntry (text : Str) (scan : List Found) : Prop :=
  (∃ block ∈ blocks (strLines text), NamesTarget tryFrom block.2) ∨
    (autodetectSetting (strLines text) = true ∧ scan ≠ [])

variable {tryFrom}

/-! ## There is an entry -/

/-- A loader is offered behind the entries, or is one of them. -/
theorem offer_keeps (entries : List Entry) (found : Found) : entries <+: offer entries found := by
  unfold offer
  split
  · exact List.prefix_rfl
  · exact List.prefix_append _ _

/-- The entries stay where they are. -/
theorem foldl_offer_keeps (scan : List Found) : ∀ entries, entries <+: scan.foldl offer entries := by
  induction scan with
  | nil => intro entries; exact List.prefix_rfl
  | cons found scan ih => intro entries; exact (offer_keeps entries found).trans (ih _)

/-- The first loader is offered where nothing else is. -/
theorem foldl_offer_nil (scan : List Found) : scan.foldl offer [] = [] ↔ scan = [] := by
  constructor
  · intro h
    rcases scan with _ | ⟨found, scan⟩
    · rfl
    · have hfirst : offer [] found = [⟨found.title, .chainload found.path (some found.device)⟩] := rfl
      have hkeeps := foldl_offer_keeps scan (offer [] found)
      rw [← List.foldl_cons, h, List.prefix_nil, hfirst] at hkeeps
      cases hkeeps
  · rintro rfl
    rfl

theorem foldl_offer_eq_nil (scan : List Found) (entries : List Entry) :
    scan.foldl offer entries = [] ↔ entries = [] ∧ scan = [] := by
  constructor
  · intro h
    have hkeeps := foldl_offer_keeps scan entries
    rw [h, List.prefix_nil] at hkeeps
    subst hkeeps
    exact ⟨rfl, (foldl_offer_nil scan).1 h⟩
  · rintro ⟨rfl, rfl⟩
    rfl

theorem merged_default (cfg : Config) (scan : List Found) : (merged cfg scan).default = cfg.default := by
  unfold merged
  split <;> rfl

theorem merged_keeps (cfg : Config) (scan : List Found) : cfg.entries <+: (merged cfg scan).entries := by
  unfold merged
  split
  · exact foldl_offer_keeps scan _
  · exact List.prefix_rfl

/-- Something is offered exactly when the text has something, or there is no text. -/
theorem offered_ne_nil (file : Option Str) (scan : List Found) :
    (offered tryFrom file scan).entries ≠ [] ↔ ∀ text, file = some text → HasEntry tryFrom text scan := by
  rcases file with _ | text
  · have hne : (offered tryFrom none scan).entries ≠ [] := by
      intro h
      have hkeeps : Config.builtin.entries <+: (offered tryFrom none scan).entries := merged_keeps .builtin scan
      rw [h, List.prefix_nil] at hkeeps
      cases hkeeps
    exact iff_of_true hne fun text h => by cases h
  · have hoffered : (offered tryFrom (some text) scan).entries = [] ↔
        (parse tryFrom text).entries = [] ∧ ((parse tryFrom text).autodetect = true → scan = []) := by
      unfold offered merged
      simp only [Option.map_some, Option.getD_some]
      split
      · rename_i hauto
        rw [foldl_offer_eq_nil]
        simp [hauto]
      · rename_i hauto
        simp [hauto]
    have hkept := @parse_entries_ne_nil tryFrom text
    unfold HasEntry
    simp only [Option.some.injEq, forall_eq']
    rw [← hkept, ← @parse_autodetect tryFrom, ne_eq, hoffered]
    tauto

/-- With an entry offered, the default is one. -/
theorem offered_default_lt {file : Option Str} {scan : List Found} (h : (offered tryFrom file scan).entries ≠ []) :
    (offered tryFrom file scan).default < (offered tryFrom file scan).entries.length := by
  have hpos := List.length_pos_iff.2 h
  have hlen := (merged_keeps ((file.map (parse tryFrom)).getD .builtin) scan).length_le
  have hsame : (offered tryFrom file scan).default = _ := merged_default _ scan
  rw [hsame]
  rcases file with _ | text
  · exact hpos
  · by_cases hkept : (parse tryFrom text).entries = []
    · have hdefault : (parse tryFrom text).default = 0 := parse_default_nil hkept
      show (parse tryFrom text).default < _
      omega
    · exact lt_of_lt_of_le (parse_default_lt hkept) hlen

/-! ## What is chosen is an entry -/

/-- With its drawing, `main` comes to the same entry, if the menu can be drawn. -/
theorem mainEntryDrawing_iff {κ : Type} {con : Console κ} {cfg : Config}
    (hdefault : cfg.entries ≠ [] → cfg.default < cfg.entries.length) {k : κ} {polls : List (Option Key)}
    {turn : Turn Entry} : (∃ k', mainEntryDrawing con cfg k polls = some (turn, k')) ↔
      MenuShows con cfg k ∧ mainEntry cfg (plan con cfg.entries.length k).1.isSome polls = some turn := by
  unfold mainEntryDrawing mainEntry
  constructor
  · rintro ⟨k', hrun⟩
    obtain ⟨⟨choice, k₁⟩, hchoice, hentry⟩ := Option.bind_eq_some_iff.1 hrun
    obtain ⟨turn', hturn, heq⟩ := Option.map_eq_some_iff.1 hentry
    cases heq
    obtain ⟨hshows, hchoose⟩ := (chooseDrawing_iff hdefault).1 ⟨_, hchoice⟩
    exact ⟨hshows, Option.bind_eq_some_iff.2 ⟨choice, hchoose, hturn⟩⟩
  · rintro ⟨hshows, hentry⟩
    obtain ⟨choice, hchoose, hturn⟩ := Option.bind_eq_some_iff.1 hentry
    obtain ⟨k', hchoice⟩ := (chooseDrawing_iff hdefault).2 ⟨hshows, hchoose⟩
    refine ⟨k', ?_⟩
    rw [hchoice]
    exact Option.map_eq_some_iff.2 ⟨turn, hturn, rfl⟩

theorem choosesEntry_of_valid {cfg : Config} {fixed : Bool} {polls : List (Option Key)} {turn : Turn Nat}
    (h : choose cfg fixed polls = some turn) (hvalid : turn.Valid cfg.entries.length) :
    ChoosesEntry cfg fixed polls := by
  unfold ChoosesEntry mainEntry
  rw [h]
  rcases turn with s | i
  · exact ⟨fun i hi => (by cases hi), fun hnone => (by cases hnone)⟩
  · refine ⟨fun j hj => ?_, ?_⟩
    · cases hj
      exact hvalid
    · show (cfg.entries[i]?).map Turn.chosen ≠ none
      rw [List.getElem?_eq_getElem hvalid]
      exact fun hnone => by cases hnone

theorem not_choosesEntry_of_nil {cfg : Config} (h : cfg.entries = []) (fixed : Bool) (polls : List (Option Key)) :
    ¬ ChoosesEntry cfg fixed polls := by
  rintro ⟨hindex, -⟩
  have hlt := hindex _ (choose_nil h fixed polls)
  rw [h] at hlt
  exact absurd hlt (Nat.not_lt_zero _)

/-- What the menu returns is one of the entries exactly when the text has something to boot, or there is
no text: whatever loaders are found, whatever is pressed, and in either way to draw the menu. -/
theorem choosesEntry_iff (file : Option Str) (scan : List Found) (fixed : Bool) (polls : List (Option Key)) :
    ChoosesEntry (offered tryFrom file scan) fixed polls ↔ ∀ text, file = some text → HasEntry tryFrom text scan := by
  rw [← offered_ne_nil]
  constructor
  · intro h hnil
    exact not_choosesEntry_of_nil hnil fixed polls h
  · intro hne
    obtain ⟨turn, hturn, hvalid⟩ := choose_valid (offered_default_lt hne) fixed polls
    exact choosesEntry_of_valid hturn hvalid

end

/-- One bad line, on a machine with no other loader: the entry is dropped, the menu returns 0, and
`main` indexes an empty list. -/
theorem not_choosesEntry_of_typo :
    ¬ ChoosesEntry (offered ucs2 (some "entry Quark\n    mutliboot \\kernel.bin\n    modules \\drivers\n".toList) [])
        true [] :=
  not_choosesEntry_of_nil (by decide +kernel) true []

end Bang
