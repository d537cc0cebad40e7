/-
Lines whose argument cannot be used: a timeout that is no number, and a path that cannot be
converted. Most of them change nothing. A timeout line sets the timeout all the same, and a modules
or initrd line takes away what an earlier line of its block set; that shows unless something behind
it says it again.
-/
import Bang.Config.Settings

namespace Bang

section
variable (tryFrom : Str → Option CString16)

/-! ## Unusable lines -/

/-- A line whose argument cannot be used. -/
inductive Unusable (raw : Str) : Prop
  | timeout (hd : isDirective .timeout raw = true) (h : parseUnsigned (directiveLine raw).2 = none)
  | path (d : Directive) (hd : isDirective d raw = true)
    (hpath : d ∈ [.multiboot, .chainload, .linux, .modules, .initrd]) (h : tryFrom (directiveLine raw).2 = none)

/-- What the last target line of a block names. -/
def lastTarget (block : List Str) : Option Target := block.reverse.findSome? (targetLine tryFrom)

/-- The lines of a block behind its last target line. -/
def sinceTarget (block : List Str) : List Str := block.rtakeWhile fun raw => (targetLine tryFrom raw).isNone

/-- A companion path is set: the last line about it behind the last target line has one that can be used. -/
def companionSet (d : Directive) (block : List Str) : Bool :=
  ((sinceTarget tryFrom block).filter (isDirective d)).getLast?.any fun raw => (tryFrom (directiveLine raw).2).isSome

/-- The lines in front of the first entry line. -/
def ownLines (lines : List Str) : List Str := (Sections.cut (isDirective .entry) lines).1

/-- An unusable line between `front` and `rest` that replaces what an earlier line set, for good. -/
inductive Overwrites (front : List Str) (raw : Str) (rest : List Str) : Prop
  | timeout (hd : isDirective .timeout raw = true) (hset : timeoutSetting front ≠ 5)
    (hlast : ∀ later ∈ rest, isDirective .timeout later = false)
  | companion (d : Directive) (hd : isDirective d raw = true) (hcomp : d.companion = true) (heading : Str)
    (before : List Str) (hblock : (blocks front).getLast? = some (heading, before)) (t : Target)
    (htarget : lastTarget tryFrom before = some t) (hkind : d.appliesTo t = true)
    (hfilled : (Entry.mk [] t).filled = true) (hset : companionSet tryFrom d before = true)
    (hlast : ∀ later ∈ ownLines rest, targetLine tryFrom later = none ∧ isDirective d later = false)

variable {tryFrom}

/-! ## What a block has set -/

/-- A target that has a path for a companion. -/
def Target.hasCompanion (d : Directive) (t : Target) : Bool :=
  match d, t with
  | .modules, .multiboot _ modules => modules.isSome
  | .initrd, .linux _ initrd _ => initrd.isSome
  | _, _ => false

theorem filled_companion (d : Directive) (arg : Str) (entry : Entry) :
    ({ entry with target := entry.target.companion tryFrom d arg } : Entry).filled = entry.filled := by
  obtain ⟨title, target⟩ := entry
  cases d <;> cases target <;> rfl

theorem filled_blockLine {raw : Str} (htarget : targetLine tryFrom raw = none) (entry : Entry) :
    (blockLine tryFrom entry raw).filled = entry.filled :=
  blockLine_leaves Entry.filled htarget (fun d _ arg entry => filled_companion d arg entry) entry

theorem lastTarget_append (block : List Str) (raw : Str) :
    lastTarget tryFrom (block ++ [raw]) = (targetLine tryFrom raw).or (lastTarget tryFrom block) := by
  unfold lastTarget
  rw [List.reverse_append, List.reverse_singleton, List.singleton_append, List.findSome?_cons]
  cases targetLine tryFrom raw <;> rfl

/-- What no companion changes of a target is up to the last target line of the block. -/
theorem blockEntry_lastTarget {β : Sort*} (f : Target → β) (hf : ∀ d arg t, f (t.companion tryFrom d arg) = f t)
    (heading : Str) (block : List Str) :
    f (blockEntry tryFrom (heading, block)).target = f ((lastTarget tryFrom block).getD (.multiboot [] none)) := by
  induction block using List.reverseRecOn with
  | nil => rfl
  | append_singleton block raw ih =>
    have hstep : blockEntry tryFrom (heading, block ++ [raw]) =
        blockLine tryFrom (blockEntry tryFrom (heading, block)) raw := List.foldl_append ..
    rw [hstep, lastTarget_append]
    rcases ht : targetLine tryFrom raw with _ | t
    · rw [Option.none_or, ← ih]
      exact blockLine_leaves (fun entry => f entry.target) ht (fun d _ arg entry => hf d arg entry.target) _
    · rw [blockLine_target ht]
      rfl

/-- The kind of a block's target and whether it is kept are up to its last target line. -/
theorem blockEntry_kind (heading : Str) (block : List Str) (d : Directive) :
    d.appliesTo (blockEntry tryFrom (heading, block)).target =
        d.appliesTo ((lastTarget tryFrom block).getD (.multiboot [] none)) ∧
      (blockEntry tryFrom (heading, block)).filled =
        (Entry.mk [] ((lastTarget tryFrom block).getD (.multiboot [] none))).filled := by
  constructor
  · exact blockEntry_lastTarget _ (fun d' arg t => appliesTo_companion d d' arg t) heading block
  · exact blockEntry_lastTarget (fun t => (Entry.mk [] t).filled) (fun d' arg t => filled_companion d' arg ⟨[], t⟩)
      heading block

theorem hasCompanion_companion {d d' : Directive} (hne : d' ≠ d) (arg : Str) (t : Target) :
    (t.companion tryFrom d' arg).hasCompanion d = t.hasCompanion d := by
  cases d' <;> cases d <;> first | exact absurd rfl hne | cases t <;> rfl

/-- A block has set a companion path when its target is of the kind and the last line about it is usable. -/
theorem blockEntry_hasCompanion {d : Directive} (hd : d = .modules ∨ d = .initrd) (heading : Str) (block : List Str) :
    (blockEntry tryFrom (heading, block)).target.hasCompanion d =
      (d.appliesTo (blockEntry tryFrom (heading, block)).target && companionSet tryFrom d block) := by
  have hcomp : d.companion = true := by rcases hd with rfl | rfl <;> rfl
  induction block using List.reverseRecOn with
  | nil =>
    rcases hd with rfl | rfl <;> rfl
  | append_singleton block raw ih =>
    have hstep : blockEntry tryFrom (heading, block ++ [raw]) =
        blockLine tryFrom (blockEntry tryFrom (heading, block)) raw := List.foldl_append ..
    rw [hstep]
    rcases ht : targetLine tryFrom raw with _ | t
    · have hsince : sinceTarget tryFrom (block ++ [raw]) = sinceTarget tryFrom block ++ [raw] :=
        List.rtakeWhile_concat_pos _ _ _ (by rw [ht]; rfl)
      unfold companionSet at ih ⊢
      have hkind := blockLine_leaves (fun entry => d.appliesTo entry.target) ht
        (fun d' _ arg entry => appliesTo_companion d d' arg entry.target) (blockEntry tryFrom (heading, block))
      rw [hsince, hkind, List.filter_append]
      rcases hraw : isDirective d raw with _ | _
      · have hset : (blockLine tryFrom (blockEntry tryFrom (heading, block)) raw).target.hasCompanion d =
            (blockEntry tryFrom (heading, block)).target.hasCompanion d := by
          refine blockLine_leaves (fun entry => entry.target.hasCompanion d) ht (fun d' hd' arg entry => ?_) _
          refine hasCompanion_companion ?_ arg entry.target
          rintro rfl
          rw [hd'] at hraw
          cases hraw
        rw [hset, List.filter_cons_of_neg (by rw [hraw]; decide), List.filter_nil,
          List.append_nil]
        exact ih
      · rw [blockLine_companion hraw hcomp, List.filter_cons_of_pos hraw, List.filter_nil, List.getLast?_concat]
        obtain ⟨title, target⟩ := blockEntry tryFrom (heading, block)
        rcases hd with rfl | rfl <;> cases target <;> rfl
    · have hsince : sinceTarget tryFrom (block ++ [raw]) = [] :=
        List.rtakeWhile_concat_neg _ _ _ (by rw [ht]; exact fun h => by cases h)
      unfold companionSet
      rw [hsince, blockLine_target ht]
      obtain ⟨p, rfl | rfl | rfl⟩ := targetLine_eq ht <;> rcases hd with rfl | rfl <;> rfl

/-! ## A line between others -/

/-- A companion line with a path that cannot be used changes an entry that has one. -/
theorem blockLine_unusable {d : Directive} {raw : Str} (hd : isDirective d raw = true) (hcomp : d = .modules ∨ d = .initrd)
    (h : tryFrom (directiveLine raw).2 = none) (entry : Entry) :
    blockLine tryFrom entry raw = entry ↔ entry.target.hasCompanion d = false := by
  rw [blockLine_companion hd (by rcases hcomp with rfl | rfl <;> rfl)]
  obtain ⟨title, target⟩ := entry
  rcases hcomp with rfl | rfl <;> rcases target with ⟨k, _ | m⟩ | ⟨p, dev⟩ | ⟨k, _ | i, c⟩ <;>
    simp [Target.companion, Target.hasCompanion, h]

/-- Two lists that differ in one element are the same to a filter when it drops that element. -/
theorem filter_mid_eq_iff {α : Type} {p : α → Bool} {a b : α} (hp : p a = p b) (l l' : List α) :
    (l ++ a :: l').filter p = (l ++ b :: l').filter p ↔ a = b ∨ p b = false := by
  rw [List.filter_append, List.filter_append, List.append_cancel_left_eq]
  rcases hb : p b with _ | _
  · rw [List.filter_cons_of_neg (by rw [hp, hb]; decide), List.filter_cons_of_neg (by rw [hb]; decide)]
    simp
  · rw [List.filter_cons_of_pos (by rw [hp, hb]), List.filter_cons_of_pos hb]
    simp

/-- What is kept of the entries is all that matters of them. -/
theorem finish_entries_eq_iff (s : ParseState) (entries entries' : List Entry) :
    ({ s with entries := entries } : ParseState).finish = ({ s with entries := entries' } : ParseState).finish ↔
      entries.filter Entry.filled = entries'.filter Entry.filled := by
  constructor
  · exact congrArg Config.entries
  · intro h
    unfold ParseState.finish
    simp only [h]

/-- Where the line stands in a block, its entry is the only one it can change; in front of every block it
changes none. -/
theorem lineEntries_foldl {front : List Str} {raw : Str} (hraw : isDirective .entry raw = false) (rest : List Str) :
    (blocks front = [] ∧ rest.foldl (lineEntries tryFrom) (lineEntries tryFrom (front.foldl (lineEntries tryFrom) []) raw) =
        rest.foldl (lineEntries tryFrom) (front.foldl (lineEntries tryFrom) [])) ∨
      ∃ heading before entries entries', (blocks front).getLast? = some (heading, before) ∧
        rest.foldl (lineEntries tryFrom) (lineEntries tryFrom (front.foldl (lineEntries tryFrom) []) raw) =
          entries ++ (ownLines rest).foldl (blockLine tryFrom)
            (blockLine tryFrom (blockEntry tryFrom (heading, before)) raw) :: entries' ∧
        rest.foldl (lineEntries tryFrom) (front.foldl (lineEntries tryFrom) []) =
          entries ++ (ownLines rest).foldl (blockLine tryFrom) (blockEntry tryFrom (heading, before)) :: entries' := by
  have hfront : front.foldl (lineEntries tryFrom) [] = (blocks front).map (blockEntry tryFrom) :=
    Sections.foldl_enter (isDirective .entry) startEntry (blockLine tryFrom) front
  rw [hfront]
  rcases List.eq_nil_or_concat (blocks front) with h | ⟨bs, ⟨heading, before⟩, h⟩
  · rw [h]
    refine .inl ⟨rfl, ?_⟩
    unfold lineEntries Sections.enter
    rw [if_neg (by rw [hraw]; decide)]
    rfl
  · rw [h, List.concat_eq_append, List.map_append, List.map_singleton, List.getLast?_concat]
    refine .inr ⟨heading, before, _, _, rfl, ?_, Sections.foldl_enter_concat _ _ _ rest _ _⟩
    have hline : lineEntries tryFrom (bs.map (blockEntry tryFrom) ++ [blockEntry tryFrom (heading, before)]) raw =
        bs.map (blockEntry tryFrom) ++ [blockLine tryFrom (blockEntry tryFrom (heading, before)) raw] := by
      unfold lineEntries Sections.enter
      rw [if_neg (by rw [hraw]; decide), List.modifyLast_concat]
    rw [hline]
    exact Sections.foldl_enter_concat _ _ _ rest _ _

/-- A line of an entry leaves everything else alone. -/
theorem line_perEntry {d : Directive} {raw : Str} (hd : isDirective d raw = true) (hper : d.perEntry = true) :
    (∀ t, lineTimeout t raw = t) ∧ (∀ n, lineDefault n raw = n) ∧ (∀ a, lineAutodetect a raw = a) ∧
      ∀ t, lineDefaultTitle t raw = t := by
  have hglobal : ∀ g : Directive, g.perEntry = false → isDirective g raw = false := fun g hg =>
    isDirective_other hd (by rintro rfl; rw [hper] at hg; cases hg)
  refine ⟨fun t => ?_, fun n => ?_, fun a => ?_, fun t => ?_⟩
  · rw [lineTimeout, hglobal .timeout rfl, if_neg (by decide)]
  · rw [lineDefault, hglobal .default rfl, if_neg (by decide)]
  · rw [lineAutodetect, hglobal .autodetect rfl, if_neg (by decide)]
  · rw [lineDefaultTitle, hglobal .default rfl, if_neg fun h => by cases h.1]

/-- A timeout line leaves everything else alone. -/
theorem line_timeout {raw : Str} (hd : isDirective .timeout raw = true) :
    (∀ n, lineDefault n raw = n) ∧ (∀ es, lineEntries tryFrom es raw = es) ∧ (∀ a, lineAutodetect a raw = a) ∧
      ∀ t, lineDefaultTitle t raw = t := by
  have hother : ∀ d : Directive, d ≠ .timeout → isDirective d raw = false := fun d => isDirective_other hd
  refine ⟨fun n => ?_, fun es => ?_, fun a => ?_, fun t => ?_⟩
  · rw [lineDefault, hother .default (by decide), if_neg (by decide)]
  · have hsame : ∀ entry, blockLine tryFrom entry raw = entry := fun entry =>
      applyToEntry_global (isDirective_iff.1 hd) rfl entry
    rw [lineEntries, Sections.enter, hother .entry (by decide), if_neg (by decide), modifyLast_same hsame]
  · rw [lineAutodetect, hother .autodetect (by decide), if_neg (by decide)]
  · rw [lineDefaultTitle, hother .default (by decide), if_neg fun h => by cases h.1]

/-! ## Leaving the line out -/

theorem overwrites_timeout_iff {front rest : List Str} {raw : Str} (hd : isDirective .timeout raw = true) :
    Overwrites tryFrom front raw rest ↔
      timeoutSetting front ≠ 5 ∧ ∀ later ∈ rest, isDirective .timeout later = false := by
  constructor
  · rintro (⟨-, hset, hlast⟩ | ⟨d, hd', hcomp, -, -, -, -, -, -, -, -, -⟩)
    · exact ⟨hset, hlast⟩
    · cases isDirective_unique hd' hd
      cases hcomp
  · rintro ⟨hset, hlast⟩
    exact .timeout hd hset hlast

/-- An unusable timeout line shows when an earlier line set the timeout and no later one does. -/
theorem foldl_lineTimeout_iff {front rest : List Str} {raw : Str} (hd : isDirective .timeout raw = true)
    (h : parseUnsigned (directiveLine raw).2 = none) :
    rest.foldl lineTimeout (front.foldl lineTimeout 5) =
        rest.foldl lineTimeout (lineTimeout (front.foldl lineTimeout 5) raw) ↔
      ¬ (timeoutSetting front ≠ 5 ∧ ∀ later ∈ rest, isDirective .timeout later = false) := by
  have hfive : lineTimeout (front.foldl lineTimeout 5) raw = 5 := by
    rw [lineTimeout, if_pos hd, timeoutOf, h]
    rfl
  have hfront : front.foldl lineTimeout 5 = timeoutSetting front := foldl_lineTimeout front 5
  rw [hfive, hfront, foldl_lineTimeout, foldl_lineTimeout]
  by_cases hlast : ∀ later ∈ rest, isDirective .timeout later = false
  · have hnone : rest.filter (isDirective .timeout) = [] :=
      List.filter_eq_nil_iff.2 fun later hlater => by rw [hlast later hlater]; decide
    rw [hnone, and_iff_left hlast]
    simp
  · have hsome : rest.filter (isDirective .timeout) ≠ [] := fun hnil =>
      hlast fun later hlater => Bool.eq_false_iff.2 (List.filter_eq_nil_iff.1 hnil later hlater)
    obtain ⟨last, hlast'⟩ := Option.ne_none_iff_exists'.1 (fun h => hsome (List.getLast?_eq_none_iff.1 h))
    rw [hlast']
    simp [hlast]

/-- A companion path is overwritten when the block's entry has one, is kept, and nothing comes behind. -/
theorem overwrites_companion_iff {d : Directive} {raw heading : Str} {front before rest : List Str}
    (hd : isDirective d raw = true) (hcomp : d = .modules ∨ d = .initrd)
    (hblock : (blocks front).getLast? = some (heading, before)) :
    Overwrites tryFrom front raw rest ↔
      ((blockEntry tryFrom (heading, before)).target.hasCompanion d = true ∧
          (blockEntry tryFrom (heading, before)).filled = true) ∧
        ∀ later ∈ ownLines rest, targetLine tryFrom later = none ∧ isDirective d later = false := by
  obtain ⟨hkind, hfilled⟩ := @blockEntry_kind tryFrom heading before d
  rw [blockEntry_hasCompanion hcomp, hkind, hfilled, Bool.and_eq_true]
  constructor
  · rintro (⟨hd', -, -⟩ | ⟨d', hd', -, heading', before', hblock', t, htarget, happlies, hkept, hset, hlast⟩)
    · cases isDirective_unique hd' hd
      rcases hcomp with h | h <;> cases h
    · cases isDirective_unique hd' hd
      cases Option.some.inj (hblock'.symm.trans hblock)
      rw [htarget]
      exact ⟨⟨⟨happlies, hset⟩, hkept⟩, hlast⟩
  · rintro ⟨⟨⟨happlies, hset⟩, hkept⟩, hlast⟩
    rcases htarget : lastTarget tryFrom before with _ | t <;> rw [htarget] at happlies hkept
    · cases hkept
    · exact .companion d hd (by rcases hcomp with rfl | rfl <;> rfl) heading before hblock t htarget happlies hkept
        hset hlast

/-- An unusable path shows in its entry when an earlier line of the block set it and no later one
replaces it, and the entry is kept. -/
theorem foldl_blockLine_iff {d : Directive} {raw heading : Str} {front before rest : List Str}
    (hd : isDirective d raw = true) (hcomp : d = .modules ∨ d = .initrd) (h : tryFrom (directiveLine raw).2 = none)
    (hblock : (blocks front).getLast? = some (heading, before)) :
    ((ownLines rest).foldl (blockLine tryFrom) (blockEntry tryFrom (heading, before)) =
          (ownLines rest).foldl (blockLine tryFrom) (blockLine tryFrom (blockEntry tryFrom (heading, before)) raw) ∨
        ((ownLines rest).foldl (blockLine tryFrom)
          (blockLine tryFrom (blockEntry tryFrom (heading, before)) raw)).filled = false) ↔
      ¬ Overwrites tryFrom front raw rest := by
  have hcompanion : d.companion = true := by rcases hcomp with rfl | rfl <;> rfl
  rw [overwrites_companion_iff hd hcomp hblock]
  by_cases hsays : ∃ later ∈ ownLines rest, targetLine tryFrom later ≠ none ∨ isDirective d later = true
  · refine iff_of_true (.inl (foldl_overridden hd hcompanion _ hsays _).symm) ?_
    rintro ⟨-, hlast⟩
    obtain ⟨later, hlater, hsays⟩ := hsays
    obtain ⟨htarget, hother⟩ := hlast later hlater
    rcases hsays with hsays | hsays
    · exact hsays htarget
    · rw [hother] at hsays
      cases hsays
  · have hlast : ∀ later ∈ ownLines rest, targetLine tryFrom later = none ∧ isDirective d later = false := by
      intro later hlater
      have hno : ¬ (targetLine tryFrom later ≠ none ∨ isDirective d later = true) := fun hs => hsays ⟨later, hlater, hs⟩
      rw [not_or, not_not] at hno
      exact ⟨hno.1, Bool.eq_false_iff.2 hno.2⟩
    have hsame := foldl_leaves (fun entry => entry.target.hasCompanion d)
      (fun d' hne arg entry => hasCompanion_companion hne arg entry.target) _ hlast (blockEntry tryFrom (heading, before))
    have hkept := foldl_leaves Entry.filled (fun d' _ arg entry => filled_companion d' arg entry) _ hlast
      (blockEntry tryFrom (heading, before))
    rw [foldl_kept hd hcompanion _ hlast, and_iff_left hlast, ← hsame, ← hkept, eq_comm,
      blockLine_unusable hd hcomp h, filled_blockLine (targetLine_of_companion hd hcompanion)]
    simp only [not_and_or, Bool.not_eq_true]

/-- A target line with a path that cannot be used changes nothing. -/
theorem blockLine_noPath {d : Directive} {raw : Str} (hd : isDirective d raw = true)
    (htarget : d ∈ [.multiboot, .chainload, .linux]) (h : tryFrom (directiveLine raw).2 = none) (entry : Entry) :
    blockLine tryFrom entry raw = entry := by
  refine blockLine_same ?_ (fun d' hd' => isDirective_other hd ?_) entry
  · unfold targetLine
    rw [isDirective_iff.1 hd, h]
    cases d <;> rfl
  · rintro rfl
    cases d' <;> first | cases hd'; done | simp at htarget

/-- A companion line makes no difference to whether its entry is kept. -/
theorem foldl_blockLine_kept {d : Directive} {raw : Str} (hd : isDirective d raw = true) (hcomp : d.companion = true)
    (after : List Str) (entry : Entry) : (after.foldl (blockLine tryFrom) entry).filled =
      (after.foldl (blockLine tryFrom) (blockLine tryFrom entry raw)).filled := by
  rw [Bool.eq_iff_iff, foldl_blockLine_filled, foldl_blockLine_filled,
    filled_blockLine (targetLine_of_companion hd hcomp)]

theorem not_overwrites {d : Directive} {front rest : List Str} {raw : Str} (hd : isDirective d raw = true)
    (htimeout : d ≠ .timeout) (hcomp : d.companion = false ∨ blocks front = []) : ¬ Overwrites tryFrom front raw rest := by
  rintro (⟨hd', -, -⟩ | ⟨d', hd', hcomp', heading, before, hblock, -, -, -, -, -, -⟩)
  · exact htimeout (isDirective_unique hd hd')
  · cases isDirective_unique hd hd'
    rcases hcomp with hcomp | hnil
    · rw [hcomp] at hcomp'
      cases hcomp'
    · rw [hnil] at hblock
      cases hblock

/-- The entries of a text without an unusable path line, and with it. -/
theorem finish_lineEntries_iff {d : Directive} {front rest : List Str} {raw : Str} (s : ParseState)
    (hd : isDirective d raw = true) (hpath : d ∈ [.multiboot, .chainload, .linux, .modules, .initrd])
    (h : tryFrom (directiveLine raw).2 = none) :
    ({ s with entries := rest.foldl (lineEntries tryFrom) (front.foldl (lineEntries tryFrom) []) } : ParseState).finish =
        ({ s with
          entries := (rest.foldl (lineEntries tryFrom)
            (lineEntries tryFrom (front.foldl (lineEntries tryFrom) []) raw)) } : ParseState).finish ↔
      ¬ Overwrites tryFrom front raw rest := by
  have hentry : isDirective .entry raw = false := isDirective_other hd (by rintro rfl; simp at hpath)
  have htimeout : d ≠ .timeout := by rintro rfl; simp at hpath
  rcases @lineEntries_foldl tryFrom front raw hentry rest with
    ⟨hnil, hsame⟩ | ⟨heading, before, es, es', hblock, hline, hnone⟩
  · rw [hsame]
    exact iff_of_true rfl (not_overwrites hd htimeout (.inr hnil))
  · rw [finish_entries_eq_iff, hline, hnone]
    by_cases htarget : d ∈ [.multiboot, .chainload, .linux]
    · rw [blockLine_noPath hd htarget h]
      refine iff_of_true rfl (not_overwrites hd htimeout (.inl ?_))
      cases d <;> first | rfl | simp at htarget
    · have hcomp : d = .modules ∨ d = .initrd := by cases d <;> simp_all
      have hcompanion : d.companion = true := by rcases hcomp with rfl | rfl <;> rfl
      rw [filter_mid_eq_iff (foldl_blockLine_kept hd hcompanion _ _)]
      exact foldl_blockLine_iff hd hcomp h hblock

/-- A text is parsed as if an unusable line were not there, except when the line overwrites something. -/
theorem parse_deleteLine_iff {text : Str} {i : Nat} {raw : Str} (hraw : (strLines text)[i]? = some raw)
    (h : Unusable tryFrom raw) :
    parse tryFrom (deleteLine text i) = parse tryFrom text ↔
      ¬ Overwrites tryFrom ((strLines text).take i) raw ((strLines text).drop (i + 1)) := by
  obtain ⟨hi, rfl⟩ := List.getElem?_eq_some_iff.1 hraw
  have hwith : strLines text = (strLines text).take i ++ (strLines text)[i] :: (strLines text).drop (i + 1) := by
    rw [← List.drop_eq_getElem_cons hi, List.take_append_drop]
  have hwithout : strLines (deleteLine text i) = (strLines text).take i ++ (strLines text).drop (i + 1) := by
    rw [strLines_deleteLine, List.eraseIdx_eq_take_drop_succ]
  rw [parse_fields, parse_fields text, hwithout]
  generalize hfront : (strLines text).take i = front at *
  generalize hrest : (strLines text).drop (i + 1) = rest at *
  generalize (strLines text)[i] = raw at *
  rw [hwith]
  simp only [List.foldl_append, List.foldl_cons]
  rcases h with ⟨hd, hnumber⟩ | ⟨d, hd, hpath, hconvert⟩
  · obtain ⟨h1, h2, h3, h4⟩ := @line_timeout tryFrom raw hd
    rw [h1, h2, h3, h4, overwrites_timeout_iff hd, ← foldl_lineTimeout_iff hd hnumber]
    constructor
    · exact congrArg Config.timeout
    · intro ht
      rw [ht]
  · have hper : d.perEntry = true := by cases d <;> first | rfl | simp at hpath
    obtain ⟨h1, h2, h3, h4⟩ := line_perEntry hd hper
    rw [h1, h2, h3, h4]
    exact finish_lineEntries_iff
      ⟨⟨rest.foldl lineTimeout (front.foldl lineTimeout 5), rest.foldl lineDefault (front.foldl lineDefault 0), [],
        rest.foldl lineAutodetect (front.foldl lineAutodetect true)⟩,
        rest.foldl lineDefaultTitle (front.foldl lineDefaultTitle none)⟩ hd hpath hconvert

end

end Bang
