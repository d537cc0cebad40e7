/-
Parsing a configuration that was written down gives it back: a line is read as its directive and
argument whatever stands around them, the directives of an entry make that entry, and the default
is found among the entries.
-/
import Bang.Config.Skip
import Bang.Config.Written

namespace Bang

/-! ## Reading a line -/

theorem directiveOf_name (d : Directive) : directiveOf d.name.toList = some d := by cases d <;> decide

theorem name_no_blank (d : Directive) : ∀ c ∈ d.name.toList, isWhitespace c = false ∧ c ≠ '#' ∧ c ≠ '\n' := by
  have hall : d.name.toList.all (fun c => !isWhitespace c && (c != '#' && c != '\n')) = true := by cases d <;> decide
  intro c hc
  simpa using List.all_eq_true.1 hall c hc

theorem name_ne_nil (d : Directive) : d.name.toList ≠ [] := by cases d <;> decide

theorem Blanks.noHash {s : Str} (h : Blanks s) : ∀ c ∈ s, (c ≠ '#') := by
  rintro c hc rfl
  exact absurd (h _ hc).1 (by decide)

/-- What stands in front of a comment. -/
theorem beforeHash_comment {s comment : Str} (hs : ∀ c ∈ s, c ≠ '#') (hcomment : Comment comment) :
    beforeHash (s ++ comment) = s := by
  unfold beforeHash
  rw [List.takeWhile_append_of_pos fun c hc => by simpa using hs c hc]
  rcases hcomment.2 with rfl | hhead
  · simp
  · obtain ⟨cs, rfl⟩ := List.head?_eq_some_iff.1 hhead
    simp

/-- A line without a directive is empty once it is trimmed. -/
theorem EmptyText.content {raw : Str} (h : EmptyText raw) : strTrim (beforeHash raw) = [] := by
  obtain ⟨hblanks, hcomment⟩ := h
  rw [beforeHash_comment hblanks.noHash hcomment]
  exact Trim.trim_blanks fun c hc => (hblanks c hc).1

theorem EmptyText.noBreak {raw : Str} (h : EmptyText raw) : '\n' ∉ raw := by
  obtain ⟨hblanks, hcomment⟩ := h
  rw [List.mem_append]
  rintro (h | h)
  · exact (hblanks _ h).2 rfl
  · exact hcomment.1 h

/-- A line with a directive is read as the directive and its argument. -/
theorem DirectiveText.content {d : Directive} {arg raw : Str} (h : DirectiveText d arg raw) (harg : Plain arg) :
    strTrim (beforeHash raw) ≠ [] ∧ split (strTrim (beforeHash raw)) = (d.name.toList, arg) := by
  obtain ⟨hindent, hgap, hne, htrail, hcomment⟩ := h
  rename_i indent gap trail comment
  have hname : ∀ c ∈ d.name.toList, isWhitespace c = false := fun c hc => (name_no_blank d c hc).1
  have hgap' : ∀ c ∈ gap, isWhitespace c = true := fun c hc => (hgap c hc).1
  have hhash : ∀ c ∈ indent ++ (d.name.toList ++ (gap ++ arg)) ++ trail, c ≠ '#' := by
    intro c hc
    simp only [List.mem_append] at hc
    rcases hc with (hc | hc | hc | hc) | hc
    · exact hindent.noHash c hc
    · exact (name_no_blank d c hc).2.1
    · exact hgap.noHash c hc
    · rintro rfl; exact harg.noHash hc
    · exact htrail.noHash c hc
  have hpad : strTrim (beforeHash (indent ++ (d.name.toList ++ (gap ++ arg)) ++ trail ++ comment)) =
      strTrim (d.name.toList ++ (gap ++ arg)) := by
    rw [beforeHash_comment hhash hcomment, List.append_assoc]
    exact Trim.trim_pad _ (fun c hc => (hindent c hc).1) fun c hc => (htrail c hc).1
  rw [hpad]
  by_cases harg0 : arg = []
  · -- nothing behind the directive but blanks
    have hword : strTrim (d.name.toList ++ (gap ++ arg)) = d.name.toList := by
      rw [harg0, List.append_nil]
      have hend : strTrim ([] ++ (d.name.toList ++ gap)) = strTrim d.name.toList :=
        Trim.trim_pad _ (fun c hc => by cases hc) hgap'
      rw [List.nil_append] at hend
      exact hend.trans (Trim.trimmed_of_no_blank hname).trim_eq
    have hname' : strTrim d.name.toList = d.name.toList := (Trim.trimmed_of_no_blank hname).trim_eq
    rw [hword, split, hname', Trim.word_alone hname, harg0]
    exact ⟨name_ne_nil d, rfl⟩
  · have hword : strTrim (d.name.toList ++ (gap ++ arg)) = d.name.toList ++ (gap ++ arg) :=
      (Trim.trimmed_word (name_ne_nil d) hname harg.trimmed harg0).trim_eq
    rw [hword, split, hword]
    refine ⟨fun h => name_ne_nil d (List.append_eq_nil_iff.1 h).1, ?_⟩
    exact Trim.word_gap hname hgap' (hne harg0) harg.trimmed

theorem DirectiveText.noBreak {d : Directive} {arg raw : Str} (h : DirectiveText d arg raw) (harg : Plain arg) :
    '\n' ∉ raw := by
  obtain ⟨hindent, hgap, hne, htrail, hcomment⟩ := h
  simp only [List.mem_append]
  rintro (((h | h | h | h) | h) | h)
  · exact (hindent _ h).2 rfl
  · exact (name_no_blank d _ h).2.2 rfl
  · exact (hgap _ h).2 rfl
  · exact harg.noBreak h
  · exact (htrail _ h).2 rfl
  · exact hcomment.1 h

/-! ## Reading the lines -/

section
variable (tryFrom : Str → Option CString16)

/-- Directives, one after another. -/
def applyDirectives (s : ParseState) (ds : List (Directive × Str)) : ParseState :=
  ds.foldl (fun s d => (applyDirective tryFrom d.1.name.toList d.2 s).1) s

theorem applyDirectives_append (s : ParseState) (ds es : List (Directive × Str)) :
    applyDirectives tryFrom s (ds ++ es) = applyDirectives tryFrom (applyDirectives tryFrom s ds) es :=
  List.foldl_append

variable {tryFrom}

/-- A line is applied by what is on it. -/
theorem applyLine_congr {raw raw' : Str} (h : strTrim (beforeHash raw) = strTrim (beforeHash raw')) (s : ParseState) :
    applyLine tryFrom s raw = applyLine tryFrom s raw' := by
  unfold applyLine
  rw [h]

/-- Lines joined by line breaks are applied one after another. -/
theorem applyLines_intercalate (raws : List Str) (h : ∀ raw ∈ raws, '\n' ∉ raw) : ∀ s,
    applyLines tryFrom s (strLines (['\n'].intercalate raws)) = applyLines tryFrom s raws := by
  induction raws with
  | nil => intro s; rfl
  | cons raw raws ih =>
    intro s
    have hraw := h raw (List.mem_cons_self ..)
    cases raws with
    | nil =>
      rw [List.intercalate_singleton]
      by_cases hempty : raw = []
      · subst hempty; rfl
      · have hchomp : chomp raw = raw := by
          rw [chomp, stripSuffix, if_neg fun hlast => hraw (List.mem_of_getLast? hlast)]
        rw [strLines, Pieces.pieces_of_not_mem hempty hraw, List.map_singleton, hchomp]
    | cons raw' raws =>
      rw [List.intercalate_cons_cons, List.append_assoc, List.singleton_append, strLines,
        Pieces.pieces_append_cons hraw, List.map_cons]
      show applyLines tryFrom (applyLine tryFrom s (chomp (raw ++ ['\n']))).1 _ = _
      rw [applyLine_congr (strTrim_beforeHash_chomp raw)]
      exact ih (fun r hr => h r (List.mem_cons_of_mem _ hr)) _

/-- Lines with directives on them apply these. -/
theorem LinesText.applyLines {ds : List (Directive × Str)} {raws : List Str} (h : LinesText ds raws)
    (hplain : ∀ d ∈ ds, Plain d.2) :
    (∀ raw ∈ raws, '\n' ∉ raw) ∧ ∀ s, Bang.applyLines tryFrom s raws = applyDirectives tryFrom s ds := by
  induction h with
  | nil => exact ⟨fun raw hraw => (by cases hraw), fun s => rfl⟩
  | @empty ds raw raws hempty _ ih =>
    obtain ⟨hbreak, happly⟩ := ih hplain
    refine ⟨fun r hr => ?_, fun s => ?_⟩
    · rcases List.mem_cons.1 hr with rfl | hr
      · exact hempty.noBreak
      · exact hbreak r hr
    · show Bang.applyLines tryFrom (applyLine tryFrom s raw).1 raws = _
      rw [applyLine, hempty.content]
      exact happly s
  | @directive d arg ds raw raws hline _ ih =>
    have harg : Plain arg := hplain (d, arg) (List.mem_cons_self ..)
    obtain ⟨hbreak, happly⟩ := ih fun e he => hplain e (List.mem_cons_of_mem _ he)
    obtain ⟨hne, hsplit⟩ := hline.content harg
    refine ⟨fun r hr => ?_, fun s => ?_⟩
    · rcases List.mem_cons.1 hr with rfl | hr
      · exact hline.noBreak harg
      · exact hbreak r hr
    · show Bang.applyLines tryFrom (applyLine tryFrom s raw).1 raws = _
      rw [applyLine]
      simp only [if_neg hne, hsplit]
      exact happly _

/-! ## Reading the entries -/

theorem applyToLast_concat {directive arg : Str} {s : ParseState} {entries : List Entry} {entry : Entry}
    (h : s.entries = entries ++ [entry]) : (applyToLast tryFrom directive arg s).1 =
      { s with entries := entries ++ [(applyToEntry tryFrom directive arg entry).1] } := by
  unfold applyToLast
  rw [h, List.getLast?_concat, List.dropLast_concat]

theorem PathText.path_eq {p : CString16} {s : Str} (h : PathText tryFrom p s) : path tryFrom s = (some p, none) := by
  rw [path, h.converts]

/-- What the directives of an entry do to it. -/
def applyEntryLines (tryFrom : Str → Option CString16) (entry : Entry) (ds : List (Directive × Str)) : Entry :=
  ds.foldl (fun e d => (applyToEntry tryFrom d.1.name.toList d.2 e).1) entry

/-- Directives that belong into an entry go to the last one. -/
theorem applyDirectives_concat (ds : List (Directive × Str)) (hds : ∀ d ∈ ds, d.1.perEntry = true) :
    ∀ (s : ParseState) (entries : List Entry) (entry : Entry), s.entries = entries ++ [entry] →
      applyDirectives tryFrom s ds = { s with entries := entries ++ [applyEntryLines tryFrom entry ds] } := by
  induction ds with
  | nil =>
    intro s entries entry h
    show s = _
    rw [show applyEntryLines tryFrom entry [] = entry from rfl, ← h]
  | cons d ds ih =>
    intro s entries entry h
    show applyDirectives tryFrom (applyDirective tryFrom d.1.name.toList d.2 s).1 ds = _
    rw [applyDirective_of_perEntry (directiveOf_name d.1) (hds d (List.mem_cons_self ..)), applyToLast_concat h,
      ih (fun e he => hds e (List.mem_cons_of_mem _ he)) _ entries _ rfl]
    rfl

/-- The directives of a target belong into an entry, make it the target, and have plain arguments. -/
theorem TargetLines.spec {target : Target} {ds : List (Directive × Str)} (h : TargetLines tryFrom target ds)
    (title : Str) : (∀ d ∈ ds, d.1.perEntry = true ∧ Plain d.2) ∧
      applyEntryLines tryFrom ⟨title, .multiboot [] none⟩ ds = ⟨title, target⟩ := by
  cases h with
  | multiboot hk hm =>
    cases hm with
    | absent hnone =>
      cases hnone
      refine ⟨by simp [Directive.perEntry, hk.plain], ?_⟩
      simp [applyEntryLines, applyToEntry, directiveOf_name, hk.path_eq]
    | line hd =>
      obtain ⟨dir, rfl, hd⟩ := hd
      refine ⟨by simp [Directive.perEntry, hk.plain, hd.plain], ?_⟩
      simp [applyEntryLines, applyToEntry, directiveOf_name, hk.path_eq, hd.path_eq]
  | chainload hs =>
    refine ⟨by simp [Directive.perEntry, hs.plain], ?_⟩
    simp [applyEntryLines, applyToEntry, directiveOf_name, hs.path_eq]
  | @linux kernel initrd k options is os ds hk hi ho hds =>
    -- the companions set different fields, and each may be left out
    cases hi with
    | absent hnone =>
      cases hnone
      cases ho with
      | absent hempty =>
        cases hempty
        obtain rfl : ds = [] := hds.elim id id
        refine ⟨by simp [Directive.perEntry, hk.plain], ?_⟩
        simp [applyEntryLines, applyToEntry, directiveOf_name, hk.path_eq]
      | line ho =>
        obtain ⟨rfl, ho⟩ := ho
        obtain rfl : ds = [(.options, _)] := hds.elim id id
        refine ⟨by simp [Directive.perEntry, hk.plain, ho], ?_⟩
        simp [applyEntryLines, applyToEntry, directiveOf_name, hk.path_eq]
    | line hi =>
      obtain ⟨path, rfl, hi⟩ := hi
      cases ho with
      | absent hempty =>
        cases hempty
        obtain rfl : ds = [(.initrd, _)] := hds.elim id id
        refine ⟨by simp [Directive.perEntry, hk.plain, hi.plain], ?_⟩
        simp [applyEntryLines, applyToEntry, directiveOf_name, hk.path_eq, hi.path_eq]
      | line ho =>
        obtain ⟨rfl, ho⟩ := ho
        rcases hds with rfl | rfl
        · refine ⟨by simp [Directive.perEntry, hk.plain, hi.plain, ho], ?_⟩
          simp [applyEntryLines, applyToEntry, directiveOf_name, hk.path_eq, hi.path_eq]
        · refine ⟨by simp [Directive.perEntry, hk.plain, hi.plain, ho], ?_⟩
          simp [applyEntryLines, applyToEntry, directiveOf_name, hk.path_eq, hi.path_eq]

/-- An entry that was written down has something to boot. -/
theorem TargetLines.filled {target : Target} {ds : List (Directive × Str)} (h : TargetLines tryFrom target ds)
    (title : Str) : (⟨title, target⟩ : Entry).filled = true := by
  cases h with
  | multiboot hk => exact decide_eq_true hk.nonempty
  | chainload | linux => rfl

/-- The directives of entries add them, in order. -/
theorem EntryLines.apply {entries : List Entry} {ds : List (Directive × Str)} (h : EntryLines tryFrom entries ds) :
    (∀ d ∈ ds, Plain d.2) ∧ (∀ e ∈ entries, e.filled = true) ∧
      ∀ s, applyDirectives tryFrom s ds = { s with entries := s.entries ++ entries } := by
  induction h with
  | nil =>
    refine ⟨fun d hd => (by cases hd), fun e he => (by cases he), fun s => ?_⟩
    rw [List.append_nil]
    rfl
  | @cons title target entries ds rest ht hds _ ih =>
    obtain ⟨hplain, hfilled, happly⟩ := ih
    obtain ⟨hdir, hentry⟩ := hds.spec title
    refine ⟨fun d hd => ?_, fun e he => ?_, fun s => ?_⟩
    · rcases List.mem_append.1 hd with hd | hd
      · rcases List.mem_cons.1 hd with rfl | hd
        · exact ht
        · exact (hdir d hd).2
      · exact hplain d hd
    · rcases List.mem_cons.1 he with rfl | he
      · exact hds.filled title
      · exact hfilled e he
    · -- the entry line, the target's directives, and the other entries
      have hline : (applyDirective tryFrom Directive.entry.name.toList title s).1 =
          { s with entries := s.entries ++ [⟨title, .multiboot [] none⟩] } := rfl
      rw [applyDirectives_append]
      show applyDirectives tryFrom (applyDirectives tryFrom
        (applyDirective tryFrom Directive.entry.name.toList title s).1 ds) rest = _
      rw [hline, applyDirectives_concat ds (fun d hd => (hdir d hd).1) _ s.entries _ rfl, hentry, happly]
      simp

/-! ## Reading the global directives -/

theorem AutodetectText.read {b : Bool} {s : Str} (h : AutodetectText b s) : (!autodetectOff s) = b := by
  cases b with
  | false => rw [autodetectOff, decide_eq_true (h.off.1 rfl)]; rfl
  | true => rw [autodetectOff, decide_eq_false fun hoff => Bool.noConfusion (h.off.2 hoff)]; rfl

theorem Numeral.read {x : UInt64} {s : Str} (h : Numeral x.toNat s) :
    ((parseUnsigned s).map UInt64.ofNat).getD 5 = x := by
  rw [h.parse x.toNat_lt, Option.map_some, Option.getD_some, UInt64.ofNat_toNat]

theorem Numeral.plain {n : Nat} {s : Str} (h : Numeral n s) : Plain s := by
  have hc : ∀ c ∈ s, isWhitespace c = false ∧ c ≠ '#' ∧ c ≠ '\n' := fun c hc => isDigit_not_blank (h.digits c hc)
  exact ⟨Trim.trimmed_of_no_blank fun c h => (hc c h).1, fun h => (hc _ h).2.1 rfl, fun h => (hc _ h).2.2 rfl⟩

/-- The default that was written down is found among the entries. -/
theorem DefaultText.read {entries : List Entry} {n : Nat} {s : Str} (h : DefaultText entries n s) :
    n < entries.length ∧
      resolveDefault (if (parseUnsigned s).isNone then some s else none) entries ((parseUnsigned s).getD 0) = n := by
  cases h with
  | position hs hn hsize =>
    refine ⟨hn, ?_⟩
    rw [hs.parse hsize]
    rfl
  | title hs hnumber hfirst =>
    refine ⟨(List.findIdx?_eq_some_iff_getElem.1 hfirst).1, ?_⟩
    rw [hnumber]
    simp [resolveDefault, hfirst]

theorem SettingLine.mem {d : Directive} {means : Str → Prop} {unsaid : Prop} {ds : List (Directive × Str)}
    (h : SettingLine d means unsaid ds) {x : Directive × Str} (hx : x ∈ ds) : ∃ s, means s ∧ x = (d, s) := by
  cases h with
  | line h => exact ⟨_, h, List.mem_singleton.1 hx⟩
  | absent => cases hx

theorem SettingLine.eq {d : Directive} {means : Str → Prop} {unsaid : Prop} {ds : List (Directive × Str)}
    (h : SettingLine d means unsaid ds) {x y : Directive × Str} (hx : x ∈ ds) (hy : y ∈ ds) : x = y := by
  cases h with
  | line h => exact (List.mem_singleton.1 hx).trans (List.mem_singleton.1 hy).symm
  | absent => cases hx

theorem DefaultText.plain {entries : List Entry} {n : Nat} {s : Str} (h : DefaultText entries n s) : Plain s := by
  cases h with
  | position hs => exact hs.plain
  | title hs => exact hs

theorem GlobalLines.plain {cfg : Config} {globals : List (Directive × Str)} (h : GlobalLines cfg globals) :
    ∀ d ∈ globals, Plain d.2 := by
  obtain ⟨timeouts, autodetects, defaults, ht, ha, hd, hperm⟩ := h
  intro x hx
  rcases List.mem_append.1 (hperm.mem_iff.1 hx) with hx | hx
  · rcases List.mem_append.1 hx with hx | hx
    · obtain ⟨s, hs, rfl⟩ := ht.mem hx
      exact hs.plain
    · obtain ⟨s, hs, rfl⟩ := ha.mem hx
      exact hs.plain
  · obtain ⟨s, hs, rfl⟩ := hd.mem hx
    exact hs.plain

/-- The global directives, in any order, set the timeout and autodetection, and a default that is found among the
entries. -/
theorem GlobalLines.apply {cfg : Config} {globals : List (Directive × Str)} (h : GlobalLines cfg globals) :
    ∃ default title, applyDirectives tryFrom .start globals = ⟨⟨cfg.timeout, default, [], cfg.autodetect⟩, title⟩ ∧
      resolveDefault title cfg.entries default = cfg.default ∧
      (cfg.default < cfg.entries.length ∨ cfg.default = 0) := by
  obtain ⟨timeouts, autodetects, defaults, ht, ha, hd, hperm⟩ := h
  have htimeout : ∀ {arg} s, Numeral cfg.timeout.toNat arg →
      applyDirective tryFrom Directive.timeout.name.toList arg s = ({ s with timeout := cfg.timeout }, none) := by
    intro arg s h
    rw [applyDirective, directiveOf_name]
    simp only [h.read]
  have hautodetect : ∀ {arg} s, AutodetectText cfg.autodetect arg →
      applyDirective tryFrom Directive.autodetect.name.toList arg s = ({ s with autodetect := cfg.autodetect }, none) := by
    intro arg s h
    rw [applyDirective, directiveOf_name]
    simp only [h.read]
  have hdefault : ∀ arg s, applyDirective tryFrom Directive.default.name.toList arg s =
      ((parseUnsigned arg).elim { s with defaultTitle := some arg } fun n => { s with default := n }, none) := by
    intro arg s
    rw [applyDirective, directiveOf_name]
    cases parseUnsigned arg <;> rfl
  have hkinds : ∀ x ∈ globals, (∃ s, Numeral cfg.timeout.toNat s ∧ x = (.timeout, s)) ∨
      (∃ s, AutodetectText cfg.autodetect s ∧ x = (.autodetect, s)) ∨ x ∈ defaults ∧ ∃ s, x = (.default, s) := by
    intro x hx
    rcases List.mem_append.1 (hperm.mem_iff.1 hx) with hx | hx
    · rcases List.mem_append.1 hx with hx | hx
      · exact .inl (ht.mem hx)
      · exact .inr (.inl (ha.mem hx))
    · obtain ⟨s, -, hs⟩ := hd.mem hx
      exact .inr (.inr ⟨hx, s, hs⟩)
  have hsorted : applyDirectives tryFrom .start globals =
      applyDirectives tryFrom .start (timeouts ++ autodetects ++ defaults) := by
    refine hperm.foldl_eq' (fun x hx y hy s => ?_) _
    -- the directives set different fields
    rcases hkinds x hx with ⟨a, hxs, rfl⟩ | ⟨a, hxs, rfl⟩ | ⟨hxs, a, rfl⟩ <;>
      rcases hkinds y hy with ⟨b, hys, rfl⟩ | ⟨b, hys, rfl⟩ | ⟨hys, b, rfl⟩
    · simp only [htimeout _ hxs, htimeout _ hys]
    · simp only [htimeout _ hxs, hautodetect _ hys]
    · simp only [htimeout _ hxs, hdefault]
      cases parseUnsigned b <;> rfl
    · simp only [hautodetect _ hxs, htimeout _ hys]
    · simp only [hautodetect _ hxs, hautodetect _ hys]
    · simp only [hautodetect _ hxs, hdefault]
      cases parseUnsigned b <;> rfl
    · simp only [htimeout _ hys, hdefault]
      cases parseUnsigned a <;> rfl
    · simp only [hautodetect _ hys, hdefault]
      cases parseUnsigned a <;> rfl
    · rw [hd.eq hxs hys]
  have htimeouts : applyDirectives tryFrom .start timeouts = { ParseState.start with timeout := cfg.timeout } := by
    cases ht with
    | line h => exact congrArg Prod.fst (htimeout .start h)
    | absent h =>
      rw [h]
      rfl
  have hautodetects : ∀ s, s.autodetect = true →
      applyDirectives tryFrom s autodetects = { s with autodetect := cfg.autodetect } := by
    intro s hs
    cases ha with
    | line h => exact congrArg Prod.fst (hautodetect s h)
    | absent h =>
      rw [h, ← hs]
      rfl
  rw [hsorted, applyDirectives_append, applyDirectives_append, htimeouts, hautodetects _ rfl]
  cases hd with
  | absent h => exact ⟨0, none, rfl, h.symm, .inr h⟩
  | @line arg h =>
    obtain ⟨hlt, hread⟩ := h.read
    refine ⟨_, _, ?_, hread, .inl hlt⟩
    refine (congrArg Prod.fst (hdefault arg _)).trans ?_
    cases parseUnsigned arg <;> rfl

/-! ## The round trip -/

/-- Parsing a configuration that was written down gives exactly that configuration. -/
theorem parse_written {cfg : Config} {text : Str} (h : Written tryFrom cfg text) : parse tryFrom text = cfg := by
  obtain ⟨ds, raws, ⟨globals, rest, hglobals, hentries, rfl⟩, hlines, rfl⟩ := h
  obtain ⟨hplain, hfilled, happly⟩ := hentries.apply
  have hargs : ∀ d ∈ globals ++ rest, Plain d.2 := fun d hd =>
    (List.mem_append.1 hd).elim (hglobals.plain d) (hplain d)
  obtain ⟨hbreak, hrun⟩ := hlines.applyLines hargs
  obtain ⟨default, title, hstate, hdefault, hlt⟩ := hglobals.apply
  have hkept : cfg.entries.filter Entry.filled = cfg.entries := List.filter_eq_self.2 hfilled
  rw [parse, applyLines_intercalate raws hbreak, hrun, applyDirectives_append, hstate, happly]
  simp only [ParseState.finish, List.nil_append, hkept, hdefault]
  split
  · rename_i hge
    have hzero := hlt.resolve_left (Nat.not_lt.2 hge)
    rw [← hzero]
  · rfl

end

/-- The documented configuration, with comments: an entry of each kind, and autodetection left as it is. -/
theorem parse_documented : parse ucs2
    ("timeout 5\ndefault Quark # the first\n\nentry Quark\n    multiboot \\kernel.bin\n    modules   \\drivers\n\n" ++
      "# a shell\nentry UEFI Shell\n    chainload \\EFI\\tools\\Shell.efi\n\nentry Fedora\n    linux   \\vmlinuz\n" ++
      "    initrd  \\initrd.img\n    options root=/dev/sda2 ro\n").toList =
    ⟨5, 0, [⟨"Quark".toList, .multiboot (cstr16 "\\kernel.bin") (some (cstr16 "\\drivers"))⟩,
      ⟨"UEFI Shell".toList, .chainload (cstr16 "\\EFI\\tools\\Shell.efi") none⟩,
      ⟨"Fedora".toList, .linux (cstr16 "\\vmlinuz") (some (cstr16 "\\initrd.img")) "root=/dev/sda2 ro".toList⟩],
      true⟩ := by
  have hpath : ∀ s : String, Plain s.toList → ucs2 s.toList = some (cstr16 s) → cstr16 s ≠ [] →
      PathText ucs2 (cstr16 s) s.toList := fun _ h h' h'' => ⟨h, h', h''⟩
  have hquark : TargetLines ucs2 (.multiboot (cstr16 "\\kernel.bin") (some (cstr16 "\\drivers")))
      [(.multiboot, "\\kernel.bin".toList), (.modules, "\\drivers".toList)] :=
    .multiboot (hpath _ (by decide) (by decide +kernel) (by decide))
      (.line ⟨_, rfl, hpath _ (by decide) (by decide +kernel) (by decide)⟩)
  have hshell : TargetLines ucs2 (.chainload (cstr16 "\\EFI\\tools\\Shell.efi") none)
      [(.chainload, "\\EFI\\tools\\Shell.efi".toList)] :=
    .chainload (hpath _ (by decide) (by decide +kernel) (by decide))
  have hfedora : TargetLines ucs2
      (.linux (cstr16 "\\vmlinuz") (some (cstr16 "\\initrd.img")) "root=/dev/sda2 ro".toList)
      [(.linux, "\\vmlinuz".toList), (.initrd, "\\initrd.img".toList), (.options, "root=/dev/sda2 ro".toList)] :=
    .linux (hpath _ (by decide) (by decide +kernel) (by decide))
      (.line ⟨_, rfl, hpath _ (by decide) (by decide +kernel) (by decide)⟩) (.line ⟨rfl, by decide⟩) (.inl rfl)
  have hglobals : ∀ entries : List Entry, entries.findIdx? (fun e => e.title = "Quark".toList) = some 0 →
      GlobalLines ⟨5, 0, entries, true⟩ [(.timeout, "5".toList), (.default, "Quark".toList)] := fun entries h =>
    ⟨_, _, _, .line ⟨by decide, List.all_eq_true.1 (by decide), rfl⟩, .absent rfl,
      .line (.title (by decide) (by decide) h), .refl _⟩
  have hline : ∀ (d : Directive) (arg indent gap trail comment : Str),
      Blanks indent ∧ Blanks gap ∧ (arg ≠ [] → gap ≠ []) ∧ Blanks trail ∧ Comment comment →
        DirectiveText d arg (indent ++ (d.name.toList ++ (gap ++ arg)) ++ trail ++ comment) :=
    fun _ _ _ _ _ _ h => .intro h.1 h.2.1 h.2.2.1 h.2.2.2.1 h.2.2.2.2
  have hempty : ∀ comment : Str, Comment comment → EmptyText ([] ++ comment) := fun _ h => .intro (by decide) h
  refine parse_written ⟨_, ["timeout 5".toList, "default Quark # the first".toList, [], "entry Quark".toList,
      "    multiboot \\kernel.bin".toList, "    modules   \\drivers".toList, [], "# a shell".toList,
      "entry UEFI Shell".toList, "    chainload \\EFI\\tools\\Shell.efi".toList, [], "entry Fedora".toList,
      "    linux   \\vmlinuz".toList, "    initrd  \\initrd.img".toList,
      "    options root=/dev/sda2 ro".toList, []],
    ⟨_, _, hglobals _ (by decide),
      .cons (by decide) hquark (.cons (by decide) hshell (.cons (by decide) hfedora .nil)), rfl⟩, ?_, ?_⟩
  · refine .directive (hline _ _ [] [' '] [] [] (by decide)) ?_
    refine .directive (hline _ _ [] [' '] [' '] "# the first".toList (by decide)) ?_
    refine .empty (hempty [] (by decide)) ?_
    refine .directive (hline _ _ [] [' '] [] [] (by decide)) ?_
    refine .directive (hline _ _ "    ".toList [' '] [] [] (by decide)) ?_
    refine .directive (hline _ _ "    ".toList "   ".toList [] [] (by decide)) ?_
    refine .empty (hempty [] (by decide)) ?_
    refine .empty (hempty "# a shell".toList (by decide)) ?_
    refine .directive (hline _ _ [] [' '] [] [] (by decide)) ?_
    refine .directive (hline _ _ "    ".toList [' '] [] [] (by decide)) ?_
    refine .empty (hempty [] (by decide)) ?_
    refine .directive (hline _ _ [] [' '] [] [] (by decide)) ?_
    refine .directive (hline _ _ "    ".toList "   ".toList [] [] (by decide)) ?_
    refine .directive (hline _ _ "    ".toList "  ".toList [] [] (by decide)) ?_
    refine .directive (hline _ _ "    ".toList [' '] [] [] (by decide)) ?_
    exact .empty (hempty [] (by decide)) .nil
  · decide +kernel

end Bang
