/-
What the parser prints, and what becomes of a text for which it cannot. Whether a line is there or not makes no
difference to what is printed of the others, unless it gives an entry another kind of target; so that a line that is
skipped is skipped without effect exactly when what is said of it can be shown.
-/
import Bang.Config.Unusable

namespace Bang

section
variable (tryFrom : Str → Option CString16) {κ : Type} (con : Console κ)

/-! ## What is printed -/

/-- What is printed of some lines, behind those that made `s`. -/
def lineReports (s : ParseState) : List Str → List String
  | [] => []
  | raw :: lines => (applyLine tryFrom s raw).2.toList ++ lineReports (applyLine tryFrom s raw).1 lines

/-- What is printed of a text. -/
def reports (text : Str) : List String :=
  lineReports tryFrom .start (strLines text) ++ (applyLines tryFrom .start (strLines text)).report.toList

/-- All of it can be shown. -/
def Printable (text : Str) : Prop := ∀ report ∈ reports tryFrom text, con.Shows report.toList

instance (text : Str) : Decidable (Printable tryFrom con text) := inferInstanceAs (Decidable (∀ _ ∈ _, _))

variable {tryFrom con}

theorem report_isSome {report : Report} {k : κ} :
    (con.report report k).isSome ↔ ∀ text ∈ report.toList, con.Shows text.toList := by
  rcases report with _ | text
  · simp [Console.report]
  · rw [Console.report, Console.println_isSome]
    simp

/-- The lines come to what they do, unless something that is said of them cannot be shown. -/
theorem printLines_eq (lines : List Str) : ∀ (s : ParseState) (k : κ),
    (lines.foldlM (printLine tryFrom con) (s, k)).map Prod.fst =
      if ∀ report ∈ lineReports tryFrom s lines, con.Shows report.toList then some (applyLines tryFrom s lines)
      else none := by
  induction lines with
  | nil =>
    intro s k
    simp [lineReports, applyLines]
  | cons raw lines ih =>
    intro s k
    have hreport := @report_isSome κ con (applyLine tryFrom s raw).2 k
    rw [List.foldlM_cons, printLine, lineReports]
    simp only [List.forall_mem_append]
    rcases hprint : con.report (applyLine tryFrom s raw).2 k with _ | k' <;> rw [hprint] at hreport
    · rw [if_neg fun h => by simpa using hreport.2 h.1]
      rfl
    · simp only [and_iff_right (hreport.1 rfl)]
      exact ih (applyLine tryFrom s raw).1 k'

/-- A text is parsed if all that is said of it can be shown; otherwise the parser panics. -/
theorem parsePrinting_eq (text : Str) (k : κ) : (parsePrinting tryFrom con text k).map Prod.fst =
    if Printable tryFrom con text then some (parse tryFrom text) else none := by
  have hlines := @printLines_eq tryFrom κ con (strLines text) .start k
  unfold parsePrinting Printable reports
  simp only [List.forall_mem_append]
  rcases hrun : (strLines text).foldlM (printLine tryFrom con) (.start, k) with _ | ⟨s, k'⟩ <;> rw [hrun] at hlines
  · split at hlines
    · cases hlines
    · rename_i hnot
      rw [if_neg fun h => hnot h.1]
      rfl
  · split at hlines
    · rename_i hshown
      obtain rfl := Option.some.inj hlines
      have hreport := @report_isSome κ con (applyLines tryFrom .start (strLines text)).report k'
      simp only [and_iff_right hshown]
      show ((con.report _ k').bind fun k => some (_, k)).map Prod.fst = _
      rcases hprint : con.report (applyLines tryFrom .start (strLines text)).report k' with _ | k'' <;>
        rw [hprint] at hreport
      · rw [if_neg fun h => by simpa using hreport.2 h]
        rfl
      · rw [if_pos (hreport.1 rfl)]
        rfl
    · cases hlines

theorem parsePrinting_some {text : Str} {k k' : κ} {cfg : Config} (h : parsePrinting tryFrom con text k = some (cfg, k')) :
    cfg = parse tryFrom text ∧ Printable tryFrom con text := by
  have heq := @parsePrinting_eq tryFrom κ con text k
  rw [h] at heq
  split at heq
  · rename_i hprintable
    exact ⟨Option.some.inj heq, hprintable⟩
  · cases heq

/-- There is a configuration if all that is said of the file, if there is one, can be shown. -/
theorem configured_eq (file : Option Str) (k : κ) : (configured tryFrom con file k).map Prod.fst =
    if ∀ text ∈ file, Printable tryFrom con text then some ((file.map (parse tryFrom)).getD .builtin) else none := by
  rcases file with _ | text
  · simp [configured]
  · rw [configured, parsePrinting_eq]
    simp

theorem configured_some {file : Option Str} {k k' : κ} {cfg : Config}
    (h : configured tryFrom con file k = some (cfg, k')) : cfg = (file.map (parse tryFrom)).getD .builtin := by
  rcases file with _ | text
  · cases h
    rfl
  · exact (parsePrinting_some h).1

/-! ## States of which the same is said -/

/-- A target without what only its companions say. -/
def Target.outline : Target → Target
  | .multiboot kernel _ => .multiboot kernel none
  | .linux kernel _ _ => .linux kernel none []
  | .chainload path device => .chainload path device

def Entry.outline (e : Entry) : Entry := { e with target := e.target.outline }

/-- Two states with the same entries, up to their companions, and the same title for the default. -/
structure Alike (s s' : ParseState) : Prop where
  entries : s.entries.map Entry.outline = s'.entries.map Entry.outline
  title : s.defaultTitle = s'.defaultTitle

theorem Alike.refl (s : ParseState) : Alike s s := ⟨rfl, rfl⟩

theorem filled_outline (e : Entry) : e.outline.filled = e.filled := by
  obtain ⟨title, target⟩ := e
  cases target <;> rfl

theorem applyToEntry_outline {e e' : Entry} (h : e.outline = e'.outline) (directive arg : Str) :
    (applyToEntry tryFrom directive arg e).1.outline = (applyToEntry tryFrom directive arg e').1.outline ∧
      (applyToEntry tryFrom directive arg e).2 = (applyToEntry tryFrom directive arg e').2 := by
  obtain ⟨title, target⟩ := e
  obtain ⟨title', target'⟩ := e'
  obtain ⟨rfl, htarget⟩ := Entry.mk.inj h
  unfold applyToEntry path
  cases target <;> cases target' <;> cases htarget <;> rcases directiveOf directive with _ | d <;>
    first | exact ⟨rfl, rfl⟩ | (cases d <;> cases tryFrom arg <;> exact ⟨rfl, rfl⟩)

theorem applyToLast_alike {s s' : ParseState} (h : Alike s s') (directive arg : Str) :
    Alike (applyToLast tryFrom directive arg s).1 (applyToLast tryFrom directive arg s').1 ∧
      (applyToLast tryFrom directive arg s).2 = (applyToLast tryFrom directive arg s').2 := by
  have hlast := congrArg List.getLast? h.entries
  have hfront := congrArg List.dropLast h.entries
  rw [List.getLast?_map, List.getLast?_map] at hlast
  rw [← List.map_dropLast, ← List.map_dropLast] at hfront
  unfold applyToLast
  rcases he : s.entries.getLast? with _ | e <;> rcases he' : s'.entries.getLast? with _ | e' <;>
    rw [he, he'] at hlast
  · exact ⟨h, rfl⟩
  · cases hlast
  · cases hlast
  · obtain ⟨houtline, hreport⟩ := @applyToEntry_outline tryFrom e e' (Option.some.inj hlast) directive arg
    refine ⟨⟨?_, h.title⟩, hreport⟩
    simp only [List.map_append, List.map_singleton, hfront, houtline]

theorem Alike.applyLine {s s' : ParseState} (h : Alike s s') (raw : Str) :
    Alike (applyLine tryFrom s raw).1 (Bang.applyLine tryFrom s' raw).1 ∧
      (Bang.applyLine tryFrom s raw).2 = (Bang.applyLine tryFrom s' raw).2 := by
  unfold Bang.applyLine
  simp only
  split
  · exact ⟨h, rfl⟩
  · unfold applyDirective
    split
    · exact ⟨⟨h.entries, h.title⟩, rfl⟩
    · exact ⟨⟨h.entries, h.title⟩, rfl⟩
    · split
      · exact ⟨⟨h.entries, h.title⟩, rfl⟩
      · exact ⟨⟨h.entries, rfl⟩, rfl⟩
    · refine ⟨⟨?_, h.title⟩, rfl⟩
      simp only [List.map_append, h.entries]
    · exact applyToLast_alike h _ _

theorem Alike.lineReports (lines : List Str) : ∀ {s s' : ParseState}, Alike s s' →
    lineReports tryFrom s lines = Bang.lineReports tryFrom s' lines ∧
      Alike (applyLines tryFrom s lines) (applyLines tryFrom s' lines) := by
  induction lines with
  | nil => exact fun h => ⟨rfl, h⟩
  | cons raw lines ih =>
    intro s s' h
    obtain ⟨hnext, hreport⟩ := @Alike.applyLine tryFrom s s' h raw
    obtain ⟨hreports, hend⟩ := ih hnext
    refine ⟨?_, hend⟩
    rw [Bang.lineReports, Bang.lineReports, hreport, hreports]

theorem Alike.report {s s' : ParseState} (h : Alike s s') : s.report = s'.report := by
  have hany : ∀ (es : List Entry) (title : Str), ((es.filter Entry.filled).any fun e => e.title = title) =
      (((es.map Entry.outline).filter Entry.filled).any fun e => e.title = title) := by
    intro es title
    rw [List.filter_map, List.any_map]
    congr 1
    exact List.filter_congr fun e _ => (filled_outline e).symm
  unfold ParseState.report
  rw [h.title]
  rcases s'.defaultTitle with _ | title
  · rfl
  · simp only
    rw [hany s.entries title, hany s'.entries title, h.entries]

/-! ## Leaving out a line -/

theorem lineReports_append (lines lines' : List Str) : ∀ s : ParseState, lineReports tryFrom s (lines ++ lines') =
    lineReports tryFrom s lines ++ lineReports tryFrom (applyLines tryFrom s lines) lines' := by
  induction lines with
  | nil => exact fun _ => rfl
  | cons raw lines ih =>
    intro s
    rw [List.cons_append, lineReports, lineReports, ih, List.append_assoc]
    rfl

/-- What is said of the other lines is the same without a line that leaves the entries' targets alone. -/
theorem printable_deleteLine {text : Str} {i : Nat} {raw : Str} (hraw : (strLines text)[i]? = some raw)
    (halike : Alike (applyLine tryFrom (applyLines tryFrom .start ((strLines text).take i)) raw).1
      (applyLines tryFrom .start ((strLines text).take i))) :
    Printable tryFrom con text ↔
      (∀ report ∈ (applyLine tryFrom (applyLines tryFrom .start ((strLines text).take i)) raw).2.toList,
        con.Shows report.toList) ∧ Printable tryFrom con (deleteLine text i) := by
  obtain ⟨hi, rfl⟩ := List.getElem?_eq_some_iff.1 hraw
  have hwith : strLines text = (strLines text).take i ++ (strLines text)[i] :: (strLines text).drop (i + 1) := by
    rw [← List.drop_eq_getElem_cons hi, List.take_append_drop]
  have hwithout : strLines (deleteLine text i) = (strLines text).take i ++ (strLines text).drop (i + 1) := by
    rw [strLines_deleteLine, List.eraseIdx_eq_take_drop_succ]
  unfold Printable reports
  rw [hwithout]
  generalize (strLines text).take i = front at *
  generalize (strLines text).drop (i + 1) = rest at *
  generalize (strLines text)[i] = raw at *
  rw [hwith]
  obtain ⟨hreports, hend⟩ := @Alike.lineReports tryFrom rest _ _ halike
  have hrun : ∀ lines, applyLines tryFrom .start (front ++ lines) = applyLines tryFrom (applyLines tryFrom .start front) lines :=
    fun lines => List.foldl_append ..
  rw [hrun, hrun, lineReports_append, lineReports_append, lineReports, hreports]
  show (∀ report ∈ _ ++ (_ ++ _) ++ (applyLines tryFrom (applyLine tryFrom _ raw).1 rest).report.toList, _) ↔ _
  rw [hend.report]
  simp only [List.forall_mem_append]
  tauto

/-- A text is parsed with such a line as without it if what is said of the line can be shown and the line makes no
difference to what is parsed; and where something else that is said cannot be shown, it is not parsed either way. -/
theorem parsePrinting_deleteLine {text : Str} {i : Nat} {raw : Str} (hraw : (strLines text)[i]? = some raw)
    (halike : Alike (applyLine tryFrom (applyLines tryFrom .start ((strLines text).take i)) raw).1
      (applyLines tryFrom .start ((strLines text).take i))) (k : κ) :
    (parsePrinting tryFrom con (deleteLine text i) k).map Prod.fst = (parsePrinting tryFrom con text k).map Prod.fst ↔
      parse tryFrom (deleteLine text i) = parse tryFrom text ∧
        (∀ report ∈ (applyLine tryFrom (applyLines tryFrom .start ((strLines text).take i)) raw).2.toList,
          con.Shows report.toList) ∨ ¬ Printable tryFrom con (deleteLine text i) := by
  have hwith := @printable_deleteLine tryFrom κ con text i raw hraw halike
  rw [parsePrinting_eq, parsePrinting_eq]
  by_cases hothers : Printable tryFrom con (deleteLine text i)
  · rw [if_pos hothers, or_iff_left (not_not.2 hothers)]
    by_cases hline : ∀ report ∈ (applyLine tryFrom (applyLines tryFrom .start ((strLines text).take i)) raw).2.toList,
        con.Shows report.toList
    · rw [if_pos (hwith.2 ⟨hline, hothers⟩), Option.some.injEq, and_iff_left hline]
    · rw [if_neg fun h => hline (hwith.1 h).1]
      exact iff_of_false (fun h => by cases h) fun h => hline h.2
  · rw [if_neg hothers, if_neg fun h => hothers (hwith.1 h).2]
    exact iff_of_true rfl (.inr hothers)

/-! ## Lines that do not apply -/

theorem applyLine_of_isDirective {d : Directive} {raw : Str} (hd : isDirective d raw = true) (s : ParseState) :
    applyLine tryFrom s raw = applyDirective tryFrom (directiveLine raw).1 (directiveLine raw).2 s := by
  have hline : strTrim (beforeHash raw) ≠ [] := by
    intro hblank
    have hdirective := isDirective_iff.1 hd
    rw [directiveLine, hblank] at hdirective
    exact absurd hdirective (by cases d <;> decide)
  exact if_neg hline

/-- The words of the directives are in Basic Latin. -/
theorem shows_directive {word : Str} {d : Directive} (h : directiveOf word = some d) : con.Shows word := by
  have hname : d.name.toList = word := by simpa using List.find?_some h
  rw [← hname]
  refine Console.shows_basic ?_
  cases d <;> decide

theorem shows_quoted {front back : String} {word : Str} (hfront : front.toList.all basicLatin = true)
    (hback : back.toList.all basicLatin = true) : con.Shows (front ++ String.ofList word ++ back).toList ↔ con.Shows word := by
  rw [String.toList_append, String.toList_append, String.toList_ofList]
  exact Console.shows_within hfront hback

theorem applyToLast_early {s : ParseState} (h : s.entries = []) (directive arg : Str) :
    (∀ report ∈ (applyToLast tryFrom directive arg s).2.toList, con.Shows report.toList) ↔ con.Shows directive := by
  unfold applyToLast
  rw [h]
  show (∀ report ∈ [_], con.Shows _) ↔ _
  rw [List.forall_mem_singleton]
  exact shows_quoted (by decide) (by decide)

/-- What is said of a directive for another kind of target. -/
theorem shows_otherKind {directive arg : Str} {d : Directive} {entry : Entry} (hd : directiveOf directive = some d)
    (hkind : d.appliesTo entry.target = false) :
    ∀ report ∈ (applyToEntry tryFrom directive arg entry).2.toList, con.Shows report.toList := by
  obtain ⟨title, target⟩ := entry
  unfold applyToEntry
  rw [hd]
  cases d <;> cases target <;>
    first
    | exact List.forall_mem_singleton.2 (Console.shows_basic (by decide))
    | cases hkind

/-- What is said of a line that does not apply is its directive, or can be shown anyway. -/
theorem shows_report_of_doesNotApply {before : List Str} {raw : Str}
    (h : DoesNotApply tryFrom before (directiveLine raw).1) :
    (∀ report ∈ (applyLine tryFrom (applyLines tryFrom .start before) raw).2.toList, con.Shows report.toList) ↔
      con.Shows (directiveLine raw).1 := by
  rcases h with hnone | ⟨d, hd, hper, hno⟩ | ⟨d, hd, entry, hlast, hkind⟩
  · unfold applyLine directiveLine at *
    simp only
    split
    · rename_i hblank
      rw [hblank]
      exact iff_of_true nofun rfl
    · rw [applyDirective_of_none hnone]
      rcases hentry : (applyLines tryFrom .start before).entries.getLast? with _ | entry
      · exact applyToLast_early (List.getLast?_eq_none_iff.1 hentry) _ _
      · unfold applyToLast applyToEntry
        rw [hentry, hnone]
        show (∀ report ∈ [_], con.Shows _) ↔ _
        rw [List.forall_mem_singleton]
        exact shows_quoted (by decide) (by decide)
  · rw [applyLine_of_isDirective (isDirective_iff.2 hd), applyDirective_of_perEntry hd hper]
    exact applyToLast_early (applyLines_entries before hno _ rfl) _ _
  · rw [applyLine_of_isDirective (isDirective_iff.2 hd), applyDirective_of_perEntry hd (perEntry_of_appliesTo hkind)]
    refine iff_of_true ?_ (shows_directive hd)
    unfold applyToLast
    rw [hlast]
    exact shows_otherKind hd hkind

/-- A line that does not apply is skipped without effect exactly when its directive can be shown; or the text is not
parsed either way, for something else that is said of it. -/
theorem parsePrinting_skipped_iff {text : Str} {i : Nat} {raw : Str} (hraw : (strLines text)[i]? = some raw)
    (h : DoesNotApply tryFrom ((strLines text).take i) (directiveLine raw).1) (k : κ) :
    (parsePrinting tryFrom con (deleteLine text i) k).map Prod.fst = (parsePrinting tryFrom con text k).map Prod.fst ↔
      con.Shows (directiveLine raw).1 ∨ ¬ Printable tryFrom con (deleteLine text i) := by
  have halike : Alike (applyLine tryFrom (applyLines tryFrom .start ((strLines text).take i)) raw).1
      (applyLines tryFrom .start ((strLines text).take i)) := by
    rw [applyLine_of_doesNotApply h]
    exact .refl _
  rw [parsePrinting_deleteLine hraw halike, shows_report_of_doesNotApply h, and_iff_right (parse_deleteLine hraw h)]

end

/-- A directive for modules, in an entry that starts a UEFI application. -/
theorem parsePrinting_skipped_modules :
    (parsePrinting ucs2 ucs2Console "entry Shell\n  chainload \\Shell.efi\n".toList ()).map Prod.fst =
      (parsePrinting ucs2 ucs2Console
        "entry Shell\n  chainload \\Shell.efi\n  modules \\drivers # none\n".toList ()).map Prod.fst := by
  have hdelete : deleteLine "entry Shell\n  chainload \\Shell.efi\n  modules \\drivers # none\n".toList 2 =
      "entry Shell\n  chainload \\Shell.efi\n".toList := by decide +kernel
  rw [← hdelete]
  refine (parsePrinting_skipped_iff (show _ = some "  modules \\drivers # none".toList by decide +kernel)
    (.otherKind .modules (by decide +kernel) ⟨"Shell".toList, .chainload (cstr16 "\\Shell.efi") none⟩
      (by decide +kernel) rfl) ()).2 (.inl ?_)
  decide +kernel

/-- A line that is no directive, with a character that cannot be shown: the parser panics. -/
theorem not_parsePrinting_skipped : DoesNotApply ucs2 ["entry Quark".toList] (directiveLine "  😀".toList).1 ∧
    strLines "entry Quark\n  😀\n  multiboot \\kernel.bin\n".toList =
      ["entry Quark".toList, "  😀".toList, "  multiboot \\kernel.bin".toList] ∧
    (parsePrinting ucs2 ucs2Console (deleteLine "entry Quark\n  😀\n  multiboot \\kernel.bin\n".toList 1) ()).map
        Prod.fst ≠
      (parsePrinting ucs2 ucs2Console "entry Quark\n  😀\n  multiboot \\kernel.bin\n".toList ()).map Prod.fst :=
  ⟨.unknown (by decide +kernel), by decide +kernel, by decide +kernel⟩

/-! ## Lines whose argument cannot be used -/

section
variable {tryFrom : Str → Option CString16} {κ : Type} {con : Console κ}

variable (tryFrom con) in
/-- The path of a line, in an entry that takes such a line, where it cannot be shown. -/
def UnshownPath (front : List Str) (raw : Str) : Prop :=
  ∃ d heading before, isDirective d raw = true ∧ d ∈ [.multiboot, .chainload, .linux, .modules, .initrd] ∧
    (blocks front).getLast? = some (heading, before) ∧
    d.appliesTo ((lastTarget tryFrom before).getD (.multiboot [] none)) = true ∧ ¬ con.Shows (directiveLine raw).2

/-- A path that cannot be used leaves the entry's outline as it is, and is what is said of it, if its entry takes such
a line. -/
theorem applyToEntry_unusable {d : Directive} {directive arg : Str} (hd : directiveOf directive = some d)
    (hpath : d ∈ [.multiboot, .chainload, .linux, .modules, .initrd]) (h : tryFrom arg = none) (entry : Entry) :
    (applyToEntry tryFrom directive arg entry).1.outline = entry.outline ∧
      ((∀ report ∈ (applyToEntry tryFrom directive arg entry).2.toList, con.Shows report.toList) ↔
        ¬ (d.appliesTo entry.target = true ∧ ¬ con.Shows arg)) := by
  have hreport : (∀ report ∈ (path tryFrom arg).2.toList, con.Shows report.toList) ↔ ¬ (true = true ∧ ¬ con.Shows arg) := by
    unfold path
    rw [h]
    show (∀ report ∈ [_], con.Shows _) ↔ _
    rw [List.forall_mem_singleton, and_iff_right rfl, not_not]
    exact shows_quoted (by decide) (by decide)
  have hother : ∀ text : String, text.toList.all basicLatin = true →
      ((∀ report ∈ [text], con.Shows report.toList) ↔ ¬ (false = true ∧ ¬ con.Shows arg)) := fun text htext =>
    iff_of_true (List.forall_mem_singleton.2 (Console.shows_basic htext)) nofun
  obtain ⟨title, target⟩ := entry
  unfold applyToEntry
  unfold path at hreport ⊢
  rw [hd]
  rw [h] at hreport ⊢
  cases d <;> cases target <;>
    first
    | exact ⟨rfl, hreport⟩
    | exact ⟨rfl, hother _ (by decide)⟩
    | simp at hpath

/-- An unusable line leaves the state's outline as it is; what is said of it is its path, if anything. -/
theorem applyLine_unusable {front : List Str} {raw : Str} (h : Unusable tryFrom raw) :
    Alike (applyLine tryFrom (applyLines tryFrom .start front) raw).1 (applyLines tryFrom .start front) ∧
      ((∀ report ∈ (applyLine tryFrom (applyLines tryFrom .start front) raw).2.toList, con.Shows report.toList) ↔
        ¬ UnshownPath tryFrom con front raw) := by
  rcases h with ⟨hd, -⟩ | ⟨d, hd, hpath, hnone⟩
  · rw [applyLine_of_isDirective hd]
    unfold applyDirective
    rw [isDirective_iff.1 hd]
    refine ⟨⟨rfl, rfl⟩, iff_of_true nofun ?_⟩
    rintro ⟨d, _, _, hd', hpath, -⟩
    cases isDirective_unique hd hd'
    simp at hpath
  · have hper : d.perEntry = true := by cases d <;> first | rfl | simp at hpath
    rw [applyLine_of_isDirective hd, applyDirective_of_perEntry (isDirective_iff.1 hd) hper]
    have hentries := @entries_eq_blocks tryFrom front
    have hlast := congrArg List.getLast? hentries
    rw [List.getLast?_map] at hlast
    rcases hblock : (blocks front).getLast? with _ | ⟨heading, before⟩ <;> rw [hblock] at hlast
    · have hnil := List.getLast?_eq_none_iff.1 hlast
      refine ⟨?_, ?_⟩
      · rw [applyToLast_nil hnil]
        exact .refl _
      · rw [applyToLast_early hnil]
        refine iff_of_true (shows_directive (isDirective_iff.1 hd)) ?_
        rintro ⟨_, _, _, -, -, hsome, -⟩
        cases hblock.symm.trans hsome
    · obtain ⟨houtline, hreport⟩ := @applyToEntry_unusable tryFrom κ con d _ _ (isDirective_iff.1 hd) hpath hnone
        (blockEntry tryFrom (heading, before))
      rw [(@blockEntry_kind tryFrom heading before d).1] at hreport
      unfold applyToLast
      rw [hlast]
      refine ⟨⟨?_, rfl⟩, hreport.trans (not_congr ?_)⟩
      · have hback := congrArg (List.map Entry.outline) (List.dropLast_append_getLast? _ hlast)
        rw [List.map_append, List.map_singleton] at hback
        simp only [Option.map_some, List.map_append, List.map_singleton]
        rw [houtline]
        exact hback
      · constructor
        · rintro ⟨hkind, hshow⟩
          exact ⟨d, heading, before, hd, hpath, hblock, hkind, hshow⟩
        · rintro ⟨d', heading', before', hd', -, hblock', hkind, hshow⟩
          cases isDirective_unique hd hd'
          cases hblock.symm.trans hblock'
          exact ⟨hkind, hshow⟩

/-- A text is parsed as if an unusable line were not there exactly when the line overwrites nothing and its path, if it
is printed, can be shown; or the text is not parsed either way. -/
theorem parsePrinting_unusable_iff {text : Str} {i : Nat} {raw : Str} (hraw : (strLines text)[i]? = some raw)
    (h : Unusable tryFrom raw) (k : κ) :
    (parsePrinting tryFrom con (deleteLine text i) k).map Prod.fst = (parsePrinting tryFrom con text k).map Prod.fst ↔
      ¬ Overwrites tryFrom ((strLines text).take i) raw ((strLines text).drop (i + 1)) ∧
          ¬ UnshownPath tryFrom con ((strLines text).take i) raw ∨ ¬ Printable tryFrom con (deleteLine text i) := by
  obtain ⟨halike, hreport⟩ := @applyLine_unusable tryFrom κ con ((strLines text).take i) raw h
  rw [parsePrinting_deleteLine hraw halike, hreport, parse_deleteLine_iff hraw h]

end

/-- A timeout that is no number, in front of one that is: as if it were not there. -/
theorem parsePrinting_unusable_timeout :
    (parsePrinting ucs2 ucs2Console (deleteLine "timeout ten\ntimeout 10\n".toList 0) ()).map Prod.fst =
      (parsePrinting ucs2 ucs2Console "timeout ten\ntimeout 10\n".toList ()).map Prod.fst := by
  have hraw : (strLines "timeout ten\ntimeout 10\n".toList)[0]? = some "timeout ten".toList := by decide +kernel
  have hd : isDirective .timeout "timeout ten".toList = true := by decide +kernel
  refine (parsePrinting_unusable_iff hraw (.timeout hd (by decide +kernel)) ()).2 (.inl ⟨?_, ?_⟩)
  · rw [overwrites_timeout_iff hd]
    exact fun h => h.1 rfl
  · rintro ⟨d, _, _, hd', hpath, -⟩
    cases isDirective_unique hd hd'
    simp at hpath

/-- Behind it, it takes its place. -/
theorem not_parsePrinting_unusable : Unusable ucs2 "timeout ten".toList ∧
    (strLines "timeout 10\ntimeout ten\n".toList)[1]? = some "timeout ten".toList ∧
    (parsePrinting ucs2 ucs2Console (deleteLine "timeout 10\ntimeout ten\n".toList 1) ()).map Prod.fst ≠
      (parsePrinting ucs2 ucs2Console "timeout 10\ntimeout ten\n".toList ()).map Prod.fst :=
  ⟨.timeout (by decide +kernel) (by decide +kernel), by decide +kernel, by decide +kernel⟩

end Bang
