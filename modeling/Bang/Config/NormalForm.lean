/-
The normal form of a configuration: its directives, one in a line, with nothing around them. A text is parsed as its
normal form is, so that comments, blanks, empty lines and the kind of its line endings say nothing.
-/
import Bang.Config.Excerpts
import Bang.Config.RoundTrip
import Mathlib.Data.List.Flatten

namespace Bang

/-! ## Directives -/

/-- A directive and its argument, as they can stand in a line. -/
structure IsDirective (d : Str × Str) : Prop where
  nonempty : d.1 ≠ []
  word : ∀ c ∈ d.1, isWhitespace c = false
  noHash : '#' ∉ d.1
  argument : Plain d.2

/-- The directives of a text, each with its argument. -/
def directives (text : Str) : List (Str × Str) := ((strLines text).map directiveLine).filter (·.1 ≠ [])

/-- A line with a directive. -/
def directiveText (d : Str × Str) : Str := d.1 ++ ' ' :: d.2 ++ ['\n']

/-- The normal form of a text. -/
def normalForm (text : Str) : Str := (directives text).flatMap directiveText

/-- The text with a carriage return in front of every line feed. -/
def crlf (text : Str) : Str := text.flatMap fun c => if c = '\n' then ['\r', '\n'] else [c]

theorem IsDirective.noBreak {d : Str × Str} (h : IsDirective d) : '\n' ∉ d.1 ++ ' ' :: d.2 := by
  intro hmem
  rcases List.mem_append.1 hmem with hmem | hmem
  · exact absurd (h.word _ hmem) (by decide)
  · rcases List.mem_cons.1 hmem with hmem | hmem
    · exact absurd hmem (by decide)
    · exact h.argument.noBreak hmem

/-! ## Lines -/

/-- The line feed that ends a line is not in it. -/
theorem strLines_noBreak {text line : Str} (h : line ∈ strLines text) : '\n' ∉ line := by
  have hcut : ∀ ps : List Str, Pieces.WellCut '\n' ps → ∀ piece ∈ ps, '\n' ∉ chomp piece := by
    intro ps hps
    induction hps with
    | nil => nofun
    | last hne hp =>
      intro piece hpiece
      rw [List.mem_singleton.1 hpiece]
      exact fun hmem => hp ((chomp_sublist _).subset hmem)
    | cons hp _ ih =>
      intro piece hpiece
      rcases List.mem_cons.1 hpiece with rfl | hpiece
      · rw [chomp_line]
        intro hmem
        rcases hreturn : stripSuffix '\r' _ with _ | line
        · rw [hreturn] at hmem
          exact hp hmem
        · rw [hreturn] at hmem
          rw [stripSuffix_some hreturn] at hp
          exact hp (List.mem_append_left _ hmem)
      · exact ih piece hpiece
  obtain ⟨piece, hpiece, rfl⟩ := List.mem_map.1 h
  exact hcut _ (Pieces.wellCut_pieces text) piece hpiece

theorem noHash_beforeHash (line : Str) : '#' ∉ beforeHash line := fun h => by
  simpa using List.mem_takeWhile_imp h

/-- What a line is split into is a directive with its argument, if there is anything. -/
theorem isDirective_directiveLine {line : Str} (hline : '\n' ∉ line) (hsome : (directiveLine line).1 ≠ []) :
    IsDirective (directiveLine line) := by
  have hsub : (strTrim (strTrim (beforeHash line))).Sublist (beforeHash line) :=
    (Trim.trim_sublist _).trans (Trim.trim_sublist _)
  have harg : (directiveLine line).2.Sublist (beforeHash line) :=
    (Trim.trim_sublist _).trans ((List.dropWhile_sublist _).trans hsub)
  have hword : (directiveLine line).1.Sublist (beforeHash line) := (List.takeWhile_sublist _).trans hsub
  refine ⟨hsome, fun c hc => ?_, fun h => noHash_beforeHash line (hword.subset h),
    Trim.trimmed_trim _, fun h => noHash_beforeHash line (harg.subset h),
    fun h => hline ((List.takeWhile_sublist _).subset (harg.subset h))⟩
  simpa using List.mem_takeWhile_imp hc

theorem isDirective_of_mem {text : Str} {d : Str × Str} (h : d ∈ directives text) : IsDirective d := by
  obtain ⟨hmem, hsome⟩ := List.mem_filter.1 h
  obtain ⟨line, hline, rfl⟩ := List.mem_map.1 hmem
  exact isDirective_directiveLine (strLines_noBreak hline) (of_decide_eq_true hsome)

theorem gap_blank : ∀ c ∈ [' '], isWhitespace c = true := List.forall_mem_singleton.2 (by decide)

/-- A directive that is written in a line is read there. -/
theorem IsDirective.read {d : Str × Str} (h : IsDirective d) : directiveLine (chomp (directiveText d)) = d := by
  obtain ⟨word, arg⟩ := d
  obtain ⟨hne, hword, hhash, harg⟩ := h
  have hbefore : beforeHash (word ++ ' ' :: arg) = word ++ ([' '] ++ arg) := by
    refine List.takeWhile_eq_self_iff.2 fun c hc => decide_eq_true ?_
    rintro rfl
    rcases List.mem_append.1 hc with hc | hc
    · exact hhash hc
    · rcases List.mem_cons.1 hc with hc | hc
      · exact absurd hc (by decide)
      · exact harg.noHash hc
  unfold directiveLine directiveText
  rw [strTrim_beforeHash_chomp, hbefore]
  by_cases hempty : arg = []
  · have htrim : strTrim (word ++ ([' '] ++ arg)) = word := by
      have hend : strTrim ([] ++ (word ++ [' '])) = strTrim word := Trim.trim_pad _ nofun gap_blank
      rw [hempty]
      exact hend.trans (Trim.trimmed_of_no_blank hword).trim_eq
    rw [htrim, split, show strTrim word = word from (Trim.trimmed_of_no_blank hword).trim_eq, Trim.word_alone hword,
      hempty]
  · have htrim : strTrim (word ++ ([' '] ++ arg)) = word ++ ([' '] ++ arg) :=
      (Trim.trimmed_word hne hword harg.trimmed hempty).trim_eq
    rw [htrim, split, htrim]
    exact Trim.word_gap hword gap_blank (by decide) harg.trimmed

/-! ## The normal form -/

/-- It has the directives of the text. -/
theorem directives_normalForm (text : Str) : directives (normalForm text) = directives text := by
  have hcut : ∀ ds : List (Str × Str), (∀ d ∈ ds, IsDirective d) → Pieces.WellCut '\n' (ds.map directiveText) := by
    intro ds
    induction ds with
    | nil => exact fun _ => .nil
    | cons d ds ih =>
      intro h
      exact .cons (h d (List.mem_cons_self ..)).noBreak (ih fun d hd => h d (List.mem_cons_of_mem _ hd))
  have hall : ∀ d ∈ directives text, IsDirective d := fun d => isDirective_of_mem
  have hlines : (strLines (normalForm text)).map directiveLine = directives text := by
    rw [strLines, normalForm, List.flatMap_def, (hcut _ hall).pieces_flatten, List.map_map, List.map_map]
    exact (List.map_congr_left fun d hd => (hall d hd).read).trans (List.map_id' _)
  rw [directives, hlines]
  exact List.filter_eq_self.2 fun d hd => decide_eq_true (hall d hd).nonempty

/-- Line endings do not matter. -/
theorem directives_crlf (text : Str) : directives (crlf text) = directives text := by
  have hsame : ∀ p : Str, '\n' ∉ p → crlf p = p := by
    intro p hp
    exact (List.flatMap_congr fun c hc => if_neg fun (h : c = '\n') => hp (h ▸ hc)).trans (List.flatMap_singleton' p)
  have hline : ∀ p : Str, '\n' ∉ p → crlf (p ++ ['\n']) = p ++ ['\r'] ++ ['\n'] := by
    intro p hp
    rw [crlf, List.flatMap_append, ← crlf, hsame p hp, List.append_assoc]
    rfl
  -- piece by piece
  have hcut : ∀ ps : List Str, Pieces.WellCut '\n' ps → Pieces.WellCut '\n' (ps.map crlf) ∧
      ∀ piece ∈ ps, directiveLine (chomp (crlf piece)) = directiveLine (chomp piece) := by
    intro ps hps
    induction hps with
    | nil => exact ⟨.nil, nofun⟩
    | @last p hne hp =>
      refine ⟨?_, fun piece hpiece => by rw [List.mem_singleton.1 hpiece, hsame p hp]⟩
      rw [List.map_singleton, hsame p hp]
      exact .last hne hp
    | @cons p ps hp _ ih =>
      rw [List.map_cons, hline p hp]
      refine ⟨.cons (fun h => ?_) ih.1, fun piece hpiece => ?_⟩
      · rcases List.mem_append.1 h with h | h
        · exact hp h
        · exact absurd h (by decide)
      · rcases List.mem_cons.1 hpiece with rfl | hpiece
        · rw [hline p hp, chomp_line, stripSuffix_concat, Option.getD_some]
          unfold directiveLine
          rw [strTrim_beforeHash_chomp]
        · exact ih.2 piece hpiece
  have hflatten : ∀ ps : List Str, crlf ps.flatten = (ps.map crlf).flatten := by
    intro ps
    induction ps with
    | nil => rfl
    | cons p ps ih =>
      rw [List.flatten_cons, List.map_cons, List.flatten_cons, ← ih]
      exact List.flatMap_append
  obtain ⟨hwell, hread⟩ := hcut _ (Pieces.wellCut_pieces text)
  have hpieces : Pieces.pieces '\n' (crlf text) = (Pieces.pieces '\n' text).map crlf := by
    rw [← hwell.pieces_flatten, ← hflatten, Pieces.flatten_pieces]
  rw [directives, directives, strLines, strLines, hpieces, List.map_map, List.map_map, List.map_map]
  exact congrArg _ (List.map_congr_left hread)

section
variable (tryFrom : Str → Option CString16)

/-- A text is parsed by its directives. -/
theorem parse_directives (text : Str) : parse tryFrom text =
    ((directives text).foldl (fun s d => (applyDirective tryFrom d.1 d.2 s).1) .start).finish := by
  have hlines : ∀ (lines : List Str) (s : ParseState), applyLines tryFrom s lines =
      ((lines.map directiveLine).filter (·.1 ≠ [])).foldl (fun s d => (applyDirective tryFrom d.1 d.2 s).1) s := by
    intro lines
    induction lines with
    | nil => exact fun s => rfl
    | cons raw lines ih =>
      intro s
      show applyLines tryFrom (applyLine tryFrom s raw).1 lines = _
      rw [ih, applyLine_eq, List.map_cons]
      by_cases hnone : (directiveLine raw).1 = []
      · have hskip : (applyToLast tryFrom [] (directiveLine raw).2 s).1 = s :=
          applyToLast_same fun entry _ => applyToEntry_unknown (by decide) entry
        rw [List.filter_cons_of_neg (by simpa using hnone), hnone, applyDirective_of_none (by decide), hskip]
      · rw [List.filter_cons_of_pos (by simpa using hnone), List.foldl_cons]
  rw [parse, hlines]
  rfl

/-- A text is parsed as its normal form is, in which nothing is left of comments, and which is its own; line endings do
not matter to it. So texts with one normal form are parsed alike. -/
theorem parse_normalForm (text : Str) :
    parse tryFrom (normalForm text) = parse tryFrom text ∧ normalForm (normalForm text) = normalForm text ∧
      '#' ∉ normalForm text ∧ normalForm (crlf text) = normalForm text ∧
      ∀ text', normalForm text' = normalForm text → parse tryFrom text' = parse tryFrom text := by
  refine ⟨?_, ?_, fun h => ?_, ?_, fun text' h => ?_⟩
  · rw [parse_directives, parse_directives, directives_normalForm]
  · rw [normalForm, directives_normalForm]
    rfl
  · obtain ⟨d, hd, hmem⟩ := List.mem_flatMap.1 h
    have hdirective := isDirective_of_mem hd
    simp only [directiveText, List.mem_append, List.mem_cons] at hmem
    rcases hmem with (hmem | hmem | hmem) | hmem
    · exact hdirective.noHash hmem
    · exact absurd hmem (by decide)
    · exact hdirective.argument.noHash hmem
    · rcases hmem with hmem | hmem
      · exact absurd hmem (by decide)
      · cases hmem
  · rw [normalForm, directives_crlf]
    rfl
  · rw [parse_directives, parse_directives, ← directives_normalForm text', h, directives_normalForm]

end

example : normalForm "timeout\t 9 # seconds\r\n\r\n  entry  A b\n#".toList = "timeout 9\nentry A b\n".toList := by
  decide +kernel

end Bang
