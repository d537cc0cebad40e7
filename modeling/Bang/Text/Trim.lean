/-
Trimming a list at both ends, and taking it apart at its first blank: over any elements and any
notion of a blank.
-/
import Mathlib.Data.List.DropRight
import Mathlib.Tactic.Common

namespace Trim

variable {α : Type} (blank : α → Bool)

/-- The list without the blanks at its ends. -/
def trim (l : List α) : List α := (l.dropWhile blank).rdropWhile blank

/-- The list up to its first blank, and the rest of it, trimmed. -/
def word (l : List α) : List α × List α :=
  (l.takeWhile fun c => !blank c, trim blank (l.dropWhile fun c => !blank c))

/-- No blank at either end. -/
structure Trimmed (l : List α) : Prop where
  head : ∀ c ∈ l.head?, blank c = false
  last : ∀ c ∈ l.getLast?, blank c = false

variable {blank}

/-! ## Trimming -/

theorem Trimmed.trim_eq {l : List α} (h : Trimmed blank l) : trim blank l = l := by
  have hfront : l.dropWhile blank = l := by
    cases l with
    | nil => rfl
    | cons c l => rw [List.dropWhile_cons, h.head c rfl]; rfl
  rw [trim, hfront, List.rdropWhile_eq_self_iff]
  intro hl hc
  rw [h.last _ (List.getLast?_eq_some_getLast hl)] at hc
  cases hc

theorem trim_sublist (l : List α) : (trim blank l).Sublist l :=
  (List.rdropWhile_prefix blank (l.dropWhile blank)).sublist.trans (List.dropWhile_sublist blank)

theorem rdropWhile_blanks (l : List α) {post : List α} (h : ∀ c ∈ post, blank c = true) :
    (l ++ post).rdropWhile blank = l.rdropWhile blank := by
  unfold List.rdropWhile
  rw [List.reverse_append, List.dropWhile_append_of_pos fun c hc => h c (List.mem_reverse.1 hc)]

/-- Blanks at the ends do not matter. -/
theorem trim_pad {pre post : List α} (l : List α) (hpre : ∀ c ∈ pre, blank c = true)
    (hpost : ∀ c ∈ post, blank c = true) : trim blank (pre ++ (l ++ post)) = trim blank l := by
  unfold trim
  rw [List.dropWhile_append_of_pos hpre, List.dropWhile_append]
  split
  · rename_i hl
    rw [List.isEmpty_iff.1 hl, List.dropWhile_eq_nil_iff.2 hpost]
  · exact rdropWhile_blanks _ hpost

theorem trim_blanks {l : List α} (h : ∀ c ∈ l, blank c = true) : trim blank l = [] := by
  rw [trim, List.dropWhile_eq_nil_iff.2 h]
  rfl

/-- What was trimmed has no blank at its ends. -/
theorem trimmed_trim (l : List α) : Trimmed blank (trim blank l) := by
  refine ⟨fun c hc => ?_, fun c hc => ?_⟩
  · obtain ⟨rest, hrest⟩ := List.rdropWhile_prefix blank (l.dropWhile blank)
    obtain ⟨cs, hcs⟩ := List.head?_eq_some_iff.1 hc
    have hfront : (l.dropWhile blank).head? = some c := by
      rw [← hrest]
      exact List.head?_append_of_ne_nil _ (hcs ▸ List.cons_ne_nil _ _) ▸ hc
    have hnot := List.head?_dropWhile_not blank l
    rw [hfront] at hnot
    simpa using hnot
  · obtain ⟨hne, rfl⟩ := List.mem_getLast?_eq_getLast hc
    exact Bool.eq_false_iff.2 (List.rdropWhile_last_not blank _ hne)

/-! ## A word and the rest -/

variable {d gap a : List α}

/-- A word with something behind a gap is trimmed. -/
theorem trimmed_word (hne : d ≠ []) (hd : ∀ c ∈ d, blank c = false) (ha : Trimmed blank a) (hane : a ≠ []) :
    Trimmed blank (d ++ (gap ++ a)) := by
  refine ⟨fun c hc => ?_, fun c hc => ?_⟩
  · rw [List.head?_append_of_ne_nil _ hne] at hc
    exact hd c (List.mem_of_mem_head? hc)
  · rw [← List.append_assoc, List.getLast?_append_of_ne_nil _ hane] at hc
    exact ha.last c hc

theorem trimmed_of_no_blank (hd : ∀ c ∈ d, blank c = false) : Trimmed blank d :=
  ⟨fun c hc => hd c (List.mem_of_mem_head? hc), fun c hc => hd c (List.mem_of_mem_getLast? hc)⟩

/-- A word is taken off in front of a gap, with what is behind it. -/
theorem word_gap (hd : ∀ c ∈ d, blank c = false) (hgap : ∀ c ∈ gap, blank c = true) (hgapne : gap ≠ [])
    (ha : Trimmed blank a) : word blank (d ++ (gap ++ a)) = (d, a) := by
  have hd' : ∀ c ∈ d, (!blank c) = true := fun c hc => by rw [hd c hc]; rfl
  obtain ⟨g, gs, rfl⟩ := List.exists_cons_of_ne_nil hgapne
  have hg : ¬ (!blank g) = true := by rw [hgap g (List.mem_cons_self ..)]; decide
  have hrest : trim blank (g :: gs ++ (a ++ [])) = trim blank a := trim_pad a hgap (fun c hc => by cases hc)
  rw [List.append_nil] at hrest
  have htake : (g :: gs ++ a).takeWhile (fun c => !blank c) = [] := List.takeWhile_cons_of_neg hg
  have hdrop : (g :: gs ++ a).dropWhile (fun c => !blank c) = g :: gs ++ a := List.dropWhile_cons_of_neg hg
  rw [word, List.takeWhile_append_of_pos hd', List.dropWhile_append_of_pos hd', htake, hdrop, List.append_nil,
    hrest, ha.trim_eq]

/-- A word alone has nothing behind it. -/
theorem word_alone (hd : ∀ c ∈ d, blank c = false) : word blank d = (d, []) := by
  have hd' : ∀ c ∈ d, (!blank c) = true := fun c hc => by rw [hd c hc]; rfl
  rw [word, List.takeWhile_eq_self_iff.2 hd', List.dropWhile_eq_nil_iff.2 hd']
  rfl

end Trim
