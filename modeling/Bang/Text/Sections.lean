/-
Cutting a list in front of its headings. A reader that starts a record at each heading and works on
the last record elsewhere makes one record of each section, out of that section alone; and a value
that some of the elements replace is what the last of them says.
-/
import Mathlib.Data.List.Induction
import Mathlib.Data.List.ModifyLast
import Mathlib.Tactic.Common

namespace Sections

variable {α β : Type} (heading : α → Bool)

/-- What stands in front of the first heading, and the sections, each a heading with its body. -/
def cut : List α → List α × List (α × List α)
  | [] => ([], [])
  | a :: l =>
    let rest := cut l
    if heading a then ([], (a, rest.1) :: rest.2) else (a :: rest.1, rest.2)

theorem cut_heading {a : α} (h : heading a = true) (l : List α) :
    cut heading (a :: l) = ([], (a, (cut heading l).1) :: (cut heading l).2) :=
  if_pos h

theorem cut_body {a : α} (h : heading a = false) (l : List α) :
    cut heading (a :: l) = (a :: (cut heading l).1, (cut heading l).2) :=
  if_neg (ne_true_of_eq_false h)

/-! ## Records -/

variable (fresh : α → β) (edit : β → α → β)

/-- One element of the list: a heading starts a record, anything else is for the last one. -/
def enter (records : List β) (a : α) : List β :=
  if heading a then records ++ [fresh a] else records.modifyLast fun b => edit b a

/-- The record of a section. -/
def record (s : α × List α) : β := s.2.foldl edit (fresh s.1)

/-- With a last record, the lines up to the next heading are that record's. -/
theorem foldl_enter_concat (l : List α) : ∀ (records : List β) (b : β),
    l.foldl (enter heading fresh edit) (records ++ [b]) =
      records ++ (cut heading l).1.foldl edit b :: (cut heading l).2.map (record fresh edit) := by
  induction l with
  | nil => intro records b; rfl
  | cons a l ih =>
    intro records b
    rw [List.foldl_cons, enter]
    rcases h : heading a with _ | _
    · rw [if_neg (by decide), List.modifyLast_concat, ih, cut_body heading h]
      rfl
    · rw [if_pos rfl, ih, cut_heading heading h, List.append_assoc]
      rfl

/-- The records are the sections', in order; what stands in front of the first heading is nobody's. -/
theorem foldl_enter (l : List α) :
    l.foldl (enter heading fresh edit) [] = (cut heading l).2.map (record fresh edit) := by
  induction l with
  | nil => rfl
  | cons a l ih =>
    rw [List.foldl_cons, enter]
    rcases h : heading a with _ | _
    · rw [cut_body heading h]
      exact ih
    · rw [if_pos rfl, foldl_enter_concat, cut_heading heading h]
      rfl

/-- A value that elements of a kind replace is what the last of them says. -/
theorem foldl_last (p : α → Bool) (g : α → β) (l : List α) (b : β) :
    l.foldl (fun b a => if p a then g a else b) b = ((l.filter p).getLast?.map g).getD b := by
  induction l using List.reverseRecOn with
  | nil => rfl
  | append_singleton l a ih =>
    rw [List.foldl_append, List.foldl_cons, List.foldl_nil, ih]
    rcases h : p a with _ | _
    · simp [h]
    · simp [h]

/-- The last element of a kind, and what stands behind it. -/
theorem exists_last {p : α → Prop} [DecidablePred p] {l : List α} (h : ∃ a ∈ l, p a) :
    ∃ l₁ a l₂, l = l₁ ++ a :: l₂ ∧ p a ∧ ∀ b ∈ l₂, ¬ p b := by
  induction l with
  | nil =>
    obtain ⟨a, ha, -⟩ := h
    cases ha
  | cons b l ih =>
    by_cases hl : ∃ a ∈ l, p a
    · obtain ⟨l₁, a, l₂, rfl, ha, hnone⟩ := ih hl
      exact ⟨b :: l₁, a, l₂, rfl, ha, hnone⟩
    · have hnone : ∀ c ∈ l, ¬ p c := fun c hc hp => hl ⟨c, hc, hp⟩
      obtain ⟨a, ha, hp⟩ := h
      rcases List.mem_cons.1 ha with rfl | ha
      · exact ⟨[], a, l, rfl, hp, hnone⟩
      · exact absurd hp (hnone a ha)

end Sections
