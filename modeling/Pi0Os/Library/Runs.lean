import Mathlib.Data.List.SplitOn
import Mathlib.Tactic

/-! The maximal runs of a list without a separator. -/

namespace Pi0Os.Library

variable {α : Type*} [DecidableEq α] {sep : α} {s v w : List α}

/-- The maximal runs without `sep`, in order. -/
def runs (sep : α) (l : List α) : List (List α) := (l.splitOn sep).filter (· ≠ [])

lemma runs_of_notMem (hw : sep ∉ w) : runs sep w = if w = [] then [] else [w] := by
  by_cases h : w = [] <;> simp [runs, List.splitOn_eq_singleton hw, h]

@[simp] lemma runs_nil : runs sep [] = [] := by
  rw [runs_of_notMem List.not_mem_nil, if_pos rfl]

lemma runs_append_sep (sep : α) (v w : List α) : runs sep (v ++ sep :: w) = runs sep v ++ runs sep w := by
  rw [runs, List.splitOn_append_cons_self, List.filter_append, runs, runs]

@[simp] lemma runs_sep (w : List α) : runs sep (sep :: w) = runs sep w := by
  simpa using runs_append_sep sep [] w

lemma runs_blank_append (hs : ∀ x ∈ s, x = sep) (w : List α) : runs sep (s ++ w) = runs sep w := by
  induction s with
  | nil => rfl
  | cons x s ih =>
    obtain rfl := hs x List.mem_cons_self
    rw [List.cons_append, runs_sep]
    exact ih fun y hy => hs y (List.mem_cons_of_mem x hy)

lemma runs_blank (hs : ∀ x ∈ s, x = sep) : runs sep s = [] := by
  rw [← List.append_nil s, runs_blank_append hs, runs_nil]

omit [DecidableEq α] in
/-- The longest beginning of a list that satisfies `p`. -/
lemma exists_longest (p : α → Prop) [DecidablePred p] (l : List α) :
    ∃ s t, l = s ++ t ∧ (∀ x ∈ s, p x) ∧ ∀ x ∈ t.head?, ¬ p x := by
  induction l with
  | nil => exact ⟨[], [], rfl, fun x hx => absurd hx List.not_mem_nil, fun x hx => by cases hx⟩
  | cons c l ih =>
    by_cases hc : p c
    · obtain ⟨s, t, rfl, hs, ht⟩ := ih
      exact ⟨c :: s, t, rfl, List.forall_mem_cons.mpr ⟨hc, hs⟩, ht⟩
    · refine ⟨[], c :: l, rfl, fun x hx => absurd hx List.not_mem_nil, fun x hx => ?_⟩
      obtain rfl := Option.some.inj hx
      exact hc

/-- A list run by run: separators alone, a last run behind separators, or a run between separators. -/
@[elab_as_elim]
lemma runs_induction (sep : α) {motive : List α → Prop} (blank : ∀ s, (∀ x ∈ s, x = sep) → motive s)
    (last : ∀ s w, (∀ x ∈ s, x = sep) → w ≠ [] → sep ∉ w → motive (s ++ w))
    (step : ∀ s w rest, (∀ x ∈ s, x = sep) → w ≠ [] → sep ∉ w → motive rest → motive (s ++ w ++ sep :: rest))
    (l : List α) : motive l := by
  induction hn : l.length using Nat.strong_induction_on generalizing l with
  | _ n ih =>
    obtain ⟨s, r, rfl, hs, hr⟩ := exists_longest (· = sep) l
    obtain ⟨w, t, rfl, hw, ht⟩ := exists_longest (· ≠ sep) r
    have hnot : sep ∉ w := fun h => hw sep h rfl
    cases w with
    | nil =>
      cases t with
      | nil => simpa using blank s hs
      | cons d t => exact absurd (hr d rfl) (ht d rfl)
    | cons c w =>
      cases t with
      | nil =>
        rw [List.append_nil]
        exact last s (c :: w) hs (List.cons_ne_nil c w) hnot
      | cons d t =>
        obtain rfl := not_not.mp (ht d rfl)
        rw [← List.append_assoc]
        refine step s (c :: w) t hs (List.cons_ne_nil c w) hnot (ih t.length ?_ t rfl)
        simp only [List.length_append, List.length_cons] at hn
        omega

end Pi0Os.Library
