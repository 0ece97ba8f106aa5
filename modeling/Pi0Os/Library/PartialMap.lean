import Mathlib.Logic.Function.Basic

/-! Partial maps as functions to `Option`: what is bound after one point has been updated. -/

namespace Pi0Os.Library

variable {κ α β : Type*} {f f' : κ → Option α} {k k' : κ} {x : Option α} {a b : α}

lemma ne_of_eq_some (hk : f k = none) (hk' : f k' = some a) : k' ≠ k := by
  rintro rfl
  cases hk.symm.trans hk'

variable [DecidableEq κ]

lemma update_eq_some : Function.update f k x k' = some a ↔ k' = k ∧ x = some a ∨ k' ≠ k ∧ f k' = some a := by
  by_cases h : k' = k
  · subst h
    simp
  · simp [h]

lemma update_some_eq_some : Function.update f k (some b) k' = some a ↔ k' = k ∧ b = a ∨ k' ≠ k ∧ f k' = some a := by
  rw [update_eq_some, Option.some.injEq]

lemma update_none_eq_some : Function.update f k none k' = some a ↔ k' ≠ k ∧ f k' = some a := by
  simp [update_eq_some]

lemma map_update (g : α → β) (hf : f' = Function.update f k x) :
    (fun j => (f' j).map g) = Function.update (fun j => (f j).map g) k (x.map g) := by
  rw [hf]
  exact Function.comp_update (Option.map g) f k x

end Pi0Os.Library
