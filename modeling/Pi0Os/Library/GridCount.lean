import Mathlib.Algebra.GroupWithZero.Nat
import Mathlib.Algebra.BigOperators.Group.Finset.Piecewise
import Mathlib.Algebra.BigOperators.Group.Finset.Sigma
import Mathlib.Algebra.Order.BigOperators.Group.Finset
import Mathlib.Tactic.Common

/-! How many cells of a grid meet a condition, row by row; and sums that change in one place. -/

namespace Pi0Os.Library

variable {n m i j : ℕ} {p p' : ℕ → ℕ → Prop} [∀ i, DecidablePred (p i)] [∀ i, DecidablePred (p' i)]

def gridCount (n m : ℕ) (p : ℕ → ℕ → Prop) [∀ i, DecidablePred (p i)] : ℕ :=
  ((List.range n).map fun i => (List.range m).countP fun j => p i j).sum

/-- The cells. -/
def gridCells (n m : ℕ) (p : ℕ → ℕ → Prop) [∀ i, DecidablePred (p i)] : Finset (ℕ × ℕ) :=
  (Finset.range n ×ˢ Finset.range m).filter fun c => p c.1 c.2

lemma mem_gridCells : (i, j) ∈ gridCells n m p ↔ (i < n ∧ j < m) ∧ p i j := by
  rw [gridCells, Finset.mem_filter, Finset.mem_product, Finset.mem_range, Finset.mem_range]

lemma gridCount_eq_card : gridCount n m p = (gridCells n m p).card := by
  rw [gridCells, Finset.card_filter, Finset.sum_product]
  refine congrArg List.sum (List.map_congr_left fun i _ => ?_)
  dsimp only
  rw [← Finset.card_filter]
  exact List.countP_eq_length_filter

lemma gridCount_pos (hi : i < n) (hj : j < m) (hp : p i j) : 0 < gridCount n m p := by
  rw [gridCount_eq_card, Finset.card_pos]
  exact ⟨(i, j), mem_gridCells.mpr ⟨⟨hi, hj⟩, hp⟩⟩

lemma gridCells_subset (h : ∀ i < n, ∀ j < m, p i j → p' i j) : gridCells n m p ⊆ gridCells n m p' := by
  rintro ⟨i, j⟩ hc
  obtain ⟨hij, hp⟩ := mem_gridCells.mp hc
  exact mem_gridCells.mpr ⟨hij, h i hij.1 j hij.2 hp⟩

lemma gridCount_mono (h : ∀ i < n, ∀ j < m, p i j → p' i j) : gridCount n m p ≤ gridCount n m p' := by
  rw [gridCount_eq_card, gridCount_eq_card]
  exact Finset.card_le_card (gridCells_subset h)

/-- One cell more at most. -/
lemma gridCount_le_succ (h : ∀ i' < n, ∀ j' < m, (i', j') ≠ (i, j) → p i' j' → p' i' j') :
    gridCount n m p ≤ gridCount n m p' + 1 := by
  rw [gridCount_eq_card, gridCount_eq_card]
  refine (Finset.card_le_card fun c hc => ?_).trans (Finset.card_insert_le (i, j) _)
  obtain ⟨hij, hp⟩ := mem_gridCells.mp hc
  by_cases hne : c = (i, j)
  · exact Finset.mem_insert.mpr (.inl hne)
  · exact Finset.mem_insert_of_mem (mem_gridCells.mpr ⟨hij, h c.1 hij.1 c.2 hij.2 hne hp⟩)

/-- One cell less at least. -/
lemma gridCount_lt (h : ∀ i < n, ∀ j < m, p i j → p' i j) (hi : i < n) (hj : j < m) (hp : ¬ p i j) (hp' : p' i j) :
    gridCount n m p < gridCount n m p' := by
  rw [gridCount_eq_card, gridCount_eq_card]
  refine Finset.card_lt_card ⟨gridCells_subset h, fun hsub => hp ?_⟩
  exact (mem_gridCells.mp (hsub (mem_gridCells.mpr ⟨⟨hi, hj⟩, hp'⟩))).2

lemma sum_add_le {s : Finset ℕ} {f g : ℕ → ℕ} {a b c : ℕ} (ha : a ∈ s) (hle : f a + b ≤ g a + c)
    (hother : ∀ x ∈ s, x ≠ a → f x ≤ g x) : ∑ x ∈ s, f x + b ≤ ∑ x ∈ s, g x + c := by
  have hrest : ∑ x ∈ s.erase a, f x ≤ ∑ x ∈ s.erase a, g x :=
    Finset.sum_le_sum fun x hx => hother x (Finset.mem_of_mem_erase hx) (Finset.ne_of_mem_erase hx)
  rw [← Finset.add_sum_erase s f ha, ← Finset.add_sum_erase s g ha]
  omega

end Pi0Os.Library
