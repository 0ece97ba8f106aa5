import Pi0Os.Library.Slice
import Mathlib.Data.Set.BooleanAlgebra
import Mathlib.Data.Set.Function
import Mathlib.Order.CompletePartialOrder
import Mathlib.Order.Interval.Set.Basic

/-! A memory as a function of the address: filling and copying ranges, and where they leave it as
it was. -/

namespace Pi0Os.Library

variable {α : Type*} (m : ℕ → α) (dst src n a : ℕ) (v : α)

def fill : ℕ → α := fun b => if b ∈ Set.Ico dst (dst + n) then v else m b

/-- The ranges do not overlap, or the copy is of the bytes as they were. -/
def copyRange : ℕ → α := fun b => if b ∈ Set.Ico dst (dst + n) then m (src + (b - dst)) else m b

/-- The cells in the list are set to `v`. -/
def setCells (cells : List ℕ) : ℕ → α := fun b => if b ∈ cells then v else m b

variable {m dst src n a v} {S : Set ℕ}

lemma fill_of_mem (h : a ∈ Set.Ico dst (dst + n)) : fill m dst n v a = v := if_pos h

lemma fill_eqOn (h : Disjoint S (Set.Ico dst (dst + n))) : Set.EqOn (fill m dst n v) m S :=
  fun _ ha => if_neg (Set.disjoint_left.mp h ha)

lemma update_fill {b : ℕ} {w : α} (h : b ∉ Set.Ico dst (dst + n)) :
    Function.update (fill m dst n v) b w = fill (Function.update m b w) dst n v := by
  funext c
  by_cases hc : c = b
  · rw [hc, Function.update_self, fill, if_neg h, Function.update_self]
  · rw [Function.update_of_ne hc, fill, fill, Function.update_of_ne hc]

lemma copyRange_add {i : ℕ} (h : i < n) : copyRange m dst src n (dst + i) = m (src + i) := by
  rw [copyRange, if_pos ⟨Nat.le_add_right .., Nat.add_lt_add_left h _⟩, Nat.add_sub_cancel_left]

lemma copyRange_eqOn (h : Disjoint S (Set.Ico dst (dst + n))) : Set.EqOn (copyRange m dst src n) m S :=
  fun _ ha => if_neg (Set.disjoint_left.mp h ha)

lemma overwrite_replicate : overwrite m dst (List.replicate n v) = fill m dst n v := by
  funext a
  by_cases ha : a ∈ Set.Ico dst (dst + n)
  · have hlt : a - dst < n := by
      obtain ⟨hlo, hhi⟩ := ha
      omega
    rw [fill_of_mem ha, overwrite, if_pos ha.1, List.getElem?_replicate_of_lt hlt, Option.getD_some]
  · have hout : a < dst ∨ dst + (List.replicate n v).length ≤ a := by
      rw [List.length_replicate]
      by_contra h
      exact ha (Set.mem_Ico.mpr (by omega))
    rw [overwrite_of_notMem hout, fill, if_neg ha]

lemma overwrite_slice : overwrite m dst (slice m src n) = copyRange m dst src n := by
  funext a
  by_cases ha : a ∈ Set.Ico dst (dst + n)
  · have hlt : a - dst < (slice m src n).length := by
      obtain ⟨hlo, hhi⟩ := ha
      rw [length_slice]
      omega
    rw [copyRange, if_pos ha, overwrite, if_pos ha.1, List.getElem?_eq_getElem hlt, Option.getD_some]
    simp [slice]
  · have hout : a < dst ∨ dst + (slice m src n).length ≤ a := by
      rw [length_slice]
      by_contra h
      exact ha (Set.mem_Ico.mpr (by omega))
    rw [overwrite_of_notMem hout, copyRange, if_neg ha]

lemma update_eqOn (h : a ∉ S) : Set.EqOn (Function.update m a v) m S :=
  fun b hb => Function.update_of_ne (fun he => h (by rwa [he] at hb)) _ _

lemma setCells_nil : setCells m v [] = m := funext fun _ => if_neg List.not_mem_nil

lemma setCells_append (l l' : List ℕ) : setCells m v (l ++ l') = setCells (setCells m v l) v l' := by
  funext b
  simp only [setCells, List.mem_append]
  split_ifs <;> tauto

lemma setCells_cons (l : List ℕ) : setCells m v (a :: l) = setCells (Function.update m a v) v l := by
  funext b
  by_cases hb : b = a
  · subst hb
    simp [setCells]
  · simp [setCells, hb]

lemma setCells_of_notMem {l : List ℕ} (h : a ∉ l) : setCells m v l a = m a := if_neg h

end Pi0Os.Library
