import Mathlib.Data.List.DropRight
import Mathlib.Tactic

/-! A queue that keeps its last `n` items: `List.rtake n` of everything put in. -/

namespace Pi0Os.Library

variable {α : Type*}

lemma rtake_of_length_le {n : ℕ} {l : List α} (h : l.length ≤ n) : l.rtake n = l := by
  rw [List.rtake, Nat.sub_eq_zero_of_le h, List.drop_zero]

@[simp] lemma length_rtake (n : ℕ) (l : List α) : (l.rtake n).length = min n l.length := by
  rw [List.rtake, List.length_drop]
  omega

lemma rtake_rtake_append (n : ℕ) (l m : List α) : (l.rtake n ++ m).rtake n = (l ++ m).rtake n := by
  by_cases h : l.length ≤ n
  · rw [rtake_of_length_le h]
  · have hlen : (l.rtake n ++ m).length - n = m.length := by
      rw [List.length_append, length_rtake]
      omega
    have hdrop : (l ++ m).length - n = (l.length - n) + m.length := by
      rw [List.length_append]
      omega
    have hl : (l ++ m).rtake n = (l.rtake n ++ m).drop m.length := by
      rw [List.rtake, hdrop, ← List.drop_drop, List.drop_append_of_le_length (Nat.sub_le _ _), List.rtake]
    rw [hl, ← hlen]
    rfl

lemma take_append_rtake (n : ℕ) (l : List α) : l.take (l.length - n) ++ l.rtake n = l :=
  List.take_append_drop _ l

lemma count_rtake [BEq α] (a : α) (n : ℕ) (l : List α) :
    (l.take (l.length - n)).count a + (l.rtake n).count a = l.count a := by
  rw [← List.count_append, take_append_rtake]

/-- A full queue loses its oldest item for the new one. -/
def pushBounded (n : ℕ) (q : List α) (x : α) : List α := if q.length < n then q ++ [x] else q.tail ++ [x]

lemma rtake_concat {n : ℕ} {q : List α} (hq : q.length ≤ n) (hn : 0 < n) (x : α) :
    (q ++ [x]).rtake n = pushBounded n q x := by
  rw [pushBounded]
  split_ifs with hlt
  · apply rtake_of_length_le
    rwa [List.length_append, List.length_singleton]
  · cases q with
    | nil => exact absurd hn hlt
    | cons y q =>
      have hdrop : (y :: q ++ [x]).length - n = 1 := by
        rw [List.length_append, List.length_singleton]
        omega
      rw [List.rtake, hdrop]
      rfl

end Pi0Os.Library
