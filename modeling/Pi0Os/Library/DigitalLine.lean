import Mathlib.Tactic

/-! Digital lines: an error term decides at each step along the longer axis whether the shorter
coordinate moves too. -/

namespace Pi0Os.Library

/-- After `k` steps along an axis of length `n` and `b` steps along one of length `m`, the error
term is `e`; it stays in a window that one step of either kind keeps. -/
structure OnLine (n m k b e : ℤ) : Prop where
  error : e = n - m - k * m + b * n
  window : (m < n ∧ -m < 2 * e ∧ 2 * e < 3 * n - 2 * m) ∨ (m = n ∧ e = 0)

namespace OnLine

variable {n m k b e : ℤ}

lemma start (hn : 0 < n) (hm : 0 ≤ m) (h : m ≤ n) : OnLine n m 0 0 (n - m) := by
  refine ⟨by ring, ?_⟩
  rcases h.lt_or_eq with hlt | rfl
  · exact Or.inl ⟨hlt, by omega, by omega⟩
  · exact Or.inr ⟨rfl, sub_self m⟩

/-- The longer axis always moves. -/
lemma longer_moves (h : OnLine n m k b e) (hn : 0 < n) : -m < 2 * e := by
  rcases h.window with ⟨-, hlo, -⟩ | ⟨rfl, rfl⟩
  · exact hlo
  · omega

lemma both (h : OnLine n m k b e) (he : 2 * e < n) : OnLine n m (k + 1) (b + 1) (e - m + n) := by
  refine ⟨by rw [h.error]; ring, ?_⟩
  rcases h.window with ⟨hlt, hlo, -⟩ | ⟨rfl, rfl⟩
  · exact Or.inl ⟨hlt, by omega, by omega⟩
  · exact Or.inr ⟨rfl, by omega⟩

lemma alone (h : OnLine n m k b e) (hn : 0 < n) (hm : 0 ≤ m) (he : ¬ 2 * e < n) : OnLine n m (k + 1) b (e - m) := by
  refine ⟨by rw [h.error]; ring, ?_⟩
  rcases h.window with ⟨hlt, -, hhi⟩ | ⟨rfl, rfl⟩
  · exact Or.inl ⟨hlt, by omega, by omega⟩
  · omega

/-- The shorter axis is as far as the error term says, to within half a step. -/
lemma shorter_bounds (h : OnLine n m k b e) (hn : 0 < n) (hm : 0 ≤ m) :
    k * m - n < b * n ∧ 2 * (b * n) < 2 * (k * m) + n := by
  have herr := h.error
  rcases h.window with ⟨-, hlo, hhi⟩ | ⟨rfl, rfl⟩
  · constructor
    · omega
    · omega
  · constructor
    · omega
    · omega

lemma shorter_nonneg (h : OnLine n m k b e) (hn : 0 < n) (hm : 0 ≤ m) (hk : 0 ≤ k) : 0 ≤ b := by
  have hlo := (h.shorter_bounds hn hm).1
  have hkm : 0 ≤ k * m := mul_nonneg hk hm
  by_contra hneg
  have hb : b * n ≤ -1 * n := mul_le_mul_of_nonneg_right (by omega) hn.le
  omega

lemma shorter_le (h : OnLine n m k b e) (hn : 0 < n) (hm : 0 ≤ m) (hk : k ≤ n) : b ≤ m := by
  have hhi := (h.shorter_bounds hn hm).2
  have hkm : k * m ≤ n * m := mul_le_mul_of_nonneg_right hk hm
  by_contra hgt
  have hb : (m + 1) * n ≤ b * n := mul_le_mul_of_nonneg_right (by omega) hn.le
  have hring : (m + 1) * n = n * m + n := by ring
  omega

/-- At its end the longer axis has taken the shorter one to its end. -/
lemma shorter_eq (h : OnLine n m n b e) (hn : 0 < n) (hm : 0 ≤ m) : b = m := by
  have hlo := (h.shorter_bounds hn hm).1
  have hle := h.shorter_le hn hm le_rfl
  by_contra hne
  have hb : b * n ≤ (m - 1) * n := mul_le_mul_of_nonneg_right (by omega) hn.le
  have hring : (m - 1) * n = n * m - n := by ring
  omega

end OnLine

end Pi0Os.Library
