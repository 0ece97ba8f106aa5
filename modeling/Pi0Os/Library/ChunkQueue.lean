import Mathlib.Tactic

/-! A queue of chunks of which readers take items, each time from one chunk only. -/

namespace Pi0Os.Library

variable {α : Type*}

/-- What is left of the chunks when the first `n` items are taken. -/
def remaining : List (List α) → ℕ → List (List α)
  | [], _ => []
  | chunk :: chunks, n =>
    if n < chunk.length then chunk.drop n :: chunks else remaining chunks (n - chunk.length)

variable {chunks : List (List α)}

lemma remaining_zero (h : [] ∉ chunks) : remaining chunks 0 = chunks := by
  cases chunks with
  | nil => rfl
  | cons chunk chunks =>
    have hne : chunk ≠ [] := fun he => h (he ▸ List.mem_cons_self)
    rw [remaining, if_pos (List.length_pos_of_ne_nil hne), List.drop_zero]

lemma flatten_remaining (chunks : List (List α)) (n : ℕ) :
    (remaining chunks n).flatten = chunks.flatten.drop n := by
  induction chunks generalizing n with
  | nil => rw [remaining, List.flatten_nil, List.drop_nil]
  | cons chunk chunks ih =>
    rw [remaining, List.flatten_cons]
    split
    · rename_i hlt
      rw [List.flatten_cons, List.drop_append_of_le_length hlt.le]
    · rename_i hle
      rw [ih, List.drop_append, List.drop_of_length_le (Nat.not_lt.mp hle), List.nil_append]

lemma nil_notMem_remaining (h : [] ∉ chunks) (n : ℕ) : [] ∉ remaining chunks n := by
  induction chunks generalizing n with
  | nil => exact h
  | cons chunk chunks ih =>
    have hrest : [] ∉ chunks := fun hm => h (List.mem_cons_of_mem _ hm)
    rw [remaining]
    split
    · rename_i hlt
      intro hm
      rcases List.mem_cons.mp hm with he | hm
      · exact absurd (List.drop_eq_nil_iff.mp he.symm) (by omega)
      · exact hrest hm
    · exact ih hrest _

lemma remaining_add (h : [] ∉ chunks) (m n : ℕ) :
    remaining chunks (m + n) = remaining (remaining chunks m) n := by
  induction chunks generalizing m with
  | nil => rfl
  | cons chunk chunks ih =>
    have hrest : [] ∉ chunks := fun hm => h (List.mem_cons_of_mem _ hm)
    by_cases hm : m < chunk.length
    · rw [remaining, remaining, if_pos hm, remaining, List.length_drop, List.drop_drop]
      by_cases hn : m + n < chunk.length
      · rw [if_pos hn, if_pos (by omega)]
      · rw [if_neg hn, if_neg (by omega)]
        congr 1
        omega
    · rw [remaining, if_neg (by omega), remaining, if_neg hm, ← ih hrest]
      congr 1
      omega

lemma remaining_append {n : ℕ} (hn : n ≤ chunks.flatten.length) {last : List α} (hlast : last ≠ []) :
    remaining (chunks ++ [last]) n = remaining chunks n ++ [last] := by
  induction chunks generalizing n with
  | nil =>
    obtain rfl : n = 0 := Nat.le_zero.mp hn
    exact remaining_zero (by simpa using hlast.symm)
  | cons chunk chunks ih =>
    rw [List.flatten_cons, List.length_append] at hn
    rw [List.cons_append, remaining, remaining]
    split
    · rfl
    · exact ih (by omega)

lemma mem_remaining {n : ℕ} {c : List α} (h : c ∈ remaining chunks n) : ∃ chunk ∈ chunks, c <:+ chunk := by
  induction chunks generalizing n with
  | nil => cases h
  | cons chunk chunks ih =>
    rw [remaining] at h
    split at h
    · rcases List.mem_cons.mp h with rfl | h
      · exact ⟨chunk, List.mem_cons_self, List.drop_suffix n chunk⟩
      · exact ⟨c, List.mem_cons_of_mem _ h, List.suffix_rfl⟩
    · obtain ⟨d, hd, hs⟩ := ih h
      exact ⟨d, List.mem_cons_of_mem _ hd, hs⟩

end Pi0Os.Library
