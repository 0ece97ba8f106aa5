import Mathlib.Tactic

/-! Positions in a ring: the numbers of a window shorter than the ring stay apart modulo its size. -/

namespace Pi0Os.Library

variable {n u j k : ℕ}

lemma add_mod_inj (h : (u + j) % n = (u + k) % n) (hjk : j ≤ k) (hk : k < j + n) : j = k := by
  have hd : n ∣ (u + k) - (u + j) := Nat.dvd_of_mod_eq_zero (Nat.sub_mod_eq_zero_of_mod_eq h.symm)
  by_contra hne
  have := Nat.le_of_dvd (by omega) hd
  omega

lemma add_mod_ne (hjk : j < k) (hk : k < j + n) : (u + j) % n ≠ (u + k) % n :=
  fun h => hjk.ne (add_mod_inj h hjk.le hk)

end Pi0Os.Library
