import Mathlib.Tactic.Common

/-! A loop that runs in rounds until one of them ends it. -/

namespace Pi0Os.Library

universe u v

variable {σ : Type u} {ρ : Type v}

/-- At most `fuel` rounds from the `k`-th on. -/
def rounds (round : ℕ → σ → Option ρ × σ) : ℕ → ℕ → σ → Option (ρ × σ)
  | 0, _, _ => none
  | fuel + 1, k, s =>
    match round k s with
    | (some r, s) => some (r, s)
    | (none, s) => rounds round fuel (k + 1) s

/-- While the state keeps `I`, the number of a round decides whether the loop goes on after it. -/
structure Steady (round : ℕ → σ → Option ρ × σ) (I : σ → Prop) (goes : ℕ → Prop) : Prop where
  goes_iff : ∀ k s, I s → ((round k s).1 = none ↔ goes k)
  keeps : ∀ k s, I s → goes k → I (round k s).2

namespace Steady

variable {round : ℕ → σ → Option ρ × σ} {I : σ → Prop} {goes : ℕ → Prop} {s s' : σ} {r : ρ} {k n fuel : ℕ}

lemma rounds_succ (h : Steady round I goes) (hs : I s) (hk : goes k) :
    rounds round (fuel + 1) k s = rounds round fuel (k + 1) (round k s).2 := by
  have hnone := (h.goes_iff k s hs).mpr hk
  rw [rounds]
  split
  · rename_i hr
    rw [hr] at hnone
    cases hnone
  · rename_i hr
    rw [hr]

lemma rounds_end (h : Steady round I goes) (hs : I s) (hk : ¬ goes k) :
    ∃ r s', round k s = (some r, s') ∧ ∀ fuel, rounds round (fuel + 1) k s = some (r, s') := by
  have hsome : (round k s).1 ≠ none := fun hn => hk ((h.goes_iff k s hs).mp hn)
  obtain ⟨r, hr⟩ := Option.ne_none_iff_exists'.mp hsome
  have heq : round k s = (some r, (round k s).2) := Prod.ext hr rfl
  refine ⟨r, (round k s).2, heq, fun fuel => ?_⟩
  rw [rounds, heq]

lemma goes_of_none (h : Steady round I goes) (hs : I s) (hrun : rounds round n k s = none) :
    ∀ j, k ≤ j → j < k + n → goes j := by
  induction n generalizing k s with
  | zero => exact fun j hj hjk => absurd hj (Nat.not_le.mpr hjk)
  | succ n ih =>
    by_cases hk : goes k
    · rw [h.rounds_succ hs hk] at hrun
      intro j hj hjn
      rcases Nat.eq_or_lt_of_le hj with rfl | hlt
      · exact hk
      · exact ih (k := k + 1) (h.keeps k s hs hk) hrun j hlt (by omega)
    · obtain ⟨r, s', -, hend⟩ := h.rounds_end hs hk
      rw [hend] at hrun
      cases hrun

lemma rounds_add (h : Steady round I goes) (hs : I s) (hgo : ∀ j, k ≤ j → j < k + n → goes j) :
    ∃ t, I t ∧ ∀ fuel, rounds round (n + fuel) k s = rounds round fuel (k + n) t := by
  induction n generalizing k s with
  | zero => exact ⟨s, hs, fun fuel => by rw [Nat.zero_add, Nat.add_zero]⟩
  | succ n ih =>
    have hk := hgo k (Nat.le_refl k) (by omega)
    obtain ⟨t, ht, hrun⟩ := ih (k := k + 1) (h.keeps k s hs hk) fun j hj hjn => hgo j (by omega) (by omega)
    refine ⟨t, ht, fun fuel => ?_⟩
    rw [Nat.add_right_comm, h.rounds_succ hs hk, hrun, Nat.add_right_comm, Nat.add_assoc]

/-- A loop ends in the first round that does not go on. -/
lemma ends_at (h : Steady round I goes) (hs : I s) (hgo : ∀ j < n, goes j) (hn : ¬ goes n) :
    rounds round n 0 s = none ∧ ∃ t r s', I t ∧ round n t = (some r, s') ∧ rounds round (n + 1) 0 s = some (r, s') := by
  obtain ⟨t, ht, hrun⟩ := h.rounds_add hs (k := 0) (n := n) fun j _ hj => hgo j (by omega)
  obtain ⟨r, s', hr, hend⟩ := h.rounds_end (k := 0 + n) ht (by rwa [Nat.zero_add])
  refine ⟨hrun 0, t, r, s', ht, by rwa [Nat.zero_add] at hr, ?_⟩
  rw [hrun 1]
  exact hend 0

lemma ended (h : Steady round I goes) (hs : I s) (hnone : rounds round n 0 s = none)
    (hsome : rounds round (n + 1) 0 s = some (r, s')) :
    (∀ j < n, goes j) ∧ ∃ t, I t ∧ round n t = (some r, s') := by
  have hgo : ∀ j < n, goes j := fun j hj => h.goes_of_none hs hnone j (Nat.zero_le j) (by omega)
  have hn : ¬ goes n := by
    intro hn
    obtain ⟨t, ht, hrun⟩ := h.rounds_add hs (k := 0) (n := n) fun j _ hj => hgo j (by omega)
    rw [hrun 1, h.rounds_succ ht (by rwa [Nat.zero_add])] at hsome
    cases hsome
  obtain ⟨-, t, r', s'', ht, hr, hend⟩ := h.ends_at hs hgo hn
  rw [hend] at hsome
  cases hsome
  exact ⟨hgo, t, ht, hr⟩

end Steady

end Pi0Os.Library
