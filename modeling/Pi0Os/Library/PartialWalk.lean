import Mathlib.Logic.Function.Iterate
import Mathlib.Order.Preorder.Finite

/-! Walks of a partial function: they end, or in a finite set they come to one place twice. -/

namespace Pi0Os.Library

variable {α : Type*} (f : α → Option α)

/-- Where the walk from `a` is after `n` steps, if it goes that far. -/
def walk (a : α) (n : ℕ) : Option α := (fun o : Option α => o.bind f)^[n] (some a)

def WalkEnds (a : α) : Prop := ∃ n, walk f a n = none

def WalkRepeats (a : α) : Prop := ∃ i j b, i < j ∧ walk f a i = some b ∧ walk f a j = some b

variable {f} {a b : α} {i j k n : ℕ}

lemma walk_succ (a : α) (n : ℕ) : walk f a (n + 1) = (walk f a n).bind f :=
  Function.iterate_succ_apply' _ _ _

lemma walk_add (h : walk f a n = some b) (k : ℕ) : walk f a (n + k) = walk f b k := by
  rw [walk, Nat.add_comm, Function.iterate_add_apply]
  rw [walk] at h
  rw [h]
  rfl

lemma walk_succ_of (h : f a = some b) (n : ℕ) : walk f a (n + 1) = walk f b n := by
  rw [Nat.add_comm]
  exact walk_add (n := 1) h n

lemma walk_none (h : walk f a n = none) (k : ℕ) : walk f a (n + k) = none := by
  induction k with
  | zero => exact h
  | succ k ih => rw [← Nat.add_assoc, walk_succ, ih, Option.bind_none]

lemma WalkEnds.of_step (h : WalkEnds f b) (hab : f a = some b) : WalkEnds f a := by
  obtain ⟨n, hn⟩ := h
  exact ⟨n + 1, (walk_succ_of hab n).trans hn⟩

lemma WalkRepeats.not_ends (h : WalkRepeats f a) : ¬ WalkEnds f a := by
  obtain ⟨i, j, b, hij, hi, hj⟩ := h
  rintro ⟨n, hn⟩
  have hcycle : ∀ q, walk f a (i + q * (j - i)) = some b := by
    intro q
    induction q with
    | zero => rw [Nat.zero_mul, Nat.add_zero, hi]
    | succ q ih =>
      have hround : walk f b (j - i) = some b := by
        rw [← walk_add hi, Nat.add_sub_cancel' hij.le, hj]
      rw [Nat.succ_mul, ← Nat.add_assoc, walk_add ih, hround]
  have hlong : n ≤ i + n * (j - i) :=
    (Nat.le_mul_of_pos_right n (Nat.sub_pos_of_lt hij)).trans (Nat.le_add_left _ _)
  have hnone := walk_none hn (i + n * (j - i) - n)
  rw [Nat.add_sub_cancel' hlong, hcycle] at hnone
  cases hnone

theorem walkEnds_iff {s : Set α} (hs : s.Finite) (ha : a ∈ s) (hf : ∀ x ∈ s, ∀ y, f x = some y → y ∈ s) :
    WalkEnds f a ↔ ¬ WalkRepeats f a := by
  refine ⟨fun h hr => hr.not_ends h, fun h => ?_⟩
  by_contra hends
  have hall : ∀ n, ∃ b ∈ s, walk f a n = some b := by
    intro n
    induction n with
    | zero => exact ⟨a, ha, rfl⟩
    | succ n ih =>
      obtain ⟨b, hb, hn⟩ := ih
      obtain ⟨c, hc⟩ := Option.ne_none_iff_exists'.mp fun hnone => hends ⟨n + 1, hnone⟩
      have hstep : f b = some c := by rw [← hc, walk_succ, hn, Option.bind_some]
      exact ⟨c, hf b hb c hstep, hc⟩
  choose visit hvisit hwalk using hall
  obtain ⟨i, j, hij, heq⟩ := Set.Finite.exists_lt_map_eq_of_forall_mem hvisit hs
  exact h ⟨i, j, visit i, hij, hwalk i, heq ▸ hwalk j⟩

end Pi0Os.Library
