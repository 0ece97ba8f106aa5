import Mathlib.Data.Multiset.Filter
import Mathlib.Data.Multiset.AddSub
import Mathlib.Algebra.Order.Group.Multiset
import Mathlib.Tactic

/-! Multisets of integer intervals that tile a range: every point of the range lies
in exactly one interval and no interval leaves the range. -/

namespace Pi0Os.Library

@[ext] structure Span where
  start : ℕ
  length : ℕ
deriving DecidableEq

namespace Span

def Covers (b : Span) (i : ℕ) : Prop := b.start ≤ i ∧ i < b.start + b.length

instance (b : Span) (i : ℕ) : Decidable (b.Covers i) :=
  inferInstanceAs (Decidable (_ ∧ _))

def Disjoint (b c : Span) : Prop := ∀ i, ¬ (b.Covers i ∧ c.Covers i)

end Span

def Tiles (bs : Multiset Span) (a b : ℕ) : Prop :=
  ∀ i, bs.countP (fun s => s.Covers i) = if a ≤ i ∧ i < b then 1 else 0

namespace Tiles

variable {bs : Multiset Span} {s t : Span} {a b c : ℕ}

lemma empty (a : ℕ) : Tiles 0 a a := by
  intro i
  simp

lemma extend_left (h : Tiles bs b c) (hab : a ≤ b) (hbc : b ≤ c) :
    Tiles (⟨a, b - a⟩ ::ₘ bs) a c := by
  intro i
  have hi := h i
  rw [Multiset.countP_cons, hi]
  simp only [Span.Covers]
  by_cases hl : i < b
  · grind
  · grind

lemma split_cons {p n m : ℕ} :
    Tiles (⟨p, n + m⟩ ::ₘ bs) a b ↔ Tiles (⟨p, n⟩ ::ₘ ⟨p + n, m⟩ ::ₘ bs) a b := by
  refine forall_congr' (fun i => ?_)
  have he : (if Span.Covers ⟨p, n + m⟩ i then 1 else 0) =
      (if Span.Covers ⟨p + n, m⟩ i then 1 else 0) + (if Span.Covers ⟨p, n⟩ i then 1 else 0) := by
    simp only [Span.Covers]
    grind
  rw [Multiset.countP_cons, Multiset.countP_cons, Multiset.countP_cons, he, add_assoc]

lemma inside (h : Tiles (s ::ₘ bs) a b) {i : ℕ} (hi : s.Covers i) : a ≤ i ∧ i < b := by
  have hc := h i
  rw [Multiset.countP_cons, if_pos hi] at hc
  by_contra hn
  rw [if_neg hn] at hc
  omega

lemma disjoint (h : Tiles (s ::ₘ t ::ₘ bs) a b) : s.Disjoint t := by
  rintro i ⟨hs, ht⟩
  have hc := h i
  rw [Multiset.countP_cons, Multiset.countP_cons, if_pos hs, if_pos ht] at hc
  split_ifs at hc
  · omega

lemma quarter (h : Tiles (⟨c, 4 * n⟩ ::ₘ bs) a b) :
    Tiles (⟨c, n⟩ ::ₘ ⟨c + n, n⟩ ::ₘ ⟨c + 2 * n, n⟩ ::ₘ ⟨c + 3 * n, n⟩ ::ₘ bs) a b := by
  have h₃ : Tiles (⟨c, 3 * n⟩ ::ₘ ⟨c + 3 * n, n⟩ ::ₘ bs) a b := by
    apply split_cons.mp
    rwa [show 3 * n + n = 4 * n by ring]
  have h₂ : Tiles (⟨c, 2 * n⟩ ::ₘ ⟨c + 2 * n, n⟩ ::ₘ ⟨c + 3 * n, n⟩ ::ₘ bs) a b := by
    apply split_cons.mp
    rwa [show 2 * n + n = 3 * n by ring]
  apply split_cons.mp
  rwa [show n + n = 2 * n by ring]

end Tiles

end Pi0Os.Library
