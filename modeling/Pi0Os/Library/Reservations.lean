import Mathlib.Data.List.Pairwise
import Pi0Os.Library.Tiling

/-! Slots that are reserved and given back in runs: a slot is marked exactly if one of the reserved runs covers it. -/

namespace Pi0Os.Library

structure Reservations (marked : ℕ → Prop) (n : ℕ) (live : List Span) : Prop where
  marked_iff : ∀ i < n, marked i ↔ ∃ b ∈ live, b.Covers i
  inside : ∀ b ∈ live, b.start + b.length ≤ n
  disjoint : live.Pairwise Span.Disjoint

lemma Span.Disjoint.symm {b c : Span} (h : b.Disjoint c) : c.Disjoint b := fun i hi => h i hi.symm

/-- The slots of the run are inside and unmarked. -/
def Unmarked (marked : ℕ → Prop) (n : ℕ) (b : Span) : Prop := b.start + b.length ≤ n ∧ ∀ i, b.Covers i → ¬ marked i

namespace Reservations

variable {marked marked' : ℕ → Prop} {n : ℕ} {live : List Span} {b : Span}

lemma empty (h : ∀ i < n, ¬ marked i) : Reservations marked n [] where
  marked_iff i hi := by simpa using h i hi
  inside b hb := by cases hb
  disjoint := List.Pairwise.nil

lemma reserve (h : Reservations marked n live) (hb : Unmarked marked n b)
    (hm : ∀ i, marked' i ↔ b.Covers i ∨ marked i) : Reservations marked' n (b :: live) where
  marked_iff i hi := by
    rw [hm, h.marked_iff i hi]
    simp
  inside := by
    rintro c (_ | ⟨_, hc⟩)
    · exact hb.1
    · exact h.inside c hc
  disjoint := by
    refine List.pairwise_cons.mpr ⟨fun c hc i hi => hb.2 i hi.1 ?_, h.disjoint⟩
    have hin := h.inside c hc
    obtain ⟨-, hi⟩ := hi
    exact (h.marked_iff i (hi.2.trans_le hin)).mpr ⟨c, hc, hi⟩

lemma perm {live' : List Span} (h : Reservations marked n live) (hp : live.Perm live') :
    Reservations marked n live' where
  marked_iff i hi := by
    rw [h.marked_iff i hi]
    simp only [hp.mem_iff]
  inside c hc := h.inside c (hp.mem_iff.mpr hc)
  disjoint := h.disjoint.perm hp Span.Disjoint.symm

lemma release (h : Reservations marked n (b :: live)) (hm : ∀ i, marked' i ↔ marked i ∧ ¬ b.Covers i) :
    Reservations marked' n live := by
  obtain ⟨hother, hrest⟩ := List.pairwise_cons.mp h.disjoint
  refine ⟨fun i hi => ?_, fun c hc => h.inside c (List.mem_cons_of_mem b hc), hrest⟩
  rw [hm, h.marked_iff i hi]
  constructor
  · rintro ⟨⟨c, hc, hcov⟩, hout⟩
    have hne : c ≠ b := by
      rintro rfl
      exact hout hcov
    exact ⟨c, (List.mem_cons.mp hc).resolve_left hne, hcov⟩
  · rintro ⟨c, hc, hcov⟩
    exact ⟨⟨c, List.mem_cons_of_mem b hc, hcov⟩, fun hcov' => hother c hc i ⟨hcov', hcov⟩⟩

end Reservations

end Pi0Os.Library
