import Mathlib.Data.Finset.Basic
import Mathlib.Data.Finset.SDiff
import Mathlib.Tactic

/-! A heap as the set of its live blocks, each with a name of its own, and what a program holds in it beyond those that
were live before. -/

namespace Pi0Os.Library

structure BlockHeap where
  next : ℕ
  live : Finset ℕ
  bound : ∀ p ∈ live, p < next

namespace BlockHeap

def alloc (h : BlockHeap) : BlockHeap where
  next := h.next + 1
  live := insert h.next h.live
  bound p hp := by
    rcases Finset.mem_insert.mp hp with rfl | hp
    · exact Nat.lt_succ_self _
    · exact Nat.lt_succ_of_lt (h.bound p hp)

/-- An allocation that may fail, with the block. -/
def malloc (ok : Bool) (h : BlockHeap) : Option ℕ × BlockHeap := if ok then (some h.next, h.alloc) else (none, h)

def erase (h : BlockHeap) (p : ℕ) : BlockHeap where
  next := h.next
  live := h.live.erase p
  bound q hq := h.bound q (Finset.mem_of_mem_erase hq)

/-- A block can be released once. -/
def release (h : BlockHeap) (p : ℕ) : Option BlockHeap := if p ∈ h.live then some (h.erase p) else none

lemma next_notMem (h : BlockHeap) : h.next ∉ h.live := fun hp => lt_irrefl _ (h.bound _ hp)

end BlockHeap

/-- Beyond the blocks of `base`, the heap has those of the list. -/
structure Holding (base : BlockHeap) (owned : List ℕ) (h : BlockHeap) : Prop where
  live : ∀ p, p ∈ h.live ↔ p ∈ base.live ∨ p ∈ owned
  nodup : owned.Nodup
  new : ∀ p ∈ owned, p ∉ base.live

namespace Holding

variable {base h : BlockHeap} {owned owned' : List ℕ} {p : ℕ}

lemma refl (h : BlockHeap) : Holding h [] h := ⟨by simp, .nil, by simp⟩

lemma live_eq (hh : Holding base [] h) : h.live = base.live := Finset.ext fun p => by simp [hh.live]

lemma perm (hh : Holding base owned h) (hp : owned.Perm owned') : Holding base owned' h where
  live p := by rw [hh.live, hp.mem_iff]
  nodup := hp.nodup_iff.mp hh.nodup
  new p hmem := hh.new p (hp.mem_iff.mpr hmem)

lemma alloc (hh : Holding base owned h) : Holding base (h.next :: owned) h.alloc := by
  have hnext := h.next_notMem
  rw [hh.live, not_or] at hnext
  refine ⟨fun p => ?_, List.nodup_cons.mpr ⟨hnext.2, hh.nodup⟩, fun p hp => ?_⟩
  · rw [BlockHeap.alloc, Finset.mem_insert, hh.live, List.mem_cons]
    tauto
  · rcases List.mem_cons.mp hp with rfl | hp
    · exact hnext.1
    · exact hh.new p hp

lemma release (hh : Holding base (p :: owned) h) : h.release p = some (h.erase p) ∧ Holding base owned (h.erase p) := by
  obtain ⟨hp, hnodup⟩ := List.nodup_cons.mp hh.nodup
  have hlive : p ∈ h.live := (hh.live p).mpr (.inr List.mem_cons_self)
  refine ⟨if_pos hlive, fun q => ?_, hnodup, fun q hq => hh.new q (List.mem_cons_of_mem p hq)⟩
  rw [BlockHeap.erase, Finset.mem_erase, hh.live, List.mem_cons]
  constructor
  · rintro ⟨hne, hq | rfl | hq⟩
    · exact .inl hq
    · exact absurd rfl hne
    · exact .inr hq
  · rintro (hq | hq)
    · exact ⟨fun he => hh.new p List.mem_cons_self (he ▸ hq), .inl hq⟩
    · exact ⟨fun he => hp (he ▸ hq), .inr (.inr hq)⟩

end Holding

end Pi0Os.Library
