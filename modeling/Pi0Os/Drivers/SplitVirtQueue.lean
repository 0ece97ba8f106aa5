import Pi0Os.Kernel.Base
import Pi0Os.Library.LinkedChain

/-! The split virtqueues of `virtio.h` and `virtio.cpp`. -/

namespace Pi0Os.Drivers

open Kernel Library

structure VirtqDesc where
  addr : ℕ
  len : ℕ
  flags : ℕ
  next : ℕ

abbrev virtqDescFNext : ℕ := 1
abbrev virtqDescFWrite : ℕ := 2

structure VirtqUsedElem where
  id : ℕ
  len : ℕ

-- the table and both rings have `size` entries; the indices are 16 bits wide
structure SplitVirtQueue where
  size : ℕ
  firstFreeDescIdx : ℕ
  lastSeenUsedIdx : ℕ
  descTable : ℕ → VirtqDesc
  availIdx : ℕ
  availRing : ℕ → ℕ
  usedIdx : ℕ
  usedRing : ℕ → VirtqUsedElem

def le16 (n : ℕ) : ℕ := n % 2 ^ 16

namespace SplitVirtQueue

variable (q : SplitVirtQueue)

def setDesc (i : ℕ) (desc : VirtqDesc) : SplitVirtQueue :=
  { q with descTable := Function.update q.descTable i desc }

/-- `virtq_alloc` over the page that `q` is found in. -/
def virtqAlloc (size : ℕ) : SplitVirtQueue :=
  { q with
    size := size
    firstFreeDescIdx := 0
    lastSeenUsedIdx := 0
    descTable := fun i => if i < size then ⟨0, 0, 0, le16 (i + 1)⟩ else q.descTable i }

def allocDesc : ℤ × SplitVirtQueue :=
  if q.firstFreeDescIdx ≥ q.size then (-Err.noMem, q)
  else (q.firstFreeDescIdx, { q with firstFreeDescIdx := (q.descTable q.firstFreeDescIdx).next })

def freeDesc (descIdx : ℤ) : SplitVirtQueue :=
  if descIdx < 0 ∨ descIdx ≥ q.size then q
  else { q.setDesc descIdx.toNat ⟨0, 0, 0, le16 q.firstFreeDescIdx⟩ with firstFreeDescIdx := le16 descIdx.toNat }

def enqueueDesc (descIdx : ℕ) : SplitVirtQueue :=
  { q with
    availRing := Function.update q.availRing (q.availIdx % q.size) (le16 descIdx)
    availIdx := le16 (q.availIdx + 1) }

/-- The rings are the same, whatever happens to the descriptors. -/
structure SameRings (q q' : SplitVirtQueue) : Prop where
  size : q'.size = q.size
  lastSeen : q'.lastSeenUsedIdx = q.lastSeenUsedIdx
  availIdx : q'.availIdx = q.availIdx
  usedIdx : q'.usedIdx = q.usedIdx

lemma sameRings_freeDesc (i : ℤ) : SameRings q (q.freeDesc i) := by
  unfold freeDesc
  split <;> exact ⟨rfl, rfl, rfl, rfl⟩

/-- An index ends the free list when it is outside the table. -/
def link (i : ℕ) : Option ℕ := if i < q.size then some i else none

/-- The descriptors on the free list are those of `l`, in this order. -/
structure FreeList (l : List ℕ) : Prop where
  chain : Chain (fun i => q.link (q.descTable i).next) (q.link q.firstFreeDescIdx) l
  first_lt : q.firstFreeDescIdx < 2 ^ 16
  next_lt : ∀ i ∈ l, (q.descTable i).next < 2 ^ 16

namespace FreeList

variable {q} {d i : ℕ} {l : List ℕ}

lemma head_lt (h : q.FreeList (d :: l)) : d < q.size ∧ q.firstFreeDescIdx = d := by
  have hd := h.chain.1
  rw [link] at hd
  split at hd
  · rename_i hlt
    cases hd
    exact ⟨hlt, rfl⟩
  · cases hd

lemma allocDesc_nil (h : q.FreeList []) : q.allocDesc = (-Err.noMem, q) := by
  refine if_pos (Nat.not_lt.mp fun hlt => ?_)
  have hc := h.chain
  rw [Chain.nil_iff, link, if_pos hlt] at hc
  cases hc

lemma allocDesc_cons (h : q.FreeList (d :: l)) :
    q.allocDesc = ((d : ℤ), { q with firstFreeDescIdx := (q.descTable d).next }) ∧
      FreeList { q with firstFreeDescIdx := (q.descTable d).next } l := by
  obtain ⟨hlt, rfl⟩ := h.head_lt
  exact ⟨if_neg (Nat.not_le.mpr hlt), h.chain.2, h.next_lt _ List.mem_cons_self,
    fun i hi => h.next_lt i (List.mem_cons_of_mem _ hi)⟩

lemma setDesc (h : q.FreeList l) (hi : i ∉ l) (desc : VirtqDesc) : (q.setDesc i desc).FreeList l := by
  have hne : ∀ j ∈ l, (q.setDesc i desc).descTable j = q.descTable j := fun j hj =>
    Function.update_of_ne (ne_of_mem_of_not_mem hj hi) ..
  refine ⟨h.chain.frame fun j hj => ?_, h.first_lt, fun j hj => ?_⟩
  · rw [hne j hj]
    rfl
  · rw [hne j hj]
    exact h.next_lt j hj

lemma freeDesc (h : q.FreeList l) (hi : i ∉ l) (hlt : i < q.size) (hsize : q.size ≤ 2 ^ 16) :
    (q.freeDesc i).FreeList (i :: l) := by
  have hi16 : le16 i = i := Nat.mod_eq_of_lt (hlt.trans_le hsize)
  have hf16 : le16 q.firstFreeDescIdx = q.firstFreeDescIdx := Nat.mod_eq_of_lt h.first_lt
  have hq : q.freeDesc i =
      { q.setDesc i ⟨0, 0, 0, q.firstFreeDescIdx⟩ with firstFreeDescIdx := i } := by
    rw [SplitVirtQueue.freeDesc, if_neg (by omega), Int.toNat_natCast, hi16, hf16]
  have hrest := h.setDesc hi ⟨0, 0, 0, q.firstFreeDescIdx⟩
  rw [hq]
  refine ⟨⟨if_pos hlt, ?_⟩, hlt.trans_le hsize, fun j hj => ?_⟩
  · have hself : ((q.setDesc i ⟨0, 0, 0, q.firstFreeDescIdx⟩).descTable i).next = q.firstFreeDescIdx := by
      simp only [SplitVirtQueue.setDesc, Function.update_self]
    simp only [hself]
    exact hrest.chain
  · rcases List.mem_cons.mp hj with rfl | hj
    · simp only [SplitVirtQueue.setDesc, Function.update_self]
      exact h.first_lt
    · exact hrest.next_lt j hj

lemma congr {q' : SplitVirtQueue} (h : q.FreeList l) (hs : q'.size = q.size) (hd : q'.descTable = q.descTable)
    (hf : q'.firstFreeDescIdx = q.firstFreeDescIdx) : q'.FreeList l := by
  refine ⟨?_, hf ▸ h.first_lt, hd ▸ h.next_lt⟩
  have hlink : q'.link = q.link := by
    funext i
    rw [link, link, hs]
  rw [hlink, hd, hf]
  exact h.chain

lemma enqueueDesc (h : q.FreeList l) (i : ℕ) : (q.enqueueDesc i).FreeList l := ⟨h.chain, h.first_lt, h.next_lt⟩

end FreeList

lemma freeList_range {size : ℕ} (hsize : size < 2 ^ 16) (hq : q.size = size) (hfirst : q.firstFreeDescIdx = 0)
    (hnext : ∀ i < size, (q.descTable i).next = i + 1) : q.FreeList (List.range size) := by
  have hchain : ∀ n i, i + n = size →
      Chain (fun i => q.link (q.descTable i).next) (q.link i) (List.range' i n) := by
    intro n
    induction n with
    | zero => exact fun i hi => if_neg (by omega)
    | succ n ih =>
      intro i hi
      have hlt : i < size := by omega
      refine ⟨if_pos (hq.symm ▸ hlt), ?_⟩
      simp only [hnext i hlt]
      exact ih (i + 1) (by omega)
  refine ⟨?_, hfirst.symm ▸ Nat.two_pow_pos 16, fun i hi => ?_⟩
  · rw [List.range_eq_range', hfirst]
    exact hchain size 0 (Nat.zero_add _)
  · have hlt := List.mem_range.mp hi
    rw [hnext i hlt]
    omega

lemma virtqAlloc_freeList {size : ℕ} (hsize : size < 2 ^ 16) : (q.virtqAlloc size).FreeList (List.range size) := by
  refine freeList_range _ hsize rfl rfl fun i hi => ?_
  simp only [virtqAlloc, if_pos hi]
  exact Nat.mod_eq_of_lt (by omega)

end SplitVirtQueue

end Pi0Os.Drivers
