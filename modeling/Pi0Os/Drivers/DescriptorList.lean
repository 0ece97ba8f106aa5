import Pi0Os.Drivers.SplitVirtQueue
import Pi0Os.Library.TransitionSystem
import Mathlib.Data.Finset.Insert
import Mathlib.Tactic

/-! The free list of a virtqueue through any sequence of allocations and frees, while the owners of descriptors
write to them. -/

namespace Pi0Os.Drivers

open Kernel Library

namespace SplitVirtQueue

variable {q q' : SplitVirtQueue} {i : ℕ} {l : List ℕ}

/-- The index to which the `next` fields of `l` lead from `head`. -/
def leadsTo (q : SplitVirtQueue) : ℕ → List ℕ → ℕ
  | head, [] => head
  | _, d :: l => leadsTo q (q.descTable d).next l

/-- The number at the end of the free list. -/
def freeEnd (q : SplitVirtQueue) (l : List ℕ) : ℕ := q.leadsTo q.firstFreeDescIdx l

lemma leadsTo_congr {head : ℕ} (h : ∀ d ∈ l, (q'.descTable d).next = (q.descTable d).next) :
    q'.leadsTo head l = q.leadsTo head l := by
  induction l generalizing head with
  | nil => rfl
  | cons d l ih =>
    rw [leadsTo, leadsTo, h d List.mem_cons_self]
    exact ih fun e he => h e (List.mem_cons_of_mem d he)

lemma setDesc_next (hi : i ∉ l) (desc : VirtqDesc) : ∀ d ∈ l, ((q.setDesc i desc).descTable d).next =
    (q.descTable d).next := fun d hd =>
  congrArg VirtqDesc.next (Function.update_of_ne (ne_of_mem_of_not_mem hd hi) ..)

lemma freeEnd_virtqAlloc {size : ℕ} (hsize : size < 2 ^ 16) : (q.virtqAlloc size).freeEnd (List.range size) = size := by
  have hleads : ∀ n i, i + n = size → (q.virtqAlloc size).leadsTo i (List.range' i n) = size := by
    intro n
    induction n with
    | zero => exact fun i hi => hi
    | succ n ih =>
      intro i hi
      have hnext : ((q.virtqAlloc size).descTable i).next = i + 1 := by
        simp only [virtqAlloc, if_pos (by omega : i < size)]
        exact Nat.mod_eq_of_lt (by omega)
      rw [List.range'_succ, leadsTo, hnext]
      exact ih (i + 1) (by omega)
  rw [List.range_eq_range']
  exact hleads size 0 (Nat.zero_add _)

lemma freeEnd_freeDesc (h : q.FreeList l) (hi : i ∉ l) (hlt : i < q.size) (hsize : q.size ≤ 2 ^ 16) :
    (q.freeDesc i).freeEnd (i :: l) = q.freeEnd l := by
  have hf16 : le16 q.firstFreeDescIdx = q.firstFreeDescIdx := Nat.mod_eq_of_lt h.first_lt
  have hq : (q.freeDesc i).descTable = (q.setDesc i ⟨0, 0, 0, q.firstFreeDescIdx⟩).descTable := by
    rw [freeDesc, if_neg (by omega), Int.toNat_natCast, hf16]
  have hnext : ((q.freeDesc i).descTable i).next = q.firstFreeDescIdx := by
    have hself : (q.setDesc i ⟨0, 0, 0, q.firstFreeDescIdx⟩).descTable i = ⟨0, 0, 0, q.firstFreeDescIdx⟩ :=
      Function.update_self ..
    rw [hq, hself]
  rw [freeEnd, leadsTo, hnext]
  exact leadsTo_congr fun d hd => by rw [hq, setDesc_next hi _ d hd]

end SplitVirtQueue

inductive DescCall where
  | alloc
  | free (d : ℕ)
  | write (d : ℕ) (desc : VirtqDesc)

/-- A queue and the descriptors that have been given out. -/
structure DescUse where
  q : SplitVirtQueue
  held : Finset ℕ

namespace DescUse

def Allowed (s : DescUse) : DescCall → Prop
  | .alloc => True
  | .free d => d ∈ s.held
  | .write d _ => d ∈ s.held

def step (s : DescUse) : DescCall → DescUse
  | .alloc => ⟨s.q.allocDesc.2, if s.q.allocDesc.1 < 0 then s.held else insert s.q.allocDesc.1.toNat s.held⟩
  | .free d => ⟨s.q.freeDesc d, s.held.erase d⟩
  | .write d desc => ⟨s.q.setDesc d desc, s.held⟩

/-- Any calls from a fresh queue of `n` descriptors on. -/
def system (n : ℕ) : TransitionSystem DescUse DescCall where
  Init s := ∃ q : SplitVirtQueue, s = ⟨q.virtqAlloc n, ∅⟩
  Step s call s' := s.Allowed call ∧ s' = s.step call

/-- The free list is `l`, without repetition, ends at `n` and has the descriptors that are not given out. -/
structure Separated (n : ℕ) (s : DescUse) (l : List ℕ) : Prop where
  size : s.q.size = n
  free : s.q.FreeList l
  nodup : l.Nodup
  ends : s.q.freeEnd l = n
  disjoint : ∀ d ∈ l, d ∉ s.held
  covers : ∀ d, d < n ↔ d ∈ l ∨ d ∈ s.held

/-- An allocation gives a descriptor that is not in use, or there is none. -/
def AllocFresh (n : ℕ) (s : DescUse) : Prop :=
  s.q.allocDesc.1 = -Err.noMem ∧ (∀ d < n, d ∈ s.held) ∨ ∃ d < n, d ∉ s.held ∧ s.q.allocDesc.1 = d

namespace Separated

variable {n d : ℕ} {s : DescUse} {l : List ℕ}

lemma init (q : SplitVirtQueue) (hn : n < 2 ^ 16) : Separated n ⟨q.virtqAlloc n, ∅⟩ (List.range n) where
  size := rfl
  free := SplitVirtQueue.virtqAlloc_freeList q hn
  nodup := List.nodup_range
  ends := SplitVirtQueue.freeEnd_virtqAlloc hn
  disjoint d _ := Finset.notMem_empty d
  covers d := by
    rw [List.mem_range]
    exact (or_iff_left (Finset.notMem_empty d)).symm

lemma alloc (h : Separated n s l) : ∃ l', Separated n (s.step .alloc) l' := by
  cases l with
  | nil =>
    have halloc := h.free.allocDesc_nil
    refine ⟨[], ?_⟩
    rw [step, halloc, if_pos (by decide : -Err.noMem < 0)]
    exact h
  | cons d l =>
    obtain ⟨halloc, hfree⟩ := h.free.allocDesc_cons
    obtain ⟨hd, hl⟩ := List.nodup_cons.mp h.nodup
    obtain ⟨hlt, hfirst⟩ := h.free.head_lt
    refine ⟨l, ?_⟩
    rw [step, halloc, if_neg (not_lt.mpr (Int.natCast_nonneg d)), Int.toNat_natCast]
    have hends : s.q.allocDesc.2.leadsTo (s.q.descTable d).next l = s.q.leadsTo (s.q.descTable d).next l :=
      SplitVirtQueue.leadsTo_congr fun e _ => by rw [halloc]
    rw [halloc] at hends
    refine ⟨h.size, hfree, hl, hends.trans h.ends, fun e he => ?_, fun e => ?_⟩
    · rw [Finset.mem_insert, not_or]
      exact ⟨ne_of_mem_of_not_mem he hd, h.disjoint e (List.mem_cons_of_mem d he)⟩
    · rw [h.covers, List.mem_cons, Finset.mem_insert]
      tauto

lemma freeDesc (h : Separated n s l) (hn : n < 2 ^ 16) (hd : d ∈ s.held) :
    Separated n (s.step (.free d)) (d :: l) := by
  have hl : d ∉ l := fun he => h.disjoint d he hd
  have hlt : d < s.q.size := h.size.symm ▸ (h.covers d).mpr (.inr hd)
  have hsize : s.q.size ≤ 2 ^ 16 := h.size.trans_le hn.le
  refine ⟨?_, h.free.freeDesc hl hlt hsize, List.nodup_cons.mpr ⟨hl, h.nodup⟩,
    (SplitVirtQueue.freeEnd_freeDesc h.free hl hlt hsize).trans h.ends, fun e he => ?_, fun e => ?_⟩
  · exact (s.q.sameRings_freeDesc d).size.trans h.size
  · rcases List.mem_cons.mp he with rfl | he
    · exact Finset.notMem_erase e s.held
    · exact fun hheld => h.disjoint e he (Finset.mem_of_mem_erase hheld)
  · rw [h.covers, List.mem_cons, step, Finset.mem_erase]
    by_cases hed : e = d
    · rw [hed]
      tauto
    · tauto

/-- What the owner of a descriptor writes to it is not on the list. -/
lemma write (h : Separated n s l) (hd : d ∈ s.held) (desc : VirtqDesc) : Separated n (s.step (.write d desc)) l := by
  have hl : d ∉ l := fun he => h.disjoint d he hd
  exact { h with
    free := h.free.setDesc hl desc
    ends := (SplitVirtQueue.leadsTo_congr (SplitVirtQueue.setDesc_next hl desc)).trans h.ends }

lemma step (h : Separated n s l) (hn : n < 2 ^ 16) {call : DescCall} (hallowed : s.Allowed call) :
    ∃ l', Separated n (s.step call) l' := by
  cases call with
  | alloc => exact h.alloc
  | free d => exact ⟨d :: l, h.freeDesc hn hallowed⟩
  | write d desc => exact ⟨l, h.write hallowed desc⟩

lemma allocFresh (h : Separated n s l) : s.AllocFresh n := by
  cases l with
  | nil =>
    refine .inl ⟨congrArg Prod.fst h.free.allocDesc_nil, fun d hd => ?_⟩
    exact ((h.covers d).mp hd).resolve_left List.not_mem_nil
  | cons d l =>
    refine .inr ⟨d, (h.covers d).mpr (.inl List.mem_cons_self), h.disjoint d List.mem_cons_self, ?_⟩
    exact congrArg Prod.fst h.free.allocDesc_cons.1

end Separated

lemma reachable_step {n : ℕ} {s : DescUse} (h : (system n).Reachable s) (call : DescCall) (ha : s.Allowed call) :
    (system n).Reachable (s.step call) := h.step ⟨ha, rfl⟩

/-- The free list after any sequence of calls. -/
theorem freeList_separated {n : ℕ} (hn : n < 2 ^ 16) {s : DescUse} (h : (system n).Reachable s) :
    (∃ l, Separated n s l) ∧ s.AllocFresh n := by
  have hinv : (system n).Inductive fun s => ∃ l, Separated n s l := by
    refine ⟨?_, ?_⟩
    · rintro s ⟨q, rfl⟩
      exact ⟨List.range n, .init q hn⟩
    · rintro s call s' ⟨l, hl⟩ ⟨hallowed, rfl⟩
      exact hl.step hn hallowed
  obtain ⟨l, hl⟩ := h.invariant hinv
  exact ⟨⟨l, hl⟩, hl.allocFresh⟩

def emptyPage : SplitVirtQueue := ⟨0, 0, 0, fun _ => ⟨0, 0, 0, 0⟩, 0, fun _ => 0, 0, fun _ => ⟨0, 0⟩⟩

/-- Of three descriptors 0 and 1 are given out, chained to each other by their owner, and 0 is freed. -/
def pairOfThree : DescUse :=
  ((((DescUse.mk (emptyPage.virtqAlloc 3) ∅).step .alloc).step .alloc).step (.write 0 ⟨0, 0, 1, 1⟩)).step (.free 0)

theorem freeList_separated_pair : (∃ l, Separated 3 pairOfThree l) ∧ pairOfThree.AllocFresh 3 := by
  refine freeList_separated (by decide) ?_
  have h₀ : (system 3).Reachable ⟨emptyPage.virtqAlloc 3, ∅⟩ := .init ⟨emptyPage, rfl⟩
  have h₂ := reachable_step (reachable_step h₀ .alloc trivial) .alloc trivial
  have hheld₂ : 0 ∈ (((DescUse.mk (emptyPage.virtqAlloc 3) ∅).step .alloc).step .alloc).held := by decide
  have h₃ := reachable_step h₂ (.write 0 ⟨0, 0, 1, 1⟩) hheld₂
  exact reachable_step h₃ (.free 0) hheld₂

end DescUse

end Pi0Os.Drivers
