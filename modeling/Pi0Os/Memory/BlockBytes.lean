import Mathlib.Tactic
import Mathlib.Data.Set.BooleanAlgebra
import Mathlib.Data.Set.Function
import Mathlib.Order.CompletePartialOrder
import Pi0Os.Memory.PageReferences

/-! The blocks of the allocator as ranges of physical memory: what is in use, and what a new block
has to do with it. -/

namespace Pi0Os.Memory

open Kernel Library

/-- The physical address of a page, `page2addr` of it. -/
def pageAddr (ramStart p : ℕ) : ℕ := ramStart + p * size1KB

def Block.bytes (ramStart : ℕ) (b : Block) : Set ℕ :=
  Set.Ico (pageAddr ramStart b.head) (pageAddr ramStart b.head + order2PageSize b.order)

/-- The blocks in use and the memory that was never handed to the allocator. -/
def inUse (first limit ramStart : ℕ) (live : Finset Block) : Set ℕ :=
  {a | (∃ b ∈ live, a ∈ b.bytes ramStart) ∨ a < pageAddr ramStart first ∨ pageAddr ramStart limit ≤ a}

structure Blocks (first limit : ℕ) (s : PageAllocator) (live : Finset Block) : Prop where
  inv : ∃ free, AllocatorInv first limit s free live
  ramAligned : size1MB ∣ s.ramStart

section Bytes

variable {first limit r : ℕ} {live live' : Finset Block} {b c : Block} {a : ℕ}

lemma bytes_disjoint (h : b.span.Disjoint c.span) : Disjoint (b.bytes r) (c.bytes r) := by
  refine Set.disjoint_left.mpr fun a hb hc => h ((a - r) / size1KB) ?_
  simp only [Block.bytes, pageAddr, Set.mem_Ico, order2PageSize_eq, Span.Covers, Block.span, size1KB] at hb hc ⊢
  omega

lemma bytes_subset_inUse (hb : b ∈ live) : b.bytes r ⊆ inUse first limit r live := fun _ ha => Or.inl ⟨b, hb, ha⟩

lemma inUse_mono (h : live ⊆ live') : inUse first limit r live ⊆ inUse first limit r live' := by
  rintro a (⟨b, hb, ha⟩ | ha)
  · exact Or.inl ⟨b, h hb, ha⟩
  · exact Or.inr ha

lemma mem_bytes_of_lt {n : ℕ} (h : n < order2PageSize b.order) : pageAddr r b.head + n ∈ b.bytes r :=
  ⟨Nat.le_add_right .., Nat.add_lt_add_left h _⟩

end Bytes

namespace Blocks

variable {first limit p : ℕ} {s s' : PageAllocator} {live : Finset Block} {o : PageOrder}

lemma disjoint (h : Blocks first limit s live) {b c : Block} (hb : b ∈ live) (hc : c ∈ live) (hne : b ≠ c) :
    Disjoint (b.bytes s.ramStart) (c.bytes s.ramStart) := by
  obtain ⟨free, hinv⟩ := h.inv
  exact bytes_disjoint (hinv.tiled.disjoint_used hb hc hne)

lemma address (h : Blocks first limit s live) (hb : (⟨p, o⟩ : Block) ∈ live) :
    order2PageSize o ∣ pageAddr s.ramStart p ∧ pageAddr s.ramStart p < 2 ^ 32 ∧
      page2addr s p = .ok (pageAddr s.ramStart p) := by
  obtain ⟨free, hinv⟩ := h.inv
  have hmem : _ ∈ freeBlocks free + live.val := AllocatorInv.mem_used hb
  have hend := hinv.tiled.end_le hmem
  have hlen := hinv.limit_le
  have haddr := hinv.address
  have hpos := o.frames_pos
  have hlt : p < s.len := by
    simp only at hend
    omega
  have hbound : s.ramStart + p * size1KB < 2 ^ 32 := by
    simp only [size1KB] at haddr ⊢
    omega
  refine ⟨?_, hbound, ?_⟩
  · have hd : order2PageSize o ∣ size1MB := by cases o <;> decide
    refine Nat.dvd_add (hd.trans h.ramAligned) ?_
    rw [order2PageSize_eq]
    exact Nat.mul_dvd_mul_right (hinv.tiled.aligned _ hmem) _
  · rw [page2addr, kassert_of hlt, ok_bind, add32_of_lt hbound]
    rfl

lemma page2addr_eq (h : Blocks first limit s live) {a : ℕ} (ha : page2addr s p = .ok a) :
    a = pageAddr s.ramStart p := by
  obtain ⟨free, hinv⟩ := h.inv
  obtain ⟨hlt, ha⟩ := kassert_bind_eq_ok.mp ha
  have hbound : s.ramStart + p * size1KB < 2 ^ 32 := by
    have haddr := hinv.address
    simp only [size1KB] at haddr ⊢
    omega
  rw [add32_of_lt hbound] at ha
  exact (Except.ok.inj ha).symm

lemma unused (h : Blocks first limit s live) {live₀ : Finset Block} {b : Block} (hsub : live₀ ⊆ live)
    (hb : b ∈ live) (hb₀ : b ∉ live₀) : Disjoint (inUse first limit s.ramStart live₀) (b.bytes s.ramStart) := by
  obtain ⟨free, hinv⟩ := h.inv
  refine Set.disjoint_left.mpr ?_
  rintro a (⟨c, hc, hac⟩ | hout) hab
  · have hne : c ≠ b := by
      rintro rfl
      exact hb₀ hc
    exact Set.disjoint_left.mp (h.disjoint (hsub hc) hb hne) hac hab
  · have hmem : _ ∈ freeBlocks free + live.val := AllocatorInv.mem_used hb
    have hhead : pageAddr s.ramStart first ≤ pageAddr s.ramStart b.head :=
      Nat.add_le_add_left (Nat.mul_le_mul_right _ (hinv.tiled.head_mem hmem).1) _
    have hend : pageAddr s.ramStart (b.head + b.order.frames) ≤ pageAddr s.ramStart limit :=
      Nat.add_le_add_left (Nat.mul_le_mul_right _ (hinv.tiled.end_le hmem)) _
    have hlen : pageAddr s.ramStart (b.head + b.order.frames) =
        pageAddr s.ramStart b.head + order2PageSize b.order := by
      rw [order2PageSize_eq, pageAddr, pageAddr, Nat.add_mul, Nat.add_assoc]
    obtain ⟨hlo, hhi⟩ := hab
    omega

/-- A page that heads a block in use, or that the allocator was never handed. -/
def Held (first limit : ℕ) (live : Finset Block) (p : ℕ) : Prop :=
  (∃ o, (⟨p, o⟩ : Block) ∈ live) ∨ ¬ (first ≤ p ∧ p < limit)

lemma retain (h : Blocks first limit s live) (hp : Held first limit live p) :
    Blocks first limit (s.setRefCount p (s.refCount p + 1)) live := by
  obtain ⟨free, hinv⟩ := h.inv
  exact ⟨⟨free, hinv.recount (by linarith [hinv.nonneg p]) hp⟩, h.ramAligned⟩

structure NewBlock (first limit : ℕ) (s s' : PageAllocator) (live : Finset Block) (b : Block) : Prop where
  blocks : Blocks first limit s' (insert b live)
  ramStart : s'.ramStart = s.ramStart
  refCount : s'.refCount = Function.update s.refCount b.head 1
  fresh : b ∉ live
  unused : Disjoint (inUse first limit s.ramStart live) (b.bytes s.ramStart)

lemma alloc (h : Blocks first limit s live) (ha : physicalPageAlloc o s = .ok (some p, s')) :
    NewBlock first limit s s' live ⟨p, o⟩ := by
  obtain ⟨free, hinv⟩ := h.inv
  rcases hinv.alloc o with hn | ⟨p', s'', free', ha', hfresh, hinv', hcount, -, hram⟩
  · rw [hn] at ha
    cases ha
  · rw [ha'] at ha
    cases ha
    have hblocks : Blocks first limit s' (insert ⟨p, o⟩ live) := ⟨⟨free', hinv'⟩, hram ▸ h.ramAligned⟩
    refine ⟨hblocks, hram, hcount, hfresh, ?_⟩
    rw [← hram]
    exact hblocks.unused (Finset.subset_insert ..) (Finset.mem_insert_self ..) hfresh

/-- A block acquired since starts at a page that the allocator owned and that headed no block then. -/
lemma not_held (h : Blocks first limit s live) {live₀ : Finset Block} {b : Block} (hsub : live₀ ⊆ live)
    (hb : b ∈ live) (hb₀ : b ∉ live₀) : ¬ Held first limit live₀ b.head := by
  obtain ⟨free, hinv⟩ := h.inv
  rintro (⟨o, ho⟩ | hout)
  · have he := hinv.order_unique (p := b.head) (o := b.order) hb (hsub ho)
    exact hb₀ (by rwa [← he] at ho)
  · have hmem : b ∈ freeBlocks free + live.val := AllocatorInv.mem_used hb
    exact hout (hinv.tiled.head_mem hmem)

lemma order_eq (h : Blocks first limit s live) {o' : PageOrder} (ho : (⟨p, o⟩ : Block) ∈ live)
    (ho' : (⟨p, o'⟩ : Block) ∈ live) : o = o' := by
  obtain ⟨free, hinv⟩ := h.inv
  exact hinv.order_unique ho ho'

lemma counted (h : Blocks first limit s live) {b : Block} (hb : b ∈ live) : 0 < s.refCount b.head := by
  obtain ⟨free, hinv⟩ := h.inv
  exact hinv.counted b hb

lemma uncounted (h : Blocks first limit s live) (hp : ¬ Held first limit live p) : s.refCount p = 0 := by
  obtain ⟨free, hinv⟩ := h.inv
  obtain ⟨hlive, hin⟩ := not_or.mp hp
  have hin := Classical.not_not.mp hin
  exact hinv.uncounted p hin.1 hin.2 (fun o ho => hlive ⟨o, ho⟩)

end Blocks

end Pi0Os.Memory
