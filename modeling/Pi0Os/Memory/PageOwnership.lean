import Pi0Os.Memory.PagePartition

/-! The operations of the allocator keep its blocks a partition. `Ready` describes
the lists between two primitive steps, when a block may be held by the running
function; `AllocatorInv` adds the reference counts, which are the only record of who
holds what. -/

namespace Pi0Os.Memory

open Kernel Library PageAllocator

structure Ready (first limit : ℕ) (s : PageAllocator) (free : PageOrder → List ℕ)
    (used : Multiset Block) : Prop where
  limit_le : limit ≤ s.len
  address : s.ramStart + s.len * size1KB ≤ 2 ^ 32
  links : Links s free
  tiled : Tiled first limit free used
  quiet : ∀ b ∈ freeBlocks free, ∀ i, b.span.Covers i → s.refCount i = 0

def Quiet (s : PageAllocator) (b : Block) : Prop := ∀ i, b.span.Covers i → s.refCount i = 0

namespace Ready

variable {first limit : ℕ} {s : PageAllocator} {free : PageOrder → List ℕ} {used : Multiset Block}
variable {p : ℕ} {o big small : PageOrder}

lemma pop (h : Ready first limit s free used) (he : s.freeLists o = some p) :
    ∃ s' rest, popPageFromFreePagesList o s = .ok (p, s') ∧ free o = p :: rest ∧
      Ready first limit s' (Function.update free o rest) (⟨p, o⟩ ::ₘ used) ∧ s.SameCounts s' ∧ Quiet s ⟨p, o⟩ := by
  obtain ⟨rest, hf⟩ := h.links.head_cons he
  have hb : (⟨p, o⟩ : Block) ∈ freeBlocks free := mem_freeBlocks.mpr (by simp [hf])
  obtain ⟨s', hp, hl, hs⟩ := h.links.pop hf (h.quiet _ hb p (Block.covers_head _))
  refine ⟨s', rest, hp, hf, ⟨?_, ?_, hl, h.tiled.take hf, ?_⟩, hs, h.quiet _ hb⟩
  · rw [hs.len]; exact h.limit_le
  · rw [hs.ramStart, hs.len]; exact h.address
  · intro b hm
    rw [hs.refCount]
    apply h.quiet
    rw [← Function.update_eq_self o free, hf, freeBlocks_update_cons]
    exact Multiset.mem_cons_of_mem hm

lemma give (h : Ready first limit s free (⟨p, o⟩ ::ₘ used)) (hq : Quiet s ⟨p, o⟩) :
    ∃ s', appendPageToFreePagesList p o s = .ok s' ∧
      Ready first limit s' (Function.update free o (p :: free o)) used ∧ s.SameCounts s' := by
  have hfree : ∀ o', p ∉ free o' :=
    h.tiled.not_free (b := ⟨p, o⟩) (Multiset.mem_cons_self _ _) (Block.covers_head _)
  obtain ⟨s', hp, hl, hs⟩ := h.links.append hfree o
  refine ⟨s', hp, ⟨?_, ?_, hl, h.tiled.give, ?_⟩, hs⟩
  · rw [hs.len]; exact h.limit_le
  · rw [hs.ramStart, hs.len]; exact h.address
  · intro b hm
    rw [hs.refCount]
    rw [freeBlocks_update_cons, Function.update_eq_self, Multiset.mem_cons] at hm
    rcases hm with rfl | hm
    · exact hq
    · exact h.quiet b hm

lemma buddy (h : Ready first limit s free (⟨p, big⟩ ::ₘ used)) (hs : big.frames = 4 * small.frames)
    {i : ℕ} (hi : i < 4) :
    addr2page s (add32 (s.ramStart + p * size1KB) (i * order2PageSize small)) =
      .ok (p + i * small.frames) := by
  have he := h.tiled.end_le (b := ⟨p, big⟩) (by simp)
  have hl := h.limit_le
  have ha := h.address
  have hp := small.frames_pos
  have hpos : i * small.frames + small.frames ≤ 4 * small.frames := by
    have := Nat.mul_le_mul_right small.frames (Nat.succ_le_of_lt hi)
    rw [Nat.succ_mul] at this
    exact this
  simp only [hs] at he
  rw [order2PageSize_eq, ← Nat.mul_assoc]
  have hlt : s.ramStart + p * size1KB + i * small.frames * size1KB < 2 ^ 32 := by
    simp only [size1KB] at ha ⊢
    omega
  rw [add32_of_lt hlt]
  have hidx : (s.ramStart + p * size1KB + i * small.frames * size1KB - s.ramStart) / size1KB =
      p + i * small.frames := by
    simp only [size1KB]
    omega
  simp only [addr2page, hidx]
  rw [kassert_of (by omega), ok_bind, kassert_of (by omega), ok_bind]
  rfl

lemma split (h : Ready first limit s free (⟨p, big⟩ ::ₘ used)) (ho : smallerOrder big = .ok small)
    (hq : Quiet s ⟨p, big⟩) :
    ∃ s', splitPageInSmallerChunks p big s = .ok s' ∧ Ready first limit s' (Function.update free small
        ([p + 3 * small.frames, p + 2 * small.frames, p + 1 * small.frames, p + 0 * small.frames] ++ free small)) used ∧
      s.SameCounts s' ∧ s'.freeLists small = some (p + 3 * small.frames) := by
  obtain ⟨hs, hbig⟩ := frames_of_smallerOrder ho
  have hnext : s.next p = none := h.links.unlinked p
    (h.tiled.not_free (b := ⟨p, big⟩) (Multiset.mem_cons_self _ _) (Block.covers_head _))
  have hmem := h.tiled.head_mem (b := ⟨p, big⟩) (by simp)
  have hlen : p < s.len := hmem.2.trans_le h.limit_le
  have haddr : page2addr s p = .ok (s.ramStart + p * size1KB) := by
    have ha := h.address
    simp only [page2addr]
    rw [kassert_of hlen, ok_bind, add32_of_lt (by simp only [size1KB] at ha ⊢; omega)]
    rfl
  have hq' : ∀ i < 4, Quiet s ⟨p + i * small.frames, small⟩ := by
    intro i hi j hj
    apply hq
    have hpos : i * small.frames + small.frames ≤ 4 * small.frames := by
      have := Nat.mul_le_mul_right small.frames (Nat.succ_le_of_lt hi)
      rwa [Nat.succ_mul] at this
    simp only [Span.Covers, Block.span] at hj ⊢
    omega
  have hr : Ready first limit s free (⟨p + 0 * small.frames, small⟩ ::ₘ
      ⟨p + 1 * small.frames, small⟩ ::ₘ ⟨p + 2 * small.frames, small⟩ ::ₘ
      ⟨p + 3 * small.frames, small⟩ ::ₘ used) := by
    refine { h with tiled := ?_ }
    simpa only [Nat.zero_mul, Nat.add_zero, Nat.one_mul] using h.tiled.split hs
  obtain ⟨s₁, e₁, r₁, c₁⟩ := hr.give (hq' 0 (by decide))
  obtain ⟨s₂, e₂, r₂, c₂⟩ := r₁.give (by
    intro j hj; rw [c₁.refCount]; exact hq' 1 (by decide) j hj)
  obtain ⟨s₃, e₃, r₃, c₃⟩ := r₂.give (by
    intro j hj; rw [(c₁.trans c₂).refCount]; exact hq' 2 (by decide) j hj)
  obtain ⟨s₄, e₄, r₄, c₄⟩ := r₃.give (by
    intro j hj; rw [((c₁.trans c₂).trans c₃).refCount]; exact hq' 3 (by decide) j hj)
  have hf := r₄.links.chain small
  rw [Function.update_self] at hf
  simp only [Function.update_self, Function.update_idem] at r₄
  refine ⟨s₄, ?_, r₄, ((c₁.trans c₂).trans c₃).trans c₄, hf.1⟩
  simp only [splitPageInSmallerChunks, kassert_of hnext, kassert_of hbig, ho, haddr, ok_bind,
    h.buddy hs (by decide : 0 < 4), h.buddy hs (by decide : 1 < 4), h.buddy hs (by decide : 2 < 4),
    h.buddy hs (by decide : 3 < 4), List.foldlM_cons, List.foldlM_nil, e₁, e₂, e₃, e₄, pure_eq_ok]

end Ready

/-- What an allocation of order `o` does before it sets the reference count: it fails
and changes nothing, or hands out a block taken from the free ones. -/
def Serves (first limit : ℕ) (o : PageOrder)
    (alloc : PageAllocator → Except Panic (Option ℕ × PageAllocator)) : Prop :=
  ∀ s free used, Ready first limit s free used →
    alloc s = .ok (none, s) ∨
    ∃ p s' free', alloc s = .ok (some p, s') ∧ Ready first limit s' free' (⟨p, o⟩ ::ₘ used) ∧
      s.SameCounts s' ∧ Quiet s ⟨p, o⟩

variable {first limit : ℕ}

lemma alloc16KB_serves : Serves first limit .kb16 alloc16KB := by
  intro s free used h
  cases he : s.freeLists .kb16 with
  | none => exact Or.inl (by simp [alloc16KB, he])
  | some p =>
    obtain ⟨s', rest, hp, -, hr, hs, hq⟩ := h.pop he
    exact Or.inr ⟨p, s', _, by simp [alloc16KB, he, hp], hr, hs, hq⟩

lemma allocSplitting_serves {o big : PageOrder} (ho : smallerOrder big = .ok o)
    {bigger : PageAllocator → Except Panic (Option ℕ × PageAllocator)}
    (hb : Serves first limit big bigger) : Serves first limit o (allocSplitting o big bigger) := by
  intro s free used h
  cases he : s.freeLists o with
  | some p =>
    obtain ⟨s', rest, hp, -, hr, hs, hq⟩ := h.pop he
    exact Or.inr ⟨p, s', _, by simp [allocSplitting, he, hp], hr, hs, hq⟩
  | none =>
    rcases hb s free used h with hn | ⟨q, s₁, free₁, hq, hr₁, hs₁, hquiet⟩
    · exact Or.inl (by simp [allocSplitting, he, hn])
    · have hquiet₁ : Quiet s₁ ⟨q, big⟩ := by
        intro i hi
        rw [hs₁.refCount]
        exact hquiet i hi
      obtain ⟨s₂, hsplit, hr₂, hs₂, hlist⟩ := hr₁.split ho hquiet₁
      obtain ⟨s₃, rest, hp, -, hr₃, hs₃, hq₃⟩ := hr₂.pop hlist
      refine Or.inr ⟨_, s₃, _, ?_, hr₃, (hs₁.trans hs₂).trans hs₃, ?_⟩
      · simp [allocSplitting, he, hq, hsplit, hp]
      · intro i hi
        rw [← (hs₁.trans hs₂).refCount]
        exact hq₃ i hi

lemma allocFreePage_serves (o : PageOrder) : Serves first limit o (allocFreePage o) := by
  cases o with
  | kb16 => exact alloc16KB_serves
  | kb4 => exact allocSplitting_serves rfl alloc16KB_serves
  | kb1 => exact allocSplitting_serves rfl (allocSplitting_serves rfl alloc16KB_serves)

end Pi0Os.Memory
