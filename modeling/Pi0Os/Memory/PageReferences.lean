import Pi0Os.Memory.PageOwnership

/-! The invariant of the allocator between two calls, and what `physical_page_alloc`
and `physical_page_free` do to it. -/

namespace Pi0Os.Memory

open Kernel Library PageAllocator

structure AllocatorInv (first limit : ℕ) (s : PageAllocator) (free : PageOrder → List ℕ)
    (live : Finset Block) : Prop extends Ready first limit s free live.val where
  counted : ∀ b ∈ live, 0 < s.refCount b.head
  uncounted : ∀ p, first ≤ p → p < limit → (∀ o, (⟨p, o⟩ : Block) ∉ live) → s.refCount p = 0
  nonneg : ∀ p, 0 ≤ s.refCount p

namespace AllocatorInv

variable {first limit : ℕ} {s : PageAllocator} {free : PageOrder → List ℕ} {live : Finset Block}
variable {p : ℕ} {o : PageOrder}

lemma mem_used {b : Block} (hb : b ∈ live) : b ∈ freeBlocks free + live.val :=
  Multiset.mem_add.mpr (Or.inr hb)

lemma order_unique (h : AllocatorInv first limit s free live) {o' : PageOrder}
    (ho : (⟨p, o⟩ : Block) ∈ live) (ho' : (⟨p, o'⟩ : Block) ∈ live) : o = o' := by
  by_contra hne
  exact h.tiled.disjoint_used ho ho' (by simpa using hne) p ⟨Block.covers_head _, Block.covers_head _⟩

theorem alloc (h : AllocatorInv first limit s free live) (o : PageOrder) :
    physicalPageAlloc o s = .ok (none, s) ∨
    ∃ p s' free', physicalPageAlloc o s = .ok (some p, s') ∧ (⟨p, o⟩ : Block) ∉ live ∧
      AllocatorInv first limit s' free' (insert ⟨p, o⟩ live) ∧
      s'.refCount = Function.update s.refCount p 1 ∧ s'.len = s.len ∧ s'.ramStart = s.ramStart := by
  rcases allocFreePage_serves o s free live.val h.toReady with hn | ⟨p, s₁, free₁, hp, hr, hs, hq⟩
  · exact Or.inl (by simp [physicalPageAlloc, hn])
  have hnew : (⟨p, o⟩ : Block) ∉ live := by
    intro hm
    have hc := h.counted _ hm
    rw [hq p (Block.covers_head _)] at hc
    exact absurd hc (lt_irrefl 0)
  have hused : (insert (⟨p, o⟩ : Block) live).val = ⟨p, o⟩ ::ₘ live.val :=
    Finset.insert_val_of_notMem hnew
  have hcount : (s₁.setRefCount p 1).refCount = Function.update s.refCount p 1 := by
    rw [refCount_setRefCount, hs.refCount]
  have hne : ∀ b ∈ live, b.head ≠ p := by
    rintro b hb rfl
    exact hr.tiled.disjoint_used (b := b) (c := ⟨b.head, o⟩) (Multiset.mem_cons_of_mem hb)
      (Multiset.mem_cons_self _ _) (fun he => hnew (by rw [← he]; exact hb)) b.head
      ⟨b.covers_head, Block.covers_head _⟩
  refine Or.inr ⟨p, s₁.setRefCount p 1, free₁, by simp [physicalPageAlloc, hp], hnew, ?_, hcount,
    hs.len, hs.ramStart⟩
  refine { limit_le := hr.limit_le, address := hr.address, links := hr.links.congr (by simp) rfl,
           tiled := hused ▸ hr.tiled, quiet := ?_, counted := ?_, uncounted := ?_, nonneg := ?_ }
  · intro b hb i hi
    have hip : i ≠ p := by
      rintro rfl
      exact hr.tiled.disjoint_free_used hb (c := ⟨i, o⟩) (Multiset.mem_cons_self _ _) i
        ⟨hi, Block.covers_head _⟩
    rw [hcount, Function.update_of_ne hip, ← hs.refCount]
    exact hr.quiet b hb i hi
  · intro b hb
    rw [hcount]
    rcases Finset.mem_insert.mp hb with rfl | hb
    · simp
    · rw [Function.update_of_ne (hne b hb)]
      exact h.counted b hb
  · intro q hq₁ hq₂ hq₃
    have hqp : q ≠ p := by
      rintro rfl
      exact hq₃ o (Finset.mem_insert_self _ _)
    rw [hcount, Function.update_of_ne hqp]
    exact h.uncounted q hq₁ hq₂ (fun o' hm => hq₃ o' (Finset.mem_insert_of_mem hm))
  · intro q
    rw [hcount]
    by_cases hqp : q = p
    · simp [hqp]
    · rw [Function.update_of_ne hqp]
      exact h.nonneg q

lemma recount (h : AllocatorInv first limit s free live) {n : ℤ} (hn : 0 < n)
    (hp : (∃ o, (⟨p, o⟩ : Block) ∈ live) ∨ ¬ (first ≤ p ∧ p < limit)) :
    AllocatorInv first limit (s.setRefCount p n) free live := by
  refine { limit_le := h.limit_le, address := h.address, links := h.links.congr (by simp) rfl,
           tiled := h.tiled, quiet := ?_, counted := ?_, uncounted := ?_, nonneg := ?_ }
  · intro b hb i hi
    have hip : i ≠ p := by
      rintro rfl
      rcases hp with ⟨o, ho⟩ | hout
      · exact h.tiled.disjoint_free_used hb (c := ⟨i, o⟩) ho i ⟨hi, Block.covers_head _⟩
      · exact hout (h.tiled.inside (Multiset.mem_add.mpr (Or.inl hb)) hi)
    rw [refCount_setRefCount, Function.update_of_ne hip]
    exact h.quiet b hb i hi
  · intro b hb
    rw [refCount_setRefCount]
    by_cases hbp : b.head = p
    · simpa [hbp] using hn
    · rw [Function.update_of_ne hbp]
      exact h.counted b hb
  · intro q hq₁ hq₂ hq₃
    have hqp : q ≠ p := by
      rintro rfl
      rcases hp with ⟨o, ho⟩ | hout
      · exact hq₃ o ho
      · exact hout ⟨hq₁, hq₂⟩
    rw [refCount_setRefCount, Function.update_of_ne hqp]
    exact h.uncounted q hq₁ hq₂ hq₃
  · intro q
    rw [refCount_setRefCount]
    by_cases hqp : q = p
    · simpa [hqp] using hn.le
    · rw [Function.update_of_ne hqp]
      exact h.nonneg q

end AllocatorInv

/-- The page being freed is one of its own four buddies and its `next` is null, so the
scan always stops early: the coalescing branch of `_physical_page_free` is dead. -/
lemma allBuddiesFree_false {s : PageAllocator} {first distance : ℕ} {is : List ℕ}
    (hn : ∀ p, 0 ≤ s.refCount p) (hi : ∃ i ∈ is, s.next (first + i * distance) = none) :
    allBuddiesFree s first distance is = .ok false := by
  induction is with
  | nil => simp at hi
  | cons i is ih =>
    by_cases h : s.next (first + i * distance) = none
    · simp [allBuddiesFree, hn, h]
    · have hrest : ∃ j ∈ is, s.next (first + j * distance) = none := by
        obtain ⟨j, hj, he⟩ := hi
        rcases List.mem_cons.mp hj with rfl | hj
        · exact absurd he h
        · exact ⟨j, hj, he⟩
      simp [allBuddiesFree, hn, h, ih hrest]

lemma freeOrCoalesce_append {s : PageAllocator} {p : ℕ} {o : PageOrder}
    (bigger : ℕ → PageAllocator → Except Panic PageAllocator) (hn : ∀ p, 0 ≤ s.refCount p)
    (hp : s.next p = none) (ha : o.frames ∣ p) :
    freeOrCoalesce o bigger p s = appendPageToFreePagesList p o s := by
  have hd : order2PageSize o / size1KB = o.frames := by cases o <;> rfl
  have hbuddy : ∃ i ∈ [0, 1, 2, 3],
      s.next (roundDown p (4 * o.frames) + i * o.frames) = none := by
    obtain ⟨k, hk⟩ := ha
    refine ⟨k % 4, ?_, ?_⟩
    · have := Nat.mod_lt k (by decide : 4 > 0)
      simp only [List.mem_cons, List.not_mem_nil, or_false]
      omega
    · have he : roundDown p (4 * o.frames) + k % 4 * o.frames = p := by
        have hdiv : p / (4 * o.frames) = k / 4 := by
          rw [hk, Nat.mul_comm 4, Nat.mul_div_mul_left _ _ o.frames_pos]
        rw [roundDown, hdiv, ← Nat.mul_assoc, ← Nat.add_mul, Nat.div_add_mod', hk, Nat.mul_comm]
      rw [he, hp]
  simp [freeOrCoalesce, hd, allBuddiesFree_false hn hbuddy]

lemma freePage_append {s : PageAllocator} {p : ℕ} {o : PageOrder} (hn : ∀ p, 0 ≤ s.refCount p)
    (hp : s.next p = none) (ha : o.frames ∣ p) :
    freePage o p s = appendPageToFreePagesList p o s := by
  cases o with
  | kb16 => rfl
  | kb4 => exact freeOrCoalesce_append (freePage .kb16) hn hp ha
  | kb1 => exact freeOrCoalesce_append (freePage .kb4) hn hp ha

namespace AllocatorInv

variable {first limit : ℕ} {s : PageAllocator} {free : PageOrder → List ℕ} {live : Finset Block}
variable {p : ℕ} {o : PageOrder}

theorem free_page (h : AllocatorInv first limit s free live) (hb : (⟨p, o⟩ : Block) ∈ live) :
    ∃ s' free', physicalPageFree p o s = .ok s' ∧
      AllocatorInv first limit s' free' (if s'.refCount p = 0 then live.erase ⟨p, o⟩ else live) ∧
      s'.refCount = Function.update s.refCount p (s.refCount p - 1) ∧ s'.len = s.len ∧
      s'.ramStart = s.ramStart := by
  have hc := h.counted _ hb
  by_cases hone : s.refCount p = 1
  · -- the last reference: the block goes back to the list of its order
    have hnext : s.next p = none :=
      h.links.unlinked p (h.tiled.not_free (b := ⟨p, o⟩) hb (Block.covers_head _))
    have hfree : freePage o p (s.setRefCount p 0) = appendPageToFreePagesList p o (s.setRefCount p 0) := by
      apply freePage_append
      · intro q
        rw [refCount_setRefCount]
        by_cases hq : q = p
        · simp [hq]
        · rw [Function.update_of_ne hq]
          exact h.nonneg q
      · simpa using hnext
      · exact h.tiled.aligned _ (mem_used hb)
    have hval : live.val = ⟨p, o⟩ ::ₘ (live.erase ⟨p, o⟩).val := by
      rw [Finset.erase_val]
      exact (Multiset.cons_erase hb).symm
    have hquiet : ∀ i, (⟨p, o⟩ : Block).span.Covers i → (s.setRefCount p 0).refCount i = 0 := by
      intro i hi
      rw [refCount_setRefCount]
      by_cases hip : i = p
      · simp [hip]
      · rw [Function.update_of_ne hip]
        have hin := h.tiled.inside (mem_used hb) hi
        refine h.uncounted i hin.1 hin.2 (fun o' hm => ?_)
        exact h.tiled.disjoint_used hb hm (by rintro he; exact hip (congrArg Block.head he).symm) i
          ⟨hi, Block.covers_head _⟩
    have hr : Ready first limit (s.setRefCount p 0) free (⟨p, o⟩ ::ₘ (live.erase ⟨p, o⟩).val) := by
      refine ⟨h.limit_le, h.address, h.links.congr (by simp) rfl, hval ▸ h.tiled, ?_⟩
      intro b hm i hi
      have hip : i ≠ p := by
        rintro rfl
        exact h.tiled.disjoint_free_used hm (c := ⟨i, o⟩) hb i ⟨hi, Block.covers_head _⟩
      rw [refCount_setRefCount, Function.update_of_ne hip]
      exact h.quiet b hm i hi
    obtain ⟨s', ha, hr', hs⟩ := hr.give hquiet
    have hcount : s'.refCount = Function.update s.refCount p 0 := by
      rw [hs.refCount, refCount_setRefCount]
    refine ⟨s', Function.update free o (p :: free o), ?_, ?_, by rw [hcount, hone, Int.sub_self],
      hs.len, hs.ramStart⟩
    · simp [physicalPageFree, hone, hfree, ha]
    · rw [if_pos (by simp [hcount])]
      refine { toReady := hr', counted := ?_, uncounted := ?_, nonneg := ?_ }
      · intro b hm
        obtain ⟨hne, hlive⟩ := Finset.mem_erase.mp hm
        have hbp : b.head ≠ p := fun he =>
          hne (Block.ext he (h.order_unique (p := p) (by rw [← he]; exact hlive) hb))
        rw [hcount, Function.update_of_ne hbp]
        exact h.counted b hlive
      · intro q hq₁ hq₂ hq₃
        rw [hcount]
        by_cases hqp : q = p
        · simp [hqp]
        · rw [Function.update_of_ne hqp]
          refine h.uncounted q hq₁ hq₂ (fun o' hm => hq₃ o' (Finset.mem_erase.mpr ⟨?_, hm⟩))
          rintro he
          exact hqp (congrArg Block.head he)
      · intro q
        rw [hcount]
        by_cases hqp : q = p
        · simp [hqp]
        · rw [Function.update_of_ne hqp]
          exact h.nonneg q
  · have hmore : 0 < s.refCount p - 1 := by
      have : 0 < s.refCount p := hc
      omega
    refine ⟨s.setRefCount p (s.refCount p - 1), free, ?_, ?_, refCount_setRefCount .., rfl, rfl⟩
    · simp only [physicalPageFree]
      rw [kassert_of hc, ok_bind, if_neg (by simp; omega)]
      rfl
    · rw [if_neg (by simp; omega)]
      exact h.recount hmore (Or.inl ⟨o, hb⟩)

end AllocatorInv

end Pi0Os.Memory
