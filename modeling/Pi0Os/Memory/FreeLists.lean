import Pi0Os.Library.LinkedChain
import Pi0Os.Memory.PhysicalAlloc

/-! What the list primitives do to the three free lists, seen as lists of page
indices. The `next` field marks membership only for a page with a successor, so the
useful fact is the converse: a page in no list has a null `next`. -/

namespace Pi0Os.Memory

open Kernel Library

namespace PageAllocator

variable (s : PageAllocator) (p : ℕ) (q : Option ℕ) (n : ℤ) (o : PageOrder)

@[simp] lemma next_setNext : (s.setNext p q).next = Function.update s.next p q := by
  funext r
  by_cases h : r = p <;> simp [next, setNext, h]

@[simp] lemma refCount_setNext : (s.setNext p q).refCount = s.refCount := by
  funext r
  by_cases h : r = p <;> simp [refCount, setNext, h]

@[simp] lemma freeLists_setNext : (s.setNext p q).freeLists = s.freeLists := rfl
@[simp] lemma len_setNext : (s.setNext p q).len = s.len := rfl
@[simp] lemma ramStart_setNext : (s.setNext p q).ramStart = s.ramStart := rfl

@[simp] lemma next_setFreeList : (s.setFreeList o q).next = s.next := rfl
@[simp] lemma refCount_setFreeList : (s.setFreeList o q).refCount = s.refCount := rfl
@[simp] lemma freeLists_setFreeList :
    (s.setFreeList o q).freeLists = Function.update s.freeLists o q := rfl
@[simp] lemma len_setFreeList : (s.setFreeList o q).len = s.len := rfl
@[simp] lemma ramStart_setFreeList : (s.setFreeList o q).ramStart = s.ramStart := rfl

@[simp] lemma next_setRefCount : (s.setRefCount p n).next = s.next := by
  funext r
  by_cases h : r = p <;> simp [next, setRefCount, h]

@[simp] lemma refCount_setRefCount : (s.setRefCount p n).refCount = Function.update s.refCount p n := by
  funext r
  by_cases h : r = p <;> simp [refCount, setRefCount, h]

@[simp] lemma freeLists_setRefCount : (s.setRefCount p n).freeLists = s.freeLists := rfl
@[simp] lemma len_setRefCount : (s.setRefCount p n).len = s.len := rfl
@[simp] lemma ramStart_setRefCount : (s.setRefCount p n).ramStart = s.ramStart := rfl

/-- `s'` differs from `s` in the lists only: every count and the array are the same. -/
structure SameCounts (s s' : PageAllocator) : Prop where
  refCount : s'.refCount = s.refCount
  len : s'.len = s.len
  ramStart : s'.ramStart = s.ramStart

variable {s}

lemma SameCounts.trans {s₁ s₂ s₃ : PageAllocator} (h : SameCounts s₁ s₂) (h' : SameCounts s₂ s₃) :
    SameCounts s₁ s₃ :=
  ⟨h'.refCount.trans h.refCount, h'.len.trans h.len, h'.ramStart.trans h.ramStart⟩

end PageAllocator

/-- The free lists of `s` are the lists `free`, and no other page is linked. -/
structure Links (s : PageAllocator) (free : PageOrder → List ℕ) : Prop where
  chain : ∀ o, Chain s.next (s.freeLists o) (free o)
  unlinked : ∀ p, (∀ o, p ∉ free o) → s.next p = none
  nodup : ∀ o, (free o).Nodup
  separate : ∀ o o' p, p ∈ free o → p ∈ free o' → o = o'

namespace Links

variable {s : PageAllocator} {free : PageOrder → List ℕ} {p : ℕ} {o : PageOrder} {rest : List ℕ}

lemma head_nil (h : Links s free) (he : s.freeLists o = none) : free o = [] := by
  have hc := h.chain o
  rw [he] at hc
  cases hl : free o with
  | nil => rfl
  | cons a l => simp [hl] at hc

lemma head_cons (h : Links s free) (he : s.freeLists o = some p) : ∃ rest, free o = p :: rest := by
  have hc := h.chain o
  rw [he] at hc
  cases hl : free o with
  | nil => simp [hl] at hc
  | cons a l =>
    simp only [hl, Chain.cons_iff, Option.some.injEq] at hc
    exact ⟨l, by rw [hc.1]⟩

lemma congr {s' : PageAllocator} (h : Links s free) (hn : s'.next = s.next)
    (hf : s'.freeLists = s.freeLists) : Links s' free where
  chain o := by rw [hn, hf]; exact h.chain o
  unlinked p hp := by rw [hn]; exact h.unlinked p hp
  nodup := h.nodup
  separate := h.separate

lemma append (h : Links s free) (hp : ∀ o, p ∉ free o) (o : PageOrder) :
    ∃ s', appendPageToFreePagesList p o s = .ok s' ∧
      Links s' (Function.update free o (p :: free o)) ∧ s.SameCounts s' := by
  refine ⟨(s.setNext p (s.freeLists o)).setFreeList o (some p), ?_, ⟨?_, ?_, ?_, ?_⟩, by simp, rfl, rfl⟩
  · simp [appendPageToFreePagesList, h.unlinked p hp]
  · intro o'
    simp only [PageAllocator.next_setFreeList, PageAllocator.next_setNext,
      PageAllocator.freeLists_setFreeList, PageAllocator.freeLists_setNext]
    by_cases ho : o' = o
    · subst ho
      simpa using (h.chain o').push (hp o')
    · simpa [ho] using (h.chain o').update_frame (hp o') _
  · intro q hq
    have hne : q ≠ p := by
      rintro rfl
      simpa using hq o
    simp only [PageAllocator.next_setFreeList, PageAllocator.next_setNext,
      Function.update_of_ne hne]
    refine h.unlinked q (fun o' hm => ?_)
    have hq' := hq o'
    by_cases ho : o' = o
    · subst ho
      simp [hm] at hq'
    · simp [ho, hm] at hq'
  · intro o'
    by_cases ho : o' = o
    · subst ho
      simpa using ⟨hp o', h.nodup o'⟩
    · simpa [ho] using h.nodup o'
  · intro o₁ o₂ q h₁ h₂
    by_cases hq : q = p
    · subst hq
      have h₁' : o₁ = o := by
        by_contra hne
        exact hp o₁ (by simpa [hne] using h₁)
      have h₂' : o₂ = o := by
        by_contra hne
        exact hp o₂ (by simpa [hne] using h₂)
      rw [h₁', h₂']
    · have back : ∀ o', q ∈ Function.update free o (p :: free o) o' → q ∈ free o' := by
        intro o' hm
        by_cases ho : o' = o
        · subst ho
          simpa [hq] using hm
        · simpa [ho] using hm
      exact h.separate o₁ o₂ q (back o₁ h₁) (back o₂ h₂)

lemma pop (h : Links s free) (hf : free o = p :: rest) (hr : s.refCount p = 0) :
    ∃ s', popPageFromFreePagesList o s = .ok (p, s') ∧
      Links s' (Function.update free o rest) ∧ s.SameCounts s' := by
  have hc := h.chain o
  rw [hf] at hc
  have hpr : p ∉ rest := (List.nodup_cons.mp (hf ▸ h.nodup o)).1
  have hother : ∀ o', o' ≠ o → p ∉ free o' := fun o' hne hm =>
    hne (h.separate o' o p hm (by rw [hf]; exact List.mem_cons_self))
  refine ⟨(s.setFreeList o (s.next p)).setNext p none, ?_, ⟨?_, ?_, ?_, ?_⟩, by simp, rfl, rfl⟩
  · simp [popPageFromFreePagesList, hc.1, hr]
  · intro o'
    simp only [PageAllocator.next_setFreeList, PageAllocator.next_setNext,
      PageAllocator.freeLists_setFreeList, PageAllocator.freeLists_setNext]
    by_cases ho : o' = o
    · subst ho
      simpa using hc.2.update_frame hpr none
    · simpa [ho] using (h.chain o').update_frame (hother o' ho) none
  · intro q hq
    simp only [PageAllocator.next_setFreeList, PageAllocator.next_setNext]
    by_cases hqp : q = p
    · rw [hqp, Function.update_self]
    · rw [Function.update_of_ne hqp]
      refine h.unlinked q (fun o' hm => ?_)
      have hq' := hq o'
      by_cases ho : o' = o
      · subst ho
        rw [hf] at hm
        simp [(List.mem_cons.mp hm).resolve_left hqp] at hq'
      · simp [ho, hm] at hq'
  · intro o'
    by_cases ho : o' = o
    · subst ho
      simpa using (List.nodup_cons.mp (hf ▸ h.nodup o')).2
    · simpa [ho] using h.nodup o'
  · have back : ∀ o' q, q ∈ Function.update free o rest o' → q ∈ free o' := by
      intro o' q hm
      by_cases ho : o' = o
      · subst ho
        rw [hf]
        exact List.mem_cons_of_mem p (by simpa using hm)
      · simpa [ho] using hm
    exact fun o₁ o₂ q h₁ h₂ => h.separate o₁ o₂ q (back o₁ q h₁) (back o₂ q h₂)

end Links

end Pi0Os.Memory
