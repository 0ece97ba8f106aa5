import Pi0Os.Memory.ForkCopies

/-! What `vm_free` leaves alone: it lowers the counts of the tables and the frames that the user half
of the address space names, and of its root. -/

namespace Pi0Os.Memory

open Kernel Library PageAllocator

/-- An operation on the free lists. -/
def KeepsCounts (f : PageAllocator → Except Panic PageAllocator) : Prop :=
  ∀ ⦃s s'⦄, f s = .ok s' → s.SameCounts s'

section FreeLists

variable {p : ℕ} {o : PageOrder} {s s' : PageAllocator}

lemma appendPage_keepsCounts : KeepsCounts (appendPageToFreePagesList p o) := by
  intro s s' h
  obtain ⟨-, h⟩ := kassert_bind_eq_ok.mp h
  cases h
  exact ⟨by simp, rfl, rfl⟩

lemma removeAfter_sameCounts {fuel prev : ℕ} (h : removeAfter p s fuel prev = .ok s') : s.SameCounts s' := by
  induction fuel generalizing prev with
  | zero => cases h
  | succ fuel ih =>
    rw [removeAfter] at h
    split at h
    · cases h
    · split_ifs at h
      · cases h
        exact ⟨by simp, rfl, rfl⟩
      · exact ih h

lemma removePage_keepsCounts : KeepsCounts (removePageFromFreePagesList p o) := by
  intro s s' h
  rw [removePageFromFreePagesList] at h
  split at h
  · cases h
    exact ⟨rfl, rfl, rfl⟩
  · split_ifs at h
    · cases h
      exact ⟨by simp, rfl, rfl⟩
    · exact removeAfter_sameCounts h

lemma foldlM_keepsCounts {α : Type} {f : PageAllocator → α → Except Panic PageAllocator}
    (hf : ∀ a, KeepsCounts (f · a)) (as : List α) : KeepsCounts (as.foldlM f) := by
  induction as with
  | nil =>
    intro s s' h
    cases h
    exact ⟨rfl, rfl, rfl⟩
  | cons a as ih =>
    intro s s' h
    have h : (f s a >>= fun s => as.foldlM f s) = .ok s' := by rwa [← List.foldlM_cons]
    obtain ⟨s₁, hs₁, h⟩ := bind_eq_ok.mp h
    exact (hf a hs₁).trans (ih h)

lemma freeOrCoalesce_keepsCounts {bigger : ℕ → PageAllocator → Except Panic PageAllocator}
    (hbigger : ∀ p, KeepsCounts (bigger p)) : KeepsCounts (freeOrCoalesce o bigger p) := by
  intro s s' h
  obtain ⟨free, -, h⟩ := bind_eq_ok.mp h
  cases free with
  | false => exact appendPage_keepsCounts h
  | true =>
    obtain ⟨s₁, hs₁, h⟩ := bind_eq_ok.mp h
    exact (foldlM_keepsCounts (fun _ => removePage_keepsCounts) _ hs₁).trans (hbigger _ h)

lemma freePage_keepsCounts : KeepsCounts (freePage o p) := by
  cases o with
  | kb16 => exact appendPage_keepsCounts
  | kb4 => exact freeOrCoalesce_keepsCounts fun _ => appendPage_keepsCounts
  | kb1 => exact freeOrCoalesce_keepsCounts fun _ => freeOrCoalesce_keepsCounts fun _ => appendPage_keepsCounts

lemma physicalPageFree_other (h : physicalPageFree p o s = .ok s') {q : ℕ} (hq : q ≠ p) :
    s'.refCount q = s.refCount q ∧ s'.ramStart = s.ramStart := by
  have hset : (s.setRefCount p (s.refCount p - 1)).refCount q = s.refCount q := by
    rw [refCount_setRefCount, Function.update_of_ne hq]
  obtain ⟨-, h⟩ := kassert_bind_eq_ok.mp h
  dsimp only at h
  split_ifs at h
  · have hsame := freePage_keepsCounts h
    exact ⟨by rw [hsame.refCount, hset], hsame.ramStart⟩
  · cases h
    exact ⟨hset, rfl⟩

end FreeLists

/-- What freeing tables and frames other than the page `k` does. -/
structure Freed (k : ℕ) (s s' : Vm) : Prop where
  refCount : s'.pages.refCount k = s.pages.refCount k
  ramStart : s'.pages.ramStart = s.pages.ramStart
  zeroed : ∀ a, s'.words a ≠ 0 → s'.words a = s.words a

namespace Freed

variable {k p a : ℕ} {o : PageOrder} {s s₁ s' : Vm}

lemma refl : Freed k s s := ⟨rfl, rfl, fun _ _ => rfl⟩

lemma trans (h : Freed k s s₁) (h' : Freed k s₁ s') : Freed k s s' := by
  refine ⟨h'.refCount.trans h.refCount, h'.ramStart.trans h.ramStart, fun a ha => ?_⟩
  have hsame := h'.zeroed a ha
  exact hsame.trans (h.zeroed a (hsame ▸ ha))

lemma free {pages : PageAllocator} (h : physicalPageFree p o s.pages = .ok pages) (hk : p ≠ k) :
    Freed k s { s with pages := pages } := by
  obtain ⟨hc, hr⟩ := physicalPageFree_other h hk.symm
  exact ⟨hc, hr, fun _ _ => rfl⟩

lemma clear : Freed k s (s.store a 0) := by
  refine ⟨rfl, rfl, fun b hb => ?_⟩
  by_cases hab : b = a
  · subst hab
    exact absurd (Function.update_self ..) hb
  · exact Function.update_of_ne hab ..

end Freed

/-- No table and no frame of the user half is the page `k`. -/
def SparesPage (r k : ℕ) (m : ℕ → ℕ) (root : ℕ) : Prop :=
  ∀ i < kernelStartIdx, m (root + 4 * i) ≠ 0 →
    CoarsePageTableEntry.baseAddress (m (root + 4 * i)) ≠ pageAddr r k ∧
    ∀ j < lvl2Entries, m (lvl2EntryAddr m (root + 4 * i) j) ≠ 0 →
      frameAddr m (root + 4 * i) j ≠ pageAddr r k

lemma SparesPage.freed {r k root : ℕ} {s s' : Vm} (h : SparesPage r k s.words root) (hf : Freed k s s') :
    SparesPage r k s'.words root := by
  intro i hi hne
  have he := hf.zeroed _ hne
  obtain ⟨ht, hj⟩ := h i hi (he ▸ hne)
  refine ⟨by rwa [he], fun j hlt hne' => ?_⟩
  have haddr : lvl2EntryAddr s'.words (root + 4 * i) j = lvl2EntryAddr s.words (root + 4 * i) j := by
    rw [lvl2EntryAddr, he, lvl2EntryAddr]
  rw [haddr] at hne'
  have he' := hf.zeroed _ hne'
  rw [frameAddr, haddr, he']
  exact hj j hlt (he' ▸ hne')

lemma addr2page_ne {s : PageAllocator} {a p k : ℕ} (h : addr2page s a = .ok p) (hr : size1KB ∣ s.ramStart)
    (ha : size1KB ∣ a) (hk : a ≠ pageAddr s.ramStart k) : p ≠ k := by
  obtain ⟨hle, h⟩ := kassert_bind_eq_ok.mp h
  obtain ⟨-, h⟩ := kassert_bind_eq_ok.mp h
  obtain rfl := Except.ok.inj h
  simp only [pageAddr, size1KB] at *
  omega

lemma freeLvl2_freed {k t : ℕ} {js : List ℕ} {s s' : Vm} (hr : size1KB ∣ s.pages.ramStart)
    (hk : ∀ j ∈ js, s.words (t + 4 * j) ≠ 0 →
      SmallPageEntry.baseAddress (s.words (t + 4 * j)) ≠ pageAddr s.pages.ramStart k)
    (h : freeLvl2 t js s = .ok s') : Freed k s s' := by
  induction js generalizing s with
  | nil =>
    cases h
    exact Freed.refl
  | cons j js ih =>
    obtain ⟨hkj, hk⟩ := List.forall_mem_cons.mp hk
    rw [freeLvl2] at h
    split_ifs at h with hz
    · exact ih hr hk h
    · obtain ⟨p, hp, h⟩ := bind_eq_ok.mp h
      obtain ⟨pages, hpages, h⟩ := bind_eq_ok.mp h
      have hd : size1KB ∣ SmallPageEntry.baseAddress (s.words (t + 4 * j)) := by
        simp only [SmallPageEntry.baseAddress, size1KB]
        omega
      have hf : Freed k s (Vm.store { s with pages := pages } (t + 4 * j) 0) :=
        (Freed.free hpages (addr2page_ne hp hr hd (hkj hz))).trans Freed.clear
      refine hf.trans (ih (hf.ramStart ▸ hr) (fun j' hj' hne => ?_) h)
      have he := hf.zeroed _ hne
      rw [he, hf.ramStart]
      exact hk j' hj' (he ▸ hne)

lemma freeLvl1_freed {k root : ℕ} {is : List ℕ} (his : ∀ i ∈ is, i < kernelStartIdx) {s s' : Vm}
    (hr : size1KB ∣ s.pages.ramStart) (hk : SparesPage s.pages.ramStart k s.words root)
    (h : freeLvl1 root is s = .ok s') : Freed k s s' := by
  induction is generalizing s with
  | nil =>
    cases h
    exact Freed.refl
  | cons i is ih =>
    obtain ⟨hi, his⟩ := List.forall_mem_cons.mp his
    rw [freeLvl1] at h
    split_ifs at h with hz
    · exact ih his hr hk h
    · obtain ⟨p, hp, h⟩ := bind_eq_ok.mp h
      obtain ⟨table, htable, h⟩ := bind_eq_ok.mp h
      obtain rfl := phys2virt_eq htable
      obtain ⟨s₁, hs₁, h⟩ := bind_eq_ok.mp h
      obtain ⟨pages, hpages, h⟩ := bind_eq_ok.mp h
      obtain ⟨ht, hj⟩ := hk i hi (not_or.mp hz).1
      have hd : size1KB ∣ CoarsePageTableEntry.baseAddress (s.words (root + 4 * i)) := by
        simp only [CoarsePageTableEntry.baseAddress, size1KB]
        omega
      have hf₁ : Freed k s s₁ := freeLvl2_freed hr (fun j hmem => hj j (List.mem_range.mp hmem)) hs₁
      have hf := (hf₁.trans (Freed.free hpages (addr2page_ne hp hr hd ht))).trans (Freed.clear (a := root + 4 * i))
      exact hf.trans (ih his (hf.ramStart ▸ hr) (hf.ramStart ▸ hk.freed hf) h)

lemma vmFree_freed {first limit k as : ℕ} {s s' : Vm} {live : Finset Block}
    (hb : Blocks first limit s.pages live) (hk : SparesPage s.pages.ramStart k s.words (pageAddr s.pages.ramStart as))
    (has : as ≠ k) (h : vmFree s as = .ok s') : Freed k s s' := by
  obtain ⟨root, hroot, h⟩ := bind_eq_ok.mp h
  obtain rfl := rootTablePtr_eq hb hroot
  obtain ⟨s₁, hs₁, h⟩ := bind_eq_ok.mp h
  obtain ⟨pages, hpages, h⟩ := bind_eq_ok.mp h
  obtain rfl := Except.ok.inj h
  have hr : size1KB ∣ s.pages.ramStart := (show size1KB ∣ size1MB by decide).trans hb.ramAligned
  exact (freeLvl1_freed (fun _ hi => List.mem_range.mp hi) hr hk hs₁).trans (Freed.free hpages has)

end Pi0Os.Memory
