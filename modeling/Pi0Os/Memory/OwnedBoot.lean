import Pi0Os.Memory.EarlyMappings
import Pi0Os.Memory.OwnedFree

/-! `vm_init`: the kernel's address space, from the page table that the boot code has left. -/

namespace Pi0Os.Memory

open Kernel Library PageAllocator MappedSpaces

/-- The loop of `vm_init` over the first `n` megabytes. -/
def unmapSections (table start : ℕ) : ℕ → Vm → Vm
  | 0, s => s
  | n + 1, s => (unmapSections table start n s).store (table + 4 * lvl1Index (add32 start (n * size1MB))) 0

def vmInit (s : DeviceSpace) : Except Panic DeviceSpace := do
  kassert "s_init_state == InitState::Early" (s.initState = .early)
  let ttbr0Page ← addr2page s.vm.pages s.ttbr0
  let vm := { s.vm with kernelAs := ttbr0Page }
  let table ← rootTablePtr vm ttbr0Page
  let vm := unmapSections table vm.pages.ramStart ((vm.ramSize + (size1MB - 1)) / size1MB) vm
  return { s with vm := vm, initState := .completed, current := ttbr0Page }

/-- What `vm_init` finds: the boot code's first-level table at the page `k`, with the RAM mapped to itself below the
kernel area and nothing else there. Tables and the pages of `X` lie in the memory that the allocator was not handed. -/
structure BootTable (boot : BootParams) (X : Set ℕ) (k : ℕ) (s : DeviceSpace) : Prop where
  early : s.initState = .early
  pages : physicalPageAllocatorInit boot = .ok s.vm.pages
  ramSize : s.vm.ramSize = boot.ramSize
  ram_end : boot.ramStart + boot.ramSize ≤ Areas.kernelVirtStartAddr
  ttbr0 : s.ttbr0 = pageAddr boot.ramStart k
  below : k + PageOrder.kb16.frames ≤ firstFreePageIdx boot
  entry : ∀ i < lvl1Entries,
    s.vm.words (s.ttbr0 + 4 * i) = 0 ∨ isSection (s.vm.words (s.ttbr0 + 4 * i)) ∨
      isCoarsePage (s.vm.words (s.ttbr0 + 4 * i))
  user : ∀ i < kernelStartIdx, s.vm.words (s.ttbr0 + 4 * i) ≠ 0 →
    boot.ramStart ≤ i * size1MB ∧ i * size1MB < boot.ramStart + boot.ramSize
  table : ∀ i, kernelStartIdx ≤ i → i < lvl1Entries → ∀ t, tableAt s.vm.words s.ttbr0 i = some t →
    ∃ q < firstFreePageIdx boot, t = pageAddr boot.ramStart q ∧ Disjoint (lvl1Bytes s.ttbr0) (lvl2Bytes t)
  table_inj : ∀ i, kernelStartIdx ≤ i → i < lvl1Entries → ∀ i', kernelStartIdx ≤ i' → i' < lvl1Entries →
    ∀ t, tableAt s.vm.words s.ttbr0 i = some t → tableAt s.vm.words s.ttbr0 i' = some t → i = i'
  page : ∀ i, kernelStartIdx ≤ i → i < lvl1Entries → ∀ t, tableAt s.vm.words s.ttbr0 i = some t → ∀ j < lvl2Entries,
    s.vm.words (t + 4 * j) = 0 ∨ 2 ≤ s.vm.words (t + 4 * j) % 4
  outside : ∀ q ∈ X, PageOrder.kb4.frames ∣ q ∧ q + PageOrder.kb4.frames ≤ firstFreePageIdx boot ∧
    Disjoint ((⟨q, .kb4⟩ : Block).bytes boot.ramStart) (lvl1Bytes s.ttbr0) ∧
    ∀ i, kernelStartIdx ≤ i → i < lvl1Entries → ∀ t, tableAt s.vm.words s.ttbr0 i = some t →
      Disjoint ((⟨q, .kb4⟩ : Block).bytes boot.ramStart) (lvl2Bytes t)

section Loop

variable {table start n i : ℕ} {s : Vm}

/-- The entries of `n` megabytes are cleared, and nothing else is. -/
lemma unmapSections_words (hd : size1MB ∣ start) (hend : start + n * size1MB ≤ 2 ^ 32) (a : ℕ) :
    (unmapSections table start n s).words a =
      if ∃ k < n, a = table + 4 * (start / size1MB + k) then 0 else s.words a := by
  induction n with
  | zero => rw [if_neg (by simp)]; rfl
  | succ n ih =>
    rw [Nat.succ_mul] at hend
    have hidx : lvl1Index (add32 start (n * size1MB)) = start / size1MB + n := by
      rw [add32_of_lt (by simp only [size1MB] at hend ⊢; omega)]
      simp only [lvl1Index, size1MB] at hd ⊢
      omega
    rw [unmapSections, Vm.store_words, hidx]
    by_cases ha : a = table + 4 * (start / size1MB + n)
    · have hin : ∃ k < n + 1, a = table + 4 * (start / size1MB + k) := ⟨n, Nat.lt_succ_self n, ha⟩
      rw [if_pos hin, ha, Function.update_self]
    · have hend' := (Nat.add_le_add_left (Nat.le_add_right _ _) start).trans hend
      rw [Function.update_of_ne ha, ih hend']
      refine if_congr (exists_congr fun k => and_congr_left fun he => ?_) rfl rfl
      have hne : k ≠ n := by
        rintro rfl
        exact ha he
      omega

lemma unmapSections_sameRam : s.SameRam (unmapSections table start n s) := by
  induction n with
  | zero => exact .refl s
  | succ n ih => exact ih.trans (.store _ _ _)

lemma unmapSections_pages : (unmapSections table start n s).pages = s.pages := by
  induction n with
  | zero => rfl
  | succ n ih => exact ih

end Loop

section Init

variable {boot : BootParams} {X : Set ℕ} {k : ℕ} {s : DeviceSpace}

/-- The megabytes of the loop of `vm_init`. -/
def ramMegabytes (s : Vm) : ℕ := (s.ramSize + (size1MB - 1)) / size1MB

lemma BootTable.words (h : BootTable boot X k s) (hboot : boot.Valid) {vm : Vm} (hvm : vm.words = s.vm.words) :
    (∀ i < kernelStartIdx,
        (unmapSections s.ttbr0 boot.ramStart (ramMegabytes s.vm) vm).words (s.ttbr0 + 4 * i) = 0) ∧
      (∀ i, kernelStartIdx ≤ i → i < lvl1Entries →
        (unmapSections s.ttbr0 boot.ramStart (ramMegabytes s.vm) vm).words (s.ttbr0 + 4 * i) =
          s.vm.words (s.ttbr0 + 4 * i)) ∧
      ∀ a ∉ lvl1Bytes s.ttbr0,
        (unmapSections s.ttbr0 boot.ramStart (ramMegabytes s.vm) vm).words a = s.vm.words a := by
  have hend := h.ram_end
  have hd := hboot.ram_aligned
  have hlast : boot.ramStart + ramMegabytes s.vm * size1MB ≤ Areas.kernelVirtStartAddr := by
    simp only [ramMegabytes, h.ramSize, size1MB, Areas.kernelVirtStartAddr] at *
    omega
  have hwords (a : ℕ) : (unmapSections s.ttbr0 boot.ramStart (ramMegabytes s.vm) vm).words a = _ :=
    unmapSections_words hd (hlast.trans (by decide)) a
  have hin {i : ℕ} : (∃ k' < ramMegabytes s.vm, s.ttbr0 + 4 * i = s.ttbr0 + 4 * (boot.ramStart / size1MB + k')) ↔
      boot.ramStart / size1MB ≤ i ∧ i < boot.ramStart / size1MB + ramMegabytes s.vm := by
    refine ⟨fun ⟨k', hk', he⟩ => by omega, fun ⟨hlo, hhi⟩ => ⟨i - boot.ramStart / size1MB, by omega, by omega⟩⟩
  refine ⟨fun i hi => ?_, fun i hk hi => ?_, fun a ha => ?_⟩
  · rw [hwords, hvm]
    by_cases hz : s.vm.words (s.ttbr0 + 4 * i) = 0
    · rw [hz, ite_self]
    · obtain ⟨hlo, hhi⟩ := h.user i hi hz
      rw [if_pos (hin.mpr ?_)]
      simp only [ramMegabytes, h.ramSize, size1MB] at *
      omega
  · rw [hwords, hvm, if_neg (hin.not.mpr ?_)]
    simp only [size1MB, Areas.kernelVirtStartAddr, kernelStartIdx] at hlast hk ⊢
    omega
  · rw [hwords, hvm, if_neg]
    rintro ⟨k', hk', rfl⟩
    refine ha (mem_lvl1Bytes ?_)
    simp only [size1MB, Areas.kernelVirtStartAddr, lvl1Entries] at hlast ⊢
    omega

/-- `vm_init` clears the entries below the kernel area, and writes nothing else. -/
structure UserCleared (s s' : DeviceSpace) : Prop where
  ttbr0 : s'.ttbr0 = s.ttbr0
  user : ∀ i < kernelStartIdx, s'.vm.words (s.ttbr0 + 4 * i) = 0
  kernel : ∀ i, kernelStartIdx ≤ i → i < lvl1Entries → s'.vm.words (s.ttbr0 + 4 * i) = s.vm.words (s.ttbr0 + 4 * i)
  rest : ∀ a ∉ lvl1Bytes s.ttbr0, s'.vm.words a = s.vm.words a

lemma rootTablePtr_page {first limit p : ℕ} {s : Vm} {live : Finset Block} (hb : Blocks first limit s.pages live)
    (hr : pageAddr s.pages.ramStart limit ≤ add32 s.pages.ramStart s.ramSize) (hp : p < limit) :
    rootTablePtr s p = .ok (pageAddr s.pages.ramStart p) := by
  obtain ⟨free, hinv⟩ := hb.inv
  have hlen := hinv.limit_le
  have haddr := hinv.address
  have hlt : pageAddr s.pages.ramStart p < add32 s.pages.ramStart s.ramSize := by
    refine lt_of_lt_of_le ?_ hr
    simp only [pageAddr, size1KB]
    omega
  have hbound : s.pages.ramStart + p * size1KB < 2 ^ 32 := by
    simp only [size1KB] at haddr ⊢
    omega
  rw [rootTablePtr, page2addr, kassert_of (hp.trans_le hlen), ok_bind, add32_of_lt hbound, pure_eq_ok, ok_bind]
  rw [phys2virt, kassert_of (Nat.le_add_right _ _), ok_bind]
  change (kassert _ (pageAddr s.pages.ramStart p < _) >>= _) = _
  rw [kassert_of hlt, ok_bind]
  rfl

/-- After `vm_init` there is the kernel's address space only, and nothing is mapped below the kernel area. -/
lemma BootTable.vmInit (h : BootTable boot X k s) (hboot : boot.Valid) :
    ∃ s', Memory.vmInit s = .ok s' ∧ s'.initState = .completed ∧ s'.current = k ∧
      s'.ttbr0 = pageAddr s'.vm.pages.ramStart k ∧ UserCleared s s' ∧ s'.vm.kernelAs = k ∧
      OwnedSpaces (firstFreePageIdx boot) (totalPages boot) X s'.vm ∅ {k} 0 := by
  obtain ⟨pages, free, hinit, hinv, hr, hlen, hcount⟩ := physicalPageAllocatorInit_spec hboot
  obtain rfl := Except.ok.inj (h.pages.symm.trans hinit)
  obtain ⟨-, -, hroom⟩ := hboot.firstFreePageIdx_bounds
  have hbelow := h.below
  have hklt : k < totalPages boot := by
    simp only [PageOrder.frames] at hbelow
    omega
  have hblocks : Blocks (firstFreePageIdx boot) (totalPages boot) s.vm.pages ∅ := ⟨⟨free, hinv⟩, hr ▸ hboot.ram_aligned⟩
  have hram : pageAddr s.vm.pages.ramStart (totalPages boot) ≤ add32 s.vm.pages.ramStart s.vm.ramSize := by
    have hend := h.ram_end
    have htotal := BootParams.Valid.totalPages_eq boot
    rw [hr, h.ramSize, add32_of_lt (hend.trans_lt (by decide))]
    simp only [pageAddr, size1KB, size16KB] at htotal ⊢
    omega
  have hpage : addr2page s.vm.pages s.ttbr0 = .ok k := by
    rw [h.ttbr0, ← hr]
    exact addr2page_pageAddr (hlen ▸ hklt)
  have hroot {vm : Vm} (hsame : s.vm.pages = vm.pages) (hsize : vm.ramSize = s.vm.ramSize) {p : ℕ}
      (hp : p < totalPages boot) : rootTablePtr vm p = .ok (pageAddr boot.ramStart p) := by
    rw [← hr, hsame]
    exact rootTablePtr_page (hsame ▸ hblocks) (by rw [hsize, ← hsame]; exact hram) hp
  have hkernelRoot : rootTablePtr { s.vm with kernelAs := k } k = .ok (pageAddr boot.ramStart k) := hroot rfl rfl hklt
  obtain ⟨vm, hvm⟩ : ∃ vm, unmapSections s.ttbr0 boot.ramStart (ramMegabytes s.vm) { s.vm with kernelAs := k } = vm :=
    ⟨_, rfl⟩
  have hinit : Memory.vmInit s = .ok { s with vm := vm, initState := .completed, current := k } := by
    rw [Memory.vmInit, kassert_of h.early, ok_bind, hpage, ok_bind]
    dsimp only
    rw [hkernelRoot, ok_bind, ← h.ttbr0, hr, ← hvm]
    rfl
  have hpages : vm.pages = s.vm.pages := hvm ▸ unmapSections_pages
  have hsame : Vm.SameRam { s.vm with kernelAs := k } vm := hvm ▸ unmapSections_sameRam
  have hsameWords : Vm.words { s.vm with kernelAs := k } = s.vm.words := rfl
  obtain ⟨huser, hkernel, hrest⟩ := h.words hboot hsameWords
  rw [hvm] at huser hkernel hrest
  refine ⟨_, hinit, rfl, rfl, ?_, ⟨rfl, huser, hkernel, hrest⟩, hsame.kernelAs, ?_⟩
  · dsimp only
    rw [hpages, hr, h.ttbr0]
  have hkernelAs : vm.kernelAs = k := hsame.kernelAs
  have hroot₁ : pageAddr vm.pages.ramStart k = s.ttbr0 := by rw [hpages, hr, h.ttbr0]
  have htable {i t : ℕ} (hi : i < lvl1Entries) (ht : tableAt vm.words s.ttbr0 i = some t) :
      kernelStartIdx ≤ i ∧ tableAt s.vm.words s.ttbr0 i = some t := by
    by_cases hk : kernelStartIdx ≤ i
    · rw [tableAt, hkernel i hk hi, ← tableAt] at ht
      exact ⟨hk, ht⟩
    · exact absurd (huser i (Nat.not_le.mp hk)) (ne_zero_of_isCoarsePage (tableAt_eq_some.mp ht).1)
  have hnone {i j : ℕ} (hi : i < kernelStartIdx) : vm.frameOf k i j = none :=
    Vm.frameOf_of_empty (hroot₁.symm ▸ huser i hi)
  have hbelow₁ {q n : ℕ} (hq : q + n ≤ firstFreePageIdx boot) {a : ℕ}
      (ha : a < pageAddr boot.ramStart q + n * size1KB) :
      a < pageAddr boot.ramStart (firstFreePageIdx boot) := by
    refine ha.trans_le ?_
    simp only [pageAddr, size1KB]
    omega
  have hout : Outside (firstFreePageIdx boot) (totalPages boot) boot.ramStart (lvl1Bytes s.ttbr0) := by
    rw [h.ttbr0]
    exact fun a ha => .inl (hbelow₁ hbelow ha.2)
  have hspaces : Spaces vm.words s.ttbr0 {s.ttbr0} := by
    refine ⟨rfl, ?_, ?_, ?_, ?_, ?_, ?_⟩
    · rintro _ rfl _ rfl hne
      exact absurd rfl hne
    · rintro _ rfl i hi
      by_cases hk : kernelStartIdx ≤ i
      · rw [hkernel i hk hi]
        exact h.entry i hi
      · exact .inl (huser i (Nat.not_le.mp hk))
    · rintro _ rfl i - -
      exact .inl rfl
    · rintro _ rfl i hi t ht _ rfl
      obtain ⟨hk, ht⟩ := htable hi ht
      obtain ⟨-, -, -, hdisj⟩ := h.table i hk hi t ht
      exact hdisj
    · rintro _ rfl i hi _ rfl i' hi' t ht ht'
      obtain ⟨hk, ht⟩ := htable hi ht
      obtain ⟨hk', ht'⟩ := htable hi' ht'
      exact ⟨h.table_inj i hk hi i' hk' hi' t ht ht', .inl rfl⟩
    · rintro _ rfl i hi t ht j hj
      obtain ⟨hk, ht⟩ := htable hi ht
      obtain ⟨-, -, -, hdisj⟩ := h.table i hk hi t ht
      rw [hrest _ (Set.disjoint_right.mp hdisj (mem_lvl2Bytes hj))]
      exact h.page i hk hi t ht j hj
  have hmapped : MappedSpaces (firstFreePageIdx boot) (totalPages boot) vm ∅ ({k} : Finset ℕ) := by
    have hkernelPtr : rootTablePtr vm k = .ok (pageAddr boot.ramStart k) := hroot hpages.symm hsame.ramSize hklt
    rw [Finset.coe_singleton]
    refine ⟨hpages ▸ hblocks, ⟨?_, _, (congrArg (rootTablePtr vm) hkernelAs).trans hkernelPtr⟩, ?_, ?_, ?_, ?_, ?_⟩
    · rw [hpages, hsame.ramSize]
      exact hram
    · rw [Set.image_singleton, hkernelAs, hroot₁]
      exact hspaces
    · rintro _ rfl
      rw [hkernelPtr, hpages, hr]
    · rintro _ rfl
      rw [hroot₁, hpages, hr]
      exact .inr hout
    · rintro _ rfl i hi t ht
      rw [hroot₁] at ht
      obtain ⟨hk, ht⟩ := htable hi ht
      obtain ⟨q, hq, rfl, -⟩ := h.table i hk hi t ht
      have hptr : rootTablePtr vm q = .ok (pageAddr boot.ramStart q) :=
        hroot hpages.symm hsame.ramSize (hq.trans_le ((Nat.le_add_right _ 16).trans hroom))
      obtain ⟨a, ha, hptr⟩ := bind_eq_ok.mp hptr
      obtain rfl := phys2virt_eq hptr
      have ha := (hpages ▸ hblocks : Blocks _ _ vm.pages ∅).page2addr_eq ha
      rwa [ha, hpages, hr] at hptr
    · rintro _ rfl i hi t ht
      rw [hroot₁] at ht
      obtain ⟨hk, ht⟩ := htable hi ht
      obtain ⟨q, hq, rfl, -⟩ := h.table i hk hi t ht
      rw [hpages, hr]
      exact .inr ⟨hk, fun a ha => .inl (hbelow₁ (n := 1) hq (by rw [Nat.one_mul]; exact ha.2))⟩
  refine ⟨hmapped, ⟨fun q hq => (h.outside q hq).1, fun q hq => ?_, fun q hq => ?_, fun q hq => ?_⟩,
    fun q hq i hk hi t ht => ?_, fun p hp hne => ?_, fun p hp i hi j hj f hf => ?_, fun q hq => ?_, by simp, ?_⟩
  · obtain ⟨-, hlt, -⟩ := h.outside q hq
    rw [hpages, hlen]
    simp only [PageOrder.frames] at hlt
    omega
  · obtain ⟨-, hlt, -⟩ := h.outside q hq
    rw [hpages, hr]
    exact fun a ha => .inl (hbelow₁ hlt (by rw [← order2PageSize_eq]; exact ha.2))
  · obtain ⟨-, -, hdisj, -⟩ := h.outside q hq
    rw [hkernelAs, hroot₁, hpages, hr]
    exact hdisj
  · obtain ⟨-, -, -, hdisj⟩ := h.outside q hq
    rw [Vm.tableOf, hkernelAs, hroot₁] at ht
    rw [hpages, hr]
    exact hdisj i hk hi t (htable hi ht).2
  · exact absurd ((Finset.mem_singleton.mp hp).trans hkernelAs.symm) hne
  · obtain rfl := Finset.mem_singleton.mp hp
    rw [hnone hi] at hf
    cases hf
  · have hunmapped : vm.userMappings k q = 0 := by
      refine userMappings_eq_zero ?_
      rintro ⟨i, hi, j, -, hf⟩
      rw [hnone hi] at hf
      cases hf
    rw [Finset.sum_singleton, hpages, hcount, hunmapped]
    rfl
  · rw [hpages, hcount]
    rfl

end Init

end Pi0Os.Memory
