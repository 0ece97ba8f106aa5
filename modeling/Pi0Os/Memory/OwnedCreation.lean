import Pi0Os.Memory.OwnedMappings

/-! A new address space among the owned ones: a first-level table that shares the kernel area, a table for its first
megabyte, and the vector page in it. -/

namespace Pi0Os.Memory

open Kernel Library PageAllocator MappedSpaces

/-- One more first-level table, without entries below the kernel area and with the kernel's in it. -/
lemma Spaces.insert {m : ℕ → ℕ} {kernel root : ℕ} {roots : Set ℕ} (h : Spaces m kernel roots)
    (hroot : ∀ r ∈ roots, Disjoint (lvl1Bytes root) (lvl1Bytes r))
    (htable : ∀ r ∈ roots, ∀ i < lvl1Entries, ∀ t, tableAt m r i = some t → Disjoint (lvl1Bytes root) (lvl2Bytes t))
    (huser : ∀ i < kernelStartIdx, m (root + 4 * i) = 0)
    (hkernel : ∀ i, kernelStartIdx ≤ i → i < lvl1Entries → m (root + 4 * i) = m (kernel + 4 * i)) :
    Spaces m kernel (Insert.insert root roots) := by
  have hold {r i t : ℕ} (hr : r ∈ Insert.insert root roots) (hi : i < lvl1Entries) (ht : tableAt m r i = some t) :
      ∃ r₀ ∈ roots, tableAt m r₀ i = some t ∧ (r = r₀ ∨ kernelStartIdx ≤ i) := by
    rcases hr with rfl | hr
    · by_cases hk : kernelStartIdx ≤ i
      · rw [tableAt, hkernel i hk hi, ← tableAt] at ht
        exact ⟨kernel, h.kernel_mem, ht, .inr hk⟩
      · exact absurd (huser i (Nat.not_le.mp hk)) (ne_zero_of_isCoarsePage (tableAt_eq_some.mp ht).1)
    · exact ⟨r, hr, ht, .inl rfl⟩
  refine ⟨.inr h.kernel_mem, ?_, ?_, ?_, ?_, ?_, ?_⟩
  · rintro r (rfl | hr) r' (rfl | hr') hne
    · exact absurd rfl hne
    · exact hroot r' hr'
    · exact (hroot r hr).symm
    · exact h.apart r hr r' hr' hne
  · rintro r (rfl | hr) i hi
    · by_cases hk : kernelStartIdx ≤ i
      · rw [hkernel i hk hi]
        exact h.entry kernel h.kernel_mem i hi
      · exact .inl (huser i (Nat.not_le.mp hk))
    · exact h.entry r hr i hi
  · rintro r (rfl | hr) i hk hi
    · exact .inl (hkernel i hk hi)
    · exact h.shared r hr i hk hi
  · rintro r hr i hi t ht r' (rfl | hr')
    · obtain ⟨r₀, hr₀, ht, -⟩ := hold hr hi ht
      exact htable r₀ hr₀ i hi t ht
    · obtain ⟨r₀, hr₀, ht, -⟩ := hold hr hi ht
      exact h.table_apart r₀ hr₀ i hi t ht r' hr'
  · intro r hr i hi r' hr' i' hi' t ht ht'
    obtain ⟨r₀, hr₀, ht, hown⟩ := hold hr hi ht
    obtain ⟨r₁, hr₁, ht', hown'⟩ := hold hr' hi' ht'
    obtain ⟨rfl, hshared⟩ := h.table_inj r₀ hr₀ i hi r₁ hr₁ i' hi' t ht ht'
    refine ⟨rfl, ?_⟩
    rcases hown with rfl | hk
    · rcases hown' with rfl | hk
      · exact hshared
      · exact .inr hk
    · exact .inr hk
  · intro r hr i hi t ht j hj
    obtain ⟨r₀, hr₀, ht, -⟩ := hold hr hi ht
    exact h.page r₀ hr₀ i hi t ht j hj

section Root

variable {first limit d : ℕ} {s : Vm} {live : Finset Block} {roots : Finset ℕ} {X : Set ℕ} {spare : ℕ → ℕ}

lemma Vm.frameOf_of_empty {p i j : ℕ} (hz : s.words (pageAddr s.pages.ramStart p + 4 * i) = 0) :
    s.frameOf p i j = none := by
  refine Vm.frameOf_of_noTable (if_neg fun hc => ?_)
  exact ne_zero_of_isCoarsePage hc hz

lemma MappedSpaces.insertRoot (h : MappedSpaces first limit s live roots) (hd : (⟨d, .kb16⟩ : Block) ∈ live)
    (hfresh : Disjoint (inUse first limit s.pages.ramStart (live.erase ⟨d, .kb16⟩))
      (lvl1Bytes (pageAddr s.pages.ramStart d)))
    (hnew : d ∉ roots)
    (huser : ∀ i < kernelStartIdx, s.words (pageAddr s.pages.ramStart d + 4 * i) = 0)
    (hkernel : ∀ i, kernelStartIdx ≤ i → i < lvl1Entries → s.words (pageAddr s.pages.ramStart d + 4 * i) =
      s.words (pageAddr s.pages.ramStart s.kernelAs + 4 * i)) :
    MappedSpaces first limit s live (insert d roots : Finset ℕ) := by
  have hold {i t : ℕ} (hi : i < lvl1Entries) (ht : tableAt s.words (pageAddr s.pages.ramStart d) i = some t) :
      kernelStartIdx ≤ i ∧ tableAt s.words (pageAddr s.pages.ramStart s.kernelAs) i = some t := by
    by_cases hk : kernelStartIdx ≤ i
    · rw [tableAt, hkernel i hk hi, ← tableAt] at ht
      exact ⟨hk, ht⟩
    · exact absurd (huser i (Nat.not_le.mp hk)) (ne_zero_of_isCoarsePage (tableAt_eq_some.mp ht).1)
  have happ {b : Block} (hb : b ∈ live) (hne : b ≠ ⟨d, .kb16⟩) :
      Disjoint (lvl1Bytes (pageAddr s.pages.ramStart d)) (b.bytes s.pages.ramStart) :=
    (hfresh.mono_left (bytes_subset_inUse (Finset.mem_erase.mpr ⟨hne, hb⟩))).symm
  have hout {S : Set ℕ} (hS : Outside first limit s.pages.ramStart S) :
      Disjoint (lvl1Bytes (pageAddr s.pages.ramStart d)) S := (hfresh.mono_left fun a ha => .inr (hS a ha)).symm
  rw [Finset.coe_insert]
  refine ⟨h.blocks, h.ram, ?_, ?_, ?_, ?_, ?_⟩
  · rw [Set.image_insert_eq]
    refine h.spaces.insert ?_ ?_ huser hkernel
    · rintro _ ⟨p, hp, rfl⟩
      rcases h.root p hp with hb | hS
      · rw [← bytes_kb16 _ p]
        refine happ hb fun he => hnew ?_
        obtain ⟨rfl, -⟩ := Block.mk.inj he
        exact hp
      · exact hout hS
    · rintro _ ⟨p, hp, rfl⟩ i hi t ht
      rcases h.table p hp i hi t ht with ⟨q, hq, rfl⟩ | ⟨-, hS⟩
      · rw [← bytes_kb1]
        exact happ hq (by simp)
      · exact hout hS
  · rintro p (rfl | hp)
    · exact h.blocks.rootTablePtr_ok h.ram hd
    · exact h.rootPtr p hp
  · rintro p (rfl | hp)
    · exact .inl hd
    · exact h.root p hp
  · rintro p (rfl | hp) i hi t ht
    · exact h.tablePtr _ h.kernelAs_mem i hi t (hold hi ht).2
    · exact h.tablePtr p hp i hi t ht
  · rintro p (rfl | hp) i hi t ht
    · exact h.table _ h.kernelAs_mem i hi t (hold hi ht).2
    · exact h.table p hp i hi t ht

/-- A space without pages of its own. -/
lemma OwnedSpaces.insertRoot (h : OwnedSpaces first limit X s live roots spare) (hd : (⟨d, .kb16⟩ : Block) ∈ live)
    (hfresh : Disjoint (inUse first limit s.pages.ramStart (live.erase ⟨d, .kb16⟩))
      (lvl1Bytes (pageAddr s.pages.ramStart d)))
    (hnew : d ∉ roots)
    (huser : ∀ i < kernelStartIdx, s.words (pageAddr s.pages.ramStart d + 4 * i) = 0)
    (hkernel : ∀ i, kernelStartIdx ≤ i → i < lvl1Entries → s.words (pageAddr s.pages.ramStart d + 4 * i) =
      s.words (pageAddr s.pages.ramStart s.kernelAs + 4 * i)) :
    OwnedSpaces first limit X s live (insert d roots) spare := by
  have hnone {i j : ℕ} (hi : i < kernelStartIdx) : s.frameOf d i j = none := Vm.frameOf_of_empty (huser i hi)
  have hzero (q : ℕ) : s.userMappings d q = 0 := userMappings_eq_zero fun ⟨i, hi, j, _, hf⟩ => by
    rw [hnone hi] at hf
    cases hf
  refine ⟨h.mapped.insertRoot hd hfresh hnew huser hkernel, h.outside, h.apart, fun p hp hne => ?_,
    fun p hp i hi j hj f hf => ?_, fun q hq => ?_, h.spare, h.idle⟩
  · rcases Finset.mem_insert.mp hp with rfl | hp
    · exact hd
    · exact h.root p hp hne
  · rcases Finset.mem_insert.mp hp with rfl | hp
    · rw [hnone hi] at hf
      cases hf
    · exact h.frame p hp i hi j hj f hf
  · rw [Finset.sum_insert hnew, hzero, Nat.zero_add]
    exact h.counted q hq

/-- The new first-level table, over memory that was in use and is as it was. -/
lemma OwnedSpaces.newRoot {pages : PageAllocator} {words : ℕ → ℕ} (h : OwnedSpaces first limit X s live roots spare)
    (ha : physicalPageAlloc .kb16 s.pages = .ok (some d, pages))
    (hkeep : Set.EqOn words s.words (inUse first limit s.pages.ramStart live))
    (huser : ∀ i < kernelStartIdx, words (pageAddr s.pages.ramStart d + 4 * i) = 0)
    (hkernel : ∀ i, kernelStartIdx ≤ i → i < lvl1Entries → words (pageAddr s.pages.ramStart d + 4 * i) =
      s.words (pageAddr s.pages.ramStart s.kernelAs + 4 * i)) :
    d ∉ roots ∧ OwnedSpaces first limit X { s with pages := pages, words := words } (insert ⟨d, .kb16⟩ live)
      (insert d roots) spare := by
  have hblock := h.mapped.blocks.alloc ha
  have hr := hblock.ramStart
  have halloc := h.quiet (.alloc h.mapped ha)
  have hnew : d ∉ roots := fun hd =>
    Set.disjoint_left.mp hblock.unused (h.mapped.root_inUse hd (mem_lvl1Bytes (i := 0) (by decide)))
      (mem_lvl1Bytes (by decide))
  have hsame : ∀ p ∈ roots, ∀ i < lvl1Entries,
      SameTable (pageAddr pages.ramStart p) s.words words i := by
    rw [hr]
    intro p hp i hi
    exact ⟨hkeep (h.mapped.root_inUse hp (mem_lvl1Bytes hi)), fun t ht j hj =>
      hkeep (h.mapped.table_inUse hp hi ht (mem_lvl2Bytes hj))⟩
  have hwords : OwnedSpaces first limit X { s with pages := pages, words := words } (insert ⟨d, .kb16⟩ live) roots
      spare :=
    halloc.quiet (.of_sameTables halloc.mapped ⟨rfl, rfl, rfl, rfl⟩ rfl hsame)
  refine ⟨hnew, hwords.insertRoot (Finset.mem_insert_self _ _) ?_ hnew ?_ ?_⟩
  · dsimp only
    rw [Finset.erase_insert hblock.fresh, hr]
    exact hblock.unused
  · dsimp only
    rw [hr]
    exact huser
  · dsimp only
    rw [hr]
    intro i hk hi
    rw [hkernel i hk hi]
    exact (hkeep (h.mapped.root_inUse h.mapped.kernelAs_mem (mem_lvl1Bytes hi))).symm

end Root

section Create

variable {first limit d : ℕ} {s s' : Vm} {live : Finset Block} {roots : Finset ℕ} {X : Set ℕ} {spare : ℕ → ℕ}

/-- The first-level table before it has its first entry. -/
def bareRootWords (m : ℕ → ℕ) (root kernelRoot : ℕ) : ℕ → ℕ :=
  copyRange (fill m root lvl1TableSize 0) (root + 4 * kernelStartIdx) (kernelRoot + 4 * kernelStartIdx)
    (4 * (lvl1Entries - kernelStartIdx))

lemma rootWords_eq (m : ℕ → ℕ) (root kernelRoot entry : ℕ) :
    rootWords m root kernelRoot entry = Function.update (bareRootWords m root kernelRoot) root entry := rfl

lemma bareRootWords_eqOn {m : ℕ → ℕ} {root kernelRoot : ℕ} {S : Set ℕ} (h : Disjoint S (lvl1Bytes root)) :
    Set.EqOn (bareRootWords m root kernelRoot) m S := by
  refine (copyRange_eqOn (h.mono_right ?_)).trans (fill_eqOn h)
  intro a ha
  simp only [lvl1Bytes, Set.mem_Ico, lvl1TableSize, size1KB, lvl1Entries, kernelStartIdx] at ha ⊢
  omega

lemma bareRootWords_user {m : ℕ → ℕ} {root kernelRoot i : ℕ} (hi : i < kernelStartIdx) :
    bareRootWords m root kernelRoot (root + 4 * i) = 0 := by
  have hout : root + 4 * i ∉ Set.Ico (root + 4 * kernelStartIdx)
      (root + 4 * kernelStartIdx + 4 * (lvl1Entries - kernelStartIdx)) := by
    rintro ⟨hge, -⟩
    omega
  rw [bareRootWords, copyRange, if_neg hout]
  exact fill_of_mem (mem_lvl1Bytes (lt_lvl1Entries hi))

lemma bareRootWords_kernel {m : ℕ → ℕ} {root kernelRoot i : ℕ} (hk : kernelStartIdx ≤ i) (hi : i < lvl1Entries)
    (hapart : Disjoint (lvl1Bytes kernelRoot) (lvl1Bytes root)) :
    bareRootWords m root kernelRoot (root + 4 * i) = m (kernelRoot + 4 * i) := by
  have hsplit (r : ℕ) : r + 4 * i = r + 4 * kernelStartIdx + 4 * (i - kernelStartIdx) := by omega
  rw [bareRootWords, hsplit root, copyRange_add (by omega), ← hsplit]
  exact fill_eqOn hapart (mem_lvl1Bytes hi)

/-- The kernel maps a page at address 0. -/
def Vm.vector (s : Vm) : Option ℕ := (s.frameOf s.kernelAs 0 0).map (pageOf s.pages.ramStart)

/-- `vm_create_address_space` when the kernel has its vector page. -/
lemma OwnedSpaces.create (h : OwnedSpaces first limit X s live roots spare) (hv : s.vector ≠ none)
    (hc : vmCreateAddressSpace s = .ok (some d, s')) :
    d ∉ roots ∧ s.SameRam s' ∧ ∃ live', live ⊆ live' ∧ OwnedSpaces first limit X s' live' (insert d roots) spare := by
  obtain ⟨pages, pages', hack, p, m, hroot, hhack, rfl, hp, ⟨a, ha, hwords⟩, hpages, hkernelAs⟩ :=
    vmCreateAddressSpace_eq_ok h.mapped.blocks hc
  have hsize := vmCreateAddressSpace_ramSize hc
  have hkmem := h.mapped.kernelAs_mem
  have hblock := h.mapped.blocks.alloc hroot
  have hkernelBytes : Disjoint (lvl1Bytes (pageAddr s.pages.ramStart s.kernelAs))
      (lvl1Bytes (pageAddr s.pages.ramStart d)) :=
    hblock.unused.mono_left (h.mapped.root_inUse hkmem)
  have hr₁ := hblock.ramStart
  have hnewTable := hblock.blocks.alloc hhack
  have hr₂ : pages'.ramStart = s.pages.ramStart := hnewTable.ramStart.trans hr₁
  -- the page that the kernel maps at 0
  obtain ⟨v, hq, hv⟩ : ∃ v, FramePage live X v ∧ p = v := by
    have hmapped : s.frameOf s.kernelAs 0 0 ≠ none := fun hnone => hv (by rw [Vm.vector, hnone]; rfl)
    obtain ⟨f, hf⟩ := Option.ne_none_iff_exists'.mp hmapped
    obtain ⟨q, hq, rfl⟩ := h.frame _ hkmem 0 (by decide) 0 (by decide) f hf
    obtain ⟨t, ht, hframe⟩ := Option.bind_eq_some_iff.mp hf
    have htable : CoarsePageTableEntry.baseAddress (s.words (pageAddr s.pages.ramStart s.kernelAs)) = t :=
      (tableAt_eq_some.mp ht).2
    have hkeep : Set.EqOn (rootWords s.words (pageAddr s.pages.ramStart d) (pageAddr s.pages.ramStart s.kernelAs)
        (CoarsePageTableEntry.makeEntry (pageAddr s.pages.ramStart hack))) s.words
        (inUse first limit s.pages.ramStart live) := rootWords_eqOn hblock.unused
    have hentry := hkeep (h.mapped.root_inUse hkmem (mem_lvl1Bytes (i := 0) (by decide)))
    have hpage := hkeep (h.mapped.table_inUse hkmem (by decide) ht (mem_lvl2Bytes (j := 0) (by decide)))
    simp only [Nat.mul_zero, Nat.add_zero] at hentry hpage
    rw [hentry, htable, hpage] at hp
    have hbase : SmallPageEntry.baseAddress (s.words t) = pageAddr s.pages.ramStart q := by
      rw [frameIn] at hframe
      split_ifs at hframe
      exact Option.some.inj hframe
    rw [hbase] at hp
    exact ⟨q, hq, hp.trans (pageOf_pageAddr _ q)⟩
  subst hv
  -- the first-level table, then the table of its first megabyte
  have hkeep : Set.EqOn (bareRootWords s.words (pageAddr s.pages.ramStart d) (pageAddr s.pages.ramStart s.kernelAs))
      s.words (inUse first limit s.pages.ramStart live) := bareRootWords_eqOn hblock.unused
  obtain ⟨hnew, h₁⟩ := h.newRoot hroot hkeep (fun i hi => bareRootWords_user hi)
    fun i hk hi => bareRootWords_kernel hk hi hkernelBytes
  have hempty : bareRootWords s.words (pageAddr s.pages.ramStart d) (pageAddr s.pages.ramStart s.kernelAs)
      (pageAddr pages.ramStart d + 4 * 0) = 0 := by
    rw [hr₁]
    exact bareRootWords_user (by decide)
  have hkz : kernelStartIdx ≤ 0 → bareRootWords s.words (pageAddr s.pages.ramStart d)
      (pageAddr s.pages.ramStart s.kernelAs) (pageAddr pages.ramStart s.kernelAs + 4 * 0) = 0 := fun hk => by
    exact absurd hk (by decide)
  have hin : False ↔ kernelStartIdx ≤ 0 := by decide
  have h₂ := h₁.quiet (.attach h₁.mapped (Finset.mem_insert_self _ _) (by decide) hin hempty hkz hhack)
  have ht := (h₁.mapped.attached (Finset.mem_insert_self _ _) (by decide) hin hempty hkz hhack).tableAt
  have hattached : attachedWords (bareRootWords s.words (pageAddr s.pages.ramStart d)
      (pageAddr s.pages.ramStart s.kernelAs)) False (pageAddr s.pages.ramStart d)
      (pageAddr s.pages.ramStart s.kernelAs) 0 (pageAddr s.pages.ramStart hack) =
      fill (rootWords s.words (pageAddr s.pages.ramStart d) (pageAddr s.pages.ramStart s.kernelAs)
        (CoarsePageTableEntry.makeEntry (pageAddr s.pages.ramStart hack))) (pageAddr s.pages.ramStart hack)
        lvl2TableSize 0 := by
    rw [attachedWords, attachWords, if_neg not_false, rootWords_eq]
    rfl
  dsimp only at h₂ ht
  rw [hr₁, hattached] at h₂ ht
  have hsub : live ⊆ insert (⟨hack, .kb1⟩ : Block) (insert (⟨d, .kb16⟩ : Block) live) :=
    (Finset.subset_insert ..).trans (Finset.subset_insert ..)
  -- the reference and the entry of the vector page
  have h₃ := h₂.retain (hq.mono hsub)
  have htable : tableAt (fill (rootWords s.words (pageAddr s.pages.ramStart d) (pageAddr s.pages.ramStart s.kernelAs)
      (CoarsePageTableEntry.makeEntry (pageAddr s.pages.ramStart hack))) (pageAddr s.pages.ramStart hack)
      lvl2TableSize 0) (pageAddr (pages'.setRefCount p (pages'.refCount p + 1)).ramStart d) 0 =
      some (pageAddr s.pages.ramStart hack) := hr₂ ▸ ht
  have hspare : 0 < Function.update spare p (spare p + 1) p := by
    rw [Function.update_self]
    exact Nat.succ_pos _
  have h₄ := h₃.mapPage (i := 0) (j := 0) (Finset.mem_insert_self d roots) (by decide) htable (by decide) hspare
    .priviledgedOnly
  have hspares : Function.update (Function.update spare p (spare p + 1)) p
      (Function.update spare p (spare p + 1) p - 1) = spare := by
    rw [Function.update_self, Nat.add_sub_cancel, Function.update_idem, Function.update_eq_self]
  rw [hspares] at h₄
  obtain rfl := h₃.mapped.blocks.page2addr_eq ha
  have hs' : s' = Vm.store { s with
      pages := pages'.setRefCount p (pages'.refCount p + 1)
      words := fill (rootWords s.words (pageAddr s.pages.ramStart d) (pageAddr s.pages.ramStart s.kernelAs)
        (CoarsePageTableEntry.makeEntry (pageAddr s.pages.ramStart hack))) (pageAddr s.pages.ramStart hack)
        lvl2TableSize 0 } (pageAddr s.pages.ramStart hack + 4 * 0)
      (SmallPageEntry.makeEntry (pageAddr (pages'.setRefCount p (pages'.refCount p + 1)).ramStart p)
        .priviledgedOnly) := by
    obtain ⟨pages₁, ramSize, words, kernelAs⟩ := s'
    obtain rfl : pages₁ = _ := hpages
    obtain rfl : words = _ := hwords
    obtain rfl : ramSize = _ := hsize
    obtain rfl : kernelAs = _ := hkernelAs
    rfl
  have hlen : pages'.len = s.pages.len := by
    have h₁ := (h.mapped.blocks.alloc_sameRam hroot s.words).len
    have h₂ := (hblock.blocks.alloc_sameRam (s := { s with pages := pages }) hhack s.words).len
    exact h₂.trans h₁
  refine ⟨hnew, ⟨?_, ?_, hsize, hkernelAs⟩, _, hsub, hs' ▸ h₄⟩
  · rw [hpages]
    exact hr₂
  · rw [hpages]
    exact hlen

/-- A block that is taken and given back at once. -/
lemma QuietStep.allocFree {q : ℕ} {o : PageOrder} {pages pages' : PageAllocator}
    (h : MappedSpaces first limit s live roots) (ha : physicalPageAlloc o s.pages = .ok (some q, pages))
    (hf : physicalPageFree q o pages = .ok pages') :
    QuietStep first limit s { s with pages := pages' } live live roots := by
  have hnew := h.blocks.alloc ha
  have hram := h.blocks.alloc_sameRam ha s.words
  obtain ⟨free, hinv⟩ := hnew.blocks.inv
  obtain ⟨pages₁, free', hf', hinv', hcount, hlen, hr⟩ := hinv.free_page (Finset.mem_insert_self _ _)
  obtain rfl := Except.ok.inj (hf'.symm.trans hf)
  have hzero : pages₁.refCount q = 0 := by
    rw [hcount, Function.update_self, hnew.refCount, Function.update_self]
    rfl
  rw [if_pos hzero, Finset.erase_insert hnew.fresh] at hinv'
  have hblocks : Blocks first limit pages₁ live := ⟨⟨free', hinv'⟩, hr ▸ hnew.blocks.ramAligned⟩
  have hr' : pages₁.ramStart = s.pages.ramStart := hr.trans hnew.ramStart
  have hsame : s.SameRam { s with pages := pages₁ } := ⟨hr', hlen.trans hram.len, rfl, rfl⟩
  refine ⟨h.congr hblocks (Finset.Subset.refl _) hsame h.spaces fun p hp i hi t ht => .inl ⟨p, hp, ht⟩, hsame,
    Finset.Subset.refl _, fun r hheld => ?_, fun p hp => .of_sameTable hr' fun _ _ => ⟨rfl, fun _ _ _ _ => rfl⟩,
    fun i _ _ t ht => .inl ?_⟩
  · have hne : r ≠ q := by
      rintro rfl
      exact hnew.blocks.not_held (Finset.subset_insert ..) (Finset.mem_insert_self _ _) hnew.fresh hheld
    dsimp only
    rw [hcount, hnew.refCount, Function.update_of_ne hne, Function.update_of_ne hne]
  · rwa [Vm.tableOf, hr'] at ht

/-- Without memory for the tables nothing is left of the new space. -/
lemma OwnedSpaces.create_none (h : OwnedSpaces first limit X s live roots spare)
    (hc : vmCreateAddressSpace s = .ok (none, s')) : s.SameRam s' ∧ OwnedSpaces first limit X s' live roots spare := by
  obtain ⟨⟨page, pages⟩, hroot, hc⟩ := bind_eq_ok.mp hc
  cases page with
  | none =>
    cases hc
    rcases h.mapped.blocks.alloc_cases .kb16 with hn | ⟨p, pages', hn⟩
    · obtain ⟨-, rfl⟩ := Prod.mk.inj (Except.ok.inj (hroot.symm.trans hn))
      exact ⟨.refl s, h⟩
    · cases hroot.symm.trans hn
  | some ttbr0 =>
    obtain ⟨⟨page, pages'⟩, hhack, hc⟩ := bind_eq_ok.mp hc
    cases page with
    | none =>
      obtain ⟨pages₁, hfree, hc⟩ := bind_eq_ok.mp hc
      cases hc
      rcases (h.mapped.blocks.alloc hroot).blocks.alloc_cases .kb1 with hn | ⟨p, pages₂, hn⟩
      · obtain ⟨-, rfl⟩ := Prod.mk.inj (Except.ok.inj (hhack.symm.trans hn))
        have hquiet := QuietStep.allocFree h.mapped hroot hfree
        exact ⟨hquiet.ram, h.quiet hquiet⟩
      · cases hhack.symm.trans hn
    | some hack =>
      obtain ⟨lvl1, -, hc⟩ := bind_eq_ok.mp hc
      obtain ⟨kernelLvl1, -, hc⟩ := bind_eq_ok.mp hc
      obtain ⟨hackAddr, -, hc⟩ := bind_eq_ok.mp hc
      obtain ⟨srcTable, -, hc⟩ := bind_eq_ok.mp hc
      obtain ⟨p, -, hc⟩ := bind_eq_ok.mp hc
      obtain ⟨dstTable, -, hc⟩ := bind_eq_ok.mp hc
      obtain ⟨a, -, hc⟩ := bind_eq_ok.mp hc
      cases hc

end Create

end Pi0Os.Memory
