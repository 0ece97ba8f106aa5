import Pi0Os.Memory.BlockBytes
import Pi0Os.Memory.PageTables

/-! Steps that allocate blocks and write to them, and the first of them: `vm_create_address_space`. -/

namespace Pi0Os.Memory

open Kernel Library

lemma phys2virt_eq {s : Vm} {a b : ℕ} (h : phys2virt s a = .ok b) : b = a := by
  obtain ⟨-, h⟩ := kassert_bind_eq_ok.mp h
  obtain ⟨-, h⟩ := kassert_bind_eq_ok.mp h
  exact (Except.ok.inj h).symm

lemma addr2page_eq {s : PageAllocator} {a p : ℕ} (h : addr2page s a = .ok p) : p = (a - s.ramStart) / size1KB := by
  obtain ⟨-, h⟩ := kassert_bind_eq_ok.mp h
  obtain ⟨-, h⟩ := kassert_bind_eq_ok.mp h
  exact (Except.ok.inj h).symm

lemma rootTablePtr_eq {first limit p a : ℕ} {s : Vm} {live : Finset Block} (hb : Blocks first limit s.pages live)
    (h : rootTablePtr s p = .ok a) : a = pageAddr s.pages.ramStart p := by
  obtain ⟨b, hpage, h⟩ := bind_eq_ok.mp h
  rw [phys2virt_eq h, hb.page2addr_eq hpage]

lemma pageAddr_injective (r : ℕ) : Function.Injective (pageAddr r) := by
  intro p q h
  simp only [pageAddr, size1KB] at h
  omega

lemma lvl1Entry_mem {r d i : ℕ} (hi : i < kernelStartIdx) : pageAddr r d + 4 * i ∈ (⟨d, .kb16⟩ : Block).bytes r :=
  mem_bytes_of_lt (by change i < 3072 at hi; change 4 * i < 16384; omega)

lemma lvl2Entry_mem {r t j : ℕ} (hj : j < lvl2Entries) : pageAddr r t + 4 * j ∈ (⟨t, .kb1⟩ : Block).bytes r :=
  mem_bytes_of_lt (by change j < 256 at hj; change 4 * j < 1024; omega)

/-- What `s'` has over `s`: more blocks in use, and the memory that was in use changed at `E` at most. -/
structure Grown (first limit : ℕ) (s s' : Vm) (live live' : Finset Block) (E : Set ℕ) : Prop where
  blocks : Blocks first limit s'.pages live'
  sub : live ⊆ live'
  ramStart : s'.pages.ramStart = s.pages.ramStart
  frame : Set.EqOn s'.words s.words (inUse first limit s.pages.ramStart live \ E)

namespace Grown

variable {first limit p dst src n a v : ℕ} {s s₁ s' : Vm} {live live₁ live' : Finset Block}
variable {E E' : Set ℕ} {o : PageOrder}

lemma refl (h : Blocks first limit s.pages live) : Grown first limit s s live live E :=
  ⟨h, Finset.Subset.refl _, rfl, fun _ _ => rfl⟩

lemma trans (h : Grown first limit s s₁ live live₁ E) (h' : Grown first limit s₁ s' live₁ live' E') :
    Grown first limit s s' live live' (E ∪ E') := by
  refine ⟨h'.blocks, h.sub.trans h'.sub, h'.ramStart.trans h.ramStart, ?_⟩
  rintro a ⟨ha, hE⟩
  have h₁ : s₁.words a = s.words a := h.frame ⟨ha, fun he => hE (Or.inl he)⟩
  have hin : a ∈ inUse first limit s₁.pages.ramStart live₁ := by
    rw [h.ramStart]
    exact inUse_mono h.sub ha
  exact (h'.frame ⟨hin, fun he => hE (Or.inr he)⟩).trans h₁

lemma mono (h : Grown first limit s s' live live' E)
    (hE : ∀ a ∈ inUse first limit s.pages.ramStart live, a ∈ E → a ∈ E') :
    Grown first limit s s' live live' E' :=
  ⟨h.blocks, h.sub, h.ramStart, fun a ha => h.frame ⟨ha.1, fun he => ha.2 (hE a ha.1 he)⟩⟩

lemma alloc {pages : PageAllocator} {words : ℕ → ℕ} (h : Blocks first limit s.pages live)
    (ha : physicalPageAlloc o s.pages = .ok (some p, pages))
    (hw : ∀ S, Disjoint S ((⟨p, o⟩ : Block).bytes s.pages.ramStart) → Set.EqOn words s.words S) :
    Grown first limit s { s with pages := pages, words := words } live (insert ⟨p, o⟩ live) E := by
  have hnew := h.alloc ha
  exact ⟨hnew.blocks, Finset.subset_insert .., hnew.ramStart,
    (hw _ hnew.unused).mono Set.sdiff_subset⟩

lemma store (h : Blocks first limit s.pages live) : Grown first limit s (s.store a v) live live {a} :=
  ⟨h, Finset.Subset.refl _, rfl, update_eqOn (fun ha => ha.2 rfl)⟩

end Grown

/-- The writes of `vm_create_address_space` to the root. -/
def rootWords (m : ℕ → ℕ) (root kernelRoot entry : ℕ) : ℕ → ℕ :=
  Function.update (copyRange (fill m root lvl1TableSize 0) (root + 4 * kernelStartIdx)
    (kernelRoot + 4 * kernelStartIdx) (4 * (lvl1Entries - kernelStartIdx))) root entry

/-- And those to the table. -/
def createdWords (m : ℕ → ℕ) (root table kernelRoot entry page : ℕ) : ℕ → ℕ :=
  Function.update (fill (rootWords m root kernelRoot entry) table lvl2TableSize 0) table page

section CreatedWords

variable {m : ℕ → ℕ} {root table kernelRoot entry page : ℕ} {S : Set ℕ}

lemma rootWords_eqOn (h : Disjoint S (Set.Ico root (root + lvl1TableSize))) :
    Set.EqOn (rootWords m root kernelRoot entry) m S := by
  have hroot : root ∉ S := fun hr => Set.disjoint_left.mp h hr ⟨le_rfl, by simp only [lvl1TableSize, size1KB]; omega⟩
  refine (update_eqOn hroot).trans ((copyRange_eqOn (h.mono_right ?_)).trans (fill_eqOn h))
  intro a ha
  simp only [Set.mem_Ico, lvl1TableSize, size1KB, lvl1Entries, kernelStartIdx] at ha ⊢
  omega

lemma createdWords_eqOn (hr : Disjoint S (Set.Ico root (root + lvl1TableSize)))
    (ht : Disjoint S (Set.Ico table (table + lvl2TableSize))) :
    Set.EqOn (createdWords m root table kernelRoot entry page) m S := by
  have htable : table ∉ S := fun h => Set.disjoint_left.mp ht h ⟨le_rfl, by simp only [lvl2TableSize, size1KB]; omega⟩
  exact (update_eqOn htable).trans ((fill_eqOn ht).trans (rootWords_eqOn hr))

lemma createdWords_root {i : ℕ} (hi : i < kernelStartIdx)
    (ht : Disjoint (Set.Ico root (root + lvl1TableSize)) (Set.Ico table (table + lvl2TableSize))) :
    createdWords m root table kernelRoot entry page (root + 4 * i) = if i = 0 then entry else 0 := by
  have hmem : root + 4 * i ∈ Set.Ico root (root + lvl1TableSize) := by
    simp only [Set.mem_Ico, lvl1TableSize, size1KB, kernelStartIdx] at hi ⊢
    omega
  have htable : table ∉ Set.Ico root (root + lvl1TableSize) :=
    fun h => Set.disjoint_left.mp ht h ⟨le_rfl, by simp only [lvl2TableSize, size1KB]; omega⟩
  refine (update_eqOn htable hmem).trans ((fill_eqOn ht hmem).trans ?_)
  by_cases hz : i = 0
  · rw [hz, if_pos rfl]
    exact Function.update_self ..
  · rw [if_neg hz, rootWords, Function.update_of_ne (by omega)]
    refine (copyRange_eqOn (Set.disjoint_singleton_left.mpr ?_) (Set.mem_singleton _)).trans (fill_of_mem hmem)
    rintro ⟨hge, -⟩
    omega

lemma createdWords_table {j : ℕ} (hj : j < lvl2Entries) :
    createdWords m root table kernelRoot entry page (table + 4 * j) = if j = 0 then page else 0 := by
  by_cases hz : j = 0
  · rw [hz, if_pos rfl]
    exact Function.update_self ..
  · rw [if_neg hz, createdWords, Function.update_of_ne (by omega)]
    refine fill_of_mem ?_
    simp only [Set.mem_Ico, lvl2TableSize, size1KB, lvl2Entries] at hj ⊢
    omega

end CreatedWords

/-- The page that the kernel maps at address 0. -/
def vectorPage (s : Vm) : ℕ :=
  (SmallPageEntry.baseAddress (s.words (CoarsePageTableEntry.baseAddress
    (s.words (pageAddr s.pages.ramStart s.kernelAs)))) - s.pages.ramStart) / size1KB

/-- The kernel's own entry for the first megabyte, and the vector page at its start. -/
structure VectorMapped (first limit : ℕ) (s : Vm) (live : Finset Block) : Prop where
  entry : pageAddr s.pages.ramStart s.kernelAs ∈ inUse first limit s.pages.ramStart live
  table : CoarsePageTableEntry.baseAddress (s.words (pageAddr s.pages.ramStart s.kernelAs)) ∈
    inUse first limit s.pages.ramStart live
  page : Blocks.Held first limit live (vectorPage s)

/-- What `vm_create_address_space` makes: a root with one table, whose only page is the vector page. -/
structure Created (first limit : ℕ) (s s' : Vm) (live live' : Finset Block) (dst : ℕ) : Prop where
  grown : Grown first limit s s' live live' ∅
  root : (⟨dst, .kb16⟩ : Block) ∈ live'
  fresh : (⟨dst, .kb16⟩ : Block) ∉ live
  kernelAs : s'.kernelAs = s.kernelAs
  aligned : size4KB ∣ pageAddr s.pages.ramStart (vectorPage s)
  bound : pageAddr s.pages.ramStart (vectorPage s) < 2 ^ 32
  empty : ∀ i < kernelStartIdx, i ≠ 0 → s'.words (pageAddr s.pages.ramStart dst + 4 * i) = 0
  table : ∃ t, (⟨t, .kb1⟩ : Block) ∈ live' ∧ (⟨t, .kb1⟩ : Block) ∉ live ∧
    s'.words (pageAddr s.pages.ramStart dst) = CoarsePageTableEntry.makeEntry (pageAddr s.pages.ramStart t) ∧
    s'.words (pageAddr s.pages.ramStart t) =
      SmallPageEntry.makeEntry (pageAddr s.pages.ramStart (vectorPage s)) .priviledgedOnly ∧
    ∀ j < lvl2Entries, j ≠ 0 → s'.words (pageAddr s.pages.ramStart t + 4 * j) = 0

lemma vmCreateAddressSpace_eq_ok {first limit dst : ℕ} {s s' : Vm} {live : Finset Block}
    (hb : Blocks first limit s.pages live) (h : vmCreateAddressSpace s = .ok (some dst, s')) :
    ∃ pages pages' hack p m, physicalPageAlloc .kb16 s.pages = .ok (some dst, pages) ∧
      physicalPageAlloc .kb1 pages = .ok (some hack, pages') ∧
      m = rootWords s.words (pageAddr s.pages.ramStart dst) (pageAddr s.pages.ramStart s.kernelAs)
        (CoarsePageTableEntry.makeEntry (pageAddr s.pages.ramStart hack)) ∧
      p = (SmallPageEntry.baseAddress (m (CoarsePageTableEntry.baseAddress
        (m (pageAddr s.pages.ramStart s.kernelAs)))) - s.pages.ramStart) / size1KB ∧
      (∃ a, page2addr (pages'.setRefCount p (pages'.refCount p + 1)) p = .ok a ∧
        s'.words = createdWords s.words (pageAddr s.pages.ramStart dst) (pageAddr s.pages.ramStart hack)
          (pageAddr s.pages.ramStart s.kernelAs)
          (CoarsePageTableEntry.makeEntry (pageAddr s.pages.ramStart hack))
          (SmallPageEntry.makeEntry a .priviledgedOnly)) ∧
      s'.pages = pages'.setRefCount p (pages'.refCount p + 1) ∧ s'.kernelAs = s.kernelAs := by
  obtain ⟨⟨page, pages⟩, hroot, h⟩ := bind_eq_ok.mp h
  cases page with
  | none => cases h
  | some ttbr0 =>
    obtain ⟨⟨page, pages'⟩, hhack, h⟩ := bind_eq_ok.mp h
    cases page with
    | none =>
      obtain ⟨_, -, h⟩ := bind_eq_ok.mp h
      cases h
    | some hack =>
      have hnew₁ := hb.alloc hroot
      have hnew₂ := hnew₁.blocks.alloc hhack
      have hr : pages'.ramStart = s.pages.ramStart := hnew₂.ramStart.trans hnew₁.ramStart
      obtain ⟨hd, hlt, -⟩ := hnew₂.blocks.address (Finset.mem_insert_self _ _)
      obtain ⟨lvl1, hlvl1, h⟩ := bind_eq_ok.mp h
      obtain ⟨kernelLvl1, hkernel, h⟩ := bind_eq_ok.mp h
      obtain ⟨hackAddr, hhackAddr, h⟩ := bind_eq_ok.mp h
      obtain ⟨srcTable, hsrc, h⟩ := bind_eq_ok.mp h
      obtain ⟨p, hp, h⟩ := bind_eq_ok.mp h
      obtain ⟨dstTable, hdst, h⟩ := bind_eq_ok.mp h
      obtain ⟨a, ha, h⟩ := bind_eq_ok.mp h
      obtain rfl := rootTablePtr_eq (s := { s with pages := pages' }) hnew₂.blocks hlvl1
      obtain rfl := rootTablePtr_eq hnew₂.blocks hkernel
      obtain rfl := hnew₂.blocks.page2addr_eq hhackAddr
      obtain rfl := phys2virt_eq hsrc
      obtain rfl := phys2virt_eq hdst
      obtain ⟨hdst', hs'⟩ := Prod.mk.inj (Except.ok.inj h)
      obtain rfl := Option.some.inj hdst'
      simp only [Vm.store_words, Vm.store_pages, Vm.store_kernelAs, Vm.clear_words, Vm.clear_pages,
        Vm.clear_kernelAs, Vm.memcpy_words, Vm.memcpy_pages, hr] at hp hs' ha hd hlt
      have hp := addr2page_eq hp
      rw [hr] at hp
      rw [Function.update_self, CoarsePageTableEntry.baseAddress_makeEntry hd hlt] at hs'
      refine ⟨pages, pages', hack, p, _, hroot, hhack, rfl, hp, ⟨a, ha, ?_⟩, ?_, ?_⟩ <;> rw [← hs'] <;> rfl

lemma vmCreateAddressSpace_created {first limit dst : ℕ} {s s' : Vm} {live : Finset Block}
    (hb : Blocks first limit s.pages live) (hv : VectorMapped first limit s live)
    (h : vmCreateAddressSpace s = .ok (some dst, s')) : ∃ live', Created first limit s s' live live' dst := by
  obtain ⟨pages, pages', hack, p, m, hroot, hhack, rfl, hp, ⟨a, ha, hwords⟩, hpages, hkernel⟩ :=
    vmCreateAddressSpace_eq_ok hb h
  have hnew₁ := hb.alloc hroot
  have hnew₂ := hnew₁.blocks.alloc hhack
  have hr : pages'.ramStart = s.pages.ramStart := hnew₂.ramStart.trans hnew₁.ramStart
  have hunused := hnew₂.unused
  rw [hnew₁.ramStart] at hunused
  have hkeep : Set.EqOn (rootWords s.words (pageAddr s.pages.ramStart dst) (pageAddr s.pages.ramStart s.kernelAs)
      (CoarsePageTableEntry.makeEntry (pageAddr s.pages.ramStart hack))) s.words
      (inUse first limit s.pages.ramStart live) := rootWords_eqOn hnew₁.unused
  rw [hkeep hv.entry, hkeep hv.table, ← vectorPage] at hp
  subst hp
  have hroot' : (⟨dst, .kb16⟩ : Block) ∈ insert (⟨dst, .kb16⟩ : Block) live := Finset.mem_insert_self _ _
  have hapart : Disjoint ((⟨dst, .kb16⟩ : Block).bytes s.pages.ramStart)
      ((⟨hack, .kb1⟩ : Block).bytes s.pages.ramStart) := hunused.mono_left (bytes_subset_inUse hroot')
  have hsub : live ⊆ insert (⟨hack, .kb1⟩ : Block) (insert (⟨dst, .kb16⟩ : Block) live) :=
    (Finset.subset_insert ..).trans (Finset.subset_insert ..)
  have hblocks := hnew₂.blocks.retain (hv.page.imp (fun ⟨o, ho⟩ => ⟨o, hsub ho⟩) id)
  have hlt : a < 2 ^ 32 := by
    obtain ⟨-, ha⟩ := kassert_bind_eq_ok.mp ha
    exact Except.ok.inj ha ▸ Nat.mod_lt _ (by decide)
  have ha : a = pageAddr s.pages.ramStart (vectorPage s) := (hblocks.page2addr_eq ha).trans (by rw [← hr]; rfl)
  have haligned : size4KB ∣ pageAddr s.pages.ramStart (vectorPage s) := by
    have hram := hb.ramAligned
    simp only [vectorPage, pageAddr, SmallPageEntry.baseAddress, size4KB, size1KB, size1MB] at hram ⊢
    omega
  refine ⟨_, ⟨hpages ▸ hblocks, hsub, by rw [hpages]; exact hr, ?_⟩, Finset.mem_insert_of_mem hroot',
    hnew₁.fresh, hkernel, haligned, ha ▸ hlt, fun i hi hz => ?_, hack, Finset.mem_insert_self _ _,
    fun hm => hnew₂.fresh (Finset.mem_insert_of_mem hm), ?_, ?_, fun j hj hz => ?_⟩
  · rw [hwords]
    exact (createdWords_eqOn hnew₁.unused
      (hunused.mono_left (inUse_mono (Finset.subset_insert ..)))).mono Set.sdiff_subset
  · rw [hwords]
    exact (createdWords_root hi hapart).trans (if_neg hz)
  · rw [hwords]
    exact createdWords_root (i := 0) (by decide) hapart
  · rw [hwords, ha]
    exact createdWords_table (j := 0) (by decide)
  · rw [hwords]
    exact (createdWords_table hj).trans (if_neg hz)

lemma Created.vectorMapped {first limit dst : ℕ} {s s' : Vm} {live live' : Finset Block}
    (h : Created first limit s s' live live' dst) (hv : VectorMapped first limit s live) :
    VectorMapped first limit s' live' ∧ vectorPage s' = vectorPage s := by
  have hr := h.grown.ramStart
  have hentry := h.grown.frame ⟨hv.entry, Set.notMem_empty _⟩
  have htable := h.grown.frame ⟨hv.table, Set.notMem_empty _⟩
  have hsub : inUse first limit s.pages.ramStart live ⊆ inUse first limit s.pages.ramStart live' :=
    inUse_mono h.grown.sub
  have hpage : vectorPage s' = vectorPage s := by
    rw [vectorPage, vectorPage, hr, h.kernelAs, hentry, htable]
  refine ⟨⟨?_, ?_, ?_⟩, hpage⟩
  · rw [hr, h.kernelAs]
    exact hsub hv.entry
  · rw [hr, h.kernelAs, hentry]
    exact hsub hv.table
  · rw [hpage]
    exact hv.page.imp (fun ⟨o, ho⟩ => ⟨o, h.grown.sub ho⟩) id

end Pi0Os.Memory
