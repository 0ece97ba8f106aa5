import Pi0Os.Memory.Coalescing
import Pi0Os.Memory.TranslationRefinement

/-! A second-level table is taken from the allocator as a page of 1KB and given back to it as a block of 16KB. -/

namespace Pi0Os.Memory

open Kernel Library PageAllocator

/-- Mapping a page below the kernel area, and unmapping it again, returns its address and leaves neither the
first-level entry nor the table that was made for it, whose page is free again as the 1KB that it was. -/
def GivesTableBack (s : Vm) (as page virt : ℕ) (perm : PageAccessPermissions) : Prop :=
  ∀ s₁, vmMap s as page virt perm = .ok s₁ → ∃ table pages s₂ free,
    physicalPageAlloc .kb1 s.pages = .ok (some table, pages) ∧
    vmUnmap s₁ as virt = .ok (pageAddr s.pages.ramStart page, s₂) ∧ s₂.lvl1Entry as virt = 0 ∧
    Links s₂.pages free ∧ table ∈ free .kb1 ∧
    (∀ b ∈ freeBlocks free, ∀ c ∈ freeBlocks free, b ≠ c → b.span.Disjoint c.span) ∧
    ∀ b ∈ freeBlocks free, b.order.frames ∣ b.head

section Served

variable {s s' : PageAllocator} {o : PageOrder}

lemma allocSplitting_listed {big : PageOrder} {bigger : PageAllocator → Except Panic (Option ℕ × PageAllocator)}
    (hfree : s.freeLists o ≠ none) : allocSplitting o big bigger s ≠ .ok (none, s') := by
  intro h
  rw [allocSplitting] at h
  split at h
  · obtain ⟨_, -, h⟩ := bind_eq_ok.mp h
    cases h
  · exact hfree ‹_›

/-- A page of 1KB can be had as long as there is a free block of any order. -/
lemma alloc_kb1_served (hfree : s.freeLists o ≠ none) : physicalPageAlloc .kb1 s ≠ .ok (none, s') := by
  intro h
  have h := physicalPageAlloc_none h
  cases o with
  | kb1 => exact allocSplitting_listed hfree h
  | kb4 => exact allocSplitting_served (fun _ => allocSplitting_listed hfree) h
  | kb16 => exact allocFreePage_served hfree h

end Served

section NewTable

variable {first limit as page virt a q : ℕ} {s : Vm} {live : Finset Block} {roots : Set ℕ}
  {perm : PageAccessPermissions}
variable {pages : PageAllocator}

/-- The memory after a page below the kernel area was mapped with a new table at `t`. -/
def newTableWords (m : ℕ → ℕ) (entry t j e : ℕ) : ℕ → ℕ :=
  Function.update (fill (Function.update m entry (CoarsePageTableEntry.makeEntry t)) t lvl2TableSize 0) (t + 4 * j) e

lemma newTableWords_entry {m : ℕ → ℕ} {root i t j e : ℕ} (h : Disjoint (lvl1Bytes root) (lvl2Bytes t))
    (hi : i < lvl1Entries) (hj : j < lvl2Entries) :
    newTableWords m (root + 4 * i) t j e (root + 4 * i) = CoarsePageTableEntry.makeEntry t := by
  have hout : root + 4 * i ∉ lvl2Bytes t := Set.disjoint_left.mp h (mem_lvl1Bytes hi)
  rw [newTableWords, Function.update_of_ne (entry_ne_page h hi hj)]
  exact (if_neg hout).trans (Function.update_self ..)

lemma newTableWords_page {m : ℕ → ℕ} {entry t j e j' : ℕ} (hj' : j' < lvl2Entries) :
    newTableWords m entry t j e (t + 4 * j') = if j' = j then e else 0 := by
  rw [newTableWords]
  split_ifs with he
  · rw [he, Function.update_self]
  · rw [Function.update_of_ne (by omega), fill_of_mem (mem_lvl2Bytes hj')]

lemma fillLvl1Entry_newTable {root kernel t : ℕ} (hk : rootTablePtr s s.kernelAs = .ok kernel)
    (huser : ¬ Areas.kernelArea.Contains virt) (hz : s.words (root + 4 * lvl1Index virt) = 0)
    (halloc : physicalPageAlloc .kb1 s.pages = .ok (some q, pages)) (ht : page2addr pages q = .ok t) :
    fillLvl1Entry root virt s = .ok (true, { s with
      pages := pages
      words := Function.update s.words (root + 4 * lvl1Index virt) (CoarsePageTableEntry.makeEntry t) }) := by
  have hsec : ¬ isSection (s.words (root + 4 * lvl1Index virt)) := by
    rw [hz]
    decide
  rw [fillLvl1Entry, hk, ok_bind]
  dsimp only
  rw [panicIf, if_neg hsec, ok_bind, if_neg (not_not.mpr hz), if_neg huser, if_neg (not_not.mpr hz), halloc, ok_bind]
  dsimp only
  rw [ht, ok_bind, if_neg fun hc => huser hc.1]
  rfl

/-- The block that a table of an empty first-level entry is put in. -/
lemma MappedSpaces.newTable (h : MappedSpaces first limit s live roots) (has : as ∈ roots)
    (halloc : physicalPageAlloc .kb1 s.pages = .ok (some q, pages)) :
    Blocks first limit pages (insert ⟨q, .kb1⟩ live) ∧ pages.ramStart = s.pages.ramStart ∧
      size1KB ∣ pageAddr s.pages.ramStart q ∧ pageAddr s.pages.ramStart q < 2 ^ 32 ∧
      Disjoint (lvl1Bytes (pageAddr s.pages.ramStart as)) (lvl2Bytes (pageAddr s.pages.ramStart q)) ∧
      (∀ words, phys2virt { s with pages := pages, words := words } (pageAddr s.pages.ramStart q) =
        .ok (pageAddr s.pages.ramStart q)) := by
  have hnew := h.blocks.alloc halloc
  obtain ⟨hd, hlt, -⟩ := hnew.blocks.address (Finset.mem_insert_self _ _)
  rw [hnew.ramStart] at hd hlt
  refine ⟨hnew.blocks, hnew.ramStart, hd, hlt, ?_, fun words => ?_⟩
  · exact Disjoint.mono_left (h.root_inUse has) hnew.unused
  · have hram := h.blocks.alloc_sameRam halloc words
    have hok := hnew.blocks.phys2virt_ok (hram.ramReady h.ram) (Finset.mem_insert_self _ _)
    rwa [hnew.ramStart] at hok

lemma vmMap_newTable (h : MappedSpaces first limit s live roots) (has : as ∈ roots)
    (huser : ¬ Areas.kernelArea.Contains virt) (hz : s.lvl1Entry as virt = 0)
    (ha : page2addr s.pages page = .ok a) (halloc : physicalPageAlloc .kb1 s.pages = .ok (some q, pages)) :
    vmMap s as page virt perm = .ok { s with
      pages := pages
      words := newTableWords s.words (pageAddr s.pages.ramStart as + 4 * lvl1Index virt) (pageAddr s.pages.ramStart q)
        (lvl2Index virt) (SmallPageEntry.makeEntry a perm) } := by
  obtain ⟨hblocks, hr, hd, hlt, hdisj, hptr⟩ := h.newTable has halloc
  have ht := (hblocks.address (Finset.mem_insert_self _ _)).2.2
  rw [hr] at ht
  rw [vmMap, h.rootPtr as has, ok_bind, ha, ok_bind, vmMapPage,
    fillLvl1Entry_newTable (h.rootPtr _ h.kernelAs_mem) huser hz halloc ht, ok_bind]
  dsimp only
  rw [Function.update_self, CoarsePageTableEntry.baseAddress_makeEntry hd hlt, hptr, ok_bind, if_pos rfl]
  have hempty : ¬ fill (Function.update s.words (pageAddr s.pages.ramStart as + 4 * lvl1Index virt)
      (CoarsePageTableEntry.makeEntry (pageAddr s.pages.ramStart q))) (pageAddr s.pages.ramStart q) lvl2TableSize 0
      (pageAddr s.pages.ramStart q + 4 * lvl2Index virt) ≠ 0 :=
    not_not.mpr (fill_of_mem (mem_lvl2Bytes (lvl2Index_lt virt)))
  rw [panicIf, if_neg (by exact hempty)]
  rfl

/-- The table goes to the list of the order 16KB. -/
lemma vmUnmap_newTable (h : MappedSpaces first limit s live roots) (has : as ∈ roots) (hv : virt < 2 ^ 32)
    (huser : ¬ Areas.kernelArea.Contains virt) (halloc : physicalPageAlloc .kb1 s.pages = .ok (some q, pages))
    (hnew : SmallPageEntry.makeEntry a perm ≠ 0) :
    ∃ s₂, vmUnmap { s with
        pages := pages
        words := newTableWords s.words (pageAddr s.pages.ramStart as + 4 * lvl1Index virt) (pageAddr s.pages.ramStart q)
          (lvl2Index virt) (SmallPageEntry.makeEntry a perm) } as virt =
          .ok (SmallPageEntry.baseAddress (SmallPageEntry.makeEntry a perm), s₂) ∧
      s₂.lvl1Entry as virt = 0 ∧ s₂.pages.freeLists .kb16 = some q := by
  obtain ⟨hblocks, hr, hd, hlt, hdisj, hptr⟩ := h.newTable has halloc
  have hi := lvl1Index_lt_entries hv
  have hj := lvl2Index_lt virt
  have hq := Finset.mem_insert_self (⟨q, .kb1⟩ : Block) live
  have hpage := hblocks.addr2page_ok hq
  rw [hr] at hpage
  have hcount := (h.blocks.alloc halloc).refCount
  generalize pageAddr s.pages.ramStart q = t at *
  generalize hw : newTableWords s.words _ _ _ _ = words
  have hentry : words (pageAddr s.pages.ramStart as + 4 * lvl1Index virt) = CoarsePageTableEntry.makeEntry t :=
    hw ▸ newTableWords_entry hdisj hi hj
  have hentries {j : ℕ} (hj : j < lvl2Entries) : words (t + 4 * j) =
      if j = lvl2Index virt then SmallPageEntry.makeEntry a perm else 0 := hw ▸ newTableWords_page hj
  have hbase := CoarsePageTableEntry.baseAddress_makeEntry hd hlt
  have hsame := h.blocks.alloc_sameRam halloc words
  have hptr := hptr words
  generalize hs₁ : Vm.mk pages s.ramSize words s.kernelAs = s₁ at *
  have hwords : s₁.words = words := by rw [← hs₁]
  have hpages : s₁.pages = pages := by rw [← hs₁]
  have hroot : rootTablePtr s₁ as = .ok (pageAddr s.pages.ramStart as) :=
    (hsame.rootTablePtr as).trans (h.rootPtr as has)
  obtain ⟨pages', hfree, hr', -, hlist⟩ := hblocks.free_kb16 hq
  generalize hroot' : pageAddr s.pages.ramStart as + 4 * lvl1Index virt = entry at *
  have hne : entry ≠ t + 4 * lvl2Index virt := hroot' ▸ entry_ne_page hdisj hi hj
  have hdrop : dropLvl2Table entry t virt (s₁.store (t + 4 * lvl2Index virt) 0) =
      .ok (Vm.store { s₁.store (t + 4 * lvl2Index virt) 0 with pages := pages' } entry 0) := by
    have hempty : ∀ j < lvl2Entries, (s₁.store (t + 4 * lvl2Index virt) 0).words (t + 4 * j) = 0 := by
      intro j hj'
      rw [Vm.store_words, hwords]
      by_cases hjj : j = lvl2Index virt
      · rw [hjj, Function.update_self]
      · rw [Function.update_of_ne (by omega), hentries hj', if_neg hjj]
    have hstill : CoarsePageTableEntry.baseAddress ((s₁.store (t + 4 * lvl2Index virt) 0).words entry) = t := by
      rw [Vm.store_words, Function.update_of_ne hne, hwords, hentry, hbase]
    rw [dropLvl2Table, if_pos ⟨huser, hempty⟩, hstill, Vm.store_pages, hpages, hpage, ok_bind, hfree]
    rfl
  have hcoarse := CoarsePageTableEntry.isCoarsePage_makeEntry t
  refine ⟨Vm.store { s₁.store (t + 4 * lvl2Index virt) 0 with pages := pages' } entry 0, ?_, ?_, hlist ?_⟩
  · rw [vmUnmap, if_neg huser, hroot, ok_bind, vmUnmapPage]
    dsimp only
    rw [hroot', hwords, hentry, panicIf, if_neg (not_isSection_of_isCoarsePage hcoarse), ok_bind,
      if_neg (ne_zero_of_isCoarsePage hcoarse), hbase, hptr, ok_bind, hentries hj, if_pos rfl, if_neg hnew, hdrop]
    rfl
  · have hram : pageAddr pages'.ramStart as + 4 * lvl1Index virt = entry := by rw [hr', hr, hroot']
    rw [Vm.lvl1Entry, Vm.store_words, Vm.store_pages, hram, Function.update_self]
  · rw [hcount, Function.update_self]

end NewTable

section GivesBack

variable {first limit as page virt : ℕ} {s : Vm} {live : Finset Block} {roots : Set ℕ} {perm : PageAccessPermissions}

/-- The page of the table does not get back to the list of its order. -/
lemma not_givesTableBack {q : ℕ} {pages : PageAllocator} (h : MappedSpaces first limit s live roots) (has : as ∈ roots)
    (hv : virt < 2 ^ 32) (huser : ¬ Areas.kernelArea.Contains virt) (hz : s.lvl1Entry as virt = 0)
    (hpage : page < s.pages.len) (halloc : physicalPageAlloc .kb1 s.pages = .ok (some q, pages)) :
    ¬ GivesTableBack s as page virt perm := by
  intro hback
  have ha : page2addr s.pages page = .ok (add32 s.pages.ramStart (page * size1KB)) := by
    rw [page2addr, kassert_of hpage]
    rfl
  obtain ⟨table, pages', s₂, free, halloc', hunmap, -, hlinks, hfree, -⟩ :=
    hback _ (vmMap_newTable h has huser hz ha halloc)
  obtain rfl : q = table := by
    rw [halloc] at halloc'
    exact Option.some.inj (Prod.mk.inj (Except.ok.inj halloc')).1
  obtain ⟨s₃, hunmap', -, hlist⟩ := vmUnmap_newTable h has hv huser halloc
    (SmallPageEntry.makeEntry_ne_zero (add32 s.pages.ramStart (page * size1KB)) perm)
  obtain rfl : s₂ = s₃ := by
    rw [hunmap] at hunmap'
    exact (Prod.mk.inj (Except.ok.inj hunmap')).2
  obtain ⟨rest, hrest⟩ := hlinks.head_cons hlist
  have hmem : q ∈ free .kb16 := by
    rw [hrest]
    exact List.mem_cons_self
  exact absurd (hlinks.separate _ _ q hfree hmem) (by decide)

/-- Only a mapping that dies of a lack of memory has no table to give back. -/
theorem givesTableBack_iff (h : MappedSpaces first limit s live roots) (has : as ∈ roots) (hv : virt < 2 ^ 32)
    (huser : ¬ Areas.kernelArea.Contains virt) (hz : s.lvl1Entry as virt = 0) (hpage : page < s.pages.len) :
    GivesTableBack s as page virt perm ↔ ∀ o, s.pages.freeLists o = none := by
  refine ⟨fun hback o => ?_, fun hempty s₁ hm => ?_⟩
  · by_contra hfree
    rcases h.blocks.alloc_cases .kb1 with hn | ⟨q, pages, halloc⟩
    · exact alloc_kb1_served hfree hn
    · exact not_givesTableBack h has hv huser hz hpage halloc hback
  · rw [vmMap, h.rootPtr as has, ok_bind] at hm
    obtain ⟨a, -, hm⟩ := bind_eq_ok.mp hm
    obtain ⟨⟨new, s'⟩, hfill, -⟩ := bind_eq_ok.mp hm
    obtain ⟨-, hcases⟩ := fillLvl1Entry_cases h.blocks (h.rootPtr _ h.kernelAs_mem) hfill
    rcases hcases with ⟨-, hne, -⟩ | ⟨-, -, hc, -⟩ | ⟨-, -, -, q, pages, halloc, -⟩
    · exact absurd hz hne
    · exact absurd hc huser
    · obtain ⟨s₁, htaken, -⟩ := physicalPageAlloc_some halloc
      rw [allocFreePage_empty hempty] at htaken
      cases htaken

/-- A board whose kernel maps nothing yet. -/
def emptyBoard (pages : PageAllocator) : Vm := ⟨pages, smallBoot.ramSize, fun _ => 0, 0⟩

lemma emptyBoard_spaces {pages : PageAllocator} {live : Finset Block} (hb : Blocks 32 256 pages live)
    (hram : pages.ramStart = 0x40000000) (hlen : pages.len = 256) :
    MappedSpaces 32 256 (emptyBoard pages) live {0, 16} := by
  have hroot {p : ℕ} (hp : p ∈ ({0, 16} : Set ℕ)) :
      rootTablePtr (emptyBoard pages) p = .ok (pageAddr (emptyBoard pages).pages.ramStart p) := by
    rcases hp with rfl | rfl <;>
      simp [rootTablePtr, page2addr, phys2virt, kassert, emptyBoard, hram, hlen, add32, pageAddr, size1KB, smallBoot]
  have hnone {r i t : ℕ} : tableAt (emptyBoard pages).words r i ≠ some t := fun ht =>
    ne_zero_of_isCoarsePage (tableAt_eq_some.mp ht).1 rfl
  refine ⟨hb, ⟨?_, _, hroot (.inl rfl)⟩, ⟨⟨0, .inl rfl, rfl⟩, ?_, fun _ _ _ _ => .inl rfl, fun _ _ _ _ _ => .inl rfl,
    fun _ _ _ _ _ ht => absurd ht hnone, fun _ _ _ _ _ _ _ _ _ ht => absurd ht hnone,
    fun _ _ _ _ _ ht => absurd ht hnone⟩, fun p hp => hroot hp, ?_, fun _ _ _ _ _ ht => absurd ht hnone,
    fun _ _ _ _ _ ht => absurd ht hnone⟩
  · change pageAddr pages.ramStart 256 ≤ add32 pages.ramStart smallBoot.ramSize
    rw [hram]
    decide
  · rintro _ ⟨p, hp, rfl⟩ _ ⟨p', hp', rfl⟩ hne
    refine Set.disjoint_left.mpr fun a ha ha' => hne ?_
    simp only [Set.mem_insert_iff, Set.mem_singleton_iff] at hp hp'
    simp only [lvl1Bytes, Set.mem_Ico, lvl1TableSize, size1KB, pageAddr] at ha ha' ⊢
    omega
  · intro p hp
    refine .inr fun a ha => .inl ?_
    change a < pageAddr pages.ramStart 32
    simp only [Set.mem_insert_iff, Set.mem_singleton_iff] at hp
    simp only [lvl1Bytes, Set.mem_Ico, lvl1TableSize, size1KB, pageAddr, emptyBoard, hram] at ha ⊢
    omega

lemma emptyBoard_mapped {pages : PageAllocator} (h : physicalPageAllocatorInit smallBoot = .ok pages) :
    MappedSpaces 32 256 (emptyBoard pages) ∅ {0, 16} ∧ pages.len = 256 ∧ pages.ramStart = 0x40000000 := by
  obtain ⟨pages', free, h', hinv, hram, hlen, -⟩ := physicalPageAllocatorInit_spec smallBoot_valid
  obtain rfl := Except.ok.inj (h.symm.trans h')
  have hram : pages.ramStart = 0x40000000 := hram
  have hlen : pages.len = 256 := hlen.trans (by decide)
  refine ⟨emptyBoard_spaces ⟨⟨free, hinv⟩, ?_⟩ hram hlen, hlen, hram⟩
  rw [hram]
  decide

theorem givesTableBack_iff_small : ∃ pages, physicalPageAllocatorInit smallBoot = .ok pages ∧
    (GivesTableBack (emptyBoard pages) 0 20 0x100000 .userFullAccess ↔ ∀ o, pages.freeLists o = none) := by
  obtain ⟨pages, -, hinit, -⟩ := physicalPageAllocatorInit_spec smallBoot_valid
  obtain ⟨hboard, hlen, -⟩ := emptyBoard_mapped hinit
  refine ⟨pages, hinit, givesTableBack_iff hboard (.inl rfl) (by decide) (by decide) rfl ?_⟩
  change 20 < pages.len
  rw [hlen]
  decide

/-- On a board where all memory is free. -/
theorem table_not_given_back : ∃ pages, physicalPageAllocatorInit smallBoot = .ok pages ∧
    ¬ GivesTableBack (emptyBoard pages) 0 20 0x100000 .userFullAccess := by
  obtain ⟨pages, -, hinit, -⟩ := physicalPageAllocatorInit_spec smallBoot_valid
  obtain ⟨hboard, hlen, -⟩ := emptyBoard_mapped hinit
  have hfree : (physicalPageAllocatorInit smallBoot).map (fun s => (s.freeLists .kb16).isSome) = .ok true := by
    decide +kernel
  rw [hinit] at hfree
  have hsome : pages.freeLists .kb16 ≠ none := Option.isSome_iff_ne_none.mp (Except.ok.inj hfree)
  refine ⟨pages, hinit, ?_⟩
  rcases hboard.blocks.alloc_cases .kb1 with hn | ⟨q, pages', halloc⟩
  · exact absurd hn (alloc_kb1_served hsome)
  · refine not_givesTableBack hboard (.inl rfl) (by decide) (by decide) rfl ?_ halloc
    change 20 < pages.len
    rw [hlen]
    decide

end GivesBack

end Pi0Os.Memory
