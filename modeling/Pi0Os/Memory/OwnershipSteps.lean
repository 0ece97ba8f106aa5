import Pi0Os.Memory.OwnedSpaces

/-! The steps of `memory/vm.cpp` by what they do to the owned address spaces: blocks are taken, memory that is not a
table is written, and second-level entries come and go with a reference to their page. -/

namespace Pi0Os.Memory

open Kernel Library PageAllocator MappedSpaces

section Frames

variable {first limit as p i i' j j' t v : ℕ} {s : Vm} {live : Finset Block} {roots : Set ℕ}

lemma MappedSpaces.tableOf_store (h : MappedSpaces first limit s live roots) (has : as ∈ roots) (hi : i < lvl1Entries)
    (ht : s.tableOf as i = some t) (hj : j < lvl2Entries) (hp : p ∈ roots) (hi' : i' < lvl1Entries) :
    (s.store (t + 4 * j) v).tableOf p i' = s.tableOf p i' := by
  have hne := entry_ne_page (h.spaces.table_apart _ (mem_roots has) i hi t ht _ (mem_roots hp)) hi' hj
  rw [Vm.tableOf, tableAt, Vm.store_words, Vm.store_pages, Function.update_of_ne hne]
  rfl

lemma Vm.frameOf_of_table (ht : s.tableOf p i = some t) : s.frameOf p i j = frameIn s.words t j := by
  rw [Vm.frameOf, frameAt]
  exact congrArg (Option.bind · _) ht

lemma Vm.frameOf_of_noTable (ht : s.tableOf p i = none) : s.frameOf p i j = none := by
  rw [Vm.frameOf, frameAt]
  exact congrArg (Option.bind · _) ht

/-- Below the kernel area a second-level entry is that of one space. -/
lemma MappedSpaces.frameOf_store (h : MappedSpaces first limit s live roots) (has : as ∈ roots)
    (hi : i < kernelStartIdx) (ht : s.tableOf as i = some t) (hj : j < lvl2Entries) (hp : p ∈ roots)
    (hi' : i' < kernelStartIdx) (hj' : j' < lvl2Entries) :
    (s.store (t + 4 * j) v).frameOf p i' j' =
      if p = as ∧ i' = i ∧ j' = j then (if v = 0 then none else some (SmallPageEntry.baseAddress v))
      else s.frameOf p i' j' := by
  have htable := h.tableOf_store (v := v) has (lt_lvl1Entries hi) ht hj hp (lt_lvl1Entries hi')
  by_cases he : p = as ∧ i' = i ∧ j' = j
  · obtain ⟨rfl, rfl, rfl⟩ := he
    rw [if_pos ⟨rfl, rfl, rfl⟩, Vm.frameOf_of_table (htable.trans ht), frameIn, Vm.store_words, Function.update_self]
  · rw [if_neg he]
    cases ht' : s.tableOf p i' with
    | none => rw [Vm.frameOf_of_noTable (htable.trans ht'), Vm.frameOf_of_noTable ht']
    | some t' =>
      rw [Vm.frameOf_of_table (htable.trans ht'), Vm.frameOf_of_table ht']
      refine frameIn_congr (Function.update_of_ne (fun heq => he ?_) _ _)
      obtain ⟨rfl, rfl⟩ := page_eq (dvd_tableAt ht') (dvd_tableAt ht) hj' hj heq
      obtain ⟨rfl, hown⟩ := h.spaces.table_inj _ (mem_roots hp) i' (lt_lvl1Entries hi') _ (mem_roots has) i
        (lt_lvl1Entries hi) t' ht' ht
      exact ⟨pageAddr_injective _ (hown.resolve_right (Nat.not_le.mpr hi)), rfl, rfl⟩

end Frames

lemma SameTable.walk {m m' : ℕ → ℕ} {root virt : ℕ} (h : SameTable root m m' (lvl1Index virt)) :
    armWalk m' root virt = armWalk m root virt := by
  by_cases hc : isCoarsePage (m (root + 4 * lvl1Index virt))
  · have hj := h.2 _ (tableAt_eq_some.mpr ⟨hc, rfl⟩) _ (lvl2Index_lt virt)
    rw [armWalk, armWalk, h.1, hj]
  · rw [armWalk, armWalk, h.1, if_neg hc, if_neg hc]

lemma Spaces.of_sameTables {m m' : ℕ → ℕ} {kernel : ℕ} {roots : Set ℕ} (h : Spaces m kernel roots)
    (hsame : ∀ r ∈ roots, ∀ i < lvl1Entries, SameTable r m m' i) : Spaces m' kernel roots := by
  refine h.rebuild (i := 0) (r := kernel) (fun _ => False) (fun r hr i hi => ?_) (fun r hr i hk hi => ?_)
    (fun r hr i hi t ht => .inl ⟨r, hr, (hsame r hr i hi).table ▸ ht, .inl rfl⟩)
    (fun r hr i hi t ht j hj => (hsame r hr i hi).2 t ht j hj) (fun _ hf => hf.elim)
  · rw [(hsame r hr i hi).1]
    exact h.entry r hr i hi
  · rw [(hsame r hr i hi).1, (hsame kernel h.kernel_mem i hi).1]
    exact h.shared r hr i hk hi

namespace QuietStep

variable {first limit q : ℕ} {s s' : Vm} {live : Finset Block} {roots : Finset ℕ} {o : PageOrder}

lemma of_sameTables (h : MappedSpaces first limit s live roots) (hr : s.SameRam s') (hpages : s'.pages = s.pages)
    (hsame : ∀ p ∈ roots, ∀ i < lvl1Entries, SameTable (pageAddr s.pages.ramStart p) s.words s'.words i) :
    QuietStep first limit s s' live live roots := by
  have htable {p i : ℕ} (hp : p ∈ roots) (hi : i < lvl1Entries) : s'.tableOf p i = s.tableOf p i := by
    rw [Vm.tableOf, hpages]
    exact (hsame p hp i hi).table
  refine ⟨h.congr (hpages ▸ h.blocks) (Finset.Subset.refl _) hr (h.spaces.of_sameTables ?_)
      fun p hp i hi t ht => .inl ?_,
    hr, Finset.Subset.refl _, fun q _ => by rw [hpages], fun p hp i hi j hj f hf => ?_, fun i _ hi t ht => .inl ?_⟩
  · rintro _ ⟨p, hp, rfl⟩ i hi
    exact hsame p hp i hi
  · exact ⟨p, hp, (hsame p hp i hi).table ▸ ht⟩
  · rw [Vm.frameOf, hpages] at hf
    exact ((hsame p hp i (lt_lvl1Entries hi)).frame hj).symm.trans hf
  · exact htable h.kernelAs_mem hi ▸ ht

lemma alloc (h : MappedSpaces first limit s live roots) {pages : PageAllocator}
    (ha : physicalPageAlloc o s.pages = .ok (some q, pages)) :
    QuietStep first limit s { s with pages := pages } live (insert ⟨q, o⟩ live) roots := by
  have hnew := h.blocks.alloc ha
  have hr := h.blocks.alloc_sameRam ha s.words
  have hsub := Finset.subset_insert (⟨q, o⟩ : Block) live
  have hfresh := hnew.blocks.not_held hsub (Finset.mem_insert_self _ _) hnew.fresh
  refine ⟨h.congr hnew.blocks hsub hr h.spaces fun p hp i hi t ht => .inl ⟨p, hp, ht⟩, hr, hsub, fun r hheld => ?_,
    fun p hp i hi j hj f hf => ?_, fun i _ _ t ht => .inl ?_⟩
  · have hne : r ≠ q := fun he => hfresh (he ▸ hheld)
    dsimp only
    rw [hnew.refCount, Function.update_of_ne hne]
  · rwa [Vm.frameOf, hnew.ramStart] at hf
  · rwa [Vm.tableOf, hnew.ramStart] at ht

/-- A second-level entry is cleared. -/
lemma clearEntry {as i t j : ℕ} (h : MappedSpaces first limit s live roots) (has : as ∈ roots) (hi : i < lvl1Entries)
    (ht : s.tableOf as i = some t) (hj : j < lvl2Entries) :
    QuietStep first limit s (s.store (t + 4 * j) 0) live live roots := by
  have htable {p i' : ℕ} (hp : p ∈ roots) (hi' : i' < lvl1Entries) := h.tableOf_store (v := 0) has hi ht hj hp hi'
  refine ⟨h.store_page has hi ht hj (.inl rfl), .store s _ _, Finset.Subset.refl _, fun _ _ => rfl,
    fun p hp i' hi' j' hj' f hf => ?_, fun i' _ hi' t' ht' => .inl ?_⟩
  · have htable' := htable hp (lt_lvl1Entries hi')
    cases ht' : s.tableOf p i' with
    | none =>
      rw [Vm.frameOf_of_noTable (htable'.trans ht')] at hf
      cases hf
    | some t' =>
      rw [Vm.frameOf_of_table (htable'.trans ht'), frameIn, Vm.store_words] at hf
      have hne : t' + 4 * j' ≠ t + 4 * j := fun he => by
        rw [he, Function.update_self, if_pos rfl] at hf
        cases hf
      rw [Function.update_of_ne hne] at hf
      rw [Vm.frameOf_of_table ht']
      exact hf
  · exact (htable h.kernelAs_mem hi').symm.trans ht'

end QuietStep

namespace OwnedSpaces

variable {first limit as p q i j t v : ℕ} {s s' : Vm} {live : Finset Block} {roots : Finset ℕ} {X : Set ℕ}
variable {spare : ℕ → ℕ} {pages : PageAllocator}

section Writes

variable (h : OwnedSpaces first limit X s live roots spare)
include h

lemma frame_root (hq : FramePage live X q) (hp : p ∈ roots) :
    Disjoint ((⟨q, .kb4⟩ : Block).bytes s.pages.ramStart) (lvl1Bytes (pageAddr s.pages.ramStart p)) := by
  by_cases hk : p = s.kernelAs
  · subst hk
    rcases hq with hq | hq
    · rcases h.mapped.root _ hp with hlive | hout
      · rw [← bytes_kb16]
        exact h.mapped.blocks.disjoint hq hlive (by simp)
      · exact (h.mapped.blocks.outside_disjoint hq hout).symm
    · exact h.outside.root q hq
  · have hlive := h.root p hp hk
    rw [← bytes_kb16]
    rcases hq with hq | hq
    · exact h.mapped.blocks.disjoint hq hlive (by simp)
    · exact h.mapped.blocks.outside_disjoint hlive (h.outside.outside q hq)

lemma frame_table (hq : FramePage live X q) (hp : p ∈ roots) (hi : i < lvl1Entries) (ht : s.tableOf p i = some t) :
    Disjoint ((⟨q, .kb4⟩ : Block).bytes s.pages.ramStart) (lvl2Bytes t) := by
  rcases h.mapped.table p hp i hi t ht with ⟨r, hr, rfl⟩ | ⟨hk, hout⟩
  · rw [← bytes_kb1]
    rcases hq with hq | hq
    · exact h.mapped.blocks.disjoint hq hr (by simp)
    · exact h.mapped.blocks.outside_disjoint hr (h.outside.outside q hq)
  · rcases hq with hq | hq
    · exact (h.mapped.blocks.outside_disjoint hq hout).symm
    · refine h.apart q hq i hk hi t ?_
      have hne := ne_zero_of_isCoarsePage (tableAt_eq_some.mp ht).1
      rw [Vm.tableOf, tableAt, h.mapped.spaces.entry_eq_kernel (mem_roots hp) hk hi hne, ← tableAt]
      exact ht

/-- What is written in a frame is in no table. -/
lemma writeFrame_sameTable {m : ℕ → ℕ} (hq : FramePage live X q)
    (hm : ∀ a ∉ (⟨q, .kb4⟩ : Block).bytes s.pages.ramStart, m a = s.words a) (hp : p ∈ roots) (hi : i < lvl1Entries) :
    SameTable (pageAddr s.pages.ramStart p) s.words m i := by
  refine ⟨hm _ fun ha => ?_, fun t ht j hj => hm _ fun ha => ?_⟩
  · exact Set.disjoint_left.mp (h.frame_root hq hp) ha (mem_lvl1Bytes hi)
  · exact Set.disjoint_left.mp (h.frame_table hq hp hi ht) ha (mem_lvl2Bytes hj)

lemma quiet_writeFrame (hq : FramePage live X q) (hr : s.SameRam s') (hpages : s'.pages = s.pages)
    (hm : ∀ a ∉ (⟨q, .kb4⟩ : Block).bytes s.pages.ramStart, s'.words a = s.words a) :
    QuietStep first limit s s' live live roots :=
  .of_sameTables h.mapped hr hpages fun _ hp _ hi => h.writeFrame_sameTable hq hm hp hi

end Writes

section References

/-- A page from the allocator comes with a reference. -/
lemma allocPage (h : OwnedSpaces first limit X s live roots spare)
    (ha : physicalPageAlloc .kb4 s.pages = .ok (some q, pages)) :
    OwnedSpaces first limit X { s with pages := pages } (insert ⟨q, .kb4⟩ live) roots (Function.update spare q 1) := by
  have hquiet := QuietStep.alloc h.mapped ha
  have hnew := h.mapped.blocks.alloc ha
  have hfresh : ¬ FramePage live X q := fun hq =>
    hnew.blocks.not_held hquiet.sub (Finset.mem_insert_self _ _) hnew.fresh (h.held hq)
  have hnext := h.quiet hquiet
  refine hnext.respare (fun r hr => ?_) fun r hr => ?_
  · by_cases he : r = q
    · subst he
      have hzero : ∑ p ∈ roots, Vm.userMappings { s with pages := pages } p r ≤ ∑ p ∈ roots, s.userMappings p r :=
        Finset.sum_le_sum fun p hp => (hquiet.frames p hp).userMappings_le hnew.ramStart
      rw [h.unmapped hfresh] at hzero
      dsimp only
      rw [hnew.refCount, Function.update_self, Function.update_self]
      omega
    · rw [Function.update_of_ne he]
      exact hnext.counted r hr
  · by_cases he : r = q
    · exact .inl (he ▸ Finset.mem_insert_self _ _)
    · rw [Function.update_of_ne he] at hr
      exact hnext.spare r hr

/-- A caller that holds a reference takes another one. -/
lemma retain (h : OwnedSpaces first limit X s live roots spare) (hq : FramePage live X q) :
    OwnedSpaces first limit X { s with pages := s.pages.setRefCount q (s.pages.refCount q + 1) } live roots
      (Function.update spare q (spare q + 1)) := by
  have hram : s.SameRam { s with pages := s.pages.setRefCount q (s.pages.refCount q + 1) } := ⟨rfl, rfl, rfl, rfl⟩
  refine ⟨h.mapped.congr (h.mapped.blocks.retain (h.held hq)) (Finset.Subset.refl _) hram h.mapped.spaces
    fun p hp i hi t ht => .inl ⟨p, hp, ht⟩, h.outside.congr hram, h.apart, h.root, h.frame, fun r hr => ?_,
    fun r hr => ?_, ?_⟩
  · have hcount := h.counted r hr
    dsimp only
    rw [refCount_setRefCount]
    by_cases he : r = q
    · subst he
      rw [Function.update_self, Function.update_self]
      change ((∑ p ∈ roots, s.userMappings p r + (spare r + 1) : ℕ) : ℤ) ≤ _
      omega
    · rw [Function.update_of_ne he, Function.update_of_ne he]
      exact hcount
  · by_cases he : r = q
    · exact he ▸ hq
    · rw [Function.update_of_ne he] at hr
      exact h.spare r hr
  · have hne : s.kernelAs ≠ q := fun he => by
      have hdisj := h.frame_root hq h.mapped.kernelAs_mem
      rw [he] at hdisj
      exact Set.disjoint_left.mp hdisj ⟨le_rfl, Nat.lt_add_of_pos_right (Nat.succ_pos _)⟩
        ⟨le_rfl, Nat.lt_add_of_pos_right (Nat.succ_pos _)⟩
    dsimp only
    rw [refCount_setRefCount, Function.update_of_ne hne, h.idle]

lemma address (h : OwnedSpaces first limit X s live roots spare) (hq : FramePage live X q) :
    size4KB ∣ pageAddr s.pages.ramStart q ∧ pageAddr s.pages.ramStart q < 2 ^ 32 ∧ q < s.pages.len := by
  obtain ⟨free, hinv⟩ := h.mapped.blocks.inv
  have haddr := hinv.address
  rcases hq with hq | hq
  · obtain ⟨hd, hlt, -⟩ := h.mapped.blocks.address hq
    exact ⟨hd, hlt, (hinv.tiled.head_mem (AllocatorInv.mem_used hq)).2.trans_le hinv.limit_le⟩
  · have hd := h.outside.aligned q hq
    have hlen := h.outside.inArray q hq
    have hram := h.mapped.blocks.ramAligned
    simp only [pageAddr, size4KB, size1KB, size1MB, PageOrder.frames] at *
    omega

/-- An empty entry takes over a caller's reference. -/
lemma mapPage (h : OwnedSpaces first limit X s live roots spare) (has : as ∈ roots) (hi : i < kernelStartIdx)
    (ht : s.tableOf as i = some t) (hj : j < lvl2Entries) (hspare : 0 < spare q) (perm : PageAccessPermissions) :
    OwnedSpaces first limit X (s.store (t + 4 * j) (SmallPageEntry.makeEntry (pageAddr s.pages.ramStart q) perm)) live
      roots (Function.update spare q (spare q - 1)) := by
  have hq := h.spare q hspare
  obtain ⟨hd, hlt, -⟩ := h.address hq
  have hi' := lt_lvl1Entries hi
  generalize he : SmallPageEntry.makeEntry (pageAddr s.pages.ramStart q) perm = e
  have hbase : SmallPageEntry.baseAddress e = pageAddr s.pages.ramStart q :=
    he ▸ SmallPageEntry.baseAddress_makeEntry perm hd hlt
  have hne : e ≠ 0 := he ▸ SmallPageEntry.makeEntry_ne_zero _ _
  have hpage : 2 ≤ e % 4 := by
    rw [← he]
    simp only [SmallPageEntry.makeEntry, smallPageEntryId]
    omega
  have hframe {p i' j' : ℕ} (hp : p ∈ roots) (hi' : i' < kernelStartIdx) (hj' : j' < lvl2Entries) :=
    h.mapped.frameOf_store (v := e) has hi ht hj hp hi' hj'
  rw [if_neg hne, hbase] at hframe
  refine ⟨h.mapped.store_page has hi' ht hj (.inr hpage), h.outside.congr (.store s _ _),
    fun r hr i' hk hi' t' ht' => ?_, h.root, fun p hp i' hi' j' hj' f hf => ?_, fun r hr => ?_, fun r hr => ?_, h.idle⟩
  · refine h.apart r hr i' hk hi' t' ?_
    exact (h.mapped.tableOf_store has (lt_lvl1Entries hi) ht hj h.mapped.kernelAs_mem hi').symm.trans ht'
  · rw [hframe hp hi' hj'] at hf
    split_ifs at hf
    · exact ⟨q, hq, (Option.some.inj hf).symm⟩
    · exact h.frame p hp i' hi' j' hj' f hf
  · have hsum : ∑ p ∈ roots, (s.store (t + 4 * j) e).userMappings p r + 0 ≤
        ∑ p ∈ roots, s.userMappings p r + if r = q then 1 else 0 := by
      refine sum_add_le has ?_ fun p hp hne => ?_
      · rw [Nat.add_zero]
        refine userMappings_le_insert (i := i) (j := j) rfl ?_ fun i' hi' j' hj' hne f hf => ?_
        · rw [hframe has hi hj, if_pos ⟨rfl, rfl, rfl⟩]
        · rwa [hframe has hi' hj', if_neg fun he => hne (Prod.ext he.2.1 he.2.2)] at hf
      · refine KeepsFrames.userMappings_le (fun i' hi' j' hj' f hf => ?_) rfl
        rwa [hframe hp hi' hj', if_neg fun he => hne he.1] at hf
    have hcount := h.counted r hr
    rw [Vm.store_pages]
    by_cases he : r = q
    · subst he
      rw [if_pos rfl] at hsum
      rw [Function.update_self]
      omega
    · rw [if_neg he] at hsum
      rw [Function.update_of_ne he]
      omega
  · by_cases he : r = q
    · exact he ▸ hq
    · rw [Function.update_of_ne he] at hr
      exact h.spare r hr

/-- The reference of an entry that is cleared is the caller's again. -/
lemma unmapPage (h : OwnedSpaces first limit X s live roots spare) (has : as ∈ roots) (hi : i < kernelStartIdx)
    (ht : s.tableOf as i = some t) (hj : j < lvl2Entries)
    (hold : s.frameOf as i j = some (pageAddr s.pages.ramStart q)) :
    OwnedSpaces first limit X (s.store (t + 4 * j) 0) live roots (Function.update spare q (spare q + 1)) := by
  have hquiet := QuietStep.clearEntry h.mapped has (lt_lvl1Entries hi) ht hj
  have hnext := h.quiet hquiet
  have hq : FramePage live X q := by
    obtain ⟨q', hq', he⟩ := h.frame as has i hi j hj _ hold
    exact pageAddr_injective _ he ▸ hq'
  have hnew : (s.store (t + 4 * j) 0).frameOf as i j = none := by
    rw [h.mapped.frameOf_store has hi ht hj has hi hj, if_pos ⟨rfl, rfl, rfl⟩, if_pos rfl]
  refine hnext.respare (fun r hr => ?_) fun r hr => ?_
  · by_cases he : r = q
    · subst he
      have hlt := (hquiet.frames as has).userMappings_lt rfl hi hj hold hnew
      have hsum : ∑ p ∈ roots, (s.store (t + 4 * j) 0).userMappings p r + 1 ≤ ∑ p ∈ roots, s.userMappings p r + 0 :=
        sum_add_le has (by omega) fun p hp _ => (hquiet.frames p hp).userMappings_le rfl
      have hcount := h.counted r hr
      rw [Vm.store_pages, Function.update_self]
      omega
    · rw [Function.update_of_ne he]
      exact hnext.counted r hr
  · by_cases he : r = q
    · exact he ▸ hq
    · rw [Function.update_of_ne he] at hr
      exact h.spare r hr

end References

end OwnedSpaces

end Pi0Os.Memory
