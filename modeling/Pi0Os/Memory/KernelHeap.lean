import Pi0Os.Memory.KernelPages
import Pi0Os.Memory.PageSupply

/-! The break of the kernel heap: its pages are mapped one after another from the start of their area on, and are
unmapped in the opposite order. -/

namespace Pi0Os.Memory

open Kernel Library PageAllocator

structure KernelHeap where
  vm : Vm
  lastMappedChunk : ℕ -- `g_last_mapped_chunk`
  gBrk : ℕ

/-- The errors of `base.h` that the heap returns. -/
inductive HeapError where
  | badParameters
  | outOfMemory
deriving DecidableEq

abbrev chunkSize : ℕ := 4 * size1KB

section Source

variable (current : ℕ) -- `g_current_address_space`

/-- A turn of the loop of `brk` that maps pages. -/
def addChunk (h : KernelHeap) : Except Panic KernelHeap := do
  match ← physicalPageAlloc .kb4 h.vm.pages with
  | (none, _) => .error (.message "The following expression returned an error:\n")
  | (some page, pages) =>
    let chunk := add32 h.lastMappedChunk chunkSize
    let vm ← vmMap { h.vm with pages := pages } current page chunk .priviledgedOnly
    return { h with vm := vm, lastMappedChunk := chunk }

/-- A turn of the loop of `brk` that unmaps pages. -/
def removeChunk (h : KernelHeap) : Except Panic KernelHeap := do
  let (previouslyMapped, vm) ← vmUnmap h.vm current h.lastMappedChunk
  let toFree ← addr2page vm.pages previouslyMapped
  let pages ← physicalPageFree toFree .kb4 vm.pages
  return { h with vm := { vm with pages := pages }, lastMappedChunk := sub32 h.lastMappedChunk chunkSize }

def addChunks (n : ℕ) (h : KernelHeap) : Except Panic KernelHeap :=
  (List.range n).foldlM (fun h _ => addChunk current h) h

def removeChunks (n : ℕ) (h : KernelHeap) : Except Panic KernelHeap :=
  (List.range n).foldlM (fun h _ => removeChunk current h) h

def brk (newBrk : ℕ) (h : KernelHeap) : Except Panic (Except HeapError KernelHeap) := do
  if newBrk < Areas.kernelHeap.start ∨ Areas.kernelHeap.end < newBrk then return .error .badParameters
  let mustBeMappedUpTo := roundDown newBrk chunkSize
  let h ←
    if h.lastMappedChunk < mustBeMappedUpTo then
      addChunks current ((mustBeMappedUpTo - h.lastMappedChunk) / chunkSize) h
    else if mustBeMappedUpTo < h.lastMappedChunk then
      removeChunks current ((h.lastMappedChunk - mustBeMappedUpTo) / chunkSize) h
    else .ok h
  return .ok { h with gBrk := newBrk }

/-- With the old break. -/
def sbrk (size : ℕ) (h : KernelHeap) : Except Panic (Except HeapError (ℕ × KernelHeap)) := do
  if sub32 Areas.kernelHeap.end size < h.gBrk then return .error .outOfMemory
  match ← brk current (add32 h.gBrk size) h with
  | .error e => return .error e
  | .ok h' => return .ok (h.gBrk, h')

/-- `_sbrk`, whose null pointer is `none`. The `int` becomes a `size_t`. -/
def sbrkIncr (incr : BitVec 32) (h : KernelHeap) : Except Panic (Option ℕ × KernelHeap) := do
  match ← sbrk current incr.toNat h with
  | .error _ => return (none, h)
  | .ok (addr, h') => return (some addr, h')

/-- `none` stands for the error `OutOfMemory`. -/
def kheapInit (vm : Vm) : Except Panic (Option KernelHeap) := do
  match ← physicalPageAlloc .kb4 vm.pages with
  | (none, _) => return none
  | (some firstPage, pages) =>
    let vm ← vmMap { vm with pages := pages } current firstPage Areas.kernelHeap.start .priviledgedOnly
    return some ⟨vm, Areas.kernelHeap.start, Areas.kernelHeap.start⟩

end Source

section Area

variable {h : KernelHeap} {incr : BitVec 32} {v i : ℕ}

lemma kernelHeap_start : Areas.kernelHeap.start = 0xc3000000 := by decide

lemma kernelHeap_end : Areas.kernelHeap.end = 0xe0000000 := rfl

/-- The number of pages in the area of the heap. -/
abbrev heapChunks : ℕ := 0x1d000

def heapChunk (i : ℕ) : ℕ := Areas.kernelHeap.start + i * size4KB

lemma dvd_heapChunk (i : ℕ) : size4KB ∣ heapChunk i := by
  rw [heapChunk, kernelHeap_start]
  exact Nat.dvd_add (by decide) (Dvd.intro_left _ rfl)

lemma heapChunk_bounds (hi : i ≤ heapChunks) : Areas.kernelVirtStartAddr ≤ heapChunk i ∧ heapChunk i ≤ 0xe0000000 := by
  simp only [heapChunk, kernelHeap_start, Areas.kernelVirtStartAddr, size4KB, heapChunks] at hi ⊢
  omega

lemma heapChunk_lt (hi : i ≤ heapChunks) : heapChunk i < 2 ^ 32 := (heapChunk_bounds hi).2.trans_lt (by decide)

/-- Where a call would put the break. -/
def KernelHeap.newBrk (h : KernelHeap) (incr : BitVec 32) : ℤ := h.gBrk + incr.toInt

/-- A break that `brk` accepts. -/
def HeapBreak (b : ℤ) : Prop := (Areas.kernelHeap.start : ℤ) ≤ b ∧ b ≤ (Areas.kernelHeap.end : ℤ)

instance (b : ℤ) : Decidable (HeapBreak b) := inferInstanceAs (Decidable (_ ∧ _))

/-- The unsigned comparisons come out as those of the integers. -/
lemma heapBreak_iff (hb : HeapBreak h.gBrk) : HeapBreak (h.newBrk incr) ↔
    ¬ sub32 Areas.kernelHeap.end incr.toNat < h.gBrk ∧
      ¬ (add32 h.gBrk incr.toNat < Areas.kernelHeap.start ∨ Areas.kernelHeap.end < add32 h.gBrk incr.toNat) := by
  have hlt := incr.isLt
  simp only [HeapBreak, KernelHeap.newBrk, BitVec.toInt_eq_toNat_cond, kernelHeap_start, kernelHeap_end, sub32,
    add32] at hb ⊢
  split_ifs <;> omega

lemma newBrk_eq (hnew : HeapBreak (h.newBrk incr)) :
    (add32 h.gBrk incr.toNat : ℤ) = h.newBrk incr := by
  have hlt := incr.isLt
  simp only [HeapBreak, KernelHeap.newBrk, BitVec.toInt_eq_toNat_cond, kernelHeap_start, kernelHeap_end, add32] at *
  split_ifs at * <;> omega

end Area

section Supplied

variable {first limit as virt a n : ℕ} {s : Vm} {live : Finset Block} {roots : Set ℕ} {perm : PageAccessPermissions}

/-- What a space has for a megabyte of the kernel area is no section where the kernel has none. -/
lemma MappedSpaces.not_section_of_kernel (h : MappedSpaces first limit s live roots) (has : as ∈ roots)
    (hv : virt < 2 ^ 32) (hk : Areas.kernelVirtStartAddr ≤ virt) (hsec : ¬ isSection (s.lvl1Entry s.kernelAs virt)) :
    ¬ isSection (s.lvl1Entry as virt) := by
  rw [Vm.lvl1Entry]
  rcases h.spaces.shared _ (mem_roots has) _ (kernelStartIdx_le_iff.mpr hk) (lvl1Index_lt_entries hv) with he | ⟨hz, -⟩
  · rw [he]
    exact hsec
  · rw [hz]
    decide

lemma MappedSpaces.fillLvl1Entry_supplied (h : MappedSpaces first limit s live roots) (has : as ∈ roots)
    (hv : virt < 2 ^ 32) (hd : size4KB ∣ virt) (hk : Areas.kernelVirtStartAddr ≤ virt)
    (hsec : ¬ isSection (s.lvl1Entry s.kernelAs virt))
    (hs : Supplies s.pages (n + if s.lvl1Entry s.kernelAs virt = 0 then 1 else 0)) :
    ∃ new s', fillLvl1Entry (pageAddr s.pages.ramStart as) virt s = .ok (new, s') ∧ Supplies s'.pages n := by
  have hi := lvl1Index_lt_entries hv
  have hin : Areas.kernelArea.Contains virt := (contains_iff hv hd).mpr (kernelStartIdx_le_iff.mpr hk)
  have hroot := h.not_section_of_kernel has hv hk hsec
  rw [Vm.lvl1Entry] at hroot hs
  rw [fillLvl1Entry, h.rootPtr _ h.kernelAs_mem, ok_bind]
  dsimp only
  rw [panicIf, if_neg hroot, ok_bind]
  by_cases hz : s.words (pageAddr s.pages.ramStart as + 4 * lvl1Index virt) = 0
  · rw [if_neg (not_not.mpr hz), if_pos hin, Vm.store_words, Function.update_self]
    by_cases hkz : s.words (pageAddr s.pages.ramStart s.kernelAs + 4 * lvl1Index virt) = 0
    · rw [if_pos hkz] at hs
      rw [if_neg (not_not.mpr hkz), Vm.store_pages]
      obtain ⟨q, pages, halloc, hleft⟩ := h.blocks.alloc_supplied (o := .kb1) (by decide) hs
      have hnew := h.blocks.alloc halloc
      have ha := (hnew.blocks.address (Finset.mem_insert_self _ _)).2.2
      rw [halloc, ok_bind]
      dsimp only
      rw [ha, ok_bind]
      split_ifs with hc
      · have hne : pageAddr s.pages.ramStart s.kernelAs + 4 * lvl1Index virt ≠
            pageAddr s.pages.ramStart as + 4 * lvl1Index virt := fun he => hc.2 (Nat.add_right_cancel he).symm
        simp only [Vm.store_words, Function.update_of_ne hne]
        rw [kassert_of hkz]
        exact ⟨_, _, rfl, hleft⟩
      · exact ⟨_, _, rfl, hleft⟩
    · rw [if_pos hkz]
      rw [if_neg hkz] at hs
      exact ⟨_, _, rfl, hs⟩
  · rw [if_pos hz]
    exact ⟨_, _, rfl, hs.mono (Nat.le_add_right _ _)⟩

/-- `vm_map_page` returns where the kernel maps nothing and there is a page for the table. -/
lemma MappedSpaces.vmMapPage_supplied (h : MappedSpaces first limit s live roots) (has : as ∈ roots)
    (hv : virt < 2 ^ 32) (hd : size4KB ∣ virt) (hk : Areas.kernelVirtStartAddr ≤ virt)
    (hnone : s.walk s.kernelAs virt = none)
    (hs : Supplies s.pages (n + if s.lvl1Entry s.kernelAs virt = 0 then 1 else 0)) :
    ∃ s', vmMapPage (pageAddr s.pages.ramStart as) a virt perm s = .ok s' ∧ Supplies s'.pages n := by
  have hi := lvl1Index_lt_entries hv
  obtain ⟨new, s₁, hfill, hleft⟩ := h.fillLvl1Entry_supplied has hv hd hk (not_isSection_of_walk hnone) hs
  obtain ⟨t, live', hbase, hready, -⟩ := h.fillLvl1Entry_ready has hv hd hfill
  have htable := hready.table
  rw [← hready.ram.ramStart] at htable
  have hptr : phys2virt s₁ t = .ok t := by
    have hptr := hready.mapped.tablePtr as has _ hi t htable
    cases new <;> exact hptr
  -- the entry is that of an address which no space maps
  have hempty : (if new then s₁.clear t lvl2TableSize else s₁).words (t + 4 * lvl2Index virt) = 0 := by
    obtain ⟨hc, hb⟩ := tableAt_eq_some.mp htable
    have hwalk : (if new then s₁.clear t lvl2TableSize else s₁).walk as virt = none := by
      have has' : s.walk as virt = none := by rw [h.walk_eq_kernel has hv hk, hnone, ite_self]
      rw [Vm.walk, hready.ram.ramStart, hready.walk as has virt hv]
      split_ifs
      · exact hnone
      · exact has'
    have hcell := hready.mapped.cell_zero has hv (ne_zero_of_isCoarsePage hc) hwalk
    rwa [Vm.cell, Vm.lvl1Entry, hb] at hcell
  rw [vmMapPage, hfill, ok_bind]
  dsimp only
  rw [hbase, hptr, ok_bind, panicIf, if_neg (not_not.mpr hempty)]
  refine ⟨_, rfl, ?_⟩
  cases new <;> exact hleft

end Supplied

/-- Outside the addresses from `lo` to `hi` the map of the kernel area is as it was, and so are the maps of the user. -/
structure ChangesOnly (s s' : Vm) (roots : Set ℕ) (lo hi : ℕ) : Prop where
  ram : s.SameRam s'
  entries : KeepsEntries roots s s'
  kernel : ∀ v < 2 ^ 32, ¬ (lo ≤ v ∧ v < hi) → s'.walk s.kernelAs v = s.walk s.kernelAs v
  user : ∀ p ∈ roots, ∀ v < Areas.kernelVirtStartAddr, s'.walk p v = s.walk p v

section ChangesOnly

variable {s s' s'' : Vm} {roots : Set ℕ} {lo hi lo' hi' virt : ℕ} {page : ℕ → Option (ℕ × PageAccessPermissions)}

lemma ChangesOnly.refl (s : Vm) (roots : Set ℕ) (lo hi : ℕ) : ChangesOnly s s roots lo hi :=
  ⟨.refl s, .refl roots s, fun _ _ _ => rfl, fun _ _ _ _ => rfl⟩

lemma ChangesOnly.trans (h : ChangesOnly s s' roots lo hi) (h' : ChangesOnly s' s'' roots lo hi) :
    ChangesOnly s s'' roots lo hi := by
  refine ⟨h.ram.trans h'.ram, h.entries.trans h'.entries h.ram, fun v hv hout => ?_, fun p hp v hu =>
    (h'.user p hp v hu).trans (h.user p hp v hu)⟩
  have hlast := h'.kernel v hv hout
  rw [h.ram.kernelAs] at hlast
  exact hlast.trans (h.kernel v hv hout)

lemma ChangesOnly.mono (h : ChangesOnly s s' roots lo hi) (hlo : lo' ≤ lo) (hhi : hi ≤ hi') :
    ChangesOnly s s' roots lo' hi' :=
  ⟨h.ram, h.entries, fun v hv hout => h.kernel v hv fun hin => hout ⟨hlo.trans hin.1, hin.2.trans_le hhi⟩, h.user⟩

lemma SetsPages.changesOnly (h : SetsPages s s' roots {virt / size4KB} page) (hd : size4KB ∣ virt) :
    ChangesOnly s s' roots virt (virt + size4KB) := by
  refine ⟨h.ram, h.entries, fun v hv hout => ?_, h.user⟩
  rw [h.kernel v hv, if_neg]
  rw [Finset.mem_singleton]
  simp only [size4KB] at hd hout ⊢
  omega

/-- The page allocator may have changed since, with the RAM as it is. -/
lemma SetsPages.withPages {numbers : Finset ℕ} (h : SetsPages s s' roots numbers page) {pages : PageAllocator}
    (hram : s'.SameRam { s' with pages := pages }) : SetsPages s { s' with pages := pages } roots numbers page := by
  have hr := hram.ramStart
  dsimp only at hr
  have hwalk {q v : ℕ} : Vm.walk { s' with pages := pages } q v = s'.walk q v := by
    rw [Vm.walk, hr]
    rfl
  refine ⟨h.ram.trans hram, h.entries, fun v hv => ?_, fun q hq v hu => ?_⟩
  · rw [hwalk]
    exact h.kernel v hv
  · rw [hwalk]
    exact h.user q hq v hu

/-- The megabytes of `n` pages from `virt` on for which the kernel has no second-level table. -/
def Vm.newTables (s : Vm) (virt n : ℕ) : ℕ :=
  (((Finset.range n).image fun i => lvl1Index (virt + i * size4KB)).filter fun i =>
    s.words (pageAddr s.pages.ramStart s.kernelAs + 4 * i) = 0).card

lemma Vm.newTables_mono (s : Vm) (virt : ℕ) {m n : ℕ} (h : m ≤ n) : s.newTables virt m ≤ s.newTables virt n :=
  Finset.card_le_card (Finset.filter_subset_filter _ (Finset.image_subset_image (Finset.range_subset_range.mpr h)))

/-- What the kernel reaches, whichever the current address space. -/
lemma ChangesOnly.sees {first limit p v : ℕ} {live live' : Finset Block} (h : ChangesOnly s s' roots lo hi)
    (hs : MappedSpaces first limit s live roots) (hs' : MappedSpaces first limit s' live' roots) (hp : p ∈ roots)
    (hv : v < 2 ^ 32) (hout : ¬ (lo ≤ v ∧ v < hi)) : s'.sees p v = s.sees p v := by
  rw [hs.sees_eq hp hv, hs'.sees_eq hp hv]
  split_ifs with hk
  · rw [h.ram.kernelAs]
    exact h.kernel v hv hout
  · exact h.user p hp v (Nat.not_le.mp hk)

end ChangesOnly

section Frames

variable {first limit as virt p n : ℕ} {s s' : Vm} {live : Finset Block} {roots : Set ℕ} {pages : PageAllocator}

lemma MappedSpaces.with_frame (h : MappedSpaces first limit s live roots)
    (ha : physicalPageAlloc .kb4 s.pages = .ok (some p, pages)) :
    MappedSpaces first limit { s with pages := pages } (insert ⟨p, .kb4⟩ live) roots :=
  h.congr (h.blocks.alloc ha).blocks (Finset.subset_insert ..) (h.blocks.alloc_sameRam ha s.words) h.spaces
    fun p hp _ _ _ ht => .inl ⟨p, hp, ht⟩

/-- A new page is mapped. -/
lemma MappedSpaces.mapFrame (h : MappedSpaces first limit s live roots) (has : as ∈ roots) (hv : virt < 2 ^ 32)
    (hd : size4KB ∣ virt) (hk : Areas.kernelVirtStartAddr ≤ virt)
    (ha : physicalPageAlloc .kb4 s.pages = .ok (some p, pages))
    (hm : vmMap { s with pages := pages } as p virt .priviledgedOnly = .ok s') :
    ∃ live', MappedSpaces first limit s' live' roots ∧ insert ⟨p, .kb4⟩ live ⊆ live' ∧
      s'.pages.refCount p = 1 ∧ (∀ b ∈ live, s'.pages.refCount b.head = s.pages.refCount b.head) ∧
      SetsPages s s' roots {virt / size4KB}
        (fun v => some (pageAddr s.pages.ramStart p + v % size4KB, .priviledgedOnly)) := by
  have hnew := h.blocks.alloc ha
  have hs₁ := h.with_frame ha
  have hmem : (⟨p, .kb4⟩ : Block) ∈ insert ⟨p, .kb4⟩ live := Finset.mem_insert_self _ _
  obtain ⟨hda, hlt, hpage⟩ := hnew.blocks.address hmem
  rw [vmMap, hs₁.rootPtr as has, ok_bind, hpage, ok_bind] at hm
  obtain ⟨live', hs', hsub, -, hcounts, hsets, -⟩ := hs₁.mapKernelPage has hv hd hk hda hlt hm
  have hram := h.blocks.alloc_sameRam ha s.words
  have hsame : SetsPages s { s with pages := pages } roots ∅
      (fun v => some (pageAddr s.pages.ramStart p + v % size4KB, .priviledgedOnly)) := by
    refine ⟨hram, .refl roots s, fun v _ => ?_, fun q _ v _ => ?_⟩
    · rw [if_neg (Finset.notMem_empty _), Vm.walk, hram.ramStart]
      rfl
    · rw [Vm.walk, hram.ramStart]
      rfl
  refine ⟨live', hs', hsub, ?_, fun b hb => ?_, ?_⟩
  · rw [hcounts _ hmem]
    change pages.refCount p = 1
    rw [hnew.refCount, Function.update_self]
  · rw [hcounts b (Finset.mem_insert_of_mem hb)]
    have hne : b.head ≠ p := by
      rintro rfl
      have ho := hnew.blocks.order_eq (Finset.mem_insert_of_mem hb) hmem
      exact hnew.fresh (by rwa [← ho])
    change pages.refCount b.head = _
    rw [hnew.refCount, Function.update_of_ne hne]
  · have hall := hsame.trans hsets fun v _ => by rw [hnew.ramStart]
    rwa [Finset.empty_union] at hall

lemma MappedSpaces.mapFrame_supplied (h : MappedSpaces first limit s live roots) (has : as ∈ roots)
    (hv : virt < 2 ^ 32) (hd : size4KB ∣ virt) (hk : Areas.kernelVirtStartAddr ≤ virt)
    (hnone : s.walk s.kernelAs virt = none)
    (hs : Supplies s.pages (n + (if s.lvl1Entry s.kernelAs virt = 0 then 1 else 0) + 1)) :
    ∃ p pages s', physicalPageAlloc .kb4 s.pages = .ok (some p, pages) ∧
      vmMap { s with pages := pages } as p virt .priviledgedOnly = .ok s' ∧ Supplies s'.pages n := by
  obtain ⟨p, pages, ha, hleft⟩ := h.blocks.alloc_supplied (o := .kb4) (by decide) hs
  have hs₁ := h.with_frame ha
  have hpage := (hs₁.blocks.address (Finset.mem_insert_self _ _)).2.2
  have hr := (h.blocks.alloc_sameRam ha s.words).ramStart
  have hnone₁ : Vm.walk { s with pages := pages } s.kernelAs virt = none := by
    rw [Vm.walk, hr]
    exact hnone
  have hleft₁ : Supplies pages (n + if Vm.lvl1Entry { s with pages := pages } s.kernelAs virt = 0 then 1 else 0) := by
    rw [Vm.lvl1Entry, hr]
    exact hleft
  obtain ⟨s', hm, hn⟩ := hs₁.vmMapPage_supplied has hv hd hk hnone₁ hleft₁
  refine ⟨p, pages, s', ha, ?_, hn⟩
  rw [vmMap, hs₁.rootPtr as has, ok_bind, hpage, ok_bind]
  exact hm

/-- A page that holds no table is given back. -/
lemma MappedSpaces.free_frame (h : MappedSpaces first limit s live roots) (hp : (⟨p, .kb4⟩ : Block) ∈ live)
    (hone : s.pages.refCount p = 1) :
    ∃ pages, physicalPageFree p .kb4 s.pages = .ok pages ∧
      MappedSpaces first limit { s with pages := pages } (live.erase ⟨p, .kb4⟩) roots ∧
      pages.refCount = Function.update s.pages.refCount p 0 ∧ s.SameRam { s with pages := pages } := by
  obtain ⟨free, hinv⟩ := h.blocks.inv
  obtain ⟨pages, free', hfree, hinv', hcount, hlen, hram⟩ := hinv.free_page hp
  rw [hone, Int.sub_self] at hcount
  rw [hcount, Function.update_self, if_pos rfl] at hinv'
  have hsame : s.SameRam { s with pages := pages } := ⟨hram, hlen, rfl, rfl⟩
  have hkept {q : ℕ} {o : PageOrder} (ho : o ≠ .kb4) (hq : (⟨q, o⟩ : Block) ∈ live) :
      (⟨q, o⟩ : Block) ∈ live.erase ⟨p, .kb4⟩ := Finset.mem_erase.mpr ⟨fun he => ho (congrArg Block.order he), hq⟩
  refine ⟨pages, hfree, ⟨⟨⟨free', hinv'⟩, hram ▸ h.blocks.ramAligned⟩, hsame.ramReady h.ram, ?_, fun q hq => ?_,
    fun q hq => ?_, fun q hq i hi t ht => ?_, fun q hq i hi t ht => ?_⟩, hcount, hsame⟩ <;> dsimp only at * <;>
    rw [hram] at *
  · exact h.spaces
  · rw [hsame.rootTablePtr]
    exact h.rootPtr q hq
  · exact (h.root q hq).imp_left (hkept (by decide))
  · rw [hsame.phys2virt]
    exact h.tablePtr q hq i hi t ht
  · exact (h.table q hq i hi t ht).imp_left fun ⟨r, hr, he⟩ => ⟨r, hkept (by decide) hr, he⟩

end Frames

/-- The heap has mapped its first `n + 1` pages, each to a block of its own, and no others. -/
structure HeapPages (first limit : ℕ) (h : KernelHeap) (live : Finset Block) (roots : Set ℕ) (frames : ℕ → ℕ) (n : ℕ) :
    Prop where
  mapped : MappedSpaces first limit h.vm live roots
  last : h.lastMappedChunk = heapChunk n
  inside : n < heapChunks
  page : ∀ i < heapChunks, ∀ v, v / size4KB = heapChunk i / size4KB → h.vm.walk h.vm.kernelAs v =
    if i ≤ n then some (pageAddr h.vm.pages.ramStart (frames i) + v % size4KB, .priviledgedOnly) else none
  small : ∀ i < heapChunks, ¬ isSection (h.vm.lvl1Entry h.vm.kernelAs (heapChunk i))
  frame : ∀ i ≤ n, (⟨frames i, .kb4⟩ : Block) ∈ live ∧ h.vm.pages.refCount (frames i) = 1
  distinct : ∀ i ≤ n, ∀ j ≤ n, frames i = frames j → i = j

section Chunks

variable {first limit current n k m : ℕ} {s s' : KernelHeap} {live : Finset Block} {roots : Set ℕ} {frames : ℕ → ℕ}

lemma heapChunk_succ (i : ℕ) : heapChunk (i + 1) = heapChunk i + size4KB := by
  rw [heapChunk, heapChunk, Nat.succ_mul, Nat.add_assoc]

lemma monotone_heapChunk : Monotone heapChunk := fun _ _ h => Nat.add_le_add_left (Nat.mul_le_mul_right _ h) _

lemma add32_heapChunk (hn : n < heapChunks) : add32 (heapChunk n) chunkSize = heapChunk (n + 1) :=
  (add32_of_lt ((heapChunk_succ n).symm.trans_lt (heapChunk_lt hn))).trans (heapChunk_succ n).symm

lemma heapChunk_page {i j : ℕ} : heapChunk i / size4KB = heapChunk j / size4KB ↔ i = j := by
  simp only [heapChunk, kernelHeap_start, size4KB]
  omega

lemma lt_of_heapChunk_page {i v : ℕ} (hi : i < heapChunks) (hv : v / size4KB = heapChunk i / size4KB) : v < 2 ^ 32 := by
  have hlt := heapChunk_lt hi.le
  simp only [size4KB] at hv
  omega

lemma HeapPages.none_next (h : HeapPages first limit s live roots frames n) (hn : n + 1 < heapChunks) :
    s.vm.walk s.vm.kernelAs (heapChunk (n + 1)) = none := by
  rw [h.page _ hn _ rfl, if_neg (by omega)]

/-- A page more. -/
lemma HeapPages.extend (h : HeapPages first limit s live roots frames n) (hn : n + 1 < heapChunks)
    {vm : Vm} {live' : Finset Block} {p : ℕ} (hs' : MappedSpaces first limit vm live' roots)
    (hnew : (⟨p, .kb4⟩ : Block) ∉ live) (hsub : insert ⟨p, .kb4⟩ live ⊆ live') (hone : vm.pages.refCount p = 1)
    (hcounts : ∀ b ∈ live, vm.pages.refCount b.head = s.vm.pages.refCount b.head)
    (hsets : SetsPages s.vm vm roots {heapChunk (n + 1) / size4KB}
      (fun v => some (pageAddr s.vm.pages.ramStart p + v % size4KB, .priviledgedOnly))) :
    HeapPages first limit { s with vm := vm, lastMappedChunk := heapChunk (n + 1) } live' roots
      (Function.update frames (n + 1) p) (n + 1) := by
  have hold {i : ℕ} (hi : i ≤ n) : Function.update frames (n + 1) p i = frames i :=
    Function.update_of_ne (by omega) _ _
  have hfresh {i : ℕ} (hi : i ≤ n) : frames i ≠ p := fun he => hnew (he ▸ (h.frame i hi).1)
  refine ⟨hs', rfl, hn, fun i hi v hv => ?_, fun i hi => ?_, fun i hi => ?_, fun i hi j hj he => ?_⟩
  · change vm.walk vm.kernelAs v = if _ then some (pageAddr vm.pages.ramStart _ + _, _) else none
    rw [hsets.ram.kernelAs, hsets.ram.ramStart, hsets.kernel v (lt_of_heapChunk_page hi hv), hv]
    simp only [Finset.mem_singleton, heapChunk_page]
    by_cases he : i = n + 1
    · rw [if_pos he, if_pos he.le, he, Function.update_self]
    · rw [if_neg he, h.page i hi v hv]
      by_cases hle : i ≤ n
      · rw [if_pos hle, if_pos (by omega), hold hle]
      · rw [if_neg hle, if_neg (by omega)]
  · change ¬ isSection (vm.lvl1Entry vm.kernelAs _)
    rw [hsets.ram.kernelAs]
    exact hsets.entries.not_section hsets.ram h.mapped.kernelAs_mem (heapChunk_lt hi.le) (h.small i hi)
  · rcases Nat.le_succ_iff.mp hi with hi | rfl
    · rw [hold hi]
      obtain ⟨hmem, hcount⟩ := h.frame i hi
      exact ⟨hsub (Finset.mem_insert_of_mem hmem), (hcounts _ hmem).trans hcount⟩
    · rw [Function.update_self]
      exact ⟨hsub (Finset.mem_insert_self _ _), hone⟩
  · rcases Nat.le_succ_iff.mp hi with hi | rfl <;> rcases Nat.le_succ_iff.mp hj with hj | rfl
    · rw [hold hi, hold hj] at he
      exact h.distinct i hi j hj he
    · rw [hold hi, Function.update_self] at he
      exact absurd he (hfresh hi)
    · rw [hold hj, Function.update_self] at he
      exact absurd he.symm (hfresh hj)
    · rfl

lemma HeapPages.addChunk (h : HeapPages first limit s live roots frames n) (hcur : current ∈ roots)
    (hn : n + 1 < heapChunks) (hm : addChunk current s = .ok s') :
    ∃ live' frames', HeapPages first limit s' live' roots frames' (n + 1) ∧ s'.gBrk = s.gBrk ∧
      ChangesOnly s.vm s'.vm roots (heapChunk (n + 1)) (heapChunk (n + 2)) := by
  obtain ⟨⟨page, pages⟩, ha, hm⟩ := bind_eq_ok.mp hm
  cases page with
  | none => cases hm
  | some p =>
    dsimp only at hm
    rw [h.last, add32_heapChunk h.inside] at hm
    obtain ⟨vm, hmap, hm⟩ := bind_eq_ok.mp hm
    cases hm
    obtain ⟨live', hs', hsub, hone, hcounts, hsets⟩ := h.mapped.mapFrame hcur (heapChunk_lt hn.le)
      (dvd_heapChunk _) (heapChunk_bounds hn.le).1 ha hmap
    have hchanges := hsets.changesOnly (dvd_heapChunk _)
    rw [← heapChunk_succ] at hchanges
    exact ⟨live', _, h.extend hn hs' (h.mapped.blocks.alloc ha).fresh hsub hone hcounts hsets, rfl, hchanges⟩

lemma HeapPages.addChunk_supplied (h : HeapPages first limit s live roots frames n) (hcur : current ∈ roots)
    (hn : n + 1 < heapChunks) (hs : Supplies s.vm.pages
      (m + (if s.vm.lvl1Entry s.vm.kernelAs (heapChunk (n + 1)) = 0 then 1 else 0) + 1)) :
    ∃ s', Memory.addChunk current s = .ok s' ∧ Supplies s'.vm.pages m := by
  obtain ⟨p, pages, vm, ha, hmap, hleft⟩ := h.mapped.mapFrame_supplied hcur (heapChunk_lt hn.le) (dvd_heapChunk _)
    (heapChunk_bounds hn.le).1 (h.none_next hn) hs
  refine ⟨{ s with vm := vm, lastMappedChunk := heapChunk (n + 1) }, ?_, hleft⟩
  rw [Memory.addChunk, ha, ok_bind]
  dsimp only
  rw [h.last, add32_heapChunk h.inside, hmap]
  rfl

/-- A page less. -/
lemma HeapPages.shrink (h : HeapPages first limit s live roots frames (n + 1)) {vm : Vm}
    (hs' : MappedSpaces first limit vm (live.erase ⟨frames (n + 1), .kb4⟩) roots)
    (hcounts : ∀ p ≠ frames (n + 1), vm.pages.refCount p = s.vm.pages.refCount p)
    (hsets : SetsPages s.vm vm roots {heapChunk (n + 1) / size4KB} fun _ => none) :
    HeapPages first limit { s with vm := vm, lastMappedChunk := heapChunk n } (live.erase ⟨frames (n + 1), .kb4⟩) roots
      frames n := by
  refine ⟨hs', rfl, (Nat.lt_succ_self n).trans h.inside, fun i hi v hv => ?_, fun i hi => ?_, fun i hi => ?_,
    fun i hi j hj => h.distinct i (Nat.le_succ_of_le hi) j (Nat.le_succ_of_le hj)⟩
  · change vm.walk vm.kernelAs v = if _ then some (pageAddr vm.pages.ramStart _ + _, _) else none
    rw [hsets.ram.kernelAs, hsets.ram.ramStart, hsets.kernel v (lt_of_heapChunk_page hi hv), hv]
    simp only [Finset.mem_singleton, heapChunk_page]
    by_cases he : i = n + 1
    · rw [if_pos he, if_neg (by omega)]
    · rw [if_neg he, h.page i hi v hv]
      by_cases hle : i ≤ n
      · rw [if_pos hle, if_pos (by omega)]
      · rw [if_neg hle, if_neg (by omega)]
  · change ¬ isSection (vm.lvl1Entry vm.kernelAs _)
    rw [hsets.ram.kernelAs]
    exact hsets.entries.not_section hsets.ram h.mapped.kernelAs_mem (heapChunk_lt hi.le) (h.small i hi)
  · obtain ⟨hmem, hone⟩ := h.frame i (Nat.le_succ_of_le hi)
    have hne : frames i ≠ frames (n + 1) := fun he => by
      have hin := h.distinct i (Nat.le_succ_of_le hi) (n + 1) le_rfl he
      omega
    exact ⟨Finset.mem_erase.mpr ⟨fun he => hne (congrArg Block.head he), hmem⟩, (hcounts _ hne).trans hone⟩

lemma HeapPages.removeChunk (h : HeapPages first limit s live roots frames (n + 1)) (current : ℕ) :
    ∃ s' live', removeChunk current s = .ok s' ∧ HeapPages first limit s' live' roots frames n ∧ s'.gBrk = s.gBrk ∧
      ChangesOnly s.vm s'.vm roots (heapChunk (n + 1)) (heapChunk (n + 2)) := by
  have hlt := heapChunk_lt h.inside.le
  obtain ⟨hmem, hone⟩ := h.frame (n + 1) le_rfl
  obtain ⟨vm, hunmap, hs₁, hpages, hsets⟩ := h.mapped.unmapKernelPage hlt (dvd_heapChunk _)
    (heapChunk_bounds h.inside.le).1 (h.small _ h.inside) current
  rw [h.page _ h.inside _ rfl, if_pos le_rfl, Nat.mod_eq_zero_of_dvd (dvd_heapChunk _),
    Nat.add_zero (pageAddr _ _)] at hunmap
  rw [← hpages] at hone
  obtain ⟨pages, hfree, hs', hcount, hram⟩ := hs₁.free_frame hmem hone
  have hsets' := hsets.withPages hram
  have hchanges := hsets'.changesOnly (dvd_heapChunk _)
  rw [← heapChunk_succ] at hchanges
  refine ⟨{ s with vm := { vm with pages := pages }, lastMappedChunk := heapChunk n }, _, ?_,
    h.shrink hs' (fun p hp => ?_) hsets', rfl, hchanges⟩
  · have hpage := hs₁.blocks.addr2page_ok hmem
    rw [hpages] at hpage
    have hback : sub32 (heapChunk (n + 1)) chunkSize = heapChunk n := by
      rw [sub32_of_le (by rw [heapChunk_succ]; exact Nat.le_add_left _ _) hlt, heapChunk_succ]
      exact Nat.add_sub_cancel _ _
    rw [Memory.removeChunk, h.last, hunmap, ok_bind]
    dsimp only [physOf, Option.elim]
    rw [hpages, hpage, ok_bind, ← hpages, hfree, ok_bind, hback]
    rfl
  · change pages.refCount p = s.vm.pages.refCount p
    rw [hcount, Function.update_of_ne hp, hpages]

lemma addChunks_succ : addChunks current (k + 1) s = addChunks current k s >>= addChunk current := by
  simp only [addChunks, List.range_succ, List.foldlM_append, List.foldlM_cons, List.foldlM_nil, bind_pure]

lemma HeapPages.addChunks (h : HeapPages first limit s live roots frames n) (hcur : current ∈ roots)
    (hn : n + k < heapChunks) (hm : addChunks current k s = .ok s') :
    ∃ live' frames', HeapPages first limit s' live' roots frames' (n + k) ∧ s'.gBrk = s.gBrk ∧
      ChangesOnly s.vm s'.vm roots (heapChunk (n + 1)) (heapChunk (n + k + 1)) := by
  induction k generalizing s' with
  | zero =>
    cases hm
    exact ⟨live, frames, h, rfl, .refl _ _ _ _⟩
  | succ k ih =>
    obtain ⟨b, hb, hm⟩ := foldlM_range_succ.mp hm
    obtain ⟨live₁, frames₁, h₁, hbrk₁, hchanges₁⟩ := ih (by omega) hb
    obtain ⟨live₂, frames₂, h₂, hbrk₂, hchanges₂⟩ := h₁.addChunk hcur hn hm
    refine ⟨live₂, frames₂, h₂, hbrk₂.trans hbrk₁, (hchanges₁.mono le_rfl ?_).trans (hchanges₂.mono ?_ le_rfl)⟩
    · exact monotone_heapChunk (by omega)
    · exact monotone_heapChunk (by omega)

lemma HeapPages.entry_ne_zero (h : HeapPages first limit s live roots frames n) {i : ℕ} (hi : i ≤ n) :
    s.vm.lvl1Entry s.vm.kernelAs (heapChunk i) ≠ 0 := by
  intro hz
  have hwalk := h.page i (hi.trans_lt h.inside) _ rfl
  rw [if_pos hi, Vm.walk, armWalk_empty hz] at hwalk
  cases hwalk

/-- A table that is missing after `k` pages has been missing from the start, and none of these pages needed it. -/
lemma HeapPages.newTables_le {b : KernelHeap} {live' : Finset Block} {frames' : ℕ → ℕ}
    (h : HeapPages first limit s live roots frames n) (hb : HeapPages first limit b live' roots frames' (n + k))
    (hchanges : ChangesOnly s.vm b.vm roots (heapChunk (n + 1)) (heapChunk (n + k + 1))) (hn : n + k + 1 < heapChunks) :
    s.vm.newTables (heapChunk (n + 1)) k +
        (if b.vm.lvl1Entry b.vm.kernelAs (heapChunk (n + k + 1)) = 0 then 1 else 0) ≤
      s.vm.newTables (heapChunk (n + 1)) (k + 1) := by
  have haddr (i : ℕ) : heapChunk (n + 1) + i * size4KB = heapChunk (n + i + 1) := by
    simp only [heapChunk, size4KB]
    omega
  simp only [Vm.newTables, haddr, Finset.range_add_one, Finset.image_insert, Finset.filter_insert]
  by_cases hz : b.vm.lvl1Entry b.vm.kernelAs (heapChunk (n + k + 1)) = 0
  · have hold : s.vm.lvl1Entry s.vm.kernelAs (heapChunk (n + k + 1)) = 0 := by
      by_contra hne
      rw [hchanges.ram.kernelAs] at hz
      exact hne ((hchanges.entries.kept hchanges.ram h.mapped.kernelAs_mem (heapChunk_lt hn.le) hne).symm.trans hz)
    rw [Vm.lvl1Entry] at hold
    rw [if_pos hz, if_pos hold, Finset.card_insert_of_notMem]
    intro hmem
    obtain ⟨i, hi, he⟩ := Finset.mem_image.mp (Finset.mem_filter.mp hmem).1
    refine hb.entry_ne_zero (i := n + i + 1) (by have := Finset.mem_range.mp hi; omega) ?_
    rw [Vm.lvl1Entry, he]
    exact hz
  · rw [if_neg hz, Nat.add_zero]
    refine Finset.card_le_card ?_
    split_ifs
    · exact Finset.subset_insert _ _
    · exact Finset.Subset.refl _

lemma HeapPages.addChunks_supplied (h : HeapPages first limit s live roots frames n) (hcur : current ∈ roots)
    (hn : n + k < heapChunks) (hs : Supplies s.vm.pages (m + k + s.vm.newTables (heapChunk (n + 1)) k)) :
    ∃ s', Memory.addChunks current k s = .ok s' ∧ Supplies s'.vm.pages m := by
  induction k generalizing m with
  | zero => exact ⟨s, rfl, hs.mono (Nat.le_add_right _ _)⟩
  | succ k ih =>
    have hmore := s.vm.newTables_mono (heapChunk (n + 1)) (Nat.le_add_right k 1)
    obtain ⟨b, hb, -⟩ := ih (by omega) (hs.mono (m := m + k + _) (by omega))
    obtain ⟨live₁, frames₁, h₁, -, hchanges⟩ := h.addChunks hcur (by omega) hb
    have htables := h.newTables_le h₁ hchanges hn
    obtain ⟨b', hb', hleft⟩ := ih (by omega) (hs.mono
      (m := (m + (if b.vm.lvl1Entry b.vm.kernelAs (heapChunk (n + k + 1)) = 0 then 1 else 0) + 1) + k + _) (by omega))
    cases hb.symm.trans hb'
    obtain ⟨s', hs', hleft⟩ := h₁.addChunk_supplied hcur hn hleft
    exact ⟨s', foldlM_range_succ.mpr ⟨b, hb, hs'⟩, hleft⟩

lemma HeapPages.removeChunks (h : HeapPages first limit s live roots frames (n + k)) (current : ℕ) :
    ∃ s' live', removeChunks current k s = .ok s' ∧ HeapPages first limit s' live' roots frames n ∧
      s'.gBrk = s.gBrk ∧ ChangesOnly s.vm s'.vm roots (heapChunk (n + 1)) (heapChunk (n + k + 1)) := by
  induction k generalizing n with
  | zero => exact ⟨s, live, rfl, h, rfl, .refl _ _ _ _⟩
  | succ k ih =>
    have he : n + (k + 1) = n + 1 + k := Nat.add_right_comm n k 1
    obtain ⟨b, live₁, hb, h₁, hbrk₁, hchanges₁⟩ := ih (n := n + 1) (he ▸ h)
    obtain ⟨s', live₂, hs', h₂, hbrk₂, hchanges₂⟩ := h₁.removeChunk current
    refine ⟨s', live₂, foldlM_range_succ.mpr ⟨b, hb, hs'⟩, h₂, hbrk₂.trans hbrk₁,
      (hchanges₁.mono ?_ ?_).trans (hchanges₂.mono le_rfl ?_)⟩
    · exact monotone_heapChunk (by omega)
    · exact monotone_heapChunk (by omega)
    · exact monotone_heapChunk (by omega)

end Chunks

end Pi0Os.Memory
