import Pi0Os.Memory.AddressSpaces
import Pi0Os.Memory.UserTables

/-! The address spaces in a board's memory: where their tables are, and what `vm_map` finds and makes. -/

namespace Pi0Os.Memory

open Kernel Library

/-- Memory that was never handed to the allocator. -/
def Outside (first limit ramStart : ℕ) (S : Set ℕ) : Prop :=
  ∀ a ∈ S, a < pageAddr ramStart first ∨ pageAddr ramStart limit ≤ a

/-- The address spaces with the first-level tables at the pages `roots`. The kernel's own tables may be those that it
was booted with; all others are blocks of the allocator. -/
structure MappedSpaces (first limit : ℕ) (s : Vm) (live : Finset Block) (roots : Set ℕ) : Prop where
  blocks : Blocks first limit s.pages live
  ram : RamReady limit s
  spaces : Spaces s.words (pageAddr s.pages.ramStart s.kernelAs) (pageAddr s.pages.ramStart '' roots)
  rootPtr : ∀ p ∈ roots, rootTablePtr s p = .ok (pageAddr s.pages.ramStart p)
  root : ∀ p ∈ roots, (⟨p, .kb16⟩ : Block) ∈ live ∨
    Outside first limit s.pages.ramStart (lvl1Bytes (pageAddr s.pages.ramStart p))
  tablePtr : ∀ p ∈ roots, ∀ i < lvl1Entries, ∀ t, tableAt s.words (pageAddr s.pages.ramStart p) i = some t →
    phys2virt s t = .ok t
  table : ∀ p ∈ roots, ∀ i < lvl1Entries, ∀ t, tableAt s.words (pageAddr s.pages.ramStart p) i = some t →
    (∃ q, (⟨q, .kb1⟩ : Block) ∈ live ∧ t = pageAddr s.pages.ramStart q) ∨
      kernelStartIdx ≤ i ∧ Outside first limit s.pages.ramStart (lvl2Bytes t)

lemma bytes_kb16 (r p : ℕ) : (⟨p, .kb16⟩ : Block).bytes r = lvl1Bytes (pageAddr r p) := rfl

lemma bytes_kb1 (r p : ℕ) : (⟨p, .kb1⟩ : Block).bytes r = lvl2Bytes (pageAddr r p) := rfl

/-- The RAM and the kernel's address space, which no call changes. -/
structure Vm.SameRam (s s' : Vm) : Prop where
  ramStart : s'.pages.ramStart = s.pages.ramStart
  len : s'.pages.len = s.pages.len
  ramSize : s'.ramSize = s.ramSize
  kernelAs : s'.kernelAs = s.kernelAs

namespace Vm.SameRam

variable {s s' s'' : Vm} {limit : ℕ}

lemma refl (s : Vm) : s.SameRam s := ⟨rfl, rfl, rfl, rfl⟩

lemma trans (h : s.SameRam s') (h' : s'.SameRam s'') : s.SameRam s'' :=
  ⟨h'.ramStart.trans h.ramStart, h'.len.trans h.len, h'.ramSize.trans h.ramSize, h'.kernelAs.trans h.kernelAs⟩

lemma store (s : Vm) (a v : ℕ) : s.SameRam (s.store a v) := ⟨rfl, rfl, rfl, rfl⟩

lemma phys2virt (h : s.SameRam s') (a : ℕ) : Memory.phys2virt s' a = Memory.phys2virt s a := by
  simp only [Memory.phys2virt, h.ramStart, h.ramSize]

lemma rootTablePtr (h : s.SameRam s') (p : ℕ) : Memory.rootTablePtr s' p = Memory.rootTablePtr s p := by
  simp only [Memory.rootTablePtr, page2addr, h.phys2virt, h.ramStart, h.len]

lemma ramReady (h : s.SameRam s') (hr : RamReady limit s) : RamReady limit s' :=
  hr.congr h.ramStart h.len h.ramSize h.kernelAs

end Vm.SameRam

lemma Blocks.alloc_sameRam {first limit q : ℕ} {s : Vm} {live : Finset Block} {o : PageOrder} {pages : PageAllocator}
    (h : Blocks first limit s.pages live) (ha : physicalPageAlloc o s.pages = .ok (some q, pages)) (words : ℕ → ℕ) :
    s.SameRam { s with pages := pages, words := words } := by
  refine ⟨(h.alloc ha).ramStart, ?_, rfl, rfl⟩
  obtain ⟨free, hinv⟩ := h.inv
  rcases hinv.alloc o with hn | ⟨p', pages', free', ha', -, -, -, hlen, -⟩
  · rw [hn] at ha
    cases ha
  · rw [ha'] at ha
    cases ha
    exact hlen

namespace MappedSpaces

variable {first limit p q i t virt a : ℕ} {s s' : Vm} {live live' : Finset Block} {roots : Set ℕ}

lemma kernelAs_mem (h : MappedSpaces first limit s live roots) : s.kernelAs ∈ roots := by
  obtain ⟨p, hp, he⟩ := h.spaces.kernel_mem
  rwa [← pageAddr_injective _ he]

lemma mem_roots (hp : p ∈ roots) : pageAddr s.pages.ramStart p ∈ pageAddr s.pages.ramStart '' roots := ⟨p, hp, rfl⟩

lemma root_inUse (h : MappedSpaces first limit s live roots) (hp : p ∈ roots) :
    lvl1Bytes (pageAddr s.pages.ramStart p) ⊆ inUse first limit s.pages.ramStart live := by
  rcases h.root p hp with hb | hout
  · rw [← bytes_kb16]
    exact bytes_subset_inUse hb
  · exact fun a ha => .inr (hout a ha)

lemma table_inUse (h : MappedSpaces first limit s live roots) (hp : p ∈ roots) (hi : i < lvl1Entries)
    (ht : tableAt s.words (pageAddr s.pages.ramStart p) i = some t) :
    lvl2Bytes t ⊆ inUse first limit s.pages.ramStart live := by
  rcases h.table p hp i hi t ht with ⟨q, hq, rfl⟩ | ⟨-, hout⟩
  · rw [← bytes_kb1]
    exact bytes_subset_inUse hq
  · exact fun a ha => .inr (hout a ha)

/-- The same tables in a memory where more blocks may be in use. -/
lemma congr (h : MappedSpaces first limit s live roots) (hb : Blocks first limit s'.pages live') (hsub : live ⊆ live')
    (hr : s.SameRam s')
    (hs : Spaces s'.words (pageAddr s.pages.ramStart s.kernelAs) (pageAddr s.pages.ramStart '' roots))
    (ht : ∀ p ∈ roots, ∀ i < lvl1Entries, ∀ t, tableAt s'.words (pageAddr s.pages.ramStart p) i = some t →
      (∃ p' ∈ roots, tableAt s.words (pageAddr s.pages.ramStart p') i = some t) ∨
        ∃ q, (⟨q, .kb1⟩ : Block) ∈ live' ∧ t = pageAddr s.pages.ramStart q) :
    MappedSpaces first limit s' live' roots := by
  have hram := hr.ramReady h.ram
  refine ⟨hb, hram, by rwa [hr.ramStart, hr.kernelAs], fun p hp => ?_, fun p hp => ?_, fun p hp i hi t hit => ?_,
    fun p hp i hi t hit => ?_⟩ <;> rw [hr.ramStart] at *
  · rw [hr.rootTablePtr]
    exact h.rootPtr p hp
  · exact (h.root p hp).imp_left fun hm => hsub hm
  · rcases ht p hp i hi t hit with ⟨p', hp', hit'⟩ | ⟨q, hq, rfl⟩
    · rw [hr.phys2virt]
      exact h.tablePtr p' hp' i hi t hit'
    · rw [← hr.ramStart]
      exact hb.phys2virt_ok hram hq
  · rcases ht p hp i hi t hit with ⟨p', hp', hit'⟩ | hq
    · exact (h.table p' hp' i hi t hit').imp_left fun ⟨q, hq, he⟩ => ⟨q, hsub hq, he⟩
    · exact .inl hq

/-- A second-level entry is written. -/
lemma store_page (h : MappedSpaces first limit s live roots) (hp : p ∈ roots) (hi : i < lvl1Entries)
    (ht : tableAt s.words (pageAddr s.pages.ramStart p) i = some t) {j v : ℕ} (hj : j < lvl2Entries)
    (hv : v = 0 ∨ 2 ≤ v % 4) : MappedSpaces first limit (s.store (t + 4 * j) v) live roots := by
  refine h.congr h.blocks (Finset.Subset.refl _) (.store s _ _) (h.spaces.update (mem_roots hp) hi ht hj hv)
    fun p' hp' i' hi' t' ht' => .inl ⟨p', hp', ?_⟩
  have hne := entry_ne_page (h.spaces.table_apart _ (mem_roots hp) i hi t ht _ (mem_roots hp')) hi' hj
  rwa [tableAt, Vm.store_words, Function.update_of_ne hne, ← tableAt] at ht'

end MappedSpaces

section Fill

variable {first limit as virt root kernel : ℕ} {s s' : Vm} {live : Finset Block} {roots : Set ℕ}

/-- The writes of `vm_map_page` to first-level tables when it has a new second-level table. -/
def attachWords (m : ℕ → ℕ) (inKernel : Prop) [Decidable inKernel] (entry kernelEntry e : ℕ) : ℕ → ℕ :=
  if inKernel then Function.update (Function.update m entry e) kernelEntry e else Function.update m entry e

lemma contains_iff (hv : virt < 2 ^ 32) (hd : size4KB ∣ virt) :
    Areas.kernelArea.Contains virt ↔ kernelStartIdx ≤ lvl1Index virt := by
  simp only [Range.Contains, Areas.kernelArea, Areas.kernelVirtStartAddr, lvl1Index, kernelStartIdx, size4KB] at hd ⊢
  omega

lemma newTable_eq (hb : Blocks first limit s.pages live) {new : Bool} {i : ℕ}
    (hkernel : Areas.kernelArea.Contains virt → s.words (kernel + 4 * i) = 0)
    (h : (do
      match ← physicalPageAlloc .kb1 s.pages with
      | (none, _) => .error (.message "The following expression returned an error:\n")
      | (some page, pages) =>
        let s := { s with pages := pages }
        let s := s.store (root + 4 * i) (CoarsePageTableEntry.makeEntry (← page2addr s.pages page))
        if Areas.kernelArea.Contains virt ∧ root ≠ kernel then
          kassert "kernel_lvl1_table[lvl1_index(virt_addr)].raw == 0" (s.words (kernel + 4 * i) = 0)
          return (true, s.store (kernel + 4 * i) (s.words (root + 4 * i)))
        else return (true, s)) = Except.ok (new, s')) :
    new = true ∧ ∃ q pages, physicalPageAlloc .kb1 s.pages = .ok (some q, pages) ∧
      s' = { s with
        pages := pages
        words := attachWords s.words (Areas.kernelArea.Contains virt) (root + 4 * i) (kernel + 4 * i)
          (CoarsePageTableEntry.makeEntry (pageAddr s.pages.ramStart q)) } := by
  obtain ⟨⟨page, pages⟩, halloc, h⟩ := bind_eq_ok.mp h
  cases page with
  | none => cases h
  | some q =>
    have hnew := hb.alloc halloc
    obtain ⟨a, ha, h⟩ := bind_eq_ok.mp h
    obtain rfl := hnew.blocks.page2addr_eq ha
    rw [hnew.ramStart] at h
    dsimp only at h
    split_ifs at h with hin
    · obtain ⟨-, h⟩ := kassert_bind_eq_ok.mp h
      cases h
      refine ⟨rfl, q, pages, halloc, ?_⟩
      rw [attachWords, if_pos hin.1, Vm.store_words, Function.update_self]
      rfl
    · cases h
      refine ⟨rfl, q, pages, halloc, ?_⟩
      rw [attachWords]
      split_ifs with hc
      · obtain rfl : root = kernel := not_not.mp fun hne => hin ⟨hc, hne⟩
        rw [Function.update_idem]
        rfl
      · rfl

/-- The entry is there, or is the kernel's, or a new table is put into it. -/
lemma fillLvl1Entry_cases (hb : Blocks first limit s.pages live) (hk : rootTablePtr s s.kernelAs = .ok kernel)
    {new : Bool} (h : fillLvl1Entry root virt s = .ok (new, s')) :
    ¬ isSection (s.words (root + 4 * lvl1Index virt)) ∧
    (new = false ∧ s.words (root + 4 * lvl1Index virt) ≠ 0 ∧ s' = s ∨
      new = false ∧ s.words (root + 4 * lvl1Index virt) = 0 ∧ Areas.kernelArea.Contains virt ∧
        s.words (kernel + 4 * lvl1Index virt) ≠ 0 ∧
        s' = s.store (root + 4 * lvl1Index virt) (s.words (kernel + 4 * lvl1Index virt)) ∨
      new = true ∧ s.words (root + 4 * lvl1Index virt) = 0 ∧
        (Areas.kernelArea.Contains virt → s.words (kernel + 4 * lvl1Index virt) = 0) ∧
        ∃ q pages, physicalPageAlloc .kb1 s.pages = .ok (some q, pages) ∧
          s' = { s with
            pages := pages
            words := attachWords s.words (Areas.kernelArea.Contains virt) (root + 4 * lvl1Index virt)
              (kernel + 4 * lvl1Index virt) (CoarsePageTableEntry.makeEntry (pageAddr s.pages.ramStart q)) }) := by
  rw [fillLvl1Entry, hk, ok_bind] at h
  dsimp only at h
  obtain ⟨hsec, h⟩ := panicIf_bind_eq_ok.mp h
  generalize lvl1Index virt = i at *
  refine ⟨hsec, ?_⟩
  by_cases he : s.words (root + 4 * i) = 0
  · rw [if_neg (not_not.mpr he)] at h
    -- storing the kernel's entry, when there is none, changes nothing
    have hsame (hz : s.words (kernel + 4 * i) = 0) : s.store (root + 4 * i) (s.words (kernel + 4 * i)) = s := by
      rw [hz, ← he, Vm.store, Function.update_eq_self]
    by_cases hin : Areas.kernelArea.Contains virt
    · rw [if_pos hin] at h
      by_cases hke : s.words (kernel + 4 * i) = 0
      · rw [hsame hke, if_neg (not_not.mpr he)] at h
        obtain ⟨hnew, hrest⟩ := newTable_eq hb (fun _ => hke) h
        exact .inr (.inr ⟨hnew, he, fun _ => hke, hrest⟩)
      · rw [Vm.store_words, Function.update_self, if_pos hke] at h
        cases h
        exact .inr (.inl ⟨rfl, he, hin, hke, rfl⟩)
    · rw [if_neg hin, if_neg (not_not.mpr he)] at h
      obtain ⟨hnew, hrest⟩ := newTable_eq hb (fun hc => absurd hc hin) h
      exact .inr (.inr ⟨hnew, he, fun hc => absurd hc hin, hrest⟩)
  · rw [if_pos he] at h
    cases h
    exact .inl ⟨rfl, he, rfl⟩

/-- The space `as` has the table `t` for the megabyte `i`. Where it lacked the kernel's it has that now, and what
else has changed changes no translation. -/
structure TableReady (first limit : ℕ) (roots : Set ℕ) (as i t : ℕ) (s s' : Vm) (live live' : Finset Block) :
    Prop where
  mapped : MappedSpaces first limit s' live' roots
  ram : s.SameRam s'
  sub : live ⊆ live'
  order : ∀ b ∈ live', b ∉ live → b.order = .kb1
  counts : ∀ b ∈ live, s'.pages.refCount b.head = s.pages.refCount b.head
  table : tableAt s'.words (pageAddr s.pages.ramStart as) i = some t
  entries : ∀ p ∈ roots, ∀ i' < lvl1Entries, s'.words (pageAddr s.pages.ramStart p + 4 * i') ≠ 0 ↔
    s.words (pageAddr s.pages.ramStart p + 4 * i') ≠ 0 ∨ i' = i ∧ (p = as ∨ p = s.kernelAs ∧ kernelStartIdx ≤ i)
  walk : ∀ p ∈ roots, ∀ v < 2 ^ 32, armWalk s'.words (pageAddr s.pages.ramStart p) v =
    if p = as ∧ lvl1Index v = i ∧ kernelStartIdx ≤ i ∧ s.words (pageAddr s.pages.ramStart as + 4 * i) = 0 then
      armWalk s.words (pageAddr s.pages.ramStart s.kernelAs) v
    else armWalk s.words (pageAddr s.pages.ramStart p) v

section Ready

variable {as i : ℕ}

lemma MappedSpaces.ready_present (h : MappedSpaces first limit s live roots) (has : as ∈ roots) (hi : i < lvl1Entries)
    (hsec : ¬ isSection (s.words (pageAddr s.pages.ramStart as + 4 * i)))
    (hne : s.words (pageAddr s.pages.ramStart as + 4 * i) ≠ 0) :
    TableReady first limit roots as i
      (CoarsePageTableEntry.baseAddress (s.words (pageAddr s.pages.ramStart as + 4 * i))) s s live live := by
  have hc : isCoarsePage (s.words (pageAddr s.pages.ramStart as + 4 * i)) :=
    ((h.spaces.entry _ (mem_roots has) i hi).resolve_left hne).resolve_left hsec
  refine ⟨h, .refl s, Finset.Subset.refl _, fun b hb hb' => absurd hb hb', fun _ _ => rfl,
    tableAt_eq_some.mpr ⟨hc, rfl⟩, fun p hp i' hi' => ⟨.inl, ?_⟩, fun p hp v hv => ?_⟩
  · rintro (hne' | ⟨rfl, rfl | ⟨rfl, hk⟩⟩)
    · exact hne'
    · exact hne
    · rwa [h.spaces.entry_eq_kernel (mem_roots has) hk hi hne]
  · rw [if_neg fun hc => hne hc.2.2.2]

lemma MappedSpaces.ready_shared (h : MappedSpaces first limit s live roots) (has : as ∈ roots)
    (hk : kernelStartIdx ≤ i) (hi : i < lvl1Entries) (hz : s.words (pageAddr s.pages.ramStart as + 4 * i) = 0)
    (hne : s.words (pageAddr s.pages.ramStart s.kernelAs + 4 * i) ≠ 0) :
    TableReady first limit roots as i
      (CoarsePageTableEntry.baseAddress (s.words (pageAddr s.pages.ramStart s.kernelAs + 4 * i))) s
      (s.store (pageAddr s.pages.ramStart as + 4 * i) (s.words (pageAddr s.pages.ramStart s.kernelAs + 4 * i)))
      live live := by
  have hkmem := h.spaces.kernel_mem
  have hsec : ¬ isSection (s.words (pageAddr s.pages.ramStart s.kernelAs + 4 * i)) := by
    rcases h.spaces.shared _ (mem_roots has) i hk hi with he | ⟨-, hsec⟩
    · exact absurd (he.symm.trans hz) hne
    · exact hsec
  have hc := ((h.spaces.entry _ hkmem i hi).resolve_left hne).resolve_left hsec
  have htable := tableAt_eq_some.mpr ⟨hc, rfl⟩
  have hentry := fun p (hp : p ∈ roots) i' (hi' : i' < lvl1Entries) =>
    h.spaces.update_entry_cases (e := s.words (pageAddr s.pages.ramStart s.kernelAs + 4 * i)) (mem_roots has) hi
      (mem_roots hp) hi'
  refine ⟨h.congr h.blocks (Finset.Subset.refl _) (.store s _ _) (h.spaces.share (mem_roots has) hk hi)
      fun p hp i' hi' t ht => .inl ?_, .store s _ _, Finset.Subset.refl _, fun b hb hb' => absurd hb hb',
        fun _ _ => rfl,
    ?_, fun p hp i' hi' => ?_, fun p hp v hv => ?_⟩
  · rcases hentry p hp i' hi' with ⟨⟨-, rfl⟩, he⟩ | ⟨-, he⟩ <;> rw [tableAt, Vm.store_words, he] at ht
    · exact ⟨s.kernelAs, h.kernelAs_mem, ht⟩
    · exact ⟨p, hp, ht⟩
  · rw [tableAt_eq_some, Vm.store_words, Function.update_self]
    exact ⟨hc, rfl⟩
  · rw [Vm.store_words]
    rcases hentry p hp i' hi' with ⟨⟨hpa, rfl⟩, he⟩ | ⟨hne', he⟩ <;> rw [he]
    · obtain rfl := pageAddr_injective _ hpa
      exact iff_of_true hne (.inr ⟨rfl, .inl rfl⟩)
    · refine ⟨.inl, ?_⟩
      rintro (hne'' | ⟨rfl, rfl | ⟨rfl, -⟩⟩)
      · exact hne''
      · exact absurd hne' (by simp)
      · exact hne
  · rw [Vm.store_words, h.spaces.walk_share (mem_roots has) hi (mem_roots hp) hv]
    simp only [(pageAddr_injective s.pages.ramStart).eq_iff, hk, hz, and_true]

/-- The memory with a new table, once it is cleared. -/
def attachedWords (m : ℕ → ℕ) (inKernel : Prop) [Decidable inKernel] (root kernel i t : ℕ) : ℕ → ℕ :=
  fill (attachWords m inKernel (root + 4 * i) (kernel + 4 * i) (CoarsePageTableEntry.makeEntry t)) t lvl2TableSize 0

lemma attachedWords_of_notMem {m : ℕ → ℕ} {inKernel : Prop} [Decidable inKernel] {root kernel i t a : ℕ}
    (hout : a ∉ lvl2Bytes t) : attachedWords m inKernel root kernel i t a =
      attachWords m inKernel (root + 4 * i) (kernel + 4 * i) (CoarsePageTableEntry.makeEntry t) a := if_neg hout

lemma attachedWords_eq {m : ℕ → ℕ} {inKernel : Prop} [Decidable inKernel] {root kernel i t a : ℕ}
    (hout : a ∉ lvl2Bytes t) (hr : a ≠ root + 4 * i) (hk : inKernel → a ≠ kernel + 4 * i) :
    attachedWords m inKernel root kernel i t a = m a := by
  rw [attachedWords_of_notMem hout, attachWords]
  split_ifs with hin
  · rw [Function.update_of_ne (hk hin), Function.update_of_ne hr]
  · exact Function.update_of_ne hr _ _

lemma attachWords_entry {m : ℕ → ℕ} {inKernel : Prop} [Decidable inKernel] {entry kernelEntry e : ℕ} :
    attachWords m inKernel entry kernelEntry e entry = e := by
  rw [attachWords]
  split_ifs
  · by_cases he : entry = kernelEntry
    · rw [he, Function.update_self]
    · rw [Function.update_of_ne he, Function.update_self]
  · exact Function.update_self ..

lemma MappedSpaces.attached {inKernel : Prop} [Decidable inKernel] {q : ℕ} {pages : PageAllocator}
    (h : MappedSpaces first limit s live roots) (has : as ∈ roots) (hi : i < lvl1Entries)
    (hin : inKernel ↔ kernelStartIdx ≤ i) (hz : s.words (pageAddr s.pages.ramStart as + 4 * i) = 0)
    (hkz : kernelStartIdx ≤ i → s.words (pageAddr s.pages.ramStart s.kernelAs + 4 * i) = 0)
    (ha : physicalPageAlloc .kb1 s.pages = .ok (some q, pages)) :
    Spaces.Attached s.words (attachedWords s.words inKernel (pageAddr s.pages.ramStart as)
        (pageAddr s.pages.ramStart s.kernelAs) i (pageAddr s.pages.ramStart q))
      (pageAddr s.pages.ramStart s.kernelAs) (pageAddr s.pages.ramStart '' roots)
      (pageAddr s.pages.ramStart as) i (pageAddr s.pages.ramStart q) := by
  have hnew := h.blocks.alloc ha
  obtain ⟨hd, hlt, -⟩ := hnew.blocks.address (Finset.mem_insert_self _ _)
  rw [hnew.ramStart] at hd hlt
  have hunused : Disjoint (inUse first limit s.pages.ramStart live) (lvl2Bytes (pageAddr s.pages.ramStart q)) :=
    hnew.unused
  have hapart : ∀ p ∈ roots, Disjoint (lvl1Bytes (pageAddr s.pages.ramStart p))
    (lvl2Bytes (pageAddr s.pages.ramStart q)) :=
    fun p hp => hunused.mono_left (h.root_inUse hp)
  have hself : pageAddr s.pages.ramStart q ∈ lvl2Bytes (pageAddr s.pages.ramStart q) :=
    ⟨le_rfl, Nat.lt_add_of_pos_right (by decide)⟩
  have hout {p i' : ℕ} (hp : p ∈ roots) (hi' : i' < lvl1Entries) :
      pageAddr s.pages.ramStart p + 4 * i' ∉ lvl2Bytes (pageAddr s.pages.ramStart q) :=
    Set.disjoint_left.mp (hapart p hp) (mem_lvl1Bytes hi')
  refine ⟨hd, hlt, ?_, ?_, hz, hkz, ?_, fun hk => ?_, ?_, ?_, fun j hj => fill_of_mem (mem_lvl2Bytes hj)⟩
  · rintro _ ⟨p, hp, rfl⟩
    exact hapart p hp
  · rintro _ ⟨p, hp, rfl⟩ i' hi' ht
    exact Set.disjoint_left.mp hunused (h.table_inUse hp hi' ht hself) hself
  · rw [attachedWords_of_notMem (hout has hi), attachWords_entry]
  · rw [attachedWords_of_notMem (hout h.kernelAs_mem hi), attachWords, if_pos (hin.mpr hk), Function.update_self]
  · rintro _ ⟨p, hp, rfl⟩ i' hi' hother
    refine attachedWords_eq (hout hp hi') ?_ fun hin' => ?_
    · exact h.spaces.entry_ne (mem_roots hp) (mem_roots has) hi' hi (hother.symm.imp_left And.left)
    · refine h.spaces.entry_ne (mem_roots hp) h.spaces.kernel_mem hi' hi (hother.symm.imp_left fun hk => ?_)
      exact hk.2.resolve_right (Nat.not_lt.mpr (hin.mp hin'))
  · rintro _ ⟨p, hp, rfl⟩ i' hi' t' ht' j hj
    have hbytes := h.spaces.table_apart _ (mem_roots hp) i' hi' t' ht'
    refine attachedWords_eq (fun hm => ?_) ?_ fun _ => ?_
    · exact Set.disjoint_left.mp hunused (h.table_inUse hp hi' ht' (mem_lvl2Bytes hj)) hm
    · exact (entry_ne_page (hbytes _ (mem_roots has)) hi hj).symm
    · exact (entry_ne_page (hbytes _ h.spaces.kernel_mem) hi hj).symm

lemma MappedSpaces.ready_attached {inKernel : Prop} [Decidable inKernel] {q : ℕ} {pages : PageAllocator}
    (h : MappedSpaces first limit s live roots) (has : as ∈ roots) (hi : i < lvl1Entries)
    (hin : inKernel ↔ kernelStartIdx ≤ i) (hz : s.words (pageAddr s.pages.ramStart as + 4 * i) = 0)
    (hkz : kernelStartIdx ≤ i → s.words (pageAddr s.pages.ramStart s.kernelAs + 4 * i) = 0)
    (ha : physicalPageAlloc .kb1 s.pages = .ok (some q, pages)) :
    TableReady first limit roots as i (pageAddr s.pages.ramStart q) s { s with
      pages := pages
      words := attachedWords s.words inKernel (pageAddr s.pages.ramStart as) (pageAddr s.pages.ramStart s.kernelAs) i
        (pageAddr s.pages.ramStart q) } live (insert ⟨q, .kb1⟩ live) := by
  have hatt := h.attached has hi hin hz hkz ha
  have hnew := h.blocks.alloc ha
  have hram := h.blocks.alloc_sameRam ha (attachedWords s.words inKernel (pageAddr s.pages.ramStart as)
    (pageAddr s.pages.ramStart s.kernelAs) i (pageAddr s.pages.ramStart q))
  refine ⟨h.congr hnew.blocks (Finset.subset_insert ..) hram (hatt.spaces h.spaces) fun p hp i' hi' t ht => ?_, hram,
    Finset.subset_insert .., fun b hb hb' => ?_, fun b hb => ?_, hatt.tableAt, fun p hp i' hi' => ?_,
    fun p hp v hv => ?_⟩
  · dsimp only at ht
    rcases hatt.cases (mem_roots hp) hi' with ⟨-, hentry, -⟩ | hsame
    · rw [tableAt_eq_some, hentry, CoarsePageTableEntry.baseAddress_makeEntry hatt.aligned hatt.lt] at ht
      exact .inr ⟨q, Finset.mem_insert_self _ _, ht.2.symm⟩
    · rw [tableAt, hsame, ← tableAt] at ht
      exact .inl ⟨p, hp, ht⟩
  · rw [(Finset.mem_insert.mp hb).resolve_right hb']
  · have hne : b.head ≠ q := by
      rintro rfl
      have ho := hnew.blocks.order_eq (Finset.mem_insert_of_mem hb) (Finset.mem_insert_self _ _)
      exact hnew.fresh (by rwa [← ho])
    dsimp only
    rw [hnew.refCount, Function.update_of_ne hne]
  · refine ⟨fun hne => ?_, ?_⟩
    · rcases hatt.cases (mem_roots hp) hi' with ⟨⟨rfl, hown⟩, -⟩ | hsame
      · simp only [(pageAddr_injective s.pages.ramStart).eq_iff] at hown
        exact .inr ⟨rfl, hown⟩
      · exact .inl (hsame ▸ hne)
    · rintro (hne | ⟨rfl, rfl | ⟨rfl, hk⟩⟩)
      · rcases hatt.cases (mem_roots hp) hi' with ⟨-, -, hold⟩ | hsame
        · exact absurd hold hne
        · exact hsame.trans_ne hne
      · exact hatt.entry.trans_ne (CoarsePageTableEntry.makeEntry_ne_zero _)
      · exact (hatt.kernel_entry hk).trans_ne (CoarsePageTableEntry.makeEntry_ne_zero _)
  · rw [hatt.walk (mem_roots hp) hv]
    split_ifs with hc
    · obtain ⟨rfl, rfl, hk, -⟩ := hc
      rw [armWalk_empty hz, armWalk_empty (hkz hk)]
    · rfl

end Ready

section Map

variable {as page a : ℕ} {perm : PageAccessPermissions}

/-- First-level entries that were in use are as they were; new ones name tables. -/
def KeepsEntries (roots : Set ℕ) (s s' : Vm) : Prop :=
  ∀ p ∈ roots, ∀ i < lvl1Entries,
    s'.words (pageAddr s.pages.ramStart p + 4 * i) = s.words (pageAddr s.pages.ramStart p + 4 * i) ∨
      s.words (pageAddr s.pages.ramStart p + 4 * i) = 0 ∧ isCoarsePage (s'.words (pageAddr s.pages.ramStart p + 4 * i))

/-- The first half of `vm_map_page`, with the table cleared. -/
lemma MappedSpaces.fillLvl1Entry_ready (h : MappedSpaces first limit s live roots) (has : as ∈ roots)
    (hv : virt < 2 ^ 32)
    (hd : size4KB ∣ virt) {new : Bool} (hfill : fillLvl1Entry (pageAddr s.pages.ramStart as) virt s = .ok (new, s')) :
    ∃ t live', CoarsePageTableEntry.baseAddress (s'.words (pageAddr s.pages.ramStart as + 4 * lvl1Index virt)) = t ∧
      TableReady first limit roots as (lvl1Index virt) t s (if new then s'.clear t lvl2TableSize else s') live live' ∧
      KeepsEntries roots s (if new then s'.clear t lvl2TableSize else s') := by
  have hi := lvl1Index_lt_entries hv
  have hin := contains_iff hv hd
  obtain ⟨hsec, hcases⟩ := fillLvl1Entry_cases h.blocks (h.rootPtr _ h.kernelAs_mem) hfill
  rcases hcases with ⟨rfl, hne, rfl⟩ | ⟨rfl, hz, hc, hne, rfl⟩ | ⟨rfl, hz, hkz, q, pages, halloc, rfl⟩
  · exact ⟨_, live, rfl, h.ready_present has hi hsec hne, fun _ _ _ _ => .inl rfl⟩
  · have hready := h.ready_shared has (hin.mp hc) hi hz hne
    refine ⟨_, live, ?_, hready, fun p hp i' hi' => ?_⟩
    · rw [Vm.store_words, Function.update_self]
    · by_cases he : pageAddr s.pages.ramStart p + 4 * i' = pageAddr s.pages.ramStart as + 4 * lvl1Index virt
      · rw [he]
        exact .inr ⟨hz, (tableAt_eq_some.mp hready.table).1⟩
      · refine .inl ?_
        rw [if_neg (by decide), Vm.store_words, Function.update_of_ne he]
  · have hready := h.ready_attached has hi hin hz (fun hk => hkz (hin.mpr hk)) halloc
    have hatt := h.attached has hi hin hz (fun hk => hkz (hin.mpr hk)) halloc
    refine ⟨_, _, ?_, hready, fun p hp i' hi' => ?_⟩
    · dsimp only
      rw [attachWords_entry]
      exact CoarsePageTableEntry.baseAddress_makeEntry hatt.aligned hatt.lt
    · rcases hatt.cases (mem_roots hp) hi' with ⟨-, hentry, hold⟩ | hsame
      · refine .inr ⟨hold, ?_⟩
        have hcoarse := CoarsePageTableEntry.isCoarsePage_makeEntry (pageAddr s.pages.ramStart q)
        rw [← hentry] at hcoarse
        exact hcoarse
      · exact .inl hsame

/-- `vm_map_page` writes an empty entry of a table that it has made sure of. -/
lemma MappedSpaces.vmMapPage_ready (h : MappedSpaces first limit s live roots) (has : as ∈ roots) (hv : virt < 2 ^ 32)
    (hd : size4KB ∣ virt) (hm : vmMapPage (pageAddr s.pages.ramStart as) a virt perm s = .ok s') :
    ∃ t s₁ live', TableReady first limit roots as (lvl1Index virt) t s s₁ live live' ∧ KeepsEntries roots s s₁ ∧
      s₁.words (t + 4 * lvl2Index virt) = 0 ∧
      s' = s₁.store (t + 4 * lvl2Index virt) (SmallPageEntry.makeEntry a perm) := by
  obtain ⟨⟨new, s₁⟩, hfill, hm⟩ := bind_eq_ok.mp hm
  obtain ⟨table, htable, hm⟩ := bind_eq_ok.mp hm
  obtain ⟨hempty, hm⟩ := panicIf_bind_eq_ok.mp hm
  obtain rfl := Except.ok.inj hm
  obtain rfl := phys2virt_eq htable
  obtain ⟨t, live', rfl, hready, hkept⟩ := h.fillLvl1Entry_ready has hv hd hfill
  exact ⟨_, _, live', hready, hkept, not_not.mp hempty, rfl⟩

lemma MappedSpaces.vmMap_ready (h : MappedSpaces first limit s live roots) (has : as ∈ roots) (hv : virt < 2 ^ 32)
    (hd : size4KB ∣ virt) (hm : vmMap s as page virt perm = .ok s') :
    ∃ a t s₁ live', page2addr s.pages page = .ok a ∧
      TableReady first limit roots as (lvl1Index virt) t s s₁ live live' ∧
      s₁.words (t + 4 * lvl2Index virt) = 0 ∧
      s' = s₁.store (t + 4 * lvl2Index virt) (SmallPageEntry.makeEntry a perm) := by
  rw [vmMap, h.rootPtr as has, ok_bind] at hm
  obtain ⟨a, ha, hm⟩ := bind_eq_ok.mp hm
  obtain ⟨t, s₁, live', hready, -, hempty, hs'⟩ := h.vmMapPage_ready has hv hd hm
  exact ⟨a, t, s₁, live', ha, hready, hempty, hs'⟩

end Map

end Fill

end Pi0Os.Memory
