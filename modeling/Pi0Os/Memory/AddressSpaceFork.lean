import Pi0Os.Memory.ForkCopies
import Pi0Os.Memory.PageAllocatorRuns

/-! The user half of an address space: what its tables map, the memory it occupies, and that
`vm_fork` makes a faithful and separate copy of it. -/

namespace Pi0Os.Memory

open Kernel Library

/-- The second-level entry that the tables under `root` hold for `virt`, 0 where there is no table. -/
def pageEntry (m : ℕ → ℕ) (root virt : ℕ) : ℕ :=
  let e := root + 4 * lvl1Index virt
  if isCoarsePage (m e) then m (lvl2EntryAddr m e (lvl2Index virt)) else 0

def frameBytes (raw : ℕ) : Set ℕ :=
  Set.Ico (SmallPageEntry.baseAddress raw) (SmallPageEntry.baseAddress raw + size4KB)

/-- The tables of the user half and the frames they map. -/
def footprint (m : ℕ → ℕ) (root : ℕ) : Set ℕ :=
  Set.Ico root (root + lvl1TableSize) ∪ {a | ∃ i < kernelStartIdx, m (root + 4 * i) ≠ 0 ∧
    (a ∈ Set.Ico (CoarsePageTableEntry.baseAddress (m (root + 4 * i)))
        (CoarsePageTableEntry.baseAddress (m (root + 4 * i)) + lvl2TableSize) ∨
      ∃ j < lvl2Entries, m (lvl2EntryAddr m (root + 4 * i) j) ≠ 0 ∧
        a ∈ frameBytes (m (lvl2EntryAddr m (root + 4 * i) j)))}

section Footprint

variable {m : ℕ → ℕ} {root i virt : ℕ}

lemma lvl1Index_lt (h : virt < Areas.kernelVirtStartAddr) : lvl1Index virt < kernelStartIdx := by
  simp only [lvl1Index, kernelStartIdx, Areas.kernelVirtStartAddr] at h ⊢
  omega

lemma lvl2Index_lt (virt : ℕ) : lvl2Index virt < lvl2Entries := Nat.mod_lt _ (by decide)

lemma lvl1Entry_mem_footprint (hi : i < kernelStartIdx) : root + 4 * i ∈ footprint m root := by
  refine Or.inl ⟨Nat.le_add_right .., ?_⟩
  simp only [kernelStartIdx, lvl1TableSize, size1KB] at hi ⊢
  omega

lemma entryIn_footprint (hi : i < kernelStartIdx) (hne : m (root + 4 * i) ≠ 0) :
    EntryIn m (footprint m root) (root + 4 * i) := by
  refine ⟨lvl1Entry_mem_footprint hi, fun j hj => ?_, fun j hj hne' o ho => ?_⟩
  · refine Or.inr ⟨i, hi, hne, Or.inl ⟨Nat.le_add_right .., ?_⟩⟩
    simp only [lvl2EntryAddr, lvl2Entries, lvl2TableSize, size1KB] at hj ⊢
    omega
  · exact Or.inr ⟨i, hi, hne, Or.inr ⟨j, hj, hne', Nat.le_add_right .., Nat.add_lt_add_left ho _⟩⟩

lemma pageEntry_of_ne_zero (h : pageEntry m root virt ≠ 0) : m (root + 4 * lvl1Index virt) ≠ 0 ∧
    pageEntry m root virt = m (lvl2EntryAddr m (root + 4 * lvl1Index virt) (lvl2Index virt)) := by
  by_cases hc : isCoarsePage (m (root + 4 * lvl1Index virt))
  · refine ⟨fun hz => ?_, if_pos hc⟩
    rw [hz] at hc
    exact absurd hc (by decide)
  · exact absurd (if_neg hc) h

lemma page_eq_of_indices {virt' : ℕ} (h₁ : lvl1Index virt = lvl1Index virt')
    (h₂ : lvl2Index virt = lvl2Index virt') : virt / size4KB = virt' / size4KB := by
  simp only [lvl1Index, lvl2Index, size4KB] at *
  omega

end Footprint

lemma footprint_congr {m m' : ℕ → ℕ} {root : ℕ} (h : Set.EqOn m' m (footprint m root)) :
    footprint m' root = footprint m root := by
  have hentry {i : ℕ} (hi : i < kernelStartIdx) : m' (root + 4 * i) = m (root + 4 * i) :=
    h (lvl1Entry_mem_footprint hi)
  have htable {i j : ℕ} (hi : i < kernelStartIdx) (hj : j < lvl2Entries) (hne : m (root + 4 * i) ≠ 0) :
      m' (lvl2EntryAddr m' (root + 4 * i) j) = m (lvl2EntryAddr m (root + 4 * i) j) := by
    rw [lvl2EntryAddr, hentry hi, ← lvl2EntryAddr]
    exact h ((entryIn_footprint hi hne).table j hj)
  ext a
  refine or_congr Iff.rfl (exists_congr fun i => and_congr_right fun hi => ?_)
  rw [hentry hi]
  refine and_congr_right fun hne => or_congr Iff.rfl (exists_congr fun j => and_congr_right fun hj => ?_)
  rw [htable hi hj hne]

lemma Created.footprint_subset {first limit dst : ℕ} {s s' : Vm} {live live₂ : Finset Block}
    (h : Created first limit s s' live live₂ dst)
    (hvector : Set.Ico (pageAddr s.pages.ramStart (vectorPage s)) (pageAddr s.pages.ramStart (vectorPage s) + size4KB) ⊆
      inUse first limit s.pages.ramStart live₂) :
    footprint s'.words (pageAddr s.pages.ramStart dst) ⊆ inUse first limit s.pages.ramStart live₂ := by
  obtain ⟨t, ht, -, hentry, hpage, hempty⟩ := h.table
  obtain ⟨hd, hlt, -⟩ := h.grown.blocks.address ht
  rw [h.grown.ramStart] at hd hlt
  have hbase := CoarsePageTableEntry.baseAddress_makeEntry hd hlt
  rintro a (ha | ⟨i, hi, hne, ha⟩)
  · exact bytes_subset_inUse h.root ha
  obtain rfl : i = 0 := by
    by_contra hz
    exact hne (h.empty i hi hz)
  simp only [lvl2EntryAddr, Nat.mul_zero, Nat.add_zero, hentry, hbase] at ha
  rcases ha with ha | ⟨j, hj, hne', ha⟩
  · exact bytes_subset_inUse ht ha
  · obtain rfl : j = 0 := by
      by_contra hz
      exact hne' (hempty j hj hz)
    simp only [Nat.mul_zero, Nat.add_zero, frameBytes, hpage,
      SmallPageEntry.baseAddress_makeEntry _ h.aligned h.bound] at ha
    exact hvector ha

/-- `dst` in `s'` is a copy of what `src` was in `s`, page by page of the user's half, in frames of
its own, and `src` is what it was. -/
structure ForkedFrom (s s' : Vm) (src dst : ℕ) : Prop where
  mapped : ∀ virt < Areas.kernelVirtStartAddr,
    pageEntry s'.words dst virt ≠ 0 ↔ pageEntry s.words src virt ≠ 0
  permissions : ∀ virt < Areas.kernelVirtStartAddr, pageEntry s.words src virt ≠ 0 →
    SmallPageEntry.permissions (pageEntry s'.words dst virt) =
      SmallPageEntry.permissions (pageEntry s.words src virt)
  contents : ∀ virt < Areas.kernelVirtStartAddr, pageEntry s.words src virt ≠ 0 → ∀ o < size4KB,
    s'.words (SmallPageEntry.baseAddress (pageEntry s'.words dst virt) + o) =
      s.words (SmallPageEntry.baseAddress (pageEntry s.words src virt) + o)
  distinct : ∀ virt < Areas.kernelVirtStartAddr, ∀ virt' < Areas.kernelVirtStartAddr,
    pageEntry s'.words dst virt ≠ 0 → pageEntry s'.words dst virt' ≠ 0 → virt / size4KB ≠ virt' / size4KB →
      SmallPageEntry.baseAddress (pageEntry s'.words dst virt) ≠
        SmallPageEntry.baseAddress (pageEntry s'.words dst virt')
  disjoint : ∀ virt < Areas.kernelVirtStartAddr, pageEntry s'.words dst virt ≠ 0 →
    Disjoint (frameBytes (pageEntry s'.words dst virt)) (footprint s.words src)
  unchanged : Set.EqOn s'.words s.words (footprint s.words src)

/-- What `vm_fork` is given for `out_forked`: an address space that shares no memory with the source
and has no first-level entry in the user's half that the source lacks. -/
structure ForkTarget (s : Vm) (live : Finset Block) (src dst : ℕ) : Prop where
  root : (⟨dst, .kb16⟩ : Block) ∈ live
  apart : Disjoint (footprint s.words src) ((⟨dst, .kb16⟩ : Block).bytes s.pages.ramStart)
  entries : ∀ i < kernelStartIdx, s.words (pageAddr s.pages.ramStart dst + 4 * i) ≠ 0 →
    s.words (src + 4 * i) ≠ 0

lemma Created.forkTarget {first limit dst : ℕ} {s s' : Vm} {live live₂ : Finset Block}
    (h : Created first limit s s' live live₂ dst) {src : ℕ}
    (hsrc : footprint s.words src ⊆ inUse first limit s.pages.ramStart live) (hne : s.words src ≠ 0) :
    footprint s'.words src ⊆ inUse first limit s'.pages.ramStart live₂ ∧ ForkTarget s' live₂ src dst := by
  have hkeep : Set.EqOn s'.words s.words (footprint s.words src) :=
    fun a ha => h.grown.frame ⟨hsrc ha, Set.notMem_empty a⟩
  have hfoot := footprint_congr hkeep
  refine ⟨?_, h.root, ?_, fun i hi hne' => ?_⟩
  · rw [hfoot, h.grown.ramStart]
    exact hsrc.trans (inUse_mono h.grown.sub)
  · have hunused := h.grown.blocks.unused h.grown.sub h.root h.fresh
    rw [h.grown.ramStart] at hunused ⊢
    rw [hfoot]
    exact hunused.mono_left hsrc
  · rw [h.grown.ramStart] at hne'
    by_cases hz : i = 0
    · subst hz
      rw [hkeep (lvl1Entry_mem_footprint hi)]
      exact hne
    · exact absurd (h.empty i hi hz) hne'

lemma vmFork_eq_ok {first limit as dst : ℕ} {s s' : Vm} {live : Finset Block}
    (hb : Blocks first limit s.pages live) (h : vmFork s as dst = .ok (true, s')) :
    forkLvl1 (pageAddr s.pages.ramStart as) (pageAddr s.pages.ramStart dst) (List.range kernelStartIdx) s =
      .ok (true, s') := by
  obtain ⟨src, hsrc, h⟩ := bind_eq_ok.mp h
  obtain ⟨dst', hdst, h⟩ := bind_eq_ok.mp h
  obtain ⟨⟨ok, s₁⟩, hloop, h⟩ := bind_eq_ok.mp h
  obtain rfl := rootTablePtr_eq hb hsrc
  obtain rfl := rootTablePtr_eq hb hdst
  cases ok with
  | true =>
    obtain rfl : s₁ = s' := by simpa using h
    exact hloop
  | false =>
    obtain ⟨s₂, -, h⟩ := bind_eq_ok.mp h
    cases h

/-- `vm_fork` copies faithfully and isolates the copy from the source. -/
theorem vmFork_copies {first limit as dst : ℕ} {s s' : Vm} {live : Finset Block}
    (hb : Blocks first limit s.pages live)
    (hsrc : footprint s.words (pageAddr s.pages.ramStart as) ⊆ inUse first limit s.pages.ramStart live)
    (hdst : ForkTarget s live (pageAddr s.pages.ramStart as) dst)
    (h : vmFork s as dst = .ok (true, s')) :
    ForkedFrom s s' (pageAddr s.pages.ramStart as) (pageAddr s.pages.ramStart dst) := by
  have hloop := vmFork_eq_ok hb h
  generalize hr : s.pages.ramStart = r at *
  generalize hroot : pageAddr r as = src at *
  have hap := hdst.apart
  have hdents := hdst.entries
  rw [hr] at hap hdents
  obtain ⟨live₂, hg, hc, hinj⟩ := forkLvl1_copies hap (fun _ hi => List.mem_range.mp hi) List.nodup_range
    (fun i hi => lvl1Entry_mem_footprint (List.mem_range.mp hi))
    (fun i hi => entryIn_footprint (List.mem_range.mp hi)) hb hr ⟨hr ▸ hsrc, fun _ _ => rfl⟩ hdst.root hloop
  have hr' : s'.pages.ramStart = r := hg.ramStart.trans hr
  have hnew : live₂ \ live ⊆ live₂ := Finset.sdiff_subset
  have hout {a : ℕ} (ha : a ∈ footprint s.words src) :
      a ∉ {a | ∃ i ∈ List.range kernelStartIdx, s.words (src + 4 * i) ≠ 0 ∧ a = pageAddr r dst + 4 * i} := by
    rintro ⟨i, hi, -, rfl⟩
    exact Set.disjoint_left.mp hap ha (lvl1Entry_mem (List.mem_range.mp hi))
  have hentry {virt : ℕ} (hv : virt < Areas.kernelVirtStartAddr) :
      CopiedEntry r (live₂ \ live) s.words s'.words (pageEntry s.words src virt)
        (pageEntry s'.words (pageAddr r dst) virt) := by
    have hi := lvl1Index_lt hv
    by_cases hz : s.words (src + 4 * lvl1Index virt) = 0
    · have hkeep : s'.words (pageAddr r dst + 4 * lvl1Index virt) = 0 := by
        have hsame : s'.words (pageAddr r dst + 4 * lvl1Index virt) =
            s.words (pageAddr r dst + 4 * lvl1Index virt) := by
          refine hg.frame ⟨?_, ?_⟩
          · rw [hr]
            exact bytes_subset_inUse hdst.root (lvl1Entry_mem hi)
          · rintro ⟨i, -, hne, he⟩
            exact hne (by rwa [show i = lvl1Index virt by omega])
        rw [hsame]
        exact Classical.not_not.mp (fun hne => hdents _ hi hne hz)
      rw [pageEntry, pageEntry, if_neg (by rw [hz]; decide), if_neg (by rw [hkeep]; decide)]
      exact .empty
    · obtain ⟨t, ht⟩ := hc _ (List.mem_range.mpr hi) hz
      rw [pageEntry, pageEntry, if_pos ht.coarse,
        if_pos (by rw [ht.entry]; exact CoarsePageTableEntry.isCoarsePage_makeEntry _),
        ht.lvl2EntryAddr_eq hg.blocks hr' hnew]
      exact ht.copied _ (lvl2Index_lt virt)
  refine ⟨fun virt hv => (hentry hv).ne_zero_iff, fun virt hv _ => (hentry hv).permissions_eq, ?_, ?_, ?_, ?_⟩
  · intro virt hv hne o ho
    obtain ⟨q, -, ha, hsame⟩ := (hentry hv).frame hg.blocks hr' hnew hne
    rw [ha, hsame o ho]
  · intro virt hv virt' hv' hne hne' hpages he
    have hindex {virt : ℕ} (hv : virt < Areas.kernelVirtStartAddr)
        (hne : pageEntry s'.words (pageAddr r dst) virt ≠ 0) : (lvl1Index virt, lvl2Index virt) ∈
          {ij : ℕ × ℕ | ij.1 ∈ List.range kernelStartIdx ∧ ij.2 < lvl2Entries ∧ s.words (src + 4 * ij.1) ≠ 0 ∧
            s.words (lvl2EntryAddr s.words (src + 4 * ij.1) ij.2) ≠ 0} := by
      have hne' := (hentry hv).ne_zero_iff.mp hne
      obtain ⟨h₁, h₂⟩ := pageEntry_of_ne_zero hne'
      exact ⟨List.mem_range.mpr (lvl1Index_lt hv), lvl2Index_lt virt, h₁, h₂ ▸ hne'⟩
    rw [(pageEntry_of_ne_zero hne).2, (pageEntry_of_ne_zero hne').2] at he
    obtain ⟨h₁, h₂⟩ := Prod.mk.inj (hinj (hindex hv hne) (hindex hv' hne') he)
    exact hpages (page_eq_of_indices h₁ h₂)
  · intro virt hv hne
    obtain ⟨q, hq, ha, -⟩ := (hentry hv).frame hg.blocks hr' hnew ((hentry hv).ne_zero_iff.mp hne)
    have hq := Finset.mem_sdiff.mp hq
    have hdisj := hg.blocks.unused hg.sub hq.1 hq.2
    rw [hr'] at hdisj
    rw [frameBytes, ha]
    exact (hdisj.mono_left hsrc).symm
  · exact fun a ha => hg.frame ⟨hr ▸ hsrc ha, hout ha⟩

def smallWords (a : ℕ) : ℕ :=
  if a = 0x40000000 then CoarsePageTableEntry.makeEntry 0x40004000
  else if a = 0x40004000 then SmallPageEntry.makeEntry 0x40005000 .priviledgedOnly
  else 0

lemma smallWords_ne_zero {a : ℕ} (h : smallWords a ≠ 0) : a = 0x40000000 ∨ a = 0x40004000 := by
  unfold smallWords at h
  split_ifs at h with h₁ h₂
  · exact Or.inl h₁
  · exact Or.inr h₂
  · exact absurd rfl h

lemma footprint_smallWords : footprint smallWords 0x40000000 ⊆ inUse 32 256 0x40000000 ∅ := by
  have hlow {a : ℕ} (h : a < 0x40008000) : a ∈ inUse 32 256 0x40000000 ∅ := Or.inr (Or.inl h)
  have htable : CoarsePageTableEntry.baseAddress (smallWords 0x40000000) = 0x40004000 := by decide
  have hframe : SmallPageEntry.baseAddress (smallWords 0x40004000) = 0x40005000 := by decide
  rintro a (ha | ⟨i, hi, hne, ha⟩)
  · exact hlow (ha.2.trans (by decide))
  obtain rfl : i = 0 := by
    have := smallWords_ne_zero hne
    simp only [kernelStartIdx] at hi
    omega
  simp only [lvl2EntryAddr, Nat.mul_zero, Nat.add_zero, htable] at ha
  rcases ha with ha | ⟨j, hj, hne, ha⟩
  · exact hlow (ha.2.trans (by decide))
  · obtain rfl : j = 0 := by
      have := smallWords_ne_zero hne
      simp only [lvl2Entries] at hj
      omega
    simp only [Nat.mul_zero, Nat.add_zero, frameBytes, hframe] at ha
    exact hlow (ha.2.trans (by decide))

lemma smallBoard {pages : PageAllocator} (h : physicalPageAllocatorInit smallBoot = .ok pages) :
    pages.ramStart = 0x40000000 ∧ Blocks 32 256 pages ∅ ∧
      VectorMapped 32 256 ⟨pages, smallBoot.ramSize, smallWords, 0⟩ ∅ ∧
      vectorPage ⟨pages, smallBoot.ramSize, smallWords, 0⟩ = 20 := by
  obtain ⟨pages', free, h', hinv, hram, -⟩ := physicalPageAllocatorInit_spec smallBoot_valid
  obtain rfl := Except.ok.inj (h.symm.trans h')
  have hram : pages.ramStart = 0x40000000 := hram
  have hvector : vectorPage ⟨pages, smallBoot.ramSize, smallWords, 0⟩ = 20 := by
    simp only [vectorPage, hram]
    decide
  refine ⟨hram, ⟨⟨free, hinv⟩, by rw [hram]; decide⟩, ⟨Or.inr (Or.inl ?_), Or.inr (Or.inl ?_), Or.inr ?_⟩, hvector⟩
  · simp only [hram]
    decide
  · simp only [hram]
    decide
  · rw [hvector]
    decide

def forkSmall : Except Panic (ℕ × Vm × Vm) := do
  let pages ← physicalPageAllocatorInit smallBoot
  match ← vmCreateAddressSpace ⟨pages, smallBoot.ramSize, smallWords, 0⟩ with
  | (none, _) => .error (.undefined "out of memory")
  | (some dst, s) =>
    match ← vmFork s 0 dst with
    | (false, _) => .error (.undefined "out of memory")
    | (true, s') => return (dst, s, s')

lemma forkSmall_ok : forkSmall.isOk = true := by decide +kernel

theorem vmFork_copies_small : ∃ dst s s', vmFork s 0 dst = .ok (true, s') ∧
    ForkedFrom s s' (pageAddr s.pages.ramStart 0) (pageAddr s.pages.ramStart dst) := by
  obtain ⟨⟨dst, s, s'⟩, h⟩ := exists_of_isOk forkSmall_ok
  obtain ⟨pages, hinit, h⟩ := bind_eq_ok.mp h
  obtain ⟨⟨root, s₁⟩, hcreate, h⟩ := bind_eq_ok.mp h
  cases root with
  | none => cases h
  | some root =>
    obtain ⟨⟨ok, s₂⟩, hfork, h⟩ := bind_eq_ok.mp h
    cases ok with
    | false => cases h
    | true =>
      cases h
      obtain ⟨hram, hb, hvec, -⟩ := smallBoard hinit
      obtain ⟨live, hcreated⟩ := vmCreateAddressSpace_created hb hvec hcreate
      have hfoot : footprint smallWords 0x40000000 ⊆ inUse 32 256 pages.ramStart ∅ := by
        rw [hram]
        exact footprint_smallWords
      have htarget := hcreated.forkTarget hfoot (show smallWords 0x40000000 ≠ 0 by decide)
      have hsrc : pageAddr s.pages.ramStart 0 = 0x40000000 := by
        rw [hcreated.grown.ramStart, show pages.ramStart = _ from hram]
        rfl
      refine ⟨dst, s, s', hfork, vmFork_copies hcreated.grown.blocks ?_ ?_ hfork⟩
      · rw [hsrc]
        exact htarget.1
      · rw [hsrc]
        exact htarget.2

end Pi0Os.Memory
