import Pi0Os.Memory.AddressSpaceFork
import Pi0Os.Task.ProcessPages

/-! What a fork acquires and what the end of the child gives back: the kernel stack is never freed. -/

namespace Pi0Os.Task

open Kernel Library Memory

/-- Since `s₀` the blocks `live \ live₀` were acquired, among them the root `d` and the page `k`; the
tables under the root are of these blocks, and none of their frames is `k`. -/
structure Acquired (first limit k : ℕ) (s₀ s : Vm) (live₀ live : Finset Block) (d : ℕ) : Prop where
  grown : Grown first limit s₀ s live₀ live ∅
  root : (⟨d, .kb16⟩ : Block) ∈ live \ live₀
  stack : (⟨k, .kb4⟩ : Block) ∈ live \ live₀
  tables : ∀ i < kernelStartIdx, s.words (pageAddr s₀.pages.ramStart d + 4 * i) ≠ 0 →
    ∃ t, (⟨t, .kb1⟩ : Block) ∈ live \ live₀ ∧
      CoarsePageTableEntry.baseAddress (s.words (pageAddr s₀.pages.ramStart d + 4 * i)) =
        pageAddr s₀.pages.ramStart t ∧
      ∀ j < lvl2Entries, s.words (pageAddr s₀.pages.ramStart t + 4 * j) ≠ 0 →
        SmallPageEntry.baseAddress (s.words (pageAddr s₀.pages.ramStart t + 4 * j)) ≠
          pageAddr s₀.pages.ramStart k

namespace Acquired

variable {first limit k d p t i j v : ℕ} {s₀ s s' : Vm} {live₀ live live' : Finset Block} {o : PageOrder}
variable {E : Set ℕ} {b c : Block}

lemma bytes_disjoint (h : Acquired first limit k s₀ s live₀ live d) (hb : b ∈ live) (hc : c ∈ live) (hne : b ≠ c) :
    Disjoint (b.bytes s₀.pages.ramStart) (c.bytes s₀.pages.ramStart) := by
  rw [← h.grown.ramStart]
  exact h.grown.blocks.disjoint hb hc hne

lemma unused (h : Acquired first limit k s₀ s live₀ live d) (hb : b ∈ live \ live₀) :
    Disjoint (inUse first limit s₀.pages.ramStart live₀) (b.bytes s₀.pages.ramStart) := by
  obtain ⟨hb, hb₀⟩ := Finset.mem_sdiff.mp hb
  rw [← h.grown.ramStart]
  exact h.grown.blocks.unused h.grown.sub hb hb₀

lemma grow (h : Acquired first limit k s₀ s live₀ live d) (hg : Grown first limit s s' live live' E)
    (hE : ∀ a ∈ E, ∃ b ∈ live \ live₀, a ∈ b.bytes s₀.pages.ramStart) :
    Grown first limit s₀ s' live₀ live' ∅ := by
  refine (h.grown.trans hg).mono (fun a ha he => ?_)
  rcases he with he | he
  · exact he
  · obtain ⟨b, hb, hab⟩ := hE a he
    exact absurd hab (Set.disjoint_left.mp (h.unused hb) ha)

lemma mem_sdiff_mono (h : live ⊆ live') (hb : b ∈ live \ live₀) : b ∈ live' \ live₀ :=
  Finset.sdiff_subset_sdiff h (Finset.Subset.refl _) hb

lemma rootEntry_ne (h : Acquired first limit k s₀ s live₀ live d) (hi : i < kernelStartIdx)
    (ht : (⟨t, .kb1⟩ : Block) ∈ live) (hj : j < lvl2Entries) :
    pageAddr s₀.pages.ramStart d + 4 * i ≠ pageAddr s₀.pages.ramStart t + 4 * j := by
  have hd := h.bytes_disjoint (Finset.mem_sdiff.mp h.root).1 ht (by simp)
  intro he
  have hmem := lvl1Entry_mem (r := s₀.pages.ramStart) (d := d) hi
  rw [he] at hmem
  exact Set.disjoint_left.mp hd hmem (lvl2Entry_mem hj)

lemma alloc (h : Acquired first limit k s₀ s live₀ live d) {pages : PageAllocator}
    (ha : physicalPageAlloc o s.pages = .ok (some p, pages)) :
    Acquired first limit k s₀ { s with pages := pages } live₀ (insert ⟨p, o⟩ live) d ∧ p ≠ k := by
  have hg : Grown first limit s { s with pages := pages } live (insert ⟨p, o⟩ live) ∅ :=
    Grown.alloc h.grown.blocks ha (fun _ _ _ _ => rfl)
  refine ⟨⟨h.grow hg (by simp), mem_sdiff_mono hg.sub h.root, mem_sdiff_mono hg.sub h.stack, ?_⟩, ?_⟩
  · intro i hi hne
    obtain ⟨t, ht, hbase, hj⟩ := h.tables i hi hne
    exact ⟨t, mem_sdiff_mono hg.sub ht, hbase, hj⟩
  · rintro rfl
    have hnew := h.grown.blocks.alloc ha
    exact hnew.blocks.not_held (Finset.subset_insert ..) (Finset.mem_insert_self _ _) hnew.fresh
      (Or.inl ⟨.kb4, (Finset.mem_sdiff.mp h.stack).1⟩)

lemma storeEntry (h : Acquired first limit k s₀ s live₀ live d) (ht : (⟨t, .kb1⟩ : Block) ∈ live \ live₀)
    (hj : j < lvl2Entries) (hv : SmallPageEntry.baseAddress v ≠ pageAddr s₀.pages.ramStart k) :
    Acquired first limit k s₀ (s.store (pageAddr s₀.pages.ramStart t + 4 * j) v) live₀ live d := by
  have hlive := (Finset.mem_sdiff.mp ht).1
  refine ⟨h.grow (Grown.store h.grown.blocks) ?_, h.root, h.stack, fun i hi hne => ?_⟩
  · rintro a rfl
    exact ⟨_, ht, lvl2Entry_mem hj⟩
  · rw [Vm.store_words, Function.update_of_ne (h.rootEntry_ne hi hlive hj)] at hne
    obtain ⟨t', ht', hbase, htable⟩ := h.tables i hi hne
    rw [Vm.store_words, Function.update_of_ne (h.rootEntry_ne hi hlive hj)]
    refine ⟨t', ht', hbase, fun j' hj' hne' => ?_⟩
    by_cases he : pageAddr s₀.pages.ramStart t' + 4 * j' = pageAddr s₀.pages.ramStart t + 4 * j
    · rw [he, Function.update_self]
      exact hv
    · rw [Function.update_of_ne he] at hne' ⊢
      exact htable j' hj' hne'

lemma newTable (h : Acquired first limit k s₀ s live₀ live d) {pages : PageAllocator} (words : ℕ → ℕ)
    (ha : physicalPageAlloc .kb1 s.pages = .ok (some t, pages)) (hi : i < kernelStartIdx)
    (hentry : words (pageAddr s₀.pages.ramStart d + 4 * i) =
      CoarsePageTableEntry.makeEntry (pageAddr s₀.pages.ramStart t))
    (hempty : ∀ j < lvl2Entries, words (pageAddr s₀.pages.ramStart t + 4 * j) = 0)
    (hkeep : Set.EqOn words s.words
      (inUse first limit s₀.pages.ramStart live \ {pageAddr s₀.pages.ramStart d + 4 * i})) :
    Acquired first limit k s₀ { s with pages := pages, words := words } live₀ (insert ⟨t, .kb1⟩ live) d := by
  have hnew := h.grown.blocks.alloc ha
  have hsub : live ⊆ insert (⟨t, .kb1⟩ : Block) live := Finset.subset_insert ..
  have hmem : (⟨t, .kb1⟩ : Block) ∈ insert (⟨t, .kb1⟩ : Block) live := Finset.mem_insert_self _ _
  have hg : Grown first limit s { s with pages := pages, words := words } live (insert ⟨t, .kb1⟩ live)
      {pageAddr s₀.pages.ramStart d + 4 * i} :=
    ⟨hnew.blocks, hsub, hnew.ramStart, by rw [h.grown.ramStart]; exact hkeep⟩
  have hdlive := (Finset.mem_sdiff.mp h.root).1
  obtain ⟨hd, hlt, -⟩ := hnew.blocks.address hmem
  rw [hnew.ramStart, h.grown.ramStart] at hd hlt
  refine ⟨h.grow hg ?_, mem_sdiff_mono hsub h.root, mem_sdiff_mono hsub h.stack, fun i' hi' hne => ?_⟩
  · rintro a rfl
    exact ⟨_, h.root, lvl1Entry_mem hi⟩
  dsimp only at hne ⊢
  by_cases he : i' = i
  · subst he
    refine ⟨t, Finset.mem_sdiff.mpr ⟨hmem, fun hm => hnew.fresh (h.grown.sub hm)⟩, ?_, fun j hj hne' => ?_⟩
    · rw [hentry, CoarsePageTableEntry.baseAddress_makeEntry hd hlt]
    · exact absurd (hempty j hj) hne'
  · have hroot : words (pageAddr s₀.pages.ramStart d + 4 * i') = s.words (pageAddr s₀.pages.ramStart d + 4 * i') := by
      refine hkeep ⟨bytes_subset_inUse hdlive (lvl1Entry_mem hi'), fun hm => he ?_⟩
      have hm : pageAddr s₀.pages.ramStart d + 4 * i' = pageAddr s₀.pages.ramStart d + 4 * i := hm
      omega
    rw [hroot] at hne ⊢
    obtain ⟨t', ht', hbase, htable⟩ := h.tables i' hi' hne
    have hlive' := (Finset.mem_sdiff.mp ht').1
    refine ⟨t', mem_sdiff_mono hsub ht', hbase, fun j hj => ?_⟩
    have hsame : words (pageAddr s₀.pages.ramStart t' + 4 * j) = s.words (pageAddr s₀.pages.ramStart t' + 4 * j) :=
      hkeep ⟨bytes_subset_inUse hlive' (lvl2Entry_mem hj), fun hm => h.rootEntry_ne hi hlive' hj hm.symm⟩
    rw [hsame]
    exact htable j hj

end Acquired

lemma fillLvl1Entry_user {root virt : ℕ} {s s' : Vm} {new : Bool} (hv : virt < Areas.kernelVirtStartAddr)
    (h : fillLvl1Entry root virt s = .ok (new, s')) :
    (new = false ∧ s' = s ∧ s.words (root + 4 * lvl1Index virt) ≠ 0) ∨
    (new = true ∧ ∃ t pages a, physicalPageAlloc .kb1 s.pages = .ok (some t, pages) ∧ page2addr pages t = .ok a ∧
      s' = Vm.store { s with pages := pages } (root + 4 * lvl1Index virt) (CoarsePageTableEntry.makeEntry a)) := by
  have hout : ¬ Areas.kernelArea.Contains virt := fun hc => Nat.not_lt.mpr hc.1 hv
  obtain ⟨kernelLvl1, -, h⟩ := bind_eq_ok.mp h
  obtain ⟨-, h⟩ := panicIf_bind_eq_ok.mp h
  simp only [hout, if_false, false_and] at h
  split_ifs at h with hz
  · cases h
    exact Or.inl ⟨rfl, rfl, hz⟩
  · obtain ⟨⟨t, pages⟩, ht, h⟩ := bind_eq_ok.mp h
    cases t with
    | none => cases h
    | some t =>
      obtain ⟨a, ha, h⟩ := bind_eq_ok.mp h
      cases h
      exact Or.inr ⟨rfl, t, pages, a, ht, ha, rfl⟩

section Steps

variable {first limit k d : ℕ} {s₀ s s' : Vm} {live₀ live : Finset Block}

lemma vmMap_acquired {q virt : ℕ} {permissions : PageAccessPermissions}
    (h : Acquired first limit k s₀ s live₀ live d) (hv : virt < Areas.kernelVirtStartAddr)
    (hq : (⟨q, .kb4⟩ : Block) ∈ live) (hqk : q ≠ k) (hmap : vmMap s d q virt permissions = .ok s') :
    ∃ live', live ⊆ live' ∧ Acquired first limit k s₀ s' live₀ live' d := by
  have hr := h.grown.ramStart
  have hi := lvl1Index_lt hv
  have hj := lvl2Index_lt virt
  obtain ⟨root, hroot, hmap⟩ := bind_eq_ok.mp hmap
  obtain ⟨physAddr, hphys, hmap⟩ := bind_eq_ok.mp hmap
  obtain rfl := rootTablePtr_eq h.grown.blocks hroot
  obtain rfl := h.grown.blocks.page2addr_eq hphys
  obtain ⟨hd, hlt, -⟩ := h.grown.blocks.address hq
  have hframe : SmallPageEntry.baseAddress (SmallPageEntry.makeEntry (pageAddr s.pages.ramStart q) permissions) ≠
      pageAddr s₀.pages.ramStart k := by
    rw [SmallPageEntry.baseAddress_makeEntry _ hd hlt, hr]
    exact fun he => hqk (pageAddr_injective _ he)
  obtain ⟨⟨new, s₁⟩, hfill, hmap⟩ := bind_eq_ok.mp hmap
  obtain ⟨table, htable, hmap⟩ := bind_eq_ok.mp hmap
  obtain rfl := phys2virt_eq htable
  obtain ⟨-, hmap⟩ := panicIf_bind_eq_ok.mp hmap
  obtain rfl := Except.ok.inj hmap
  rw [hr] at hfill hframe ⊢
  rcases fillLvl1Entry_user hv hfill with ⟨rfl, rfl, hne⟩ | ⟨rfl, t, pages, a, ht, ha, rfl⟩
  · obtain ⟨t, ht, hbase, -⟩ := h.tables _ hi hne
    refine ⟨live, Finset.Subset.refl _, ?_⟩
    rw [hbase]
    exact h.storeEntry ht hj hframe
  · have hnew := h.grown.blocks.alloc ht
    have hmem : (⟨t, .kb1⟩ : Block) ∈ insert (⟨t, .kb1⟩ : Block) live := Finset.mem_insert_self _ _
    obtain rfl : a = pageAddr s₀.pages.ramStart t := by
      rw [hnew.blocks.page2addr_eq ha, hnew.ramStart, hr]
    obtain ⟨hd', hlt', -⟩ := hnew.blocks.address hmem
    rw [hnew.ramStart, hr] at hd' hlt'
    have hunused := hnew.unused
    rw [hr] at hunused
    have hdmem : pageAddr s₀.pages.ramStart d + 4 * lvl1Index virt ∈ inUse first limit s₀.pages.ramStart live :=
      bytes_subset_inUse (Finset.mem_sdiff.mp h.root).1 (lvl1Entry_mem hi)
    have hentry := Set.disjoint_left.mp hunused hdmem
    have hbase : CoarsePageTableEntry.baseAddress ((Vm.store { s with pages := pages }
        (pageAddr s₀.pages.ramStart d + 4 * lvl1Index virt)
        (CoarsePageTableEntry.makeEntry (pageAddr s₀.pages.ramStart t))).words
          (pageAddr s₀.pages.ramStart d + 4 * lvl1Index virt)) = pageAddr s₀.pages.ramStart t := by
      rw [Vm.store_words, Function.update_self, CoarsePageTableEntry.baseAddress_makeEntry hd' hlt']
    refine ⟨insert ⟨t, .kb1⟩ live, Finset.subset_insert .., ?_⟩
    rw [if_pos rfl, hbase]
    have htable := h.newTable (fill (Function.update s.words
      (pageAddr s₀.pages.ramStart d + 4 * lvl1Index virt)
      (CoarsePageTableEntry.makeEntry (pageAddr s₀.pages.ramStart t))) (pageAddr s₀.pages.ramStart t) lvl2TableSize 0)
      ht hi ((fill_eqOn (Set.disjoint_singleton_left.mpr hentry) (Set.mem_singleton _)).trans
        (Function.update_self ..)) (fun j hj => fill_of_mem (lvl2Entry_mem hj)) (fun a ha =>
          (fill_eqOn hunused ha.1).trans (Function.update_of_ne ha.2 ..))
    refine htable.storeEntry (Finset.mem_sdiff.mpr ⟨hmem, fun hm => ?_⟩) hj hframe
    exact hnew.fresh (h.grown.sub hm)

lemma allocStackPages_acquired {n : ℕ} {pages pages' : List ℕ} {a : PageAllocator}
    (h : Acquired first limit k s₀ s live₀ live d) (hp : ∀ q ∈ pages, (⟨q, .kb4⟩ : Block) ∈ live ∧ q ≠ k)
    (halloc : allocStackPages n pages s.pages = .ok (some pages', a)) :
    ∃ live', live ⊆ live' ∧ Acquired first limit k s₀ { s with pages := a } live₀ live' d ∧
      (∀ q ∈ pages', (⟨q, .kb4⟩ : Block) ∈ live' ∧ q ≠ k) ∧ pages'.length = pages.length + n := by
  induction n generalizing pages s live with
  | zero =>
    cases halloc
    exact ⟨live, Finset.Subset.refl _, h, hp, rfl⟩
  | succ n ih =>
    obtain ⟨⟨page, pages₁⟩, hpage, halloc⟩ := bind_eq_ok.mp halloc
    cases page with
    | none =>
      obtain ⟨_, -, halloc⟩ := bind_eq_ok.mp halloc
      cases halloc
    | some page =>
      obtain ⟨h₁, hne⟩ := h.alloc hpage
      have hsub : live ⊆ insert (⟨page, .kb4⟩ : Block) live := Finset.subset_insert ..
      have hp₁ : ∀ q ∈ pages ++ [page], (⟨q, .kb4⟩ : Block) ∈ insert (⟨page, .kb4⟩ : Block) live ∧ q ≠ k := by
        intro q hq
        rcases List.mem_append.mp hq with hq | hq
        · exact ⟨hsub (hp q hq).1, (hp q hq).2⟩
        · obtain rfl := List.mem_singleton.mp hq
          exact ⟨Finset.mem_insert_self _ _, hne⟩
      obtain ⟨live', hsub', h', hp', hlen⟩ := ih h₁ hp₁ halloc
      refine ⟨live', hsub.trans hsub', h', hp', ?_⟩
      rw [hlen, List.length_append, List.length_singleton]
      omega

lemma mapStackPages_acquired {i : ℕ} {pages : List ℕ} (h : Acquired first limit k s₀ s live₀ live d)
    (hp : ∀ q ∈ pages, (⟨q, .kb4⟩ : Block) ∈ live ∧ q ≠ k) (hi : i + pages.length ≤ 4)
    (hmap : mapStackPages d (userStackStart 0) i pages s = .ok s') :
    ∃ live', live ⊆ live' ∧ Acquired first limit k s₀ s' live₀ live' d := by
  induction pages generalizing i s live with
  | nil =>
    cases hmap
    exact ⟨live, Finset.Subset.refl _, h⟩
  | cons page pages ih =>
    obtain ⟨hpage, hp⟩ := List.forall_mem_cons.mp hp
    obtain ⟨s₁, hs₁, hmap⟩ := bind_eq_ok.mp hmap
    rw [List.length_cons] at hi
    have hv : sub32 (userStackStart 0) ((i + 1) * size4KB) < Areas.kernelVirtStartAddr := by
      simp only [userStackStart, sub32, Areas.kernelVirtStartAddr, size4KB]
      omega
    obtain ⟨live₁, hsub₁, h₁⟩ := vmMap_acquired h hv hpage.1 hpage.2 hs₁
    obtain ⟨live', hsub', h'⟩ := ih h₁ (fun q hq => ⟨hsub₁ (hp q hq).1, (hp q hq).2⟩) (by omega) hmap
    exact ⟨live', hsub₁.trans hsub', h'⟩

lemma vmFork_acquired {as : ℕ} (h : Acquired first limit k s₀ s live₀ live d)
    (hsrc : footprint s₀.words (pageAddr s₀.pages.ramStart as) ⊆ inUse first limit s₀.pages.ramStart live₀)
    (hfork : vmFork s as d = .ok (true, s')) : ∃ live', Acquired first limit k s₀ s' live₀ live' d := by
  have hr := h.grown.ramStart
  have hloop := vmFork_eq_ok h.grown.blocks hfork
  rw [hr] at hloop
  generalize pageAddr s₀.pages.ramStart as = src at *
  have hkeep : Set.EqOn s.words s₀.words (footprint s₀.words src) :=
    fun a ha => h.grown.frame ⟨hsrc ha, Set.notMem_empty a⟩
  have hfoot := footprint_congr hkeep
  have hret : Retained first limit s live s.words (footprint s.words src) := by
    refine ⟨?_, fun _ _ => rfl⟩
    rw [hfoot, hr]
    exact hsrc.trans (inUse_mono h.grown.sub)
  have hap : Disjoint (footprint s.words src) ((⟨d, .kb16⟩ : Block).bytes s₀.pages.ramStart) := by
    rw [hfoot]
    exact (h.unused h.root).mono_left hsrc
  have hd := (Finset.mem_sdiff.mp h.root).1
  obtain ⟨live', hg, hc, -⟩ := forkLvl1_copies hap (fun _ hi => List.mem_range.mp hi) List.nodup_range
    (fun i hi => lvl1Entry_mem_footprint (List.mem_range.mp hi))
    (fun i hi => entryIn_footprint (List.mem_range.mp hi)) h.grown.blocks hr hret hd hloop
  have hr' : s'.pages.ramStart = s₀.pages.ramStart := hg.ramStart.trans hr
  have hnew : live' \ live ⊆ live' \ live₀ := Finset.sdiff_subset_sdiff (Finset.Subset.refl _) h.grown.sub
  refine ⟨live', h.grow hg ?_, Acquired.mem_sdiff_mono hg.sub h.root, Acquired.mem_sdiff_mono hg.sub h.stack, ?_⟩
  · rintro a ⟨i, hi, -, rfl⟩
    exact ⟨_, h.root, lvl1Entry_mem (List.mem_range.mp hi)⟩
  intro i hi hne
  by_cases hz : s.words (src + 4 * i) = 0
  · -- the entry and its table are left as they were
    have hkeep' {a : ℕ} (ha : a ∈ inUse first limit s₀.pages.ramStart live)
        (hne : ∀ i' < kernelStartIdx, s.words (src + 4 * i') ≠ 0 → a ≠ pageAddr s₀.pages.ramStart d + 4 * i') :
        s'.words a = s.words a := by
      refine hg.frame ⟨hr ▸ ha, ?_⟩
      rintro ⟨i', hi', hne', he⟩
      exact hne i' (List.mem_range.mp hi') hne' he
    have hentry := hkeep' (bytes_subset_inUse hd (lvl1Entry_mem hi)) (fun i' _ hne' he => by
      rw [show i' = i by omega] at hne'
      exact hne' hz)
    rw [hentry] at hne ⊢
    obtain ⟨t, ht, hbase, htable⟩ := h.tables i hi hne
    have hlive := (Finset.mem_sdiff.mp ht).1
    refine ⟨t, Acquired.mem_sdiff_mono hg.sub ht, hbase, fun j hj => ?_⟩
    rw [hkeep' (bytes_subset_inUse hlive (lvl2Entry_mem hj)) (fun i' hi' _ he => h.rootEntry_ne hi' hlive hj he.symm)]
    exact htable j hj
  · obtain ⟨t, ht⟩ := hc i (List.mem_range.mpr hi) hz
    obtain ⟨hdvd, hlt, -⟩ := hg.blocks.address (Finset.sdiff_subset ht.table)
    rw [hr'] at hdvd hlt
    refine ⟨t, hnew ht.table, ?_, fun j hj hne' => ?_⟩
    · rw [ht.entry, CoarsePageTableEntry.baseAddress_makeEntry hdvd hlt]
    · have hcopied := ht.copied j hj
      obtain ⟨q, hq, ha, -⟩ := hcopied.frame hg.blocks hr' Finset.sdiff_subset (hcopied.ne_zero_iff.mp hne')
      rw [ha]
      intro he
      obtain rfl := pageAddr_injective _ he
      exact (Finset.mem_sdiff.mp hq).2 (Finset.mem_sdiff.mp h.stack).1

lemma created_acquired {s₁ : Vm} {live₁ : Finset Block} {pages : PageAllocator}
    (h : Created first limit s s₁ live live₁ d) (hv : VectorMapped first limit s live)
    (hk : physicalPageAlloc .kb4 s₁.pages = .ok (some k, pages)) :
    Acquired first limit k s { s₁ with pages := pages } live (insert ⟨k, .kb4⟩ live₁) d := by
  have hnew := h.grown.blocks.alloc hk
  have hsub : live₁ ⊆ insert (⟨k, .kb4⟩ : Block) live₁ := Finset.subset_insert ..
  have hmem : (⟨k, .kb4⟩ : Block) ∈ insert (⟨k, .kb4⟩ : Block) live₁ := Finset.mem_insert_self _ _
  have hg : Grown first limit s₁ { s₁ with pages := pages } live₁ (insert ⟨k, .kb4⟩ live₁) ∅ :=
    Grown.alloc h.grown.blocks hk (fun _ _ _ _ => rfl)
  obtain ⟨t, ht, ht₀, hentry, hvector, hempty⟩ := h.table
  obtain ⟨htd, htlt, -⟩ := h.grown.blocks.address ht
  rw [h.grown.ramStart] at htd htlt
  have hroot : (⟨d, .kb16⟩ : Block) ∈ live₁ \ live := Finset.mem_sdiff.mpr ⟨h.root, h.fresh⟩
  refine ⟨(h.grown.trans hg).mono (fun _ _ he => he.elim id id), Acquired.mem_sdiff_mono hsub hroot,
    Finset.mem_sdiff.mpr ⟨hmem, fun hm => hnew.fresh (h.grown.sub hm)⟩, fun i hi hne => ?_⟩
  by_cases hz : i = 0
  · subst hz
    refine ⟨t, Acquired.mem_sdiff_mono hsub (Finset.mem_sdiff.mpr ⟨ht, ht₀⟩), ?_, fun j hj hne' => ?_⟩
    · simp only [Nat.mul_zero, Nat.add_zero, hentry]
      exact CoarsePageTableEntry.baseAddress_makeEntry htd htlt
    · by_cases hjz : j = 0
      · subst hjz
        simp only [Nat.mul_zero, Nat.add_zero, hvector]
        rw [SmallPageEntry.baseAddress_makeEntry _ h.aligned h.bound]
        intro he
        obtain rfl := pageAddr_injective _ he
        refine hnew.blocks.not_held hsub hmem hnew.fresh ?_
        exact hv.page.imp (fun ⟨o, ho⟩ => ⟨o, h.grown.sub ho⟩) id
      · exact absurd (hempty j hj hjz) hne'
  · exact absurd (h.empty i hi hz) hne

lemma allocProcessPages_acquired {vm : Vm} {stack : ℕ} (hb : Blocks first limit s.pages live)
    (hv : VectorMapped first limit s live) (h : allocProcessPages s = .ok (some d, some stack, true, vm)) :
    ∃ live', Acquired first limit stack s vm live live' d := by
  obtain ⟨⟨as, s₁⟩, hcreate, h⟩ := bind_eq_ok.mp h
  cases as with
  | none => cases h
  | some as =>
    obtain ⟨⟨page, s₂⟩, hstack, h⟩ := bind_eq_ok.mp h
    cases page with
    | none => cases h
    | some page =>
      obtain ⟨⟨user, s₃⟩, huser, h⟩ := bind_eq_ok.mp h
      cases h
      obtain ⟨live₁, hc⟩ := vmCreateAddressSpace_created hb hv hcreate
      obtain ⟨⟨page', pages⟩, hpage, hstack⟩ := bind_eq_ok.mp hstack
      cases page' with
      | none => cases hstack
      | some page' =>
        obtain ⟨_, -, hstack⟩ := bind_eq_ok.mp hstack
        obtain ⟨_, -, hstack⟩ := bind_eq_ok.mp hstack
        cases hstack
        have h₂ := created_acquired hc hv hpage
        obtain ⟨⟨stackPages, a⟩, hpages, huser⟩ := bind_eq_ok.mp huser
        cases stackPages with
        | none => cases huser
        | some stackPages =>
          obtain ⟨s₄, hmap, huser⟩ := bind_eq_ok.mp huser
          cases huser
          obtain ⟨live₃, -, h₃, hp, hlen⟩ := allocStackPages_acquired h₂ (by simp) hpages
          obtain ⟨live', -, h'⟩ := mapStackPages_acquired h₃ hp (by simp [hlen]) hmap
          exact ⟨live', h'⟩

end Steps

lemma sysForkPages_acquired {first limit supervisorLr : ℕ} {env : ForkEnv} {m m₁ : Machine} {parent child : Process}
    {thread : Thread} {rc : ℤ} {live : Finset Block} (hb : Blocks first limit m.vm.pages live)
    (hv : VectorMapped first limit m.vm live)
    (hparent : footprint m.vm.words (pageAddr m.vm.pages.ramStart parent.addressSpace) ⊆
      inUse first limit m.vm.pages.ramStart live)
    (h : sysForkPages env supervisorLr m parent thread = .ok (rc, m₁))
    (hchild : m₁.sched.processes.getLast? = some child) :
    ∃ k live', Acquired first limit k m.vm m₁.vm live live' child.addressSpace := by
  obtain ⟨⟨as, stack, user, vm⟩, halloc, h⟩ := bind_eq_ok.mp h
  split at h
  · rename_i as stack vm hr
    cases hr
    obtain ⟨⟨ok, vm'⟩, hfork, h⟩ := bind_eq_ok.mp h
    obtain ⟨⟨rc', sched⟩, hsys, h⟩ := bind_eq_ok.mp h
    cases h
    obtain ⟨child', hp, -, -, rfl, has⟩ := sysFork_spec hsys
    rw [hp, List.getLast?_concat] at hchild
    obtain rfl := Option.some.inj hchild
    obtain rfl := Option.some.inj has
    obtain ⟨live₁, h₁⟩ := allocProcessPages_acquired hb hv halloc
    obtain ⟨live', h'⟩ := vmFork_acquired h₁ hparent hfork
    exact ⟨stack, live', h'⟩
  · obtain ⟨⟨rc', sched⟩, hsys, -⟩ := bind_eq_ok.mp h
    obtain ⟨-, -, -, -, hok, -⟩ := sysFork_spec hsys
    exact absurd hok (by simp [ForkEnv.withPages])

lemma Acquired.sparesPage {first limit k d : ℕ} {s₀ s : Vm} {live₀ live : Finset Block}
    (h : Acquired first limit k s₀ s live₀ live d) :
    SparesPage s₀.pages.ramStart k s.words (pageAddr s₀.pages.ramStart d) := by
  intro i hi hne
  obtain ⟨t, ht, hbase, htable⟩ := h.tables i hi hne
  refine ⟨?_, fun j hj hne' => ?_⟩
  · rw [hbase]
    intro he
    obtain rfl := pageAddr_injective _ he
    have := h.grown.blocks.order_eq (Finset.sdiff_subset ht) (Finset.sdiff_subset h.stack)
    cases this
  · simp only [frameAddr, lvl2EntryAddr, hbase] at hne' ⊢
    exact htable j hj hne'

lemma SameTables.sparesPage {r k root : ℕ} {m m' : ℕ → ℕ} (h : SameTables root m m')
    (hk : SparesPage r k m root) : SparesPage r k m' root := by
  intro i hi hne
  obtain ⟨he, hentries⟩ := h i hi
  rw [he] at hne ⊢
  obtain ⟨ht, htable⟩ := hk i hi hne
  refine ⟨ht, fun j hj hne' => ?_⟩
  rw [frameAddr, lvl2EntryAddr, he, ← lvl2EntryAddr, hentries hne j hj]
  rw [lvl2EntryAddr, he, ← lvl2EntryAddr, hentries hne j hj] at hne'
  exact htable j hj hne'

lemma childRun_spares {as k : ℕ} {m m' : Machine} (h : Relation.ReflTransGen (ChildStep as) m m')
    (hk : SparesPage m.vm.pages.ramStart k m.vm.words (pageAddr m.vm.pages.ramStart as)) :
    m'.vm.pages = m.vm.pages ∧
      SparesPage m'.vm.pages.ramStart k m'.vm.words (pageAddr m'.vm.pages.ramStart as) := by
  induction h with
  | refl => exact ⟨rfl, hk⟩
  | tail _ hstep ih =>
    obtain ⟨hpages, hspares⟩ := ih
    cases hstep with
    | run hsame htables =>
      rw [hsame]
      exact ⟨hpages, htables.sparesPage hspares⟩
    | exit _ _ _ => exact ⟨hpages, hspares⟩

/-- No lifetime of a child conserves the physical pages: its kernel stack stays allocated. -/
theorem lifetime_leaks {first limit supervisorLr : ℕ} {env : ForkEnv} {parent : Process} {thread : Thread}
    {m m' : Machine} {live : Finset Block} (hb : Blocks first limit m.vm.pages live)
    (hv : VectorMapped first limit m.vm live)
    (hparent : footprint m.vm.words (pageAddr m.vm.pages.ramStart parent.addressSpace) ⊆
      inUse first limit m.vm.pages.ramStart live)
    (h : Lifetime env supervisorLr parent thread m m') :
    ¬ Conserved first limit live m.vm.pages m'.vm.pages := by
  obtain ⟨hfork, hchild, hrun, -, -, has, hreap⟩ := h
  rename_i m₁ m₂ rc child p t slot i j
  obtain ⟨k, live', hacq⟩ := sysForkPages_acquired hb hv hparent hfork hchild
  obtain ⟨hk, hk₀⟩ := Finset.mem_sdiff.mp hacq.stack
  have hbefore : m.vm.pages.refCount k = 0 :=
    hb.uncounted (hacq.grown.blocks.not_held hacq.grown.sub hk hk₀)
  have hafter : 0 < m₁.vm.pages.refCount k := hacq.grown.blocks.counted hk
  have hspares := hacq.sparesPage
  rw [← hacq.grown.ramStart] at hspares
  obtain ⟨hpages, hspares⟩ := childRun_spares hrun hspares
  have hroot : p.addressSpace ≠ k := by
    rw [has]
    intro he
    have hd := Finset.sdiff_subset hacq.root
    rw [he] at hd
    cases hacq.grown.blocks.order_eq hd hk
  have hreaped : m'.vm.pages.refCount k = m₂.vm.pages.refCount k := by
    rw [freeThreadPages] at hreap
    split_ifs at hreap
    · obtain ⟨vm, hvm, hreap⟩ := bind_eq_ok.mp hreap
      cases hreap
      rw [← has] at hspares
      exact (vmFree_freed (hpages ▸ hacq.grown.blocks) hspares hroot hvm).refCount
    · cases hreap
      rfl
  intro hc
  have hcount := congrFun hc.refCount k
  rw [hreaped, hpages, hbefore] at hcount
  exact absurd hcount hafter.ne'

/-- The last process exits and its thread, the one of the slot, is reaped. -/
def childEnds (m : Machine) (slot : ℕ) : Except Panic Machine :=
  let i := m.sched.processes.length - 1
  match m.sched.processes[i]? with
  | none => .error (.undefined "no child")
  | some p =>
    match p.threads[0]? with
    | none => .error (.undefined "no thread")
    | some t =>
      if m.sched.slot slot = some (p.pid, t.tid) then
        let zombie := { t with state := .zombie }
        freeThreadPages { m with sched := sysExit m.sched i 0 0 p t } i 0
          { p with exitCode := 0, threads := p.threads.set 0 zombie } zombie
      else .error (.undefined "another thread")

/-- A process with an address space as `vm_create_address_space` leaves it. -/
def smallMachine : Except Panic (Process × Machine) := do
  let pages ← physicalPageAllocatorInit smallBoot
  match ← vmCreateAddressSpace ⟨pages, smallBoot.ramSize, smallWords, 0⟩ with
  | (none, _) => .error (.undefined "out of memory")
  | (some as, vm) =>
    let parent := { proc1 with addressSpace := as }
    return (parent, ⟨⟨1, [some (0, 0)], [parent]⟩, vm⟩)

def parentThread : Thread := ⟨0, proc1Fork.frame, .runnable, none⟩

def smallLifetime : Except Panic (Process × Machine × Machine) := do
  let (parent, m) ← smallMachine
  let (_, m₁) ← sysForkPages roomyFork 0 m parent parentThread
  return (parent, m, ← childEnds m₁ 1)

lemma childEnds_lifetime {env : ForkEnv} {supervisorLr slot : ℕ} {m m₁ m₂ : Machine} {parent : Process}
    {thread : Thread} {rc : ℤ} (hfork : sysForkPages env supervisorLr m parent thread = .ok (rc, m₁))
    (h : childEnds m₁ slot = .ok m₂) : Lifetime env supervisorLr parent thread m m₂ := by
  rw [childEnds] at h
  split at h
  · cases h
  · rename_i p hp
    split at h
    · cases h
    · rename_i t ht
      split_ifs at h with hslot
      have hlast : m₁.sched.processes.getLast? = some p := by
        rw [List.getLast?_eq_getElem?]
        exact hp
      obtain ⟨hlen, -⟩ := List.getElem?_eq_some_iff.mp hp
      obtain ⟨hlent, -⟩ := List.getElem?_eq_some_iff.mp ht
      have hzombie : ThreadAt (sysExit m₁.sched (m₁.sched.processes.length - 1) 0 0 p t) slot
          (m₁.sched.processes.length - 1) 0
          { p with exitCode := 0, threads := p.threads.set 0 { t with state := .zombie } }
          { t with state := .zombie } :=
        ⟨hslot, List.getElem?_set_self hlen, List.getElem?_set_self hlent⟩
      exact .mk hfork hlast (.single (.exit hp ht rfl)) hzombie rfl rfl h

lemma smallLifetime_counts :
    smallLifetime.toOption.map (fun x => (x.2.1.vm.pages.refCount 56, x.2.2.vm.pages.refCount 56)) =
      some (0, 1) := by decide +kernel

lemma smallLifetime_spec : ∃ parent m m' live, Blocks 32 256 m.vm.pages live ∧ VectorMapped 32 256 m.vm live ∧
    footprint m.vm.words (pageAddr m.vm.pages.ramStart parent.addressSpace) ⊆
      inUse 32 256 m.vm.pages.ramStart live ∧
    Lifetime roomyFork 0 parent parentThread m m' ∧
    m.vm.pages.refCount 56 = 0 ∧ m'.vm.pages.refCount 56 = 1 := by
  obtain ⟨⟨parent, m, m'⟩, hrun, hcounts⟩ := Option.map_eq_some_iff.mp smallLifetime_counts
  obtain ⟨hbefore, hafter⟩ := Prod.mk.inj hcounts
  have hrun : smallLifetime = .ok (parent, m, m') := by
    cases hx : smallLifetime with
    | error e =>
      rw [hx] at hrun
      cases hrun
    | ok x =>
      rw [hx] at hrun
      exact congrArg _ (Option.some.inj hrun)
  obtain ⟨⟨parent', m₀⟩, hmachine, hrun⟩ := bind_eq_ok.mp hrun
  obtain ⟨⟨rc, m₁⟩, hfork, hrun⟩ := bind_eq_ok.mp hrun
  obtain ⟨m₂, hends, hrun⟩ := bind_eq_ok.mp hrun
  cases hrun
  obtain ⟨pages, hinit, hmachine⟩ := bind_eq_ok.mp hmachine
  obtain ⟨⟨as, vm⟩, hcreate, hmachine⟩ := bind_eq_ok.mp hmachine
  cases as with
  | none => cases hmachine
  | some as =>
    cases hmachine
    obtain ⟨hram, hb, hv, hpage⟩ := smallBoard hinit
    obtain ⟨live, hc⟩ := vmCreateAddressSpace_created hb hv hcreate
    have hr : vm.pages.ramStart = pages.ramStart := hc.grown.ramStart
    refine ⟨_, _, _, live, hc.grown.blocks, (hc.vectorMapped hv).1, ?_, childEnds_lifetime hfork hends, hbefore, hafter⟩
    rw [hr]
    refine hc.footprint_subset (fun a ha => Or.inr (Or.inl (lt_of_lt_of_le ha.2 ?_)))
    simp only [hpage, pageAddr, size1KB, size4KB]
    omega

theorem child_keeps_kernel_stack : ∃ parent m m', Lifetime roomyFork 0 parent parentThread m m' ∧
    m.vm.pages.refCount 56 = 0 ∧ m'.vm.pages.refCount 56 = 1 := by
  obtain ⟨parent, m, m', live, -, -, -, h⟩ := smallLifetime_spec
  exact ⟨parent, m, m', h⟩

theorem lifetime_leaks_small : ∃ parent m m' live, Lifetime roomyFork 0 parent parentThread m m' ∧
    ¬ Conserved 32 256 live m.vm.pages m'.vm.pages := by
  obtain ⟨parent, m, m', live, hb, hv, hparent, h, -⟩ := smallLifetime_spec
  exact ⟨parent, m, m', live, h, lifetime_leaks hb hv hparent h⟩

end Pi0Os.Task
