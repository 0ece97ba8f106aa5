import Pi0Os.Memory.AddressSpaceCreation

/-! `vm_fork` gives the copy a frame of its own for every page the source maps, and writes nowhere
else than in blocks it has just allocated and in the first-level table of the copy. -/

namespace Pi0Os.Memory

open Kernel Library

/-- Memory in use that still holds what it held in `m₀`. -/
structure Retained (first limit : ℕ) (s : Vm) (live : Finset Block) (m₀ : ℕ → ℕ) (S : Set ℕ) : Prop where
  inUse : S ⊆ inUse first limit s.pages.ramStart live
  same : Set.EqOn s.words m₀ S

lemma Grown.retained {first limit : ℕ} {s s' : Vm} {live live₂ : Finset Block} {E S : Set ℕ} {m₀ : ℕ → ℕ}
    (h : Grown first limit s s' live live₂ E) (hr : Retained first limit s live m₀ S)
    (hE : Disjoint S E) : Retained first limit s' live₂ m₀ S := by
  refine ⟨?_, fun a ha => ?_⟩
  · rw [h.ramStart]
    exact hr.inUse.trans (inUse_mono h.sub)
  · exact (h.frame ⟨hr.inUse ha, Set.disjoint_left.mp hE ha⟩).trans (hr.same ha)

/-- What `vm_fork` makes of a second-level entry, with a frame among the blocks `new`. -/
inductive CopiedEntry (r : ℕ) (new : Finset Block) (m₀ m : ℕ → ℕ) : ℕ → ℕ → Prop
  | empty : CopiedEntry r new m₀ m 0 0
  | page {src q} : src ≠ 0 → (⟨q, .kb4⟩ : Block) ∈ new →
      (∀ o < size4KB, m (pageAddr r q + o) = m₀ (SmallPageEntry.baseAddress src + o)) →
      CopiedEntry r new m₀ m src (SmallPageEntry.makeEntry (pageAddr r q) (SmallPageEntry.permissions src))

lemma CopiedEntry.mono {r src dst : ℕ} {new new' : Finset Block} {m₀ m m' : ℕ → ℕ}
    (h : CopiedEntry r new m₀ m src dst) (hn : new ⊆ new')
    (hm : ∀ b ∈ new, Set.EqOn m' m (b.bytes r)) : CopiedEntry r new' m₀ m' src dst := by
  cases h with
  | empty => exact .empty
  | page hne hq hc =>
    refine .page hne (hn hq) (fun o ho => ?_)
    exact (hm _ hq (mem_bytes_of_lt ho)).trans (hc o ho)

lemma CopiedEntry.ne_zero_iff {r src dst : ℕ} {new : Finset Block} {m₀ m : ℕ → ℕ}
    (h : CopiedEntry r new m₀ m src dst) : dst ≠ 0 ↔ src ≠ 0 := by
  cases h with
  | empty => exact Iff.rfl
  | page hne _ _ => exact iff_of_true (SmallPageEntry.makeEntry_ne_zero _ _) hne

lemma CopiedEntry.permissions_eq {r src dst : ℕ} {new : Finset Block} {m₀ m : ℕ → ℕ}
    (h : CopiedEntry r new m₀ m src dst) : SmallPageEntry.permissions dst = SmallPageEntry.permissions src := by
  cases h with
  | empty => rfl
  | page _ _ _ => exact SmallPageEntry.permissions_makeEntry ..

lemma CopiedEntry.frame {first limit r src dst : ℕ} {new live : Finset Block} {m₀ m : ℕ → ℕ} {s : PageAllocator}
    (h : CopiedEntry r new m₀ m src dst) (hb : Blocks first limit s live) (hr : s.ramStart = r)
    (hn : new ⊆ live) (hsrc : src ≠ 0) : ∃ q, (⟨q, .kb4⟩ : Block) ∈ new ∧
      SmallPageEntry.baseAddress dst = pageAddr r q ∧
      ∀ o < size4KB, m (pageAddr r q + o) = m₀ (SmallPageEntry.baseAddress src + o) := by
  cases h with
  | empty => exact absurd rfl hsrc
  | @page _ q _ hq hc =>
    obtain ⟨hd, hlt, -⟩ := hb.address (hn hq)
    rw [hr] at hd hlt
    exact ⟨q, hq, SmallPageEntry.baseAddress_makeEntry _ hd hlt, hc⟩

/-- The address of the `j`-th entry of the table that the first-level entry at `e` names. -/
def lvl2EntryAddr (m : ℕ → ℕ) (e j : ℕ) : ℕ := CoarsePageTableEntry.baseAddress (m e) + 4 * j

/-- The first-level entry at `e`, its table and the frames the table maps lie in `S`. -/
structure EntryIn (m : ℕ → ℕ) (S : Set ℕ) (e : ℕ) : Prop where
  entry : e ∈ S
  table : ∀ j < lvl2Entries, lvl2EntryAddr m e j ∈ S
  frames : ∀ j < lvl2Entries, m (lvl2EntryAddr m e j) ≠ 0 → ∀ o < size4KB,
    SmallPageEntry.baseAddress (m (lvl2EntryAddr m e j)) + o ∈ S

lemma forkLvl2_cons {first limit e t j src : ℕ} {js : List ℕ} {s s' : Vm} {live : Finset Block}
    (hb : Blocks first limit s.pages live) (hsrc : lvl2EntryAddr s.words e j = src)
    (h : forkLvl2 e t (j :: js) s = .ok (true, s')) :
    (s.words src = 0 ∧ forkLvl2 e t js s = .ok (true, s')) ∨
    (s.words src ≠ 0 ∧ ∃ page pages, physicalPageAlloc .kb4 s.pages = .ok (some page, pages) ∧
      ∃ words, words = copyRange s.words (pageAddr s.pages.ramStart page)
          (SmallPageEntry.baseAddress (s.words src)) size4KB ∧
        forkLvl2 e t js (Vm.store { s with pages := pages, words := words }
          (pageAddr s.pages.ramStart t + 4 * j)
          (SmallPageEntry.makeEntry (pageAddr s.pages.ramStart page) (SmallPageEntry.permissions (words src)))) =
          .ok (true, s')) := by
  obtain ⟨a, ha, h⟩ := bind_eq_ok.mp h
  obtain ⟨a', ha', h⟩ := bind_eq_ok.mp h
  obtain ⟨c, hc, h⟩ := bind_eq_ok.mp h
  obtain rfl := hb.page2addr_eq ha
  obtain rfl := phys2virt_eq ha'
  obtain rfl := phys2virt_eq hc
  rw [show CoarsePageTableEntry.baseAddress (s.words e) + 4 * j = src from hsrc] at h
  by_cases hz : s.words src = 0
  · exact Or.inl ⟨hz, by simpa only [hz, if_true] using h⟩
  refine Or.inr ⟨hz, ?_⟩
  rw [if_neg hz] at h
  obtain ⟨⟨page, pages⟩, hp, h⟩ := bind_eq_ok.mp h
  cases page with
  | none => cases h
  | some page =>
    have hnew := hb.alloc hp
    obtain ⟨x, hx, h⟩ := bind_eq_ok.mp h
    obtain ⟨y, hy, h⟩ := bind_eq_ok.mp h
    obtain ⟨y', hy', h⟩ := bind_eq_ok.mp h
    obtain ⟨z, hz', h⟩ := bind_eq_ok.mp h
    obtain rfl := phys2virt_eq hx
    obtain rfl := phys2virt_eq hy'
    obtain rfl := hnew.blocks.page2addr_eq hy
    obtain rfl := hnew.blocks.page2addr_eq hz'
    simp only [hnew.ramStart] at h
    exact ⟨page, pages, hp, _, rfl, h⟩

lemma forkLvl2_page {first limit r e t j src : ℕ} {js : List ℕ} {s s' : Vm} {live : Finset Block}
    (hb : Blocks first limit s.pages live) (hr : s.pages.ramStart = r) (ht : (⟨t, .kb1⟩ : Block) ∈ live)
    (hj : j < lvl2Entries) (hsrc : lvl2EntryAddr s.words e j = src)
    (hin : src ∈ inUse first limit r live) (h : forkLvl2 e t (j :: js) s = .ok (true, s')) :
    (s.words src = 0 ∧ forkLvl2 e t js s = .ok (true, s')) ∨
    (s.words src ≠ 0 ∧ ∃ page s₁, (⟨page, .kb4⟩ : Block) ∉ live ∧
      Grown first limit s s₁ live (insert ⟨page, .kb4⟩ live) {pageAddr r t + 4 * j} ∧
      s₁.words (pageAddr r t + 4 * j) =
        SmallPageEntry.makeEntry (pageAddr r page) (SmallPageEntry.permissions (s.words src)) ∧
      (∀ o < size4KB, s₁.words (pageAddr r page + o) = s.words (SmallPageEntry.baseAddress (s.words src) + o)) ∧
      forkLvl2 e t js s₁ = .ok (true, s')) := by
  rcases forkLvl2_cons hb hsrc h with hz | ⟨hne, page, pages, hp, words, hwords, h⟩
  · exact Or.inl hz
  subst hr
  have hnew := hb.alloc hp
  have hcopy (S) (hS : Disjoint S ((⟨page, .kb4⟩ : Block).bytes s.pages.ramStart)) :
      Set.EqOn words s.words S := by
    rw [hwords]
    exact copyRange_eqOn hS
  have hg : Grown first limit s { s with pages := pages, words := words } live (insert ⟨page, .kb4⟩ live) ∅ :=
    Grown.alloc hb hp hcopy
  refine Or.inr ⟨hne, page, _, hnew.fresh, ?_, ?_, fun o ho => ?_, h⟩
  · exact (hg.trans (Grown.store hg.blocks)).mono (fun _ _ he => (Set.empty_union _).subset he)
  · rw [Vm.store_words, Function.update_self, hcopy _ hnew.unused hin]
  · have hmem := mem_bytes_of_lt (r := s.pages.ramStart) (b := ⟨page, .kb4⟩) ho
    have hne' : pageAddr s.pages.ramStart page + o ≠ pageAddr s.pages.ramStart t + 4 * j := by
      intro he
      exact Set.disjoint_left.mp hnew.unused (bytes_subset_inUse ht (lvl2Entry_mem hj)) (he ▸ hmem)
    rw [Vm.store_words, Function.update_of_ne hne']
    exact (congrFun hwords _).trans (copyRange_add ho)

/-- The inner loop of `vm_fork`: every entry of the new table is the copy of the source's, each mapped
one with a frame of its own. -/
lemma forkLvl2_copies {first limit r e t : ℕ} {S : Set ℕ} {m₀ : ℕ → ℕ} (hin : EntryIn m₀ S e)
    (hSt : Disjoint S ((⟨t, .kb1⟩ : Block).bytes r)) {js : List ℕ} (hjs : ∀ j ∈ js, j < lvl2Entries)
    (hnd : js.Nodup) {s s' : Vm} {live : Finset Block} (hb : Blocks first limit s.pages live)
    (hr : s.pages.ramStart = r) (hS : Retained first limit s live m₀ S) (ht : (⟨t, .kb1⟩ : Block) ∈ live)
    (hz : ∀ j ∈ js, s.words (pageAddr r t + 4 * j) = 0) (h : forkLvl2 e t js s = .ok (true, s')) :
    let src (j : ℕ) := m₀ (lvl2EntryAddr m₀ e j)
    let dst (j : ℕ) := s'.words (pageAddr r t + 4 * j)
    ∃ live₂, Grown first limit s s' live live₂ {a | ∃ j ∈ js, a = pageAddr r t + 4 * j} ∧
      (∀ j ∈ js, CopiedEntry r (live₂ \ live) m₀ s'.words (src j) (dst j)) ∧
      Set.InjOn (fun j => SmallPageEntry.baseAddress (dst j)) {j | j ∈ js ∧ src j ≠ 0} := by
  intro src dst
  induction js generalizing s live with
  | nil =>
    cases h
    exact ⟨live, Grown.refl hb, by simp, by simp⟩
  | cons j js ih =>
    obtain ⟨hj, hjs⟩ := List.forall_mem_cons.mp hjs
    obtain ⟨hjn, hnd⟩ := List.nodup_cons.mp hnd
    obtain ⟨hzj, hz⟩ := List.forall_mem_cons.mp hz
    have hne {j'} (hj' : j' ∈ js) : pageAddr r t + 4 * j' ≠ pageAddr r t + 4 * j := by
      rintro he
      exact hjn (by rwa [show j = j' by omega])
    have hsub : {a | ∃ j' ∈ js, a = pageAddr r t + 4 * j'} ⊆ {a | ∃ j' ∈ j :: js, a = pageAddr r t + 4 * j'} :=
      fun a ⟨j', hj', ha⟩ => ⟨j', List.mem_cons_of_mem _ hj', ha⟩
    have hout : pageAddr r t + 4 * j ∉ {a | ∃ j' ∈ js, a = pageAddr r t + 4 * j'} :=
      fun ⟨j', hj', ha⟩ => hne hj' ha.symm
    have hmem : pageAddr r t + 4 * j ∈ inUse first limit s.pages.ramStart live := by
      rw [hr]
      exact bytes_subset_inUse ht (lvl2Entry_mem hj)
    have hcons := forkLvl2_page hb hr ht hj (by rw [lvl2EntryAddr, hS.same hin.entry, ← lvl2EntryAddr])
      (hr ▸ hS.inUse (hin.table j hj)) h
    rw [hS.same (hin.table j hj)] at hcons
    rcases hcons with ⟨hsrc, h⟩ | ⟨hsrc, page, s₁, hfresh, hg₁, hentry, hcontents, h⟩
    · obtain ⟨live₂, hg, hc, hi⟩ := ih hjs hnd hb hr hS ht hz h
      have hkeep : dst j = 0 := (hg.frame ⟨hmem, hout⟩).trans hzj
      refine ⟨live₂, hg.mono (fun _ _ he => hsub he), List.forall_mem_cons.mpr ⟨?_, hc⟩, hi.mono ?_⟩
      · rw [hkeep, show src j = 0 from hsrc]
        exact .empty
      · rintro j' ⟨hj', hne'⟩
        rcases List.mem_cons.mp hj' with rfl | hj'
        · exact absurd hsrc hne'
        · exact ⟨hj', hne'⟩
    · have hr₁ : s₁.pages.ramStart = r := hg₁.ramStart.trans hr
      have hpage : (⟨page, .kb4⟩ : Block) ∈ insert (⟨page, .kb4⟩ : Block) live := Finset.mem_insert_self _ _
      have ht₁ : (⟨t, .kb1⟩ : Block) ∈ insert (⟨page, .kb4⟩ : Block) live := hg₁.sub ht
      have hS₁ := hg₁.retained hS (Set.disjoint_singleton_right.mpr
        (fun ha => Set.disjoint_left.mp hSt ha (lvl2Entry_mem hj)))
      have hz₁ : ∀ j' ∈ js, s₁.words (pageAddr r t + 4 * j') = 0 := by
        intro j' hj'
        have hmem' : pageAddr r t + 4 * j' ∈ inUse first limit s.pages.ramStart live := by
          rw [hr]
          exact bytes_subset_inUse ht (lvl2Entry_mem (hjs j' hj'))
        exact (hg₁.frame ⟨hmem', hne hj'⟩).trans (hz j' hj')
      obtain ⟨live₂, hg, hc, hi⟩ := ih hjs hnd hg₁.blocks hr₁ hS₁ ht₁ hz₁ h
      have hr' : s'.pages.ramStart = r := hg.ramStart.trans hr₁
      -- the frame of `j` is in use when the other frames are allocated
      have hsub' : live₂ \ insert ⟨page, .kb4⟩ live ⊆ live₂ \ live :=
        Finset.sdiff_subset_sdiff (Finset.Subset.refl _) hg₁.sub
      have hdst : dst j = SmallPageEntry.makeEntry (pageAddr r page) (SmallPageEntry.permissions (src j)) := by
        refine (hg.frame ⟨?_, hout⟩).trans hentry
        rw [hr₁]
        exact bytes_subset_inUse ht₁ (lvl2Entry_mem hj)
      have hcopy : CopiedEntry r (live₂ \ live) m₀ s'.words (src j) (dst j) := by
        rw [hdst]
        refine .page hsrc (Finset.mem_sdiff.mpr ⟨hg.sub hpage, hfresh⟩) (fun o ho => ?_)
        have hmemo : pageAddr r page + o ∈ (⟨page, .kb4⟩ : Block).bytes r := mem_bytes_of_lt ho
        have hframe : s'.words (pageAddr r page + o) = s₁.words (pageAddr r page + o) := by
          refine hg.frame ⟨?_, ?_⟩
          · rw [hr₁]
            exact bytes_subset_inUse hpage hmemo
          · rintro ⟨j', hj', he⟩
            have hbytes := hg₁.blocks.disjoint hpage ht₁ (by simp)
            rw [hr₁] at hbytes
            rw [he] at hmemo
            exact Set.disjoint_left.mp hbytes hmemo (lvl2Entry_mem (hjs j' hj'))
        have hsame := hS.same (hin.frames j hj hsrc o ho)
        rw [hframe, hcontents o ho, hsame]
      refine ⟨live₂, ?_, ?_, ?_⟩
      · refine (hg₁.trans hg).mono (fun a _ ha => ha.elim ?_ (fun he => hsub he))
        rintro rfl
        exact ⟨j, List.mem_cons_self .., rfl⟩
      · refine List.forall_mem_cons.mpr ⟨hcopy, fun j' hj' => (hc j' hj').mono hsub' (fun _ _ _ _ => rfl)⟩
      · have hset : {j' | j' ∈ j :: js ∧ src j' ≠ 0} = insert j {j' | j' ∈ js ∧ src j' ≠ 0} := by
          ext j'
          constructor
          · rintro ⟨hj', hne'⟩
            exact (List.mem_cons.mp hj').imp_right (fun hj' => ⟨hj', hne'⟩)
          · rintro (rfl | ⟨hj', hne'⟩)
            · exact ⟨List.mem_cons_self .., hsrc⟩
            · exact ⟨List.mem_cons_of_mem _ hj', hne'⟩
        rw [hset, Set.injOn_insert (fun hm => hjn hm.1)]
        refine ⟨hi, ?_⟩
        rintro ⟨j', ⟨hj', hne'⟩, he⟩
        obtain ⟨q, hq, hqa, -⟩ := (hc j' hj').frame hg.blocks hr' Finset.sdiff_subset hne'
        obtain ⟨hd, hlt, -⟩ := hg.blocks.address (hg.sub hpage)
        rw [hr'] at hd hlt
        have hbase : SmallPageEntry.baseAddress (dst j) = pageAddr r page := by
          rw [hdst, SmallPageEntry.baseAddress_makeEntry _ hd hlt]
        obtain rfl := pageAddr_injective r (hqa.symm.trans (he.trans hbase))
        exact (Finset.mem_sdiff.mp hq).2 hpage

/-- The copy of the table that the first-level entry at `e` names. -/
structure CopiedTable (r : ℕ) (new : Finset Block) (m₀ m : ℕ → ℕ) (e e' t : ℕ) : Prop where
  coarse : isCoarsePage (m₀ e)
  table : (⟨t, .kb1⟩ : Block) ∈ new
  entry : m e' = CoarsePageTableEntry.makeEntry (pageAddr r t)
  copied : ∀ j < lvl2Entries, CopiedEntry r new m₀ m (m₀ (lvl2EntryAddr m₀ e j)) (m (pageAddr r t + 4 * j))
  distinct : Set.InjOn (fun j => SmallPageEntry.baseAddress (m (pageAddr r t + 4 * j)))
    {j | j < lvl2Entries ∧ m₀ (lvl2EntryAddr m₀ e j) ≠ 0}

lemma CopiedTable.mono {r e e' t : ℕ} {new new' : Finset Block} {m₀ m m' : ℕ → ℕ}
    (h : CopiedTable r new m₀ m e e' t) (hn : new ⊆ new') (hm : ∀ b ∈ new, Set.EqOn m' m (b.bytes r))
    (he : m' e' = m e') : CopiedTable r new' m₀ m' e e' t := by
  have hsame : ∀ j < lvl2Entries, m' (pageAddr r t + 4 * j) = m (pageAddr r t + 4 * j) :=
    fun j hj => hm _ h.table (lvl2Entry_mem hj)
  refine ⟨h.coarse, hn h.table, he.trans h.entry, fun j hj => ?_, ?_⟩
  · rw [hsame j hj]
    exact (h.copied j hj).mono hn hm
  · apply h.distinct.congr
    rintro j ⟨hj, -⟩
    simp only [hsame j hj]

lemma forkLvl1_cons {first limit src dst i : ℕ} {is : List ℕ} {s s' : Vm} {live : Finset Block}
    (hb : Blocks first limit s.pages live) (h : forkLvl1 src dst (i :: is) s = .ok (true, s')) :
    (s.words (src + 4 * i) = 0 ∧ forkLvl1 src dst is s = .ok (true, s')) ∨
    (s.words (src + 4 * i) ≠ 0 ∧ isCoarsePage (s.words (src + 4 * i)) ∧ ∃ t pages s₁,
      physicalPageAlloc .kb1 s.pages = .ok (some t, pages) ∧
      forkLvl2 (src + 4 * i) t (List.range lvl2Entries)
        (Vm.store (Vm.clear { s with pages := pages } (pageAddr s.pages.ramStart t) lvl2TableSize)
          (dst + 4 * i) (CoarsePageTableEntry.makeEntry (pageAddr s.pages.ramStart t))) = .ok (true, s₁) ∧
      forkLvl1 src dst is s₁ = .ok (true, s')) := by
  rw [forkLvl1] at h
  by_cases hz : s.words (src + 4 * i) = 0
  · exact Or.inl ⟨hz, by simpa only [hz, if_true] using h⟩
  refine Or.inr ⟨hz, ?_⟩
  rw [if_neg hz] at h
  obtain ⟨-, h⟩ := panicIf_bind_eq_ok.mp h
  obtain ⟨hcoarse, h⟩ := kassert_bind_eq_ok.mp h
  obtain ⟨⟨t, pages⟩, hp, h⟩ := bind_eq_ok.mp h
  cases t with
  | none => cases h
  | some t =>
    have hnew := hb.alloc hp
    obtain ⟨x, hx, h⟩ := bind_eq_ok.mp h
    obtain ⟨y, hy, h⟩ := bind_eq_ok.mp h
    obtain ⟨z, hz', h⟩ := bind_eq_ok.mp h
    obtain ⟨⟨ok, s₁⟩, hs₁, h⟩ := bind_eq_ok.mp h
    obtain rfl := phys2virt_eq hy
    obtain rfl := hnew.blocks.page2addr_eq hx
    obtain rfl := hnew.blocks.page2addr_eq hz'
    simp only [hnew.ramStart] at hs₁
    cases ok with
    | false => cases h
    | true => exact ⟨hcoarse, t, pages, s₁, hp, hs₁, h⟩

lemma forkLvl1_table {first limit r d src i : ℕ} {S : Set ℕ} {m₀ : ℕ → ℕ} {is : List ℕ} {s s' : Vm}
    {live : Finset Block} (hb : Blocks first limit s.pages live) (hr : s.pages.ramStart = r)
    (hS : Retained first limit s live m₀ S) (hd : (⟨d, .kb16⟩ : Block) ∈ live)
    (hSd : Disjoint S ((⟨d, .kb16⟩ : Block).bytes r)) (hi : i < kernelStartIdx) (hsrc : src + 4 * i ∈ S)
    (hin : m₀ (src + 4 * i) ≠ 0 → EntryIn m₀ S (src + 4 * i))
    (h : forkLvl1 src (pageAddr r d) (i :: is) s = .ok (true, s')) :
    (m₀ (src + 4 * i) = 0 ∧ forkLvl1 src (pageAddr r d) is s = .ok (true, s')) ∨
    (m₀ (src + 4 * i) ≠ 0 ∧ ∃ t s₁ live₁, Grown first limit s s₁ live live₁ {pageAddr r d + 4 * i} ∧
      CopiedTable r (live₁ \ live) m₀ s₁.words (src + 4 * i) (pageAddr r d + 4 * i) t ∧
      forkLvl1 src (pageAddr r d) is s₁ = .ok (true, s')) := by
  have hcons := forkLvl1_cons hb h
  rw [hS.same hsrc] at hcons
  rcases hcons with hz | ⟨hne, hcoarse, t, pages, s₁, ht, hloop, h⟩
  · exact Or.inl hz
  subst hr
  have hnew := hb.alloc ht
  have hSt : Disjoint S ((⟨t, .kb1⟩ : Block).bytes s.pages.ramStart) := hnew.unused.mono_left hS.inUse
  have hdt : Disjoint ((⟨d, .kb16⟩ : Block).bytes s.pages.ramStart) ((⟨t, .kb1⟩ : Block).bytes s.pages.ramStart) :=
    hnew.unused.mono_left (bytes_subset_inUse hd)
  generalize hs₂ : Vm.store (Vm.clear { s with pages := pages } (pageAddr s.pages.ramStart t) lvl2TableSize)
    (pageAddr s.pages.ramStart d + 4 * i) (CoarsePageTableEntry.makeEntry (pageAddr s.pages.ramStart t)) = s₂ at hloop
  have hwords : s₂.words = Function.update (fill s.words (pageAddr s.pages.ramStart t) lvl2TableSize 0)
      (pageAddr s.pages.ramStart d + 4 * i) (CoarsePageTableEntry.makeEntry (pageAddr s.pages.ramStart t)) := by
    rw [← hs₂]
    rfl
  have hg₂ : Grown first limit s s₂ live (insert ⟨t, .kb1⟩ live) {pageAddr s.pages.ramStart d + 4 * i} := by
    have hg : Grown first limit s (Vm.clear { s with pages := pages } (pageAddr s.pages.ramStart t) lvl2TableSize)
        live (insert ⟨t, .kb1⟩ live) ∅ := Grown.alloc hb ht (fun _ hS' => fill_eqOn hS')
    rw [← hs₂]
    exact (hg.trans (Grown.store hg.blocks)).mono (fun _ _ he => (Set.empty_union _).subset he)
  have hr₂ : s₂.pages.ramStart = s.pages.ramStart := hg₂.ramStart
  have ht₂ : (⟨t, .kb1⟩ : Block) ∈ insert (⟨t, .kb1⟩ : Block) live := Finset.mem_insert_self _ _
  have hdmem := lvl1Entry_mem (r := s.pages.ramStart) (d := d) hi
  have hS₂ := hg₂.retained hS (Set.disjoint_singleton_right.mpr (fun ha => Set.disjoint_left.mp hSd ha hdmem))
  have hz : ∀ j ∈ List.range lvl2Entries, s₂.words (pageAddr s.pages.ramStart t + 4 * j) = 0 := by
    intro j hj
    have hj := lvl2Entry_mem (r := s.pages.ramStart) (t := t) (List.mem_range.mp hj)
    have hne : pageAddr s.pages.ramStart t + 4 * j ≠ pageAddr s.pages.ramStart d + 4 * i :=
      fun he => Set.disjoint_left.mp hdt hdmem (he ▸ hj)
    rw [hwords, Function.update_of_ne hne]
    exact fill_of_mem hj
  obtain ⟨live₁, hg, hc, hinj⟩ := forkLvl2_copies (hin hne) hSt (fun _ hj => List.mem_range.mp hj)
    List.nodup_range hg₂.blocks hr₂ hS₂ ht₂ hz hloop
  have hsub : live₁ \ insert ⟨t, .kb1⟩ live ⊆ live₁ \ live :=
    Finset.sdiff_subset_sdiff (Finset.Subset.refl _) hg₂.sub
  refine Or.inr ⟨hne, t, s₁, live₁, ?_, ?_, h⟩
  · refine (hg₂.trans hg).mono (fun a ha he => he.elim id ?_)
    rintro ⟨j, hj, rfl⟩
    exact absurd (lvl2Entry_mem (List.mem_range.mp hj)) (Set.disjoint_left.mp hnew.unused ha)
  · refine ⟨hcoarse, Finset.mem_sdiff.mpr ⟨hg.sub ht₂, hnew.fresh⟩, ?_, ?_, ?_⟩
    · have hentry : s₂.words (pageAddr s.pages.ramStart d + 4 * i) =
          CoarsePageTableEntry.makeEntry (pageAddr s.pages.ramStart t) := by rw [hwords, Function.update_self]
      refine (hg.frame ⟨?_, ?_⟩).trans hentry
      · rw [hr₂]
        exact inUse_mono hg₂.sub (bytes_subset_inUse hd hdmem)
      · rintro ⟨j, hj, he⟩
        rw [he] at hdmem
        exact Set.disjoint_left.mp hdt hdmem (lvl2Entry_mem (List.mem_range.mp hj))
    · exact fun j hj => (hc j (List.mem_range.mpr hj)).mono hsub (fun _ _ _ _ => rfl)
    · apply hinj.mono
      rintro j ⟨hj, hne'⟩
      exact ⟨List.mem_range.mpr hj, hne'⟩

/-- The frame that the entry `j` of the table of the first-level entry at `e` names. -/
def frameAddr (m : ℕ → ℕ) (e j : ℕ) : ℕ := SmallPageEntry.baseAddress (m (lvl2EntryAddr m e j))

lemma CopiedTable.lvl2EntryAddr_eq {first limit r e e' t j : ℕ} {new live : Finset Block} {m₀ m : ℕ → ℕ}
    {s : PageAllocator} (h : CopiedTable r new m₀ m e e' t) (hb : Blocks first limit s live)
    (hr : s.ramStart = r) (hn : new ⊆ live) : lvl2EntryAddr m e' j = pageAddr r t + 4 * j := by
  obtain ⟨hd, hlt, -⟩ := hb.address (hn h.table)
  rw [hr] at hd hlt
  rw [lvl2EntryAddr, h.entry, CoarsePageTableEntry.baseAddress_makeEntry hd hlt]

lemma CopiedTable.frame {first limit r e e' t j : ℕ} {new live : Finset Block} {m₀ m : ℕ → ℕ}
    {s : PageAllocator} (h : CopiedTable r new m₀ m e e' t) (hb : Blocks first limit s live)
    (hr : s.ramStart = r) (hn : new ⊆ live) (hj : j < lvl2Entries) (hne : m₀ (lvl2EntryAddr m₀ e j) ≠ 0) :
    ∃ q, (⟨q, .kb4⟩ : Block) ∈ new ∧ frameAddr m e' j = pageAddr r q := by
  rw [frameAddr, h.lvl2EntryAddr_eq hb hr hn]
  obtain ⟨q, hq, ha, -⟩ := (h.copied j hj).frame hb hr hn hne
  exact ⟨q, hq, ha⟩

lemma forkLvl1_copies {first limit r d src : ℕ} {S : Set ℕ} {m₀ : ℕ → ℕ}
    (hSd : Disjoint S ((⟨d, .kb16⟩ : Block).bytes r)) {is : List ℕ} (his : ∀ i ∈ is, i < kernelStartIdx)
    (hnd : is.Nodup) (hsrc : ∀ i ∈ is, src + 4 * i ∈ S)
    (hin : ∀ i ∈ is, m₀ (src + 4 * i) ≠ 0 → EntryIn m₀ S (src + 4 * i)) {s s' : Vm} {live : Finset Block}
    (hb : Blocks first limit s.pages live) (hr : s.pages.ramStart = r)
    (hS : Retained first limit s live m₀ S) (hd : (⟨d, .kb16⟩ : Block) ∈ live)
    (h : forkLvl1 src (pageAddr r d) is s = .ok (true, s')) :
    let mapped (i j : ℕ) := m₀ (src + 4 * i) ≠ 0 ∧ m₀ (lvl2EntryAddr m₀ (src + 4 * i) j) ≠ 0
    ∃ live₂, Grown first limit s s' live live₂
        {a | ∃ i ∈ is, m₀ (src + 4 * i) ≠ 0 ∧ a = pageAddr r d + 4 * i} ∧
      (∀ i ∈ is, m₀ (src + 4 * i) ≠ 0 →
        ∃ t, CopiedTable r (live₂ \ live) m₀ s'.words (src + 4 * i) (pageAddr r d + 4 * i) t) ∧
      Set.InjOn (fun ij : ℕ × ℕ => frameAddr s'.words (pageAddr r d + 4 * ij.1) ij.2)
        {ij | ij.1 ∈ is ∧ ij.2 < lvl2Entries ∧ mapped ij.1 ij.2} := by
  intro mapped
  induction is generalizing s live with
  | nil =>
    cases h
    exact ⟨live, Grown.refl hb, by simp, by simp⟩
  | cons i is ih =>
    obtain ⟨hi, his⟩ := List.forall_mem_cons.mp his
    obtain ⟨hin', hnd⟩ := List.nodup_cons.mp hnd
    obtain ⟨hsrci, hsrc⟩ := List.forall_mem_cons.mp hsrc
    obtain ⟨hini, hin⟩ := List.forall_mem_cons.mp hin
    rcases forkLvl1_table hb hr hS hd hSd hi hsrci hini h with
      ⟨hz, h⟩ | ⟨hne, t, s₁, live₁, hg₁, ht, h⟩
    · obtain ⟨live₂, hg, hc, hinj⟩ := ih his hnd hsrc hin hb hr hS hd h
      refine ⟨live₂, hg.mono ?_, ?_, hinj.mono ?_⟩
      · rintro a - ⟨i', hi', hne, rfl⟩
        exact ⟨i', List.mem_cons_of_mem _ hi', hne, rfl⟩
      · intro i' hi' hne
        rcases List.mem_cons.mp hi' with rfl | hi'
        · exact absurd hz hne
        · exact hc i' hi' hne
      · rintro ⟨i', j⟩ ⟨hi', hj, hne, hne'⟩
        rcases List.mem_cons.mp hi' with rfl | hi'
        · exact absurd hz hne
        · exact ⟨hi', hj, hne, hne'⟩
    · have hr₁ : s₁.pages.ramStart = r := hg₁.ramStart.trans hr
      have hS₁ := hg₁.retained hS (Set.disjoint_singleton_right.mpr
        (fun ha => Set.disjoint_left.mp hSd ha (lvl1Entry_mem hi)))
      have hd₁ : (⟨d, .kb16⟩ : Block) ∈ live₁ := hg₁.sub hd
      obtain ⟨live₂, hg, hc, hinj⟩ := ih his hnd hsrc hin hg₁.blocks hr₁ hS₁ hd₁ h
      have hr' : s'.pages.ramStart = r := hg.ramStart.trans hr₁
      have hnew₁ : live₁ \ live ⊆ live₂ \ live := Finset.sdiff_subset_sdiff hg.sub (Finset.Subset.refl _)
      have hnew : live₂ \ live₁ ⊆ live₂ \ live := Finset.sdiff_subset_sdiff (Finset.Subset.refl _) hg₁.sub
      have ht' : CopiedTable r (live₁ \ live) m₀ s'.words (src + 4 * i) (pageAddr r d + 4 * i) t := by
        refine ht.mono (Finset.Subset.refl _) (fun b hb a ha => hg.frame ⟨?_, ?_⟩) (hg.frame ⟨?_, ?_⟩)
        · rw [hr₁]
          exact bytes_subset_inUse (Finset.mem_sdiff.mp hb).1 ha
        · rintro ⟨i', hi', -, rfl⟩
          have hbytes := hg₁.blocks.disjoint (Finset.mem_sdiff.mp hb).1 hd₁
            (by rintro rfl; exact (Finset.mem_sdiff.mp hb).2 hd)
          rw [hr₁] at hbytes
          exact Set.disjoint_left.mp hbytes ha (lvl1Entry_mem (his i' hi'))
        · rw [hr₁]
          exact bytes_subset_inUse hd₁ (lvl1Entry_mem hi)
        · rintro ⟨i', hi', -, he⟩
          exact hin' (by rwa [show i = i' by omega])
      refine ⟨live₂, ?_, ?_, ?_⟩
      · refine (hg₁.trans hg).mono (fun a _ ha => ha.elim ?_ ?_)
        · rintro rfl
          exact ⟨i, List.mem_cons_self .., hne, rfl⟩
        · rintro ⟨i', hi', hne', rfl⟩
          exact ⟨i', List.mem_cons_of_mem _ hi', hne', rfl⟩
      · intro i' hi' hne'
        rcases List.mem_cons.mp hi' with rfl | hi'
        · exact ⟨t, ht'.mono hnew₁ (fun _ _ _ _ => rfl) rfl⟩
        · obtain ⟨t', ht'⟩ := hc i' hi' hne'
          exact ⟨t', ht'.mono hnew (fun _ _ _ _ => rfl) rfl⟩
      · have hsplit : {ij : ℕ × ℕ | ij.1 ∈ i :: is ∧ ij.2 < lvl2Entries ∧ mapped ij.1 ij.2} ⊆
            {ij : ℕ × ℕ | ij.1 = i ∧ ij.2 < lvl2Entries ∧ mapped ij.1 ij.2} ∪
              {ij : ℕ × ℕ | ij.1 ∈ is ∧ ij.2 < lvl2Entries ∧ mapped ij.1 ij.2} := by
          rintro ⟨i', j⟩ ⟨hi', hj⟩
          exact (List.mem_cons.mp hi').imp (fun he => ⟨he, hj⟩) (fun he => ⟨he, hj⟩)
        refine Set.InjOn.mono hsplit ((Set.injOn_union ?_).mpr ⟨?_, hinj, ?_⟩)
        · refine Set.disjoint_left.mpr ?_
          rintro ⟨i', j⟩ ⟨rfl, -⟩ ⟨hi', -⟩
          exact hin' hi'
        · rintro ⟨i₁, j₁⟩ ⟨rfl, hj₁, -, hne₁⟩ ⟨i₂, j₂⟩ ⟨rfl, hj₂, -, hne₂⟩ he
          simp only [frameAddr, ht'.lvl2EntryAddr_eq hg.blocks hr' (Finset.sdiff_subset.trans hg.sub)] at he
          exact congrArg (Prod.mk _) (ht'.distinct ⟨hj₁, hne₁⟩ ⟨hj₂, hne₂⟩ he)
        · -- the frames of this table were in use when the others were allocated
          rintro ⟨i₁, j₁⟩ ⟨rfl, hj₁, -, hne₁⟩ ⟨i₂, j₂⟩ ⟨hi₂, hj₂, hne₂, hne₂'⟩ he
          obtain ⟨t₂, ht₂⟩ := hc i₂ hi₂ hne₂
          obtain ⟨q₁, hq₁, ha₁⟩ := ht'.frame hg.blocks hr' (Finset.sdiff_subset.trans hg.sub) hj₁ hne₁
          obtain ⟨q₂, hq₂, ha₂⟩ := ht₂.frame hg.blocks hr' Finset.sdiff_subset hj₂ hne₂'
          obtain rfl := pageAddr_injective r (ha₁.symm.trans (he.trans ha₂))
          exact (Finset.mem_sdiff.mp hq₂).2 (Finset.mem_sdiff.mp hq₁).1

end Pi0Os.Memory
