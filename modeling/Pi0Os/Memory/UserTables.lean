import Pi0Os.Library.PartialMap
import Pi0Os.Memory.AddressSpaceFork

/-! What `vm_map` makes of the tables of an address space below the kernel area. -/

namespace Pi0Os.Memory

open Kernel Library

/-- The RAM holds all that the allocator gives out, and the kernel's own first-level table. -/
structure RamReady (limit : ℕ) (s : Vm) : Prop where
  limit_le : pageAddr s.pages.ramStart limit ≤ add32 s.pages.ramStart s.ramSize
  kernel : ∃ a, rootTablePtr s s.kernelAs = .ok a

def leafEntry (r : ℕ) (frames : ℕ → Option ℕ) (v : ℕ) : ℕ :=
  (frames v).elim 0 fun f => SmallPageEntry.makeEntry (pageAddr r f) .userFullAccess

abbrev userPages : ℕ := kernelStartIdx * lvl2Entries

/-- The tables and the frames of the user half of `as`, by first-level index and by page number. Its page 0 is
mapped, to the vector page. -/
structure UserTables (first limit : ℕ) (s : Vm) (live : Finset Block) (as : ℕ) (tables frames : ℕ → Option ℕ) :
    Prop where
  blocks : Blocks first limit s.pages live
  root : (⟨as, .kb16⟩ : Block) ∈ live
  entry : ∀ i < kernelStartIdx, s.words (pageAddr s.pages.ramStart as + 4 * i) =
    (tables i).elim 0 fun t => CoarsePageTableEntry.makeEntry (pageAddr s.pages.ramStart t)
  table : ∀ i t, tables i = some t → (⟨t, .kb1⟩ : Block) ∈ live
  table_inj : ∀ i i' t, tables i = some t → tables i' = some t → i = i'
  vector : ∃ t, tables 0 = some t ∧ s.words (pageAddr s.pages.ramStart t) ≠ 0
  leaf : ∀ v, v ≠ 0 → v < userPages → ∀ t, tables (v / lvl2Entries) = some t →
    s.words (pageAddr s.pages.ramStart t + 4 * (v % lvl2Entries)) = leafEntry s.pages.ramStart frames v
  frame : ∀ v f, frames v = some f →
    (⟨f, .kb4⟩ : Block) ∈ live ∧ v ≠ 0 ∧ v < userPages ∧ (tables (v / lvl2Entries)).isSome

section Ram

variable {first limit p : ℕ} {s : Vm} {live : Finset Block} {o : PageOrder}

lemma RamReady.congr (h : RamReady limit s) {s' : Vm} (hr : s'.pages.ramStart = s.pages.ramStart)
    (hl : s'.pages.len = s.pages.len) (hz : s'.ramSize = s.ramSize) (hk : s'.kernelAs = s.kernelAs) :
    RamReady limit s' := by
  obtain ⟨a, ha⟩ := h.kernel
  refine ⟨by rw [hr, hz]; exact h.limit_le, a, ?_⟩
  rw [← ha, hk]
  simp only [rootTablePtr, page2addr, phys2virt, hr, hl, hz]

lemma Blocks.phys2virt_ok (h : Blocks first limit s.pages live) (hr : RamReady limit s) (hb : (⟨p, o⟩ : Block) ∈ live) :
    phys2virt s (pageAddr s.pages.ramStart p) = .ok (pageAddr s.pages.ramStart p) := by
  obtain ⟨free, hinv⟩ := h.inv
  have hp : p < limit := (hinv.tiled.head_mem (AllocatorInv.mem_used hb)).2
  have hlt : pageAddr s.pages.ramStart p < add32 s.pages.ramStart s.ramSize := by
    refine lt_of_lt_of_le ?_ hr.limit_le
    simp only [pageAddr, size1KB]
    omega
  rw [phys2virt, kassert_of (show s.pages.ramStart ≤ pageAddr s.pages.ramStart p from Nat.le_add_right ..), ok_bind,
    kassert_of hlt, ok_bind]
  rfl

lemma Blocks.rootTablePtr_ok (h : Blocks first limit s.pages live) (hr : RamReady limit s)
    (hb : (⟨p, o⟩ : Block) ∈ live) : rootTablePtr s p = .ok (pageAddr s.pages.ramStart p) := by
  rw [rootTablePtr, (h.address hb).2.2, ok_bind, h.phys2virt_ok hr hb]

lemma Blocks.alloc_cases {s : PageAllocator} (h : Blocks first limit s live) (o : PageOrder) :
    physicalPageAlloc o s = .ok (none, s) ∨ ∃ p s', physicalPageAlloc o s = .ok (some p, s') := by
  obtain ⟨free, hinv⟩ := h.inv
  exact (hinv.alloc o).imp id fun ⟨p, s', _, ha, _⟩ => ⟨p, s', ha⟩

lemma RamReady.alloc (hr : RamReady limit s) (h : Blocks first limit s.pages live) {pages : PageAllocator}
    {words : ℕ → ℕ} (ha : physicalPageAlloc o s.pages = .ok (some p, pages)) :
    RamReady limit { s with pages := pages, words := words } := by
  obtain ⟨free, hinv⟩ := h.inv
  rcases hinv.alloc o with hn | ⟨p', pages', free', ha', -, -, -, hlen, -⟩
  · rw [hn] at ha
    cases ha
  · rw [ha'] at ha
    cases ha
    exact hr.congr (h.alloc ha').ramStart hlen rfl rfl

lemma vmCreateAddressSpace_ramSize {as : ℕ} {s' : Vm} (h : vmCreateAddressSpace s = .ok (some as, s')) :
    s'.ramSize = s.ramSize := by
  obtain ⟨⟨page, pages⟩, -, h⟩ := bind_eq_ok.mp h
  cases page with
  | none => cases h
  | some ttbr0 =>
    obtain ⟨⟨page, pages'⟩, -, h⟩ := bind_eq_ok.mp h
    cases page with
    | none =>
      obtain ⟨_, -, h⟩ := bind_eq_ok.mp h
      cases h
    | some hack =>
      obtain ⟨lvl1, -, h⟩ := bind_eq_ok.mp h
      obtain ⟨kernelLvl1, -, h⟩ := bind_eq_ok.mp h
      obtain ⟨hackAddr, -, h⟩ := bind_eq_ok.mp h
      obtain ⟨srcTable, -, h⟩ := bind_eq_ok.mp h
      obtain ⟨vector, -, h⟩ := bind_eq_ok.mp h
      obtain ⟨dstTable, -, h⟩ := bind_eq_ok.mp h
      obtain ⟨a, -, h⟩ := bind_eq_ok.mp h
      cases h
      rfl

lemma RamReady.create {as : ℕ} {s' : Vm} (hr : RamReady limit s) (hb : Blocks first limit s.pages live)
    (h : vmCreateAddressSpace s = .ok (some as, s')) : RamReady limit s' := by
  obtain ⟨pages, pages', hack, p, m, hroot, hhack, -, -, -, hpages, hkernel⟩ := vmCreateAddressSpace_eq_ok hb h
  have hready : RamReady limit { s with pages := pages } := hr.alloc hb hroot
  have hready' : RamReady limit { s with pages := pages' } := hready.alloc (hb.alloc hroot).blocks hhack
  have hsize : s'.ramSize = s.ramSize := vmCreateAddressSpace_ramSize h
  exact hready'.congr (by rw [hpages]; rfl) (by rw [hpages]; rfl) hsize hkernel

end Ram

namespace UserTables

variable {first limit as virt p t v : ℕ} {s s' : Vm} {live live' : Finset Block} {tables frames : ℕ → Option ℕ}

lemma lvl1Index_div (virt : ℕ) : virt / size4KB / lvl2Entries = lvl1Index virt := by
  simp only [lvl1Index, size4KB, lvl2Entries]
  omega

lemma lvl2Index_mod (virt : ℕ) : virt / size4KB % lvl2Entries = lvl2Index virt := by
  simp only [lvl2Index, size4KB, lvl2Entries]
  omega

lemma page_lt (hv : virt < Areas.kernelVirtStartAddr) : virt / size4KB < userPages := by
  simp only [userPages, Areas.kernelVirtStartAddr, kernelStartIdx, lvl2Entries, size4KB] at *
  omega

lemma not_isSection_makeEntry (address : ℕ) : ¬ isSection (CoarsePageTableEntry.makeEntry address) := by
  have hc := CoarsePageTableEntry.isCoarsePage_makeEntry address
  rw [isCoarsePage] at hc
  rw [isSection, hc]
  decide

def tableBytes (r as : ℕ) (live : Finset Block) : Set ℕ :=
  {a | a ∈ (⟨as, .kb16⟩ : Block).bytes r ∨ ∃ t, (⟨t, .kb1⟩ : Block) ∈ live ∧ a ∈ (⟨t, .kb1⟩ : Block).bytes r}

lemma congr (h : UserTables first limit s live as tables frames) (hb : Blocks first limit s'.pages live')
    (hsub : live ⊆ live') (hr : s'.pages.ramStart = s.pages.ramStart)
    (hw : Set.EqOn s'.words s.words (tableBytes s.pages.ramStart as live)) :
    UserTables first limit s' live' as tables frames := by
  have htable {i t j : ℕ} (ht : tables i = some t) (hj : j < lvl2Entries) :
      s'.words (pageAddr s.pages.ramStart t + 4 * j) = s.words (pageAddr s.pages.ramStart t + 4 * j) :=
    hw (Or.inr ⟨t, h.table _ t ht, lvl2Entry_mem hj⟩)
  refine ⟨hb, hsub h.root, fun i hi => ?_, fun i t ht => hsub (h.table i t ht), h.table_inj, ?_, ?_, ?_⟩
  · rw [hr, hw (Or.inl (lvl1Entry_mem hi))]
    exact h.entry i hi
  · obtain ⟨t, ht, hne⟩ := h.vector
    have hsame := htable ht (show 0 < lvl2Entries by decide)
    exact ⟨t, ht, by rw [hr]; exact hsame ▸ hne⟩
  · intro v hv hlt t ht
    rw [hr, htable ht (Nat.mod_lt _ (by decide))]
    exact h.leaf v hv hlt t ht
  · intro v f hf
    obtain ⟨hlive, hrest⟩ := h.frame v f hf
    exact ⟨hsub hlive, hrest⟩

lemma frame_disjoint (h : UserTables first limit s live as tables frames) (hp : (⟨p, .kb4⟩ : Block) ∈ live) :
    Disjoint (tableBytes s.pages.ramStart as live) ((⟨p, .kb4⟩ : Block).bytes s.pages.ramStart) := by
  refine Set.disjoint_left.mpr ?_
  rintro a (ha | ⟨t, ht, ha⟩) hap
  · exact Set.disjoint_left.mp (h.blocks.disjoint h.root hp (by simp)) ha hap
  · exact Set.disjoint_left.mp (h.blocks.disjoint ht hp (by simp)) ha hap

lemma write (h : UserTables first limit s live as tables frames) (hp : (⟨p, .kb4⟩ : Block) ∈ live) {words : ℕ → ℕ}
    (hw : ∀ S, Disjoint S ((⟨p, .kb4⟩ : Block).bytes s.pages.ramStart) → Set.EqOn words s.words S) :
    UserTables first limit { s with words := words } live as tables frames :=
  h.congr h.blocks (Finset.Subset.refl _) rfl (hw _ (h.frame_disjoint hp))

lemma alloc (h : UserTables first limit s live as tables frames) {pages : PageAllocator} {o : PageOrder}
    (ha : physicalPageAlloc o s.pages = .ok (some p, pages)) :
    UserTables first limit { s with pages := pages } (insert ⟨p, o⟩ live) as tables frames := by
  have hnew := h.blocks.alloc ha
  exact h.congr hnew.blocks (Finset.subset_insert ..) hnew.ramStart fun _ _ => rfl

lemma leaf_ne {i i' t t' j j' : ℕ} (h : UserTables first limit s live as tables frames) (ht : tables i = some t)
    (ht' : tables i' = some t') (hj : j < lvl2Entries) (hj' : j' < lvl2Entries) (hne : ¬ (i = i' ∧ j = j')) :
    pageAddr s.pages.ramStart t + 4 * j ≠ pageAddr s.pages.ramStart t' + 4 * j' := by
  intro he
  by_cases htt : t = t'
  · subst htt
    exact hne ⟨h.table_inj i i' t ht ht', by omega⟩
  · have hdisj := h.blocks.disjoint (h.table _ _ ht) (h.table _ _ ht') (by simpa using htt)
    refine Set.disjoint_left.mp hdisj (lvl2Entry_mem hj) ?_
    rw [he]
    exact lvl2Entry_mem hj'

lemma root_ne {i i' t j : ℕ} (h : UserTables first limit s live as tables frames) (hi : i < kernelStartIdx)
    (ht : tables i' = some t) (hj : j < lvl2Entries) :
    pageAddr s.pages.ramStart as + 4 * i ≠ pageAddr s.pages.ramStart t + 4 * j := by
  intro he
  have hdisj := h.blocks.disjoint h.root (h.table _ _ ht) (by simp)
  refine Set.disjoint_left.mp hdisj (lvl1Entry_mem hi) ?_
  rw [he]
  exact lvl2Entry_mem hj

lemma storeLeaf (h : UserTables first limit s live as tables frames) (hp : (⟨p, .kb4⟩ : Block) ∈ live) (hv : v ≠ 0)
    (hlt : v < userPages) (ht : tables (v / lvl2Entries) = some t) :
    UserTables first limit (s.store (pageAddr s.pages.ramStart t + 4 * (v % lvl2Entries))
      (SmallPageEntry.makeEntry (pageAddr s.pages.ramStart p) .userFullAccess)) live as tables
      (Function.update frames v (some p)) := by
  have hj : v % lvl2Entries < lvl2Entries := Nat.mod_lt _ (by decide)
  refine ⟨h.blocks, h.root, fun i hi => ?_, h.table, h.table_inj, ?_, ?_, ?_⟩
  · rw [Vm.store_words, Vm.store_pages, Function.update_of_ne (h.root_ne hi ht hj)]
    exact h.entry i hi
  · obtain ⟨t₀, ht₀, hne⟩ := h.vector
    have hplace := h.leaf_ne ht₀ ht (show 0 < lvl2Entries by decide) hj (by
      simp only [lvl2Entries]
      omega)
    rw [Nat.mul_zero, Nat.add_zero] at hplace
    refine ⟨t₀, ht₀, ?_⟩
    rw [Vm.store_words, Vm.store_pages, Function.update_of_ne hplace]
    exact hne
  · intro v' hv' hlt' t' ht'
    rw [Vm.store_words, Vm.store_pages]
    by_cases he : v' = v
    · subst he
      obtain rfl := Option.some.inj (ht'.symm.trans ht)
      rw [Function.update_self, leafEntry, Function.update_self, Option.elim_some]
    · have hplace := h.leaf_ne ht' ht (Nat.mod_lt v' (by decide)) hj (by
        simp only [lvl2Entries]
        omega)
      rw [Function.update_of_ne hplace, leafEntry, Function.update_of_ne he]
      exact h.leaf v' hv' hlt' t' ht'
  · intro v' f hf
    rcases update_some_eq_some.mp hf with ⟨rfl, rfl⟩ | ⟨-, hf⟩
    · exact ⟨hp, hv, hlt, by rw [ht]; rfl⟩
    · exact h.frame v' f hf

/-- A new table for the first-level entry `i`. -/
def newTableWords (m : ℕ → ℕ) (entry table : ℕ) : ℕ → ℕ :=
  fill (Function.update m entry (CoarsePageTableEntry.makeEntry table)) table lvl2TableSize 0

lemma newTable {i : ℕ} (h : UserTables first limit s live as tables frames) {pages : PageAllocator}
    (ha : physicalPageAlloc .kb1 s.pages = .ok (some t, pages)) (hi : i < kernelStartIdx) (hnone : tables i = none) :
    UserTables first limit { s with
        pages := pages
        words := newTableWords s.words (pageAddr s.pages.ramStart as + 4 * i) (pageAddr s.pages.ramStart t) }
      (insert ⟨t, .kb1⟩ live) as (Function.update tables i (some t)) frames := by
  have hnew := h.blocks.alloc ha
  have hsub : live ⊆ insert (⟨t, .kb1⟩ : Block) live := Finset.subset_insert ..
  have hmem : (⟨t, .kb1⟩ : Block) ∈ insert (⟨t, .kb1⟩ : Block) live := Finset.mem_insert_self _ _
  have hold {i' t' : ℕ} (ht' : tables i' = some t') : t' ≠ t := by
    rintro rfl
    exact hnew.fresh (h.table _ _ ht')
  have hne {i' t' : ℕ} (ht' : tables i' = some t') : i' ≠ i := ne_of_eq_some hnone ht'
  have hkeep {a : ℕ} (ha : a ∈ inUse first limit s.pages.ramStart live)
      (hne : a ≠ pageAddr s.pages.ramStart as + 4 * i) :
      newTableWords s.words (pageAddr s.pages.ramStart as + 4 * i) (pageAddr s.pages.ramStart t) a = s.words a :=
    (fill_eqOn hnew.unused ha).trans (Function.update_of_ne hne _ _)
  have hroot {i' : ℕ} (hi' : i' < kernelStartIdx) :
      pageAddr s.pages.ramStart as + 4 * i' ∈ inUse first limit s.pages.ramStart live :=
    bytes_subset_inUse h.root (lvl1Entry_mem hi')
  have hleaf {i' t' j : ℕ} (ht' : tables i' = some t') (hj : j < lvl2Entries) :
      newTableWords s.words (pageAddr s.pages.ramStart as + 4 * i) (pageAddr s.pages.ramStart t)
        (pageAddr s.pages.ramStart t' + 4 * j) = s.words (pageAddr s.pages.ramStart t' + 4 * j) :=
    hkeep (bytes_subset_inUse (h.table _ _ ht') (lvl2Entry_mem hj)) (h.root_ne hi ht' hj).symm
  refine ⟨hnew.blocks, hsub h.root, fun i' hi' => ?_, fun i' t' ht' => ?_, fun i₁ i₂ t' ht₁ ht₂ => ?_, ?_, ?_, ?_⟩
  · rw [hnew.ramStart]
    by_cases he : i' = i
    · subst he
      rw [Function.update_self, Option.elim_some]
      exact (fill_eqOn hnew.unused (hroot hi')).trans (Function.update_self ..)
    · rw [Function.update_of_ne he, ← h.entry i' hi']
      exact hkeep (hroot hi') (by omega)
  · rcases update_some_eq_some.mp ht' with ⟨-, rfl⟩ | ⟨-, ht'⟩
    · exact hmem
    · exact hsub (h.table i' t' ht')
  · rcases update_some_eq_some.mp ht₁ with ⟨he₁, he⟩ | ⟨-, ht₁⟩
    · rcases update_some_eq_some.mp ht₂ with ⟨he₂, -⟩ | ⟨-, ht₂⟩
      · exact he₁.trans he₂.symm
      · exact absurd he.symm (hold ht₂)
    · rcases update_some_eq_some.mp ht₂ with ⟨-, he⟩ | ⟨-, ht₂⟩
      · exact absurd he.symm (hold ht₁)
      · exact h.table_inj i₁ i₂ t' ht₁ ht₂
  · obtain ⟨t₀, ht₀, hne₀⟩ := h.vector
    refine ⟨t₀, by rw [Function.update_of_ne (hne ht₀)]; exact ht₀, ?_⟩
    rw [hnew.ramStart]
    have hsame := hleaf ht₀ (show 0 < lvl2Entries by decide)
    exact fun hz => hne₀ (hsame.symm.trans hz)
  · intro v hv hlt t' ht'
    have hj : v % lvl2Entries < lvl2Entries := Nat.mod_lt _ (by decide)
    rw [hnew.ramStart]
    by_cases he : v / lvl2Entries = i
    · rw [he, Function.update_self] at ht'
      obtain rfl := Option.some.inj ht'
      have hempty : frames v = none := by
        by_contra hne'
        obtain ⟨f, hf⟩ := Option.ne_none_iff_exists'.mp hne'
        obtain ⟨-, -, -, htable⟩ := h.frame v f hf
        rw [he, hnone] at htable
        cases htable
      rw [leafEntry, hempty]
      exact fill_of_mem (lvl2Entry_mem hj)
    · rw [Function.update_of_ne he] at ht'
      rw [← h.leaf v hv hlt t' ht']
      exact hleaf ht' hj
  · intro v f hf
    obtain ⟨hlive, hv, hlt, htable⟩ := h.frame v f hf
    refine ⟨hsub hlive, hv, hlt, ?_⟩
    by_cases he : v / lvl2Entries = i
    · rw [he, Function.update_self]
      rfl
    · rw [Function.update_of_ne he]
      exact htable

section Map

variable (h : UserTables first limit s live as tables frames) (hr : RamReady limit s)
include h hr

lemma vmMap_table (hp : (⟨p, .kb4⟩ : Block) ∈ live) (hv : virt < Areas.kernelVirtStartAddr)
    (ht : tables (lvl1Index virt) = some t) :
    vmMap s as p virt .userFullAccess =
      if s.words (pageAddr s.pages.ramStart t + 4 * lvl2Index virt) ≠ 0 then
        .error (.message "vm_map_page: mapping already exists at %p (currenly mapped to %p)")
      else .ok (s.store (pageAddr s.pages.ramStart t + 4 * lvl2Index virt)
        (SmallPageEntry.makeEntry (pageAddr s.pages.ramStart p) .userFullAccess)) := by
  obtain ⟨a, ha⟩ := hr.kernel
  obtain ⟨hd, hlt, -⟩ := h.blocks.address (h.table _ t ht)
  have hentry := h.entry _ (lvl1Index_lt hv)
  rw [ht, Option.elim_some] at hentry
  have hfill : fillLvl1Entry (pageAddr s.pages.ramStart as) virt s = .ok (false, s) := by
    rw [fillLvl1Entry, ha, ok_bind]
    dsimp only
    rw [hentry, panicIf, if_neg (not_isSection_makeEntry _), ok_bind,
      if_pos (CoarsePageTableEntry.makeEntry_ne_zero _)]
    rfl
  rw [vmMap, h.blocks.rootTablePtr_ok hr h.root, ok_bind, (h.blocks.address hp).2.2, ok_bind, vmMapPage, hfill, ok_bind]
  dsimp only
  rw [hentry, CoarsePageTableEntry.baseAddress_makeEntry hd hlt, h.blocks.phys2virt_ok hr (h.table _ t ht), ok_bind]
  rw [if_neg Bool.false_ne_true, panicIf]
  split <;> rfl

lemma vmMap_noTable (hp : (⟨p, .kb4⟩ : Block) ∈ live) (hv : virt < Areas.kernelVirtStartAddr)
    (hnone : tables (lvl1Index virt) = none) {pages : PageAllocator}
    (ha : physicalPageAlloc .kb1 s.pages = .ok (none, pages)) :
    vmMap s as p virt .userFullAccess = .error (.message "The following expression returned an error:\n") := by
  obtain ⟨a, hk⟩ := hr.kernel
  have hout : ¬ Areas.kernelArea.Contains virt := fun hc => Nat.not_lt.mpr hc.1 hv
  have hentry := h.entry _ (lvl1Index_lt hv)
  rw [hnone, Option.elim_none] at hentry
  rw [vmMap, h.blocks.rootTablePtr_ok hr h.root, ok_bind, (h.blocks.address hp).2.2, ok_bind, vmMapPage, fillLvl1Entry,
    hk, ok_bind]
  dsimp only
  rw [hentry, panicIf, if_neg (by decide), ok_bind, if_neg (not_not.mpr rfl), if_neg hout, hentry,
    if_neg (not_not.mpr rfl), ha]
  rfl

lemma vmMap_newTable (hp : (⟨p, .kb4⟩ : Block) ∈ live) (hv : virt < Areas.kernelVirtStartAddr)
    (hnone : tables (lvl1Index virt) = none) {pages : PageAllocator}
    (ha : physicalPageAlloc .kb1 s.pages = .ok (some t, pages)) :
    vmMap s as p virt .userFullAccess = .ok (Vm.store { s with
        pages := pages
        words := newTableWords s.words (pageAddr s.pages.ramStart as + 4 * lvl1Index virt)
          (pageAddr s.pages.ramStart t) }
      (pageAddr s.pages.ramStart t + 4 * lvl2Index virt)
      (SmallPageEntry.makeEntry (pageAddr s.pages.ramStart p) .userFullAccess)) := by
  obtain ⟨a, hk⟩ := hr.kernel
  have hout : ¬ Areas.kernelArea.Contains virt := fun hc => Nat.not_lt.mpr hc.1 hv
  have hi := lvl1Index_lt hv
  have hnew := h.blocks.alloc ha
  have hmem : (⟨t, .kb1⟩ : Block) ∈ insert (⟨t, .kb1⟩ : Block) live := Finset.mem_insert_self _ _
  obtain ⟨hd, hlt, haddr⟩ := hnew.blocks.address hmem
  have hentry := h.entry _ hi
  rw [hnone, Option.elim_none] at hentry
  rw [vmMap, h.blocks.rootTablePtr_ok hr h.root, ok_bind, (h.blocks.address hp).2.2, ok_bind, vmMapPage, fillLvl1Entry,
    hk, ok_bind]
  dsimp only
  rw [hentry, panicIf, if_neg (by decide), ok_bind, if_neg (not_not.mpr rfl), if_neg hout, hentry,
    if_neg (not_not.mpr rfl), ha, ok_bind]
  dsimp only
  rw [haddr, ok_bind, if_neg (fun hc => hout hc.1), pure_eq_ok, ok_bind]
  generalize hs₁ : Vm.store { s with pages := pages } (pageAddr s.pages.ramStart as + 4 * lvl1Index virt)
    (CoarsePageTableEntry.makeEntry (pageAddr pages.ramStart t)) = s₁
  have hpages : s₁.pages = pages := by rw [← hs₁]; rfl
  have hwords : s₁.words = Function.update s.words (pageAddr s.pages.ramStart as + 4 * lvl1Index virt)
      (CoarsePageTableEntry.makeEntry (pageAddr pages.ramStart t)) := by rw [← hs₁]; rfl
  have hready : RamReady limit s₁ := by
    rw [← hs₁]
    exact hr.alloc h.blocks ha
  have hvirt := (hpages ▸ hnew.blocks).phys2virt_ok hready hmem
  rw [hpages] at hvirt
  have hempty : (s₁.clear (pageAddr pages.ramStart t) lvl2TableSize).words
      (pageAddr pages.ramStart t + 4 * lvl2Index virt) = 0 := fill_of_mem (lvl2Entry_mem (lvl2Index_lt virt))
  dsimp only
  rw [hwords, Function.update_self, CoarsePageTableEntry.baseAddress_makeEntry hd hlt, hvirt, ok_bind, if_pos rfl,
    hempty, panicIf, if_neg (not_not.mpr rfl), ok_bind, hnew.ramStart, ← hs₁, hnew.ramStart]
  rfl

/-- A page that has a frame, and page 0, cannot be mapped. -/
lemma vmMap_taken (hp : (⟨p, .kb4⟩ : Block) ∈ live) (hv : virt < Areas.kernelVirtStartAddr)
    (htaken : virt / size4KB = 0 ∨ (frames (virt / size4KB)).isSome) :
    vmMap s as p virt .userFullAccess =
      .error (.message "vm_map_page: mapping already exists at %p (currenly mapped to %p)") := by
  have hleaf : ∃ t, tables (lvl1Index virt) = some t ∧
    s.words (pageAddr s.pages.ramStart t + 4 * lvl2Index virt) ≠ 0 := by
    by_cases hz : virt / size4KB = 0
    · obtain ⟨t, ht, hne⟩ := h.vector
      rw [← lvl1Index_div, ← lvl2Index_mod, hz]
      exact ⟨t, ht, hne⟩
    · obtain ⟨f, hf⟩ := Option.isSome_iff_exists.mp (htaken.resolve_left hz)
      obtain ⟨-, -, hlt, htable⟩ := h.frame _ f hf
      obtain ⟨t, ht⟩ := Option.isSome_iff_exists.mp htable
      have hentry := h.leaf _ hz hlt t ht
      rw [lvl1Index_div] at ht
      rw [lvl2Index_mod, leafEntry, hf, Option.elim_some] at hentry
      exact ⟨t, ht, by rw [hentry]; exact SmallPageEntry.makeEntry_ne_zero _ _⟩
  obtain ⟨t, ht, hne⟩ := hleaf
  rw [h.vmMap_table hr hp hv ht, if_pos hne]

/-- What `vm_map` makes of the tables for a page without a frame. -/
structure Mapped (first limit : ℕ) (s' : Vm) (pages : PageAllocator) (as virt p : ℕ) (frames : ℕ → Option ℕ)
    (hasTable : ℕ → Prop) : Prop where
  pages : s'.pages = pages
  ready : RamReady limit s'
  tables : ∃ live tables, UserTables first limit s' live as tables (Function.update frames (virt / size4KB) (some p)) ∧
    ∀ i, (tables i).isSome ↔ hasTable i ∨ i = lvl1Index virt

lemma vmMap_withTable (hp : (⟨p, .kb4⟩ : Block) ∈ live) (hv : virt < Areas.kernelVirtStartAddr)
    (hz : virt / size4KB ≠ 0) (hfree : frames (virt / size4KB) = none) (ht : (tables (lvl1Index virt)).isSome) :
    ∃ s', vmMap s as p virt .userFullAccess = .ok s' ∧
      Mapped first limit s' s.pages as virt p frames (fun i => (tables i).isSome) := by
  obtain ⟨t, ht⟩ := Option.isSome_iff_exists.mp ht
  have hlt := page_lt hv
  have hempty : s.words (pageAddr s.pages.ramStart t + 4 * lvl2Index virt) = 0 := by
    rw [← lvl2Index_mod, h.leaf _ hz hlt t (by rw [lvl1Index_div]; exact ht), leafEntry, hfree]
    rfl
  have hstore := h.storeLeaf hp hz hlt (t := t) (by rw [lvl1Index_div]; exact ht)
  rw [lvl2Index_mod] at hstore
  have hmap := h.vmMap_table hr hp hv ht
  rw [if_neg (not_not.mpr hempty)] at hmap
  refine ⟨_, hmap, rfl, hr.congr rfl rfl rfl rfl, live, tables, hstore, fun i => ⟨Or.inl, ?_⟩⟩
  rintro (hi | rfl)
  · exact hi
  · rw [ht]
    rfl

lemma vmMap_withNewTable (hp : (⟨p, .kb4⟩ : Block) ∈ live) (hv : virt < Areas.kernelVirtStartAddr)
    (hz : virt / size4KB ≠ 0) (hnone : tables (lvl1Index virt) = none)
    {pages : PageAllocator} (ha : physicalPageAlloc .kb1 s.pages = .ok (some t, pages)) :
    ∃ s', vmMap s as p virt .userFullAccess = .ok s' ∧
      Mapped first limit s' pages as virt p frames (fun i => (tables i).isSome) := by
  have hram := (h.blocks.alloc ha).ramStart
  have hnew := h.newTable ha (lvl1Index_lt hv) hnone
  have ht : Function.update tables (lvl1Index virt) (some t) (virt / size4KB / lvl2Entries) = some t := by
    rw [lvl1Index_div, Function.update_self]
  have hstore := hnew.storeLeaf (Finset.mem_insert_of_mem hp) hz (page_lt hv) ht
  rw [lvl2Index_mod, hram] at hstore
  refine ⟨_, h.vmMap_newTable hr hp hv hnone ha, rfl, (hr.alloc h.blocks ha).congr rfl rfl rfl rfl, _, _, hstore,
    fun i => ?_⟩
  by_cases he : i = lvl1Index virt
  · rw [he, Function.update_self]
    exact iff_of_true rfl (Or.inr rfl)
  · rw [Function.update_of_ne he]
    exact (or_iff_left he).symm

end Map

lemma baseAddress_pageEntry {f : ℕ} (h : UserTables first limit s live as tables frames)
    (hv : virt < Areas.kernelVirtStartAddr) (hf : frames (virt / size4KB) = some f) :
    SmallPageEntry.baseAddress (pageEntry s.words (pageAddr s.pages.ramStart as) virt) =
      pageAddr s.pages.ramStart f := by
  obtain ⟨hlive, hz, hlt, htable⟩ := h.frame _ f hf
  obtain ⟨t, ht⟩ := Option.isSome_iff_exists.mp htable
  have hleaf := h.leaf _ hz hlt t ht
  rw [lvl1Index_div] at ht
  have hentry := h.entry _ (lvl1Index_lt hv)
  rw [ht, Option.elim_some] at hentry
  obtain ⟨hd, hlt', -⟩ := h.blocks.address (h.table _ t ht)
  obtain ⟨hd₄, hlt₄, -⟩ := h.blocks.address hlive
  rw [lvl2Index_mod, leafEntry, hf, Option.elim_some] at hleaf
  rw [pageEntry, hentry, if_pos (CoarsePageTableEntry.isCoarsePage_makeEntry _), lvl2EntryAddr, hentry,
    CoarsePageTableEntry.baseAddress_makeEntry hd hlt', hleaf, SmallPageEntry.baseAddress_makeEntry _ hd₄ hlt₄]

lemma of_created {s₀ : Vm} {live₀ : Finset Block} (h : Created first limit s₀ s live₀ live as) :
    ∃ t, UserTables first limit s live as (fun i => if i = 0 then some t else none) (fun _ => none) := by
  obtain ⟨t, ht, -, hentry, hpage, hempty⟩ := h.table
  have hr := h.grown.ramStart
  refine ⟨t, h.grown.blocks, h.root, fun i hi => ?_, fun i t' ht' => ?_, fun i i' t' hi hi' => ?_, ⟨t, rfl, ?_⟩, ?_,
    fun v f hf => nomatch hf⟩
  · rw [hr]
    by_cases hz : i = 0
    · rw [hz, if_pos rfl, Option.elim_some]
      exact hentry
    · rw [if_neg hz, Option.elim_none]
      exact h.empty i hi hz
  · split at ht'
    · obtain rfl := Option.some.inj ht'
      exact ht
    · cases ht'
  · split at hi
    · split at hi'
      · exact Eq.trans ‹_› (Eq.symm ‹_›)
      · cases hi'
    · cases hi
  · rw [hr, hpage]
    exact SmallPageEntry.makeEntry_ne_zero _ _
  · intro v hv hlt t' ht'
    split at ht'
    · obtain rfl := Option.some.inj ht'
      rw [hr, leafEntry, Option.elim_none]
      refine hempty _ (Nat.mod_lt _ (by decide)) ?_
      simp only [lvl2Entries] at *
      omega
    · cases ht'

end UserTables

end Pi0Os.Memory
