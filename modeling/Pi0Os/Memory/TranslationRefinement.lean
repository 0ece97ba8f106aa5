import Pi0Os.Memory.MappedSpaces

/-! What `vm_map`, `vm_unmap` and `virt2phys` are to the MMU: each address space is a partial map of pages, of which
the kernel area is one map that all of them share. -/

namespace Pi0Os.Memory

open Kernel Library PageAllocator

/-- The physical address of a translation, 0 if there is none. -/
def physOf (translation : Option (ℕ × PageAccessPermissions)) : ℕ := translation.elim 0 Prod.fst

section Pages

variable {v virt : ℕ}

lemma samePage_iff : v / size4KB = virt / size4KB ↔ lvl1Index v = lvl1Index virt ∧ lvl2Index v = lvl2Index virt := by
  refine ⟨fun h => ?_, fun h => page_eq_of_indices h.1 h.2⟩
  simp only [lvl1Index, lvl2Index, size4KB] at *
  omega

end Pages

section Unmap

variable {first limit p i t q virt v : ℕ} {s s' : Vm} {live : Finset Block} {roots : Set ℕ}

lemma addr2page_pageAddr {s : PageAllocator} (hq : q < s.len) : addr2page s (pageAddr s.ramStart q) = .ok q := by
  have hidx : (pageAddr s.ramStart q - s.ramStart) / size1KB = q := by
    simp only [pageAddr, size1KB]
    omega
  rw [addr2page, kassert_of (show s.ramStart ≤ pageAddr s.ramStart q from Nat.le_add_right _ _), ok_bind, hidx]
  dsimp only
  rw [kassert_of hq]
  rfl

lemma Blocks.addr2page_ok {s : PageAllocator} {o : PageOrder} (h : Blocks first limit s live)
    (hq : (⟨q, o⟩ : Block) ∈ live) : addr2page s (pageAddr s.ramStart q) = .ok q := by
  obtain ⟨free, hinv⟩ := h.inv
  exact addr2page_pageAddr ((hinv.tiled.head_mem (AllocatorInv.mem_used hq)).2.trans_le hinv.limit_le)

/-- A page in use is on no list, so that it can be put on any, that of another order too. -/
lemma Blocks.free_kb16 {s : PageAllocator} {o : PageOrder} (h : Blocks first limit s live)
    (hq : (⟨q, o⟩ : Block) ∈ live) : ∃ s', physicalPageFree q .kb16 s = .ok s' ∧ s'.ramStart = s.ramStart ∧
      s'.len = s.len ∧ (s.refCount q = 1 → s'.freeLists .kb16 = some q) := by
  have hc := h.counted hq
  obtain ⟨free, hinv⟩ := h.inv
  have hnext : s.next q = none := hinv.links.unlinked q (hinv.tiled.not_free (b := ⟨q, o⟩) hq (Block.covers_head _))
  rw [physicalPageFree, kassert_of hc, ok_bind]
  dsimp only
  split_ifs with hz
  · refine ⟨((s.setRefCount q (s.refCount q - 1)).setNext q (s.freeLists .kb16)).setFreeList .kb16 (some q),
      ?_, rfl, rfl,
      fun _ => by rw [freeLists_setFreeList, Function.update_self]⟩
    change appendPageToFreePagesList q .kb16 _ = _
    rw [appendPageToFreePagesList, next_setRefCount, kassert_of hnext]
    rfl
  · refine ⟨_, rfl, rfl, rfl, fun hone => absurd ?_ hz⟩
    rw [refCount_setRefCount, Function.update_self, hone]
    rfl

/-- The table that may have lost its last entry is dropped below the kernel area only. -/
lemma MappedSpaces.dropLvl2Table_ok (h : MappedSpaces first limit s live roots) (hp : p ∈ roots) (hi : i < lvl1Entries)
    (hin : Areas.kernelArea.Contains virt ↔ kernelStartIdx ≤ i)
    (ht : tableAt s.words (pageAddr s.pages.ramStart p) i = some t) :
    ∃ s', dropLvl2Table (pageAddr s.pages.ramStart p + 4 * i) t virt s = .ok s' ∧ s.SameRam s' ∧
      (kernelStartIdx ≤ i → s' = s) ∧
      Spaces s'.words (pageAddr s.pages.ramStart s.kernelAs) (pageAddr s.pages.ramStart '' roots) ∧
      ∀ p' ∈ roots, ∀ v < 2 ^ 32, armWalk s'.words (pageAddr s.pages.ramStart p') v =
        armWalk s.words (pageAddr s.pages.ramStart p') v := by
  rw [dropLvl2Table]
  split_ifs with hc
  · obtain ⟨hout, hempty⟩ := hc
    have hi' : i < kernelStartIdx := Nat.not_le.mp (hin.not.mp hout)
    obtain ⟨q, hq, rfl⟩ := (h.table p hp i hi t ht).resolve_right fun hk => Nat.not_le.mpr hi' hk.1
    obtain ⟨pages, hfree, hr, hl, -⟩ := h.blocks.free_kb16 hq
    refine ⟨Vm.store { s with pages := pages } (pageAddr s.pages.ramStart p + 4 * i) 0, ?_, ⟨hr, hl, rfl, rfl⟩,
      fun hk => absurd hk (Nat.not_le.mpr hi'), h.spaces.detach (mem_roots hp) hi', fun p' hp' v hv =>
      h.spaces.walk_detach (mem_roots hp) hi ht hempty (mem_roots hp') hv⟩
    rw [(tableAt_eq_some.mp ht).2, h.blocks.addr2page_ok hq, ok_bind, hfree]
    rfl
  · exact ⟨s, rfl, .refl s, fun _ => rfl, h.spaces, fun _ _ _ _ => rfl⟩

lemma physOf_page {entry : ℕ} (hd : size4KB ∣ virt) (he : 2 ≤ entry % 4) :
    physOf (lvl2Translation entry virt) = SmallPageEntry.baseAddress entry := by
  have hz : virt % 2 ^ 12 = 0 := Nat.mod_eq_zero_of_dvd hd
  rw [lvl2Translation, if_neg (by omega), if_neg (by omega), hz]
  simp only [physOf, Option.elim, Nat.add_zero]

/-- An address that the kernel's table does not map, no space does. -/
lemma MappedSpaces.walk_none (h : MappedSpaces first limit s live roots) {p' : ℕ} (hp' : p' ∈ roots)
    (hk : kernelStartIdx ≤ lvl1Index virt → p = s.kernelAs) (hv : v < 2 ^ 32) (hpage : v / size4KB = virt / size4KB)
    (hown : p' = p ∨ kernelStartIdx ≤ lvl1Index virt)
    (hnone : armWalk s.words (pageAddr s.pages.ramStart p) v = none) :
    armWalk s.words (pageAddr s.pages.ramStart p') v = none := by
  rcases hown with rfl | hidx
  · exact hnone
  · obtain rfl := hk hidx
    rw [← (samePage_iff.mp hpage).1] at hidx
    rw [h.spaces.walk_kernel (mem_roots hp') hidx hv, hnone, ite_self]

/-- `vm_unmap_page` on the first-level table that has the say on the address. -/
lemma MappedSpaces.vmUnmapPage_ok (h : MappedSpaces first limit s live roots) (hp : p ∈ roots) (hv : virt < 2 ^ 32)
    (hd : size4KB ∣ virt) (hk : kernelStartIdx ≤ lvl1Index virt → p = s.kernelAs)
    (hsec : ¬ isSection (s.words (pageAddr s.pages.ramStart p + 4 * lvl1Index virt))) :
    ∃ s', vmUnmapPage (pageAddr s.pages.ramStart p) virt s =
        .ok (physOf (armWalk s.words (pageAddr s.pages.ramStart p) virt), s') ∧ s.SameRam s' ∧
      (kernelStartIdx ≤ lvl1Index virt → MappedSpaces first limit s' live roots ∧ s'.pages = s.pages) ∧
      Spaces s'.words (pageAddr s.pages.ramStart s.kernelAs) (pageAddr s.pages.ramStart '' roots) ∧
      ∀ p' ∈ roots, ∀ v < 2 ^ 32, armWalk s'.words (pageAddr s.pages.ramStart p') v =
        if (p' = p ∨ kernelStartIdx ≤ lvl1Index virt) ∧ v / size4KB = virt / size4KB then none
        else armWalk s.words (pageAddr s.pages.ramStart p') v := by
  have hi := lvl1Index_lt_entries hv
  -- where the page is not mapped nothing is done
  have hsame (hnone : ∀ v < 2 ^ 32, v / size4KB = virt / size4KB →
      armWalk s.words (pageAddr s.pages.ramStart p) v = none) : ∀ p' ∈ roots, ∀ v < 2 ^ 32,
      armWalk s.words (pageAddr s.pages.ramStart p') v =
        if (p' = p ∨ kernelStartIdx ≤ lvl1Index virt) ∧ v / size4KB = virt / size4KB then none
        else armWalk s.words (pageAddr s.pages.ramStart p') v := by
    intro p' hp' v hv'
    split_ifs with hc
    · exact h.walk_none hp' hk hv' hc.2 hc.1 (hnone v hv' hc.2)
    · rfl
  rw [vmUnmapPage]
  dsimp only
  rw [panicIf, if_neg hsec, ok_bind]
  by_cases he : s.words (pageAddr s.pages.ramStart p + 4 * lvl1Index virt) = 0
  · refine ⟨s, ?_, .refl s, fun _ => ⟨h, rfl⟩, h.spaces, hsame fun v _ hpage => armWalk_empty ?_⟩
    · rw [if_pos he, armWalk_empty he]
      rfl
    · rwa [(samePage_iff.mp hpage).1]
  · have hc := ((h.spaces.entry _ (mem_roots hp) _ hi).resolve_left he).resolve_left hsec
    have ht := tableAt_eq_some.mpr ⟨hc, rfl⟩
    rw [if_neg he, h.tablePtr p hp _ hi _ ht, ok_bind]
    have hj := lvl2Index_lt virt
    have hwalk := armWalk_table ht
    generalize CoarsePageTableEntry.baseAddress _ = t at *
    by_cases hz : s.words (t + 4 * lvl2Index virt) = 0
    · refine ⟨s, ?_, .refl s, fun _ => ⟨h, rfl⟩, h.spaces, hsame fun v _ hpage => ?_⟩
      · rw [if_pos hz, hwalk, hz]
        rfl
      · obtain ⟨hi', hj'⟩ := samePage_iff.mp hpage
        rw [← hi'] at ht
        rw [armWalk_table ht, hj', hz, lvl2Translation_zero]
    · have hs₁ := h.store_page hp hi ht hj (.inl rfl)
      have ht₁ : tableAt (s.store (t + 4 * lvl2Index virt) 0).words (pageAddr s.pages.ramStart p) (lvl1Index virt) =
          some t := by
        have hne := entry_ne_page (h.spaces.table_apart _ (mem_roots hp) _ hi t ht _ (mem_roots hp)) hi hj
        rw [tableAt, Vm.store_words, Function.update_of_ne hne, ← tableAt, ht]
      obtain ⟨s', hdrop, hram, hkernel, hspaces, hwalks⟩ := hs₁.dropLvl2Table_ok hp hi (contains_iff hv hd) ht₁
      rw [Vm.store_pages] at hdrop
      have hprev := (h.spaces.page _ (mem_roots hp) _ hi t ht _ hj).resolve_left hz
      refine ⟨s', ?_, (Vm.SameRam.store s _ _).trans hram, fun hidx => ?_, hspaces, fun p' hp' v hv' => ?_⟩
      · rw [if_neg hz, hdrop, ok_bind, hwalk, physOf_page hd hprev]
        rfl
      · rw [hkernel hidx]
        exact ⟨hs₁, rfl⟩
      · refine (hwalks p' hp' v hv').trans ?_
        have hwrite := h.spaces.walk_update (v := 0) (mem_roots hp) hi ht hj (mem_roots hp') hv'
        refine hwrite.trans ?_
        split_ifs with hin hown hown
        · exact lvl2Translation_zero v
        · refine absurd ⟨?_, samePage_iff.mpr ⟨hin.1, hin.2.2⟩⟩ hown
          rcases (h.spaces.table_inj _ (mem_roots hp) _ hi _ (mem_roots hp') _ hi t ht hin.2.1).2 with he' | hidx
          · exact .inl (pageAddr_injective _ he').symm
          · exact .inr hidx
        · obtain ⟨hi', hj'⟩ := samePage_iff.mp hown.2
          have hno : tableAt s.words (pageAddr s.pages.ramStart p') (lvl1Index virt) ≠ some t :=
            fun ht' => hin ⟨hi', ht', hj'⟩
          rcases hown.1 with rfl | hidx
          · exact absurd ht hno
          · refine armWalk_empty ?_
            rw [hi']
            exact not_not.mp ((h.spaces.kernel_table (mem_roots hp) (mem_roots hp') hidx hi ht).not.mp hno)
        · rfl

end Unmap

/-- What the MMU makes of an address in the address space `as`. -/
def Vm.walk (s : Vm) (as virt : ℕ) : Option (ℕ × PageAccessPermissions) :=
  armWalk s.words (pageAddr s.pages.ramStart as) virt

def Vm.lvl1Entry (s : Vm) (as virt : ℕ) : ℕ := s.words (pageAddr s.pages.ramStart as + 4 * lvl1Index virt)

/-- The address space whose tables `vm_unmap` takes the page from. -/
def Vm.owner (s : Vm) (as virt : ℕ) : ℕ := if Areas.kernelArea.Contains virt then s.kernelAs else as

/-- The page at `virt` has been mapped to the one at `a`: in `as` only, or, in the kernel area, in the kernel's map. Of
that map the other spaces see the megabytes they have an entry for, and `as` now that of `virt`. -/
structure MapsPage (s s' : Vm) (roots : Set ℕ) (as virt a : ℕ) (perm : PageAccessPermissions) : Prop where
  user : virt < Areas.kernelVirtStartAddr → ∀ p ∈ roots, ∀ v < 2 ^ 32, s'.walk p v =
    if p = as ∧ v / size4KB = virt / size4KB then some (a + v % size4KB, perm) else s.walk p v
  kernel : Areas.kernelVirtStartAddr ≤ virt → ∀ v < 2 ^ 32, s'.walk s.kernelAs v =
    if v / size4KB = virt / size4KB then some (a + v % size4KB, perm) else s.walk s.kernelAs v
  view : Areas.kernelVirtStartAddr ≤ virt → ∀ p ∈ roots, p ≠ s.kernelAs → ∀ v < 2 ^ 32, s'.walk p v =
    if lvl1Index v = lvl1Index virt ∧ (p = as ∨ s.lvl1Entry p virt ≠ 0) then s'.walk s.kernelAs v else s.walk p v

/-- The page at `virt` has been unmapped: in `as` only, or, in the kernel area, everywhere. -/
def UnmapsPage (s s' : Vm) (roots : Set ℕ) (as virt : ℕ) : Prop :=
  ∀ p ∈ roots, ∀ v < 2 ^ 32, s'.walk p v =
    if (p = as ∨ Areas.kernelVirtStartAddr ≤ virt) ∧ v / size4KB = virt / size4KB then none else s.walk p v

section Refinement

variable {first limit as virt : ℕ} {s : Vm} {live : Finset Block} {roots : Set ℕ}

lemma kernelStartIdx_le_iff : kernelStartIdx ≤ lvl1Index virt ↔ Areas.kernelVirtStartAddr ≤ virt := by
  simp only [lvl1Index, kernelStartIdx, Areas.kernelVirtStartAddr]
  omega

lemma MappedSpaces.mapsPage_ready {a t : ℕ} {perm : PageAccessPermissions} {s₁ : Vm} {live' : Finset Block}
    (h : MappedSpaces first limit s live roots) (has : as ∈ roots) (hv : virt < 2 ^ 32)
    (hready : TableReady first limit roots as (lvl1Index virt) t s s₁ live live') (had : size4KB ∣ a)
    (hlt : a < 2 ^ 32) :
    MapsPage s (s₁.store (t + 4 * lvl2Index virt) (SmallPageEntry.makeEntry a perm)) roots as virt a perm ∧
      MappedSpaces first limit (s₁.store (t + 4 * lvl2Index virt) (SmallPageEntry.makeEntry a perm)) live' roots := by
  have hi := lvl1Index_lt_entries hv
  have hj := lvl2Index_lt virt
  have hr := hready.ram.ramStart
  have hspaces := hready.mapped.spaces
  rw [hr, hready.ram.kernelAs] at hspaces
  have hpage : 2 ≤ SmallPageEntry.makeEntry a perm % 4 := by
    simp only [SmallPageEntry.makeEntry, smallPageEntryId]
    omega
  have hmapped := hready.mapped.store_page has hi (hr ▸ hready.table) hj (.inr hpage)
  have hwrite {p : ℕ} (hp : p ∈ roots) {v : ℕ} (hv : v < 2 ^ 32) :=
    hspaces.walk_update (v := SmallPageEntry.makeEntry a perm) (mem_roots has) hi hready.table hj (mem_roots hp) hv
  have hwalk (p v : ℕ) : (s₁.store (t + 4 * lvl2Index virt) (SmallPageEntry.makeEntry a perm)).walk p v =
      armWalk (Function.update s₁.words (t + 4 * lvl2Index virt) (SmallPageEntry.makeEntry a perm))
        (pageAddr s.pages.ramStart p) v := by rw [Vm.walk, Vm.store_pages, hr]; rfl
  have hnew (v : ℕ) : lvl2Translation (SmallPageEntry.makeEntry a perm) v = some (a + v % size4KB, perm) :=
    lvl2Translation_makeEntry perm had hlt
  refine ⟨⟨fun hu p hp v hv => ?_, fun hk v hv => ?_, fun hk p hp hne v hv => ?_⟩, hmapped⟩
  · have hidx : ¬ kernelStartIdx ≤ lvl1Index virt := kernelStartIdx_le_iff.not.mpr (Nat.not_le.mpr hu)
    have hiff : (lvl1Index v = lvl1Index virt ∧
        tableAt s₁.words (pageAddr s.pages.ramStart p) (lvl1Index virt) = some t ∧ lvl2Index v = lvl2Index virt) ↔
          p = as ∧ v / size4KB = virt / size4KB := by
      rw [samePage_iff]
      constructor
      · rintro ⟨h₁, ht, h₂⟩
        exact ⟨pageAddr_injective _
          (hspaces.user_table (mem_roots has) (mem_roots hp) (Nat.not_le.mp hidx) hready.table ht), h₁, h₂⟩
      · rintro ⟨he, h₁, h₂⟩
        exact ⟨h₁, he ▸ hready.table, h₂⟩
    have hold := (hready.walk p hp v hv).trans (if_neg fun hc => hidx hc.2.2.1)
    rw [hwalk, hwrite hp hv, hnew, if_congr hiff rfl rfl, hold, Vm.walk]
  · have hidx := kernelStartIdx_le_iff.mpr hk
    have hkernel := (hspaces.kernel_table (mem_roots has) (mem_roots h.kernelAs_mem) hidx hi hready.table).mpr
      ((hready.entries _ h.kernelAs_mem _ hi).mpr (.inr ⟨rfl, .inr ⟨rfl, hidx⟩⟩))
    have hiff : (lvl1Index v = lvl1Index virt ∧
        tableAt s₁.words (pageAddr s.pages.ramStart s.kernelAs) (lvl1Index virt) = some t ∧
          lvl2Index v = lvl2Index virt) ↔ v / size4KB = virt / size4KB := by
      rw [samePage_iff]
      constructor
      · rintro ⟨h₁, -, h₂⟩
        exact ⟨h₁, h₂⟩
      · rintro ⟨h₁, h₂⟩
        exact ⟨h₁, hkernel, h₂⟩
    rw [hwalk, hwrite h.kernelAs_mem hv, hnew, if_congr hiff rfl rfl, hready.walk _ h.kernelAs_mem v hv,
      ite_self, Vm.walk]
  · have hidx := kernelStartIdx_le_iff.mpr hk
    have hseen : s₁.words (pageAddr s.pages.ramStart p + 4 * lvl1Index virt) ≠ 0 ↔ p = as ∨ s.lvl1Entry p virt ≠ 0 := by
      rw [hready.entries p hp _ hi, or_comm, Vm.lvl1Entry]
      simp only [true_and, hne, false_and, or_false]
    by_cases hc : lvl1Index v = lvl1Index virt ∧ (p = as ∨ s.lvl1Entry p virt ≠ 0)
    · -- the entry that `p` has is the kernel's
      have hs' := hspaces.update (mem_roots has) hi hready.table hj (.inr hpage)
      have hkeep := entry_ne_page (hspaces.table_apart _ (mem_roots has) _ hi t hready.table _ (mem_roots hp)) hi hj
      rw [if_pos hc, hwalk, hwalk, hs'.walk_kernel (mem_roots hp) (by rwa [hc.1]) hv, hc.1,
        Function.update_of_ne hkeep, if_neg (hseen.mpr hc.2)]
    · have hno : ¬ (lvl1Index v = lvl1Index virt ∧
          tableAt s₁.words (pageAddr s.pages.ramStart p) (lvl1Index virt) = some t ∧
            lvl2Index v = lvl2Index virt) := fun hin => hc ⟨hin.1, hseen.mp
        ((hspaces.kernel_table (mem_roots has) (mem_roots hp) hidx hi hready.table).mp hin.2.1)⟩
      rw [if_neg hc, hwalk, hwrite hp hv, if_neg hno, hready.walk p hp v hv,
        if_neg fun hin => hc ⟨hin.2.1, .inl hin.1⟩, Vm.walk]

lemma MappedSpaces.mapsPage {page a : ℕ} {perm : PageAccessPermissions} {s' : Vm}
    (h : MappedSpaces first limit s live roots) (has : as ∈ roots) (hv : virt < 2 ^ 32) (hd : size4KB ∣ virt)
    (hm : vmMap s as page virt perm = .ok s') (ha : page2addr s.pages page = .ok a) (had : size4KB ∣ a) :
    MapsPage s s' roots as virt a perm ∧ ∃ live', MappedSpaces first limit s' live' roots := by
  obtain ⟨a', t, s₁, live', ha', hready, -, rfl⟩ := h.vmMap_ready has hv hd hm
  obtain rfl := Except.ok.inj (ha.symm.trans ha')
  have hlt : a < 2 ^ 32 := by
    obtain ⟨-, he⟩ := kassert_bind_eq_ok.mp ha
    exact Except.ok.inj he ▸ Nat.mod_lt _ (by decide)
  obtain ⟨hmaps, hmapped⟩ := h.mapsPage_ready has hv hready had hlt
  exact ⟨hmaps, live', hmapped⟩

lemma or_offset (x b k : ℕ) : x * 2 ^ k ||| (b &&& (2 ^ k - 1)) = x * 2 ^ k + b % 2 ^ k := by
  rw [Nat.and_two_pow_sub_one_eq_mod, Nat.mul_comm, Nat.two_pow_add_eq_or_of_lt (Nat.mod_lt _ (Nat.two_pow_pos k))]

lemma MappedSpaces.virt2phys_ok (h : MappedSpaces first limit s live roots) (has : as ∈ roots) (hv : virt < 2 ^ 32)
    {pa : ℕ} {perm : PageAccessPermissions} (hw : s.walk as virt = some (pa, perm)) : virt2phys s as virt = .ok pa := by
  have hi := lvl1Index_lt_entries hv
  rw [virt2phys, h.rootPtr as has, ok_bind]
  rw [Vm.walk, armWalk] at hw
  by_cases hsec : isSection (s.words (pageAddr s.pages.ramStart as + 4 * lvl1Index virt))
  · have hid : s.words (pageAddr s.pages.ramStart as + 4 * lvl1Index virt) % 4 ≠ 0 := by
      rw [isSection] at hsec
      rw [hsec]
      decide
    rw [if_pos hsec, Option.some.injEq, Prod.mk.injEq] at hw
    rw [if_neg hid, if_pos hsec, ← hw.1]
    exact congrArg Except.ok (or_offset _ virt 20)
  · rw [if_neg hsec] at hw
    by_cases hc : isCoarsePage (s.words (pageAddr s.pages.ramStart as + 4 * lvl1Index virt))
    · have hid : s.words (pageAddr s.pages.ramStart as + 4 * lvl1Index virt) % 4 ≠ 0 := by
        rw [isCoarsePage] at hc
        rw [hc]
        decide
      have ht := tableAt_eq_some.mpr ⟨hc, rfl⟩
      have hpage := h.spaces.page _ (mem_roots has) _ hi _ ht _ (lvl2Index_lt virt)
      rw [if_pos hc] at hw
      rw [if_neg hid, if_neg hsec, if_pos hc, h.tablePtr as has _ hi _ ht, ok_bind]
      generalize s.words (CoarsePageTableEntry.baseAddress _ + _) = entry at *
      rcases hpage with rfl | hge
      · cases hw
      · rw [lvl2Translation, if_neg (by omega), if_neg (by omega), Option.some.injEq, Prod.mk.injEq] at hw
        rw [← hw.1]
        exact congrArg Except.ok (or_offset _ virt 12)
    · rw [if_neg hc] at hw
      cases hw

/-- `vm_map`, `vm_unmap` and `virt2phys` as operations on the maps of all address spaces. -/
theorem vm_refines_partialMaps (h : MappedSpaces first limit s live roots) (has : as ∈ roots) (hv : virt < 2 ^ 32)
    (hd : size4KB ∣ virt) :
    (∀ page perm s', vmMap s as page virt perm = .ok s' → ∀ a, page2addr s.pages page = .ok a → size4KB ∣ a →
      MapsPage s s' roots as virt a perm ∧ ∃ live', MappedSpaces first limit s' live' roots) ∧
    (¬ isSection (s.lvl1Entry (s.owner as virt) virt) →
      ∃ s', vmUnmap s as virt = .ok (physOf (s.walk (s.owner as virt) virt), s') ∧ UnmapsPage s s' roots as virt ∧
        Spaces s'.words (pageAddr s.pages.ramStart s.kernelAs) (pageAddr s.pages.ramStart '' roots)) ∧
    ∀ v < 2 ^ 32, ∀ pa perm, s.walk as v = some (pa, perm) → virt2phys s as v = .ok pa := by
  refine ⟨fun page perm s' hm a ha had => h.mapsPage has hv hd hm ha had, fun hsec => ?_,
    fun v hv pa perm hw => h.virt2phys_ok has hv hw⟩
  have hin := contains_iff hv hd
  have howner : s.owner as virt ∈ roots := by
    rw [Vm.owner]
    split_ifs
    · exact h.kernelAs_mem
    · exact has
  have hkernel : kernelStartIdx ≤ lvl1Index virt → s.owner as virt = s.kernelAs := fun hk => if_pos (hin.mpr hk)
  obtain ⟨s', hunmap, hram, -, hspaces, hwalk⟩ := h.vmUnmapPage_ok howner hv hd hkernel hsec
  refine ⟨s', ?_, fun p hp v hv => ?_, hspaces⟩
  · rw [vmUnmap]
    rw [Vm.owner] at hunmap ⊢
    split_ifs at hunmap ⊢
    · rw [h.rootPtr _ h.kernelAs_mem, ok_bind, hunmap]
      rfl
    · rw [h.rootPtr as has, ok_bind, hunmap]
      rfl
  · have hiff : p = s.owner as virt ∨ kernelStartIdx ≤ lvl1Index virt ↔ p = as ∨ Areas.kernelVirtStartAddr ≤ virt := by
      rw [kernelStartIdx_le_iff] at hin ⊢
      by_cases hk : Areas.kernelVirtStartAddr ≤ virt
      · exact iff_of_true (.inr hk) (.inr hk)
      · rw [Vm.owner, if_neg (hin.not.mpr hk)]
    rw [Vm.walk, hram.ramStart, hwalk p hp v hv, if_congr (and_congr_left' hiff) rfl rfl, Vm.walk]

end Refinement

def sharedWords (a : ℕ) : ℕ :=
  if a = 0x40003000 then CoarsePageTableEntry.makeEntry 0x40008000
  else if a = 0x40008000 then SmallPageEntry.makeEntry 0x40010000 .priviledgedOnly
  else 0

/-- A board with the kernel's address space, which maps the page at 0xc0000000, and an empty one at page 16. -/
def sharedBoard : Vm where
  pages := ⟨0x40000000, 256, fun _ => ⟨0, none⟩, fun _ => none⟩
  ramSize := 0x40000
  words := sharedWords
  kernelAs := 0

section SharedBoard

variable {a r i t : ℕ}

lemma sharedWords_ne_zero (h : sharedWords a ≠ 0) : a = 0x40003000 ∨ a = 0x40008000 := by
  unfold sharedWords at h
  split_ifs at h with h₁ h₂
  · exact .inl h₁
  · exact .inr h₂
  · exact absurd rfl h

lemma sharedRoots (hr : r ∈ pageAddr 0x40000000 '' ({0, 16} : Set ℕ)) : r = 0x40000000 ∨ r = 0x40004000 := by
  obtain ⟨p, rfl | rfl, rfl⟩ := hr
  · exact .inl rfl
  · exact .inr rfl

lemma sharedEntry (hr : r = 0x40000000 ∨ r = 0x40004000) (hi : i < lvl1Entries) (hne : sharedWords (r + 4 * i) ≠ 0) :
    r = 0x40000000 ∧ i = kernelStartIdx := by
  have ha := sharedWords_ne_zero hne
  simp only [lvl1Entries, kernelStartIdx] at hi ⊢
  omega

lemma sharedTable (hr : r = 0x40000000 ∨ r = 0x40004000) (hi : i < lvl1Entries)
    (ht : tableAt sharedWords r i = some t) :
    r = 0x40000000 ∧ i = kernelStartIdx ∧ t = 0x40008000 := by
  obtain ⟨rfl, rfl⟩ := sharedEntry hr hi (ne_zero_of_isCoarsePage (tableAt_eq_some.mp ht).1)
  exact ⟨rfl, rfl, (tableAt_eq_some.mp ht).2.symm.trans (by decide)⟩

lemma sharedBoard_rootPtr {p : ℕ} (hp : p ∈ ({0, 16} : Set ℕ)) :
    rootTablePtr sharedBoard p = .ok (pageAddr sharedBoard.pages.ramStart p) := by
  rcases hp with rfl | rfl <;>
    simp [rootTablePtr, page2addr, phys2virt, kassert, sharedBoard, add32, pageAddr, size1KB]

lemma sharedBoard_outside {S : Set ℕ} (h : ∀ a ∈ S, a < 0x40040000) :
    Outside 256 256 sharedBoard.pages.ramStart S := fun a ha => .inl (h a ha)

/-- Nothing of its memory is left to the allocator. -/
lemma sharedBoard_blocks : Blocks 256 256 sharedBoard.pages ∅ :=
  ⟨⟨fun _ => [], ⟨⟨le_rfl, by decide, ⟨fun _ => rfl, fun _ _ => rfl, fun _ => List.nodup_nil, by simp⟩,
    ⟨Library.Tiles.empty _, by simp [freeBlocks]⟩, by simp [freeBlocks]⟩, by simp, fun _ _ _ _ => rfl,
    fun _ => le_rfl⟩⟩, by decide⟩

lemma sharedBoard_spaces : Spaces sharedWords 0x40000000 (pageAddr 0x40000000 '' {0, 16}) := by
  refine ⟨⟨0, .inl rfl, rfl⟩, fun r hr r' hr' hne => ?_, fun r hr i hi => ?_, fun r hr i hk hi => ?_,
    fun r hr i hi t ht r' hr' => ?_, fun r hr i hi r' hr' i' hi' t ht ht' => ?_, fun r hr i hi t ht j hj => ?_⟩
  · have hr := sharedRoots hr
    have hr' := sharedRoots hr'
    refine Set.disjoint_left.mpr fun a ha ha' => ?_
    simp only [lvl1Bytes, Set.mem_Ico, lvl1TableSize, size1KB] at ha ha'
    omega
  · by_cases hz : sharedWords (r + 4 * i) = 0
    · exact .inl hz
    · obtain ⟨rfl, rfl⟩ := sharedEntry (sharedRoots hr) hi hz
      exact .inr (.inr (by decide))
  · rcases sharedRoots hr with rfl | rfl
    · exact .inl rfl
    · refine .inr ⟨?_, fun hsec => ?_⟩
      · by_contra hz
        exact absurd (sharedEntry (.inr rfl) hi hz).1 (by decide)
      · have hne : sharedWords (0x40000000 + 4 * i) ≠ 0 := fun hz => by
          rw [hz] at hsec
          exact absurd hsec (by decide)
        obtain ⟨-, rfl⟩ := sharedEntry (.inl rfl) hi hne
        exact absurd hsec (by decide)
  · obtain ⟨-, -, rfl⟩ := sharedTable (sharedRoots hr) hi ht
    have hr' := sharedRoots hr'
    refine Set.disjoint_left.mpr fun a ha ha' => ?_
    simp only [lvl1Bytes, lvl2Bytes, Set.mem_Ico, lvl1TableSize, lvl2TableSize, size1KB] at ha ha'
    omega
  · obtain ⟨rfl, rfl, -⟩ := sharedTable (sharedRoots hr) hi ht
    obtain ⟨rfl, rfl, -⟩ := sharedTable (sharedRoots hr') hi' ht'
    exact ⟨rfl, .inl rfl⟩
  · obtain ⟨-, -, rfl⟩ := sharedTable (sharedRoots hr) hi ht
    by_cases hz : sharedWords (0x40008000 + 4 * j) = 0
    · exact .inl hz
    · have hj : j = 0 := by
        have ha := sharedWords_ne_zero hz
        omega
      subst hj
      exact .inr (by decide)

lemma sharedBoard_mapped : MappedSpaces 256 256 sharedBoard ∅ {0, 16} := by
  refine ⟨sharedBoard_blocks, ⟨by decide, _, sharedBoard_rootPtr (.inl rfl)⟩, sharedBoard_spaces,
    fun p hp => sharedBoard_rootPtr hp, fun p hp => .inr (sharedBoard_outside fun a ha => ?_),
    fun p hp i hi t ht => ?_, fun p hp i hi t ht => .inr ?_⟩
  · have hr := sharedRoots ⟨p, hp, rfl⟩
    simp only [lvl1Bytes, Set.mem_Ico, lvl1TableSize, size1KB, sharedBoard] at ha
    omega
  · obtain ⟨-, -, rfl⟩ := sharedTable (sharedRoots ⟨p, hp, rfl⟩) hi ht
    simp [phys2virt, kassert, sharedBoard, add32]
  · obtain ⟨-, rfl, rfl⟩ := sharedTable (sharedRoots ⟨p, hp, rfl⟩) hi ht
    refine ⟨le_rfl, sharedBoard_outside fun a ha => ?_⟩
    simp only [lvl2Bytes, Set.mem_Ico, lvl2TableSize, size1KB] at ha
    omega

theorem vm_refines_partialMaps_shared :
    (∃ s', vmMap sharedBoard 16 68 0xc0001000 .priviledgedOnly = .ok s' ∧
      MapsPage sharedBoard s' {0, 16} 16 0xc0001000 0x40011000 .priviledgedOnly) ∧
    ∃ s', vmUnmap sharedBoard 16 0xc0001000 = .ok (0, s') ∧ UnmapsPage sharedBoard s' {0, 16} 16 0xc0001000 := by
  obtain ⟨hmap, hunmap, -⟩ := vm_refines_partialMaps sharedBoard_mapped (.inr rfl) (by decide : 0xc0001000 < 2 ^ 32)
    (by decide)
  obtain ⟨s', hs'⟩ := exists_of_isOk (x := vmMap sharedBoard 16 68 0xc0001000 .priviledgedOnly) (by decide +kernel)
  obtain ⟨s'', hs'', hwalk, -⟩ := hunmap (by decide +kernel)
  refine ⟨⟨s', hs', (hmap _ _ s' hs' 0x40011000 (by decide) (by decide)).1⟩, s'', ?_, hwalk⟩
  rw [hs'', show physOf (sharedBoard.walk (sharedBoard.owner 16 0xc0001000) 0xc0001000) = 0 by decide +kernel]

/-- The address space takes over the kernel's table, and with it a page that it was not asked to map; and what it does
not map itself is unmapped for the kernel. -/
theorem vm_maps_more_than_the_page :
    sharedBoard.walk 16 0xc0000000 = none ∧
    (∃ s', vmMap sharedBoard 16 68 0xc0001000 .priviledgedOnly = .ok s' ∧
      s'.walk 16 0xc0000000 = some (0x40010000, .priviledgedOnly)) ∧
    ∃ s', vmUnmap sharedBoard 16 0xc0000000 = .ok (0x40010000, s') ∧
      sharedBoard.walk 0 0xc0000000 = some (0x40010000, .priviledgedOnly) ∧ s'.walk 0 0xc0000000 = none := by
  have hmap : (vmMap sharedBoard 16 68 0xc0001000 .priviledgedOnly).map (fun s' => s'.walk 16 0xc0000000) =
      .ok (some (0x40010000, .priviledgedOnly)) := by decide +kernel
  have hunmap : (vmUnmap sharedBoard 16 0xc0000000).map (fun r => (r.1, r.2.walk 0 0xc0000000)) =
      .ok (0x40010000, none) := by decide +kernel
  refine ⟨by decide +kernel, ?_, ?_⟩
  · cases hs' : vmMap sharedBoard 16 68 0xc0001000 .priviledgedOnly with
    | error e =>
      rw [hs'] at hmap
      cases hmap
    | ok s' =>
      rw [hs'] at hmap
      exact ⟨s', rfl, Except.ok.inj hmap⟩
  · cases hs' : vmUnmap sharedBoard 16 0xc0000000 with
    | error e =>
      rw [hs'] at hunmap
      cases hunmap
    | ok r =>
      rw [hs'] at hunmap
      obtain ⟨prev, s'⟩ := r
      obtain ⟨rfl, hwalk⟩ := Prod.mk.inj (Except.ok.inj hunmap)
      exact ⟨s', rfl, by decide +kernel, hwalk⟩

end SharedBoard

end Pi0Os.Memory
