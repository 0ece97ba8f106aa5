import Pi0Os.Memory.TranslationRefinement

/-! The map of the kernel area, which all address spaces share: what `vm_map_page` and `vm_unmap` make of one page
of it. -/

namespace Pi0Os.Memory

open Kernel Library PageAllocator

/-- What the kernel reaches at an address while `as` is the current address space. A first-level entry of the kernel
area that `as` lacks is that of the kernel's table, from which `vm_try_fix_page_fault` takes it. -/
def Vm.sees (s : Vm) (as virt : ℕ) : Option (ℕ × PageAccessPermissions) :=
  if Areas.kernelVirtStartAddr ≤ virt ∧ s.lvl1Entry as virt = 0 then s.walk s.kernelAs virt else s.walk as virt

/-- The pages of the kernel area with the numbers `numbers` have become `page`; all others are as they were. -/
structure SetsPages (s s' : Vm) (roots : Set ℕ) (numbers : Finset ℕ) (page : ℕ → Option (ℕ × PageAccessPermissions)) :
    Prop where
  ram : s.SameRam s'
  entries : KeepsEntries roots s s'
  kernel : ∀ v < 2 ^ 32, s'.walk s.kernelAs v = if v / size4KB ∈ numbers then page v else s.walk s.kernelAs v
  user : ∀ p ∈ roots, ∀ v < Areas.kernelVirtStartAddr, s'.walk p v = s.walk p v

section KeepsEntries

variable {s s' s'' : Vm} {roots : Set ℕ} {p virt : ℕ}

lemma KeepsEntries.refl (roots : Set ℕ) (s : Vm) : KeepsEntries roots s s := fun _ _ _ _ => .inl rfl

lemma KeepsEntries.kept (h : KeepsEntries roots s s') (hram : s.SameRam s') (hp : p ∈ roots) (hv : virt < 2 ^ 32)
    (hne : s.lvl1Entry p virt ≠ 0) : s'.lvl1Entry p virt = s.lvl1Entry p virt := by
  rw [Vm.lvl1Entry, hram.ramStart]
  exact (h p hp _ (lvl1Index_lt_entries hv)).resolve_right fun hz => hne hz.1

lemma KeepsEntries.not_section (h : KeepsEntries roots s s') (hram : s.SameRam s') (hp : p ∈ roots) (hv : virt < 2 ^ 32)
    (hsec : ¬ isSection (s.lvl1Entry p virt)) : ¬ isSection (s'.lvl1Entry p virt) := by
  rw [Vm.lvl1Entry, hram.ramStart]
  rcases h p hp _ (lvl1Index_lt_entries hv) with he | ⟨-, hc⟩
  · rw [he]
    exact hsec
  · exact not_isSection_of_isCoarsePage hc

lemma KeepsEntries.trans (h : KeepsEntries roots s s') (h' : KeepsEntries roots s' s'') (hram : s.SameRam s') :
    KeepsEntries roots s s'' := by
  intro p hp i hi
  have h' := h' p hp i hi
  rw [hram.ramStart] at h'
  rcases h p hp i hi with he | ⟨hz, hc⟩
  · rwa [he] at h'
  · refine .inr ⟨hz, ?_⟩
    rw [h'.resolve_right fun hz' => ne_zero_of_isCoarsePage hc hz'.1]
    exact hc

lemma SetsPages.refl (s : Vm) (roots : Set ℕ) (page : ℕ → Option (ℕ × PageAccessPermissions)) :
    SetsPages s s roots ∅ page :=
  ⟨.refl s, .refl roots s, fun _ _ => (if_neg (Finset.notMem_empty _)).symm, fun _ _ _ _ => rfl⟩

lemma SetsPages.trans {numbers numbers' : Finset ℕ} {page page' : ℕ → Option (ℕ × PageAccessPermissions)}
    (h : SetsPages s s' roots numbers page) (h' : SetsPages s' s'' roots numbers' page')
    (hpage : ∀ v, v / size4KB ∈ numbers' → page' v = page v) : SetsPages s s'' roots (numbers ∪ numbers') page := by
  refine ⟨h.ram.trans h'.ram, h.entries.trans h'.entries h.ram, fun v hv => ?_, fun p hp v hu =>
    (h'.user p hp v hu).trans (h.user p hp v hu)⟩
  have hlast := h'.kernel v hv
  rw [h.ram.kernelAs, h.kernel v hv] at hlast
  simp only [hlast, Finset.mem_union]
  by_cases hin : v / size4KB ∈ numbers'
  · rw [if_pos hin, if_pos (.inr hin), hpage v hin]
  · simp only [hin, if_false, or_false]

end KeepsEntries

namespace MappedSpaces

variable {first limit as virt a p t : ℕ} {s s' : Vm} {live : Finset Block} {roots : Set ℕ}
  {perm : PageAccessPermissions}

/-- In the kernel area all spaces see the kernel's map, elsewhere their own. -/
lemma sees_eq (h : MappedSpaces first limit s live roots) (hp : p ∈ roots) (hv : virt < 2 ^ 32) :
    s.sees p virt = if Areas.kernelVirtStartAddr ≤ virt then s.walk s.kernelAs virt else s.walk p virt := by
  rw [Vm.sees]
  by_cases hk : Areas.kernelVirtStartAddr ≤ virt
  · rw [if_pos hk]
    by_cases hz : s.lvl1Entry p virt = 0
    · rw [if_pos ⟨hk, hz⟩]
    · rw [if_neg fun hc => hz hc.2, Vm.walk, h.spaces.walk_kernel (mem_roots hp) (kernelStartIdx_le_iff.mpr hk) hv]
      exact if_neg hz
  · rw [if_neg hk, if_neg fun hc => hk hc.1]

/-- A space with a first-level entry for it has the kernel's map. -/
lemma walk_eq_kernel (h : MappedSpaces first limit s live roots) (hp : p ∈ roots) (hv : virt < 2 ^ 32)
    (hk : Areas.kernelVirtStartAddr ≤ virt) :
    s.walk p virt = if s.lvl1Entry p virt = 0 then none else s.walk s.kernelAs virt :=
  h.spaces.walk_kernel (mem_roots hp) (kernelStartIdx_le_iff.mpr hk) hv

lemma store_entry (h : MappedSpaces first limit s live roots) (has : as ∈ roots) {i : ℕ} (hi : i < lvl1Entries)
    (ht : tableAt s.words (pageAddr s.pages.ramStart as) i = some t) {j v : ℕ} (hj : j < lvl2Entries) :
    KeepsEntries roots s (s.store (t + 4 * j) v) := fun _ hp _ hi' =>
  .inl (Function.update_of_ne
    (entry_ne_page (h.spaces.table_apart _ (mem_roots has) i hi t ht _ (mem_roots hp)) hi' hj) _ _)

lemma mapKernelPage (h : MappedSpaces first limit s live roots) (has : as ∈ roots) (hv : virt < 2 ^ 32)
    (hd : size4KB ∣ virt) (hk : Areas.kernelVirtStartAddr ≤ virt) (had : size4KB ∣ a) (hlt : a < 2 ^ 32)
    (hm : vmMapPage (pageAddr s.pages.ramStart as) a virt perm s = .ok s') :
    ∃ live', MappedSpaces first limit s' live' roots ∧ live ⊆ live' ∧ (∀ b ∈ live', b ∉ live → b.order = .kb1) ∧
      (∀ b ∈ live, s'.pages.refCount b.head = s.pages.refCount b.head) ∧
      SetsPages s s' roots {virt / size4KB} (fun v => some (a + v % size4KB, perm)) ∧ s'.lvl1Entry as virt ≠ 0 := by
  obtain ⟨t, s₁, live', hready, hkept, -, rfl⟩ := h.vmMapPage_ready has hv hd hm
  obtain ⟨hmaps, hmapped⟩ := h.mapsPage_ready has hv hready had hlt
  have hi := lvl1Index_lt_entries hv
  have hr := hready.ram.ramStart
  have hstored : KeepsEntries roots s₁ (s₁.store (t + 4 * lvl2Index virt) (SmallPageEntry.makeEntry a perm)) :=
    hready.mapped.store_entry has hi (hr ▸ hready.table) (lvl2Index_lt virt)
  have hram := hready.ram.trans (Vm.SameRam.store s₁ (t + 4 * lvl2Index virt) (SmallPageEntry.makeEntry a perm))
  refine ⟨live', hmapped, hready.sub, hready.order, hready.counts,
    ⟨hram, hkept.trans hstored hready.ram, fun v hv => ?_, fun p hp v hu => ?_⟩, ?_⟩
  · rw [hmaps.kernel hk v hv, if_congr Finset.mem_singleton rfl rfl]
  · have hidx : lvl1Index v ≠ lvl1Index virt := by
      simp only [lvl1Index, Areas.kernelVirtStartAddr] at hu hk ⊢
      omega
    have hv : v < 2 ^ 32 := hu.trans (by decide)
    by_cases hpk : p = s.kernelAs
    · rw [hpk, hmaps.kernel hk v hv, if_neg fun hc => hidx (samePage_iff.mp hc).1]
    · rw [hmaps.view hk p hp hpk v hv, if_neg fun hc => hidx hc.1]
  · have hne : s₁.lvl1Entry as virt ≠ 0 := by
      rw [Vm.lvl1Entry, hr]
      exact ne_zero_of_isCoarsePage (tableAt_eq_some.mp hready.table).1
    rw [hstored.kept (.store s₁ _ _) has hv hne]
    exact hne

/-- In the kernel area an emptied table stays. -/
lemma vmUnmapPage_cases (h : MappedSpaces first limit s live roots) (hp : p ∈ roots) (hv : virt < 2 ^ 32)
    (hin : Areas.kernelArea.Contains virt) (hu : vmUnmapPage (pageAddr s.pages.ramStart p) virt s = .ok (a, s')) :
    s' = s ∨ ∃ t, tableAt s.words (pageAddr s.pages.ramStart p) (lvl1Index virt) = some t ∧
      s' = s.store (t + 4 * lvl2Index virt) 0 := by
  obtain ⟨hsec, hu⟩ := panicIf_bind_eq_ok.mp hu
  split_ifs at hu with hz
  · cases hu
    exact .inl rfl
  · obtain ⟨t, ht, hu⟩ := bind_eq_ok.mp hu
    obtain rfl := phys2virt_eq ht
    dsimp only at hu
    split_ifs at hu
    · cases hu
      exact .inl rfl
    · obtain ⟨s₁, hdrop, hu⟩ := bind_eq_ok.mp hu
      rw [dropLvl2Table, if_neg fun hc => hc.1 hin] at hdrop
      cases hdrop
      cases hu
      have hc := ((h.spaces.entry _ (mem_roots hp) _ (lvl1Index_lt_entries hv)).resolve_left hz).resolve_left hsec
      exact .inr ⟨_, tableAt_eq_some.mpr ⟨hc, rfl⟩, rfl⟩

lemma unmapKernelPage (h : MappedSpaces first limit s live roots) (hv : virt < 2 ^ 32) (hd : size4KB ∣ virt)
    (hk : Areas.kernelVirtStartAddr ≤ virt) (hsec : ¬ isSection (s.lvl1Entry s.kernelAs virt)) (as : ℕ) :
    ∃ s', vmUnmap s as virt = .ok (physOf (s.walk s.kernelAs virt), s') ∧ MappedSpaces first limit s' live roots ∧
      s'.pages = s.pages ∧ SetsPages s s' roots {virt / size4KB} (fun _ => none) := by
  have hidx := kernelStartIdx_le_iff.mpr hk
  have hin := (contains_iff hv hd).mpr hidx
  obtain ⟨s', hunmap, hram, hkernel, -, hwalk⟩ := h.vmUnmapPage_ok h.kernelAs_mem hv hd (fun _ => rfl) hsec
  obtain ⟨hmapped, hpages⟩ := hkernel hidx
  have hwalk' {p v : ℕ} (hp : p ∈ roots) (hv : v < 2 ^ 32) : s'.walk p v =
      if (p = s.kernelAs ∨ kernelStartIdx ≤ lvl1Index virt) ∧ v / size4KB = virt / size4KB then none
      else s.walk p v := by
    rw [Vm.walk, hram.ramStart]
    exact hwalk p hp v hv
  refine ⟨s', ?_, hmapped, hpages, hram, ?_, fun v hv => ?_, fun p hp v hu => ?_⟩
  · rw [vmUnmap, if_pos hin, h.rootPtr _ h.kernelAs_mem, ok_bind, hunmap]
    rfl
  · rcases h.vmUnmapPage_cases h.kernelAs_mem hv hin hunmap with rfl | ⟨t, ht, rfl⟩
    · exact .refl roots _
    · exact h.store_entry h.kernelAs_mem (lvl1Index_lt_entries hv) ht (lvl2Index_lt virt)
  · rw [hwalk' h.kernelAs_mem hv]
    simp only [true_or, true_and, Finset.mem_singleton]
  · refine (hwalk' hp (hu.trans (by decide))).trans (if_neg fun hc => ?_)
    simp only [size4KB, Areas.kernelVirtStartAddr] at hc hu hk
    omega

end MappedSpaces

section Ranges

variable {first limit as virt phys n : ℕ} {s s' : Vm} {live : Finset Block} {roots : Set ℕ}

/-- The numbers of `n` pages from `virt` on. -/
def pageRange (virt n : ℕ) : Finset ℕ := Finset.Ico (virt / size4KB) (virt / size4KB + n)

lemma pageRange_succ (hd : size4KB ∣ virt) : pageRange virt (n + 1) = pageRange virt n ∪
    {(virt + n * size4KB) / size4KB} := by
  ext x
  simp only [pageRange, Finset.mem_union, Finset.mem_Ico, Finset.mem_singleton, size4KB] at hd ⊢
  omega

lemma mem_pageRange (hd : size4KB ∣ virt) {i : ℕ} (hi : i < n) : (virt + i * size4KB) / size4KB ∈ pageRange virt n := by
  simp only [pageRange, Finset.mem_Ico, size4KB] at hd ⊢
  omega

lemma notMem_pageRange (hd : size4KB ∣ virt) : (virt + n * size4KB) / size4KB ∉ pageRange virt n := by
  simp only [pageRange, Finset.mem_Ico, size4KB] at hd ⊢
  omega

/-- One page of the loop of `vm_map_mmio`. -/
def mapDevicePage (as physAddr virtAddr : ℕ) (s : Vm) (i : ℕ) : Except Panic Vm := do
  vmMapPage (← rootTablePtr s as) (add32 physAddr (i * size4KB)) (add32 virtAddr (i * size4KB)) .priviledgedOnly s

lemma foldlM_range_succ {α : Type} {f : α → ℕ → Except Panic α} {a c : α} :
    (List.range (n + 1)).foldlM f a = .ok c ↔ ∃ b, (List.range n).foldlM f a = .ok b ∧ f b n = .ok c := by
  simp only [List.range_succ, List.foldlM_append, List.foldlM_cons, List.foldlM_nil, bind_pure, bind_eq_ok]

lemma MappedSpaces.mapRange (h : MappedSpaces first limit s live roots) (has : as ∈ roots) (hd : size4KB ∣ virt)
    (hdp : size4KB ∣ phys) (hk : Areas.kernelVirtStartAddr ≤ virt) (hv : virt + n * size4KB ≤ 2 ^ 32)
    (hp : phys + n * size4KB ≤ 2 ^ 32) (hm : (List.range n).foldlM (mapDevicePage as phys virt) s = .ok s') :
    (∃ live', MappedSpaces first limit s' live' roots) ∧
      SetsPages s s' roots (pageRange virt n) (fun v => some (phys + (v - virt), .priviledgedOnly)) ∧
      ∀ i < n, s'.lvl1Entry as (virt + i * size4KB) ≠ 0 := by
  induction n generalizing s' with
  | zero =>
    cases hm
    have hnone : pageRange virt 0 = ∅ := Finset.Ico_self _
    exact ⟨⟨live, h⟩, hnone ▸ .refl s roots _, fun i hi => absurd hi (Nat.not_lt_zero i)⟩
  | succ n ih =>
    obtain ⟨s₁, hloop, hm⟩ := foldlM_range_succ.mp hm
    rw [Nat.succ_mul] at hv hp
    have hle (x : ℕ) : x + n * size4KB ≤ x + (n * size4KB + size4KB) := Nat.add_le_add_left (Nat.le_add_right _ _) x
    obtain ⟨⟨live₁, h₁⟩, hsets, hpresent⟩ := ih ((hle _).trans hv) ((hle _).trans hp) hloop
    have hlt : virt + n * size4KB < 2 ^ 32 := by
      simp only [size4KB] at hv ⊢
      omega
    have hltp : phys + n * size4KB < 2 ^ 32 := by
      simp only [size4KB] at hp ⊢
      omega
    have hmul : size4KB ∣ n * size4KB := Dvd.intro_left n rfl
    rw [mapDevicePage, h₁.rootPtr as has, ok_bind, add32_of_lt hlt, add32_of_lt hltp] at hm
    obtain ⟨live₂, h₂, -, -, -, hset, hentry⟩ := h₁.mapKernelPage has hlt (hd.add hmul)
      (hk.trans (Nat.le_add_right _ _))
      (hdp.add hmul) hltp hm
    refine ⟨⟨live₂, h₂⟩, ?_, fun i hi => ?_⟩
    · rw [pageRange_succ hd]
      refine hsets.trans hset fun v hin => ?_
      have hoff : phys + n * size4KB + v % size4KB = phys + (v - virt) := by
        rw [Finset.mem_singleton] at hin
        simp only [size4KB] at hin hd ⊢
        omega
      rw [hoff]
    · rcases Nat.lt_succ_iff_lt_or_eq.mp hi with hi | rfl
      · have hlti : virt + i * size4KB < 2 ^ 32 :=
          (Nat.add_le_add_left (Nat.mul_le_mul_right _ hi.le) _).trans_lt hlt
        exact (hset.entries.kept hset.ram has hlti (hpresent i hi)).trans_ne (hpresent i hi)
      · exact hentry

/-- One page of the loop of `iounmap`. -/
def unmapDevicePage (as virtAddr : ℕ) (s : Vm) (i : ℕ) : Except Panic Vm := do
  let (previouslyMapped, s) ← vmUnmap s as (add32 virtAddr (i * size4KB))
  kassert "previously_mapped_address != 0" (previouslyMapped ≠ 0)
  return s

/-- The cell of the second-level entry for an address. -/
def Vm.cell (s : Vm) (as virt : ℕ) : ℕ := CoarsePageTableEntry.baseAddress (s.lvl1Entry as virt) + 4 * lvl2Index virt

lemma not_isSection_of_walk {p v : ℕ} (h : s.walk p v = none) : ¬ isSection (s.lvl1Entry p v) := by
  intro hsec
  rw [Vm.walk, armWalk] at h
  exact absurd ((if_pos hsec).symm.trans h) (by simp)

/-- An entry that maps nothing is 0. -/
lemma MappedSpaces.cell_zero (h : MappedSpaces first limit s live roots) {p : ℕ} (hp : p ∈ roots) (hv : virt < 2 ^ 32)
    (hne : s.lvl1Entry p virt ≠ 0) (hwalk : s.walk p virt = none) : s.words (s.cell p virt) = 0 := by
  have hi := lvl1Index_lt_entries hv
  have hc := ((h.spaces.entry _ (mem_roots hp) _ hi).resolve_left hne).resolve_left (not_isSection_of_walk hwalk)
  have ht := tableAt_eq_some.mpr ⟨hc, rfl⟩
  rw [Vm.walk, armWalk_table ht] at hwalk
  refine (h.spaces.page _ (mem_roots hp) _ hi _ ht _ (lvl2Index_lt virt)).resolve_right fun hge => ?_
  rw [lvl2Translation, if_neg (by omega), if_neg (by omega)] at hwalk
  cases hwalk

lemma MappedSpaces.unmapRange (h : MappedSpaces first limit s live roots) (hd : size4KB ∣ virt)
    (hk : Areas.kernelVirtStartAddr ≤ virt) (hv : virt + n * size4KB ≤ 2 ^ 32)
    (hsec : ∀ i < n, ¬ isSection (s.lvl1Entry s.kernelAs (virt + i * size4KB))) (as : ℕ) :
    (∀ i < n, physOf (s.walk s.kernelAs (virt + i * size4KB)) ≠ 0) ∧
      (∃ s', (List.range n).foldlM (unmapDevicePage as virt) s = .ok s' ∧ MappedSpaces first limit s' live roots ∧
        s'.pages = s.pages ∧ SetsPages s s' roots (pageRange virt n) (fun _ => none)) ∨
    (¬ ∀ i < n, physOf (s.walk s.kernelAs (virt + i * size4KB)) ≠ 0) ∧
      ∀ s', (List.range n).foldlM (unmapDevicePage as virt) s ≠ .ok s' := by
  induction n with
  | zero =>
    have hnone : pageRange virt 0 = ∅ := Finset.Ico_self _
    exact .inl ⟨fun i hi => absurd hi (Nat.not_lt_zero i), s, rfl, h, rfl, hnone ▸ .refl s roots _⟩
  | succ n ih =>
    rw [Nat.succ_mul] at hv
    have hle : virt + n * size4KB ≤ virt + (n * size4KB + size4KB) := Nat.add_le_add_left (Nat.le_add_right _ _) _
    have hlt : virt + n * size4KB < 2 ^ 32 := by
      simp only [size4KB] at hv ⊢
      omega
    rcases ih (hle.trans hv) (fun i hi => hsec i (hi.trans (Nat.lt_succ_self n))) with
      ⟨hpos, s₁, hloop, h₁, hpages, hsets⟩ | ⟨hzero, hloop⟩
    · have hdn : size4KB ∣ virt + n * size4KB := hd.add (Dvd.intro_left n rfl)
      have hsec₁ : ¬ isSection (s₁.lvl1Entry s₁.kernelAs (virt + n * size4KB)) := by
        rw [hsets.ram.kernelAs]
        exact hsets.entries.not_section hsets.ram h.kernelAs_mem hlt (hsec n (Nat.lt_succ_self n))
      obtain ⟨s₂, hunmap, h₂, hpages₂, hset⟩ := h₁.unmapKernelPage hlt hdn (hk.trans (Nat.le_add_right _ _)) hsec₁ as
      have hwalk : s₁.walk s₁.kernelAs (virt + n * size4KB) = s.walk s.kernelAs (virt + n * size4KB) := by
        rw [hsets.ram.kernelAs, hsets.kernel _ hlt, if_neg (notMem_pageRange hd)]
      rw [hwalk] at hunmap
      have hstep : unmapDevicePage as virt s₁ n = (do
          kassert "previously_mapped_address != 0" (physOf (s.walk s.kernelAs (virt + n * size4KB)) ≠ 0)
          return s₂) := by rw [unmapDevicePage, add32_of_lt hlt, hunmap]; rfl
      by_cases hn : physOf (s.walk s.kernelAs (virt + n * size4KB)) = 0
      · refine .inr ⟨fun hall => hall n (Nat.lt_succ_self n) hn, fun s' hs' => ?_⟩
        obtain ⟨s₁', hloop', hs'⟩ := foldlM_range_succ.mp hs'
        obtain rfl := Except.ok.inj (hloop.symm.trans hloop')
        rw [hstep] at hs'
        exact (kassert_bind_eq_ok.mp hs').1 hn
      · refine .inl ⟨fun i hi => ?_, s₂, ?_, h₂, hpages₂.trans hpages, ?_⟩
        · rcases Nat.lt_succ_iff_lt_or_eq.mp hi with hi | rfl
          · exact hpos i hi
          · exact hn
        · refine foldlM_range_succ.mpr ⟨s₁, hloop, ?_⟩
          rw [hstep, kassert_of hn]
          rfl
        · rw [pageRange_succ hd]
          exact hsets.trans hset fun _ _ => rfl
    · refine .inr ⟨fun hall => hzero fun i hi => hall i (hi.trans (Nat.lt_succ_self n)), fun s' hs' => ?_⟩
      obtain ⟨s₁, hloop', -⟩ := foldlM_range_succ.mp hs'
      exact hloop s₁ hloop'

lemma KeepsEntries.cell (h : KeepsEntries roots s s') (hram : s.SameRam s') {p : ℕ} (hp : p ∈ roots)
    (hv : virt < 2 ^ 32)
    (hne : s.lvl1Entry p virt ≠ 0) : s'.cell p virt = s.cell p virt := by
  rw [Vm.cell, h.kept hram hp hv hne, Vm.cell]

/-- Where the tables are there already, mapping writes the entries only. -/
lemma MappedSpaces.mapRange_cells (h : MappedSpaces first limit s live roots) (has : as ∈ roots) (hd : size4KB ∣ virt)
    (hdp : size4KB ∣ phys) (hk : Areas.kernelVirtStartAddr ≤ virt) (hv : virt + n * size4KB ≤ 2 ^ 32)
    (hp : phys + n * size4KB ≤ 2 ^ 32) (hpresent : ∀ i < n, s.lvl1Entry as (virt + i * size4KB) ≠ 0)
    (hm : (List.range n).foldlM (mapDevicePage as phys virt) s = .ok s') :
    s'.pages = s.pages ∧ ∀ a, (∀ i < n, a ≠ s.cell as (virt + i * size4KB)) → s'.words a = s.words a := by
  induction n generalizing s' with
  | zero =>
    cases hm
    exact ⟨rfl, fun _ _ => rfl⟩
  | succ n ih =>
    obtain ⟨s₁, hloop, hm⟩ := foldlM_range_succ.mp hm
    rw [Nat.succ_mul] at hv hp
    have hle (x : ℕ) : x + n * size4KB ≤ x + (n * size4KB + size4KB) := Nat.add_le_add_left (Nat.le_add_right _ _) x
    have hn := Nat.lt_succ_self n
    obtain ⟨hpages, hwords⟩ := ih ((hle _).trans hv) ((hle _).trans hp) (fun i hi => hpresent i (hi.trans hn)) hloop
    obtain ⟨⟨live₁, h₁⟩, hsets, -⟩ := h.mapRange has hd hdp hk ((hle _).trans hv) ((hle _).trans hp) hloop
    have hlt : virt + n * size4KB < 2 ^ 32 := by
      simp only [size4KB] at hv ⊢
      omega
    have hentry := (hsets.entries.kept hsets.ram has hlt (hpresent n hn)).trans_ne (hpresent n hn)
    have hcell := hsets.entries.cell hsets.ram has hlt (hpresent n hn)
    rw [mapDevicePage, h₁.rootPtr as has, ok_bind, add32_of_lt hlt] at hm
    obtain ⟨⟨new, s₂⟩, hfill, hm⟩ := bind_eq_ok.mp hm
    obtain ⟨table, htable, hm⟩ := bind_eq_ok.mp hm
    obtain ⟨-, hm⟩ := panicIf_bind_eq_ok.mp hm
    obtain rfl := Except.ok.inj hm
    obtain rfl := phys2virt_eq htable
    obtain ⟨-, ⟨rfl, -, rfl⟩ | ⟨-, hz, -⟩ | ⟨-, hz, -⟩⟩ :=
      fillLvl1Entry_cases h₁.blocks (h₁.rootPtr _ h₁.kernelAs_mem) hfill
    · refine ⟨hpages, fun a ha => ?_⟩
      have hne : a ≠ s₂.cell as (virt + n * size4KB) := by
        rw [hcell]
        exact ha n hn
      exact (Function.update_of_ne hne _ _).trans (hwords a fun i hi => ha i (hi.trans hn))
    · exact absurd hz hentry
    · exact absurd hz hentry

lemma MappedSpaces.unmapRange_cells (h : MappedSpaces first limit s live roots) (hd : size4KB ∣ virt)
    (hk : Areas.kernelVirtStartAddr ≤ virt) (hv : virt + n * size4KB ≤ 2 ^ 32)
    (hsec : ∀ i < n, ¬ isSection (s.lvl1Entry s.kernelAs (virt + i * size4KB)))
    (hpresent : ∀ i < n, s.lvl1Entry s.kernelAs (virt + i * size4KB) ≠ 0)
    (hu : (List.range n).foldlM (unmapDevicePage as virt) s = .ok s') :
    ∀ a, (∀ i < n, a ≠ s.cell s.kernelAs (virt + i * size4KB)) → s'.words a = s.words a := by
  induction n generalizing s' with
  | zero =>
    cases hu
    exact fun _ _ => rfl
  | succ n ih =>
    obtain ⟨s₁, hloop, hu⟩ := foldlM_range_succ.mp hu
    rw [Nat.succ_mul] at hv
    have hle : virt + n * size4KB ≤ virt + (n * size4KB + size4KB) := Nat.add_le_add_left (Nat.le_add_right _ _) _
    have hn := Nat.lt_succ_self n
    have hsec' : ∀ i < n, ¬ isSection (s.lvl1Entry s.kernelAs (virt + i * size4KB)) := fun i hi => hsec i (hi.trans hn)
    have hwords := ih (hle.trans hv) hsec' (fun i hi => hpresent i (hi.trans hn)) hloop
    have hlt : virt + n * size4KB < 2 ^ 32 := by
      simp only [size4KB] at hv ⊢
      omega
    rcases h.unmapRange hd hk (hle.trans hv) hsec' as with ⟨-, s₁', hloop', h₁, -, hsets⟩ | ⟨-, hno⟩
    · obtain rfl := Except.ok.inj (hloop'.symm.trans hloop)
      have hcell := hsets.entries.cell hsets.ram h.kernelAs_mem hlt (hpresent n hn)
      have hin : Areas.kernelArea.Contains (virt + n * size4KB) :=
        (contains_iff hlt (hd.add (Dvd.intro_left n rfl))).mpr
          (kernelStartIdx_le_iff.mpr (hk.trans (Nat.le_add_right _ _)))
      rw [unmapDevicePage, add32_of_lt hlt, vmUnmap, if_pos hin, h₁.rootPtr _ h₁.kernelAs_mem, ok_bind] at hu
      obtain ⟨⟨prev, s₂⟩, hunmap, hu⟩ := bind_eq_ok.mp hu
      obtain ⟨-, hu⟩ := kassert_bind_eq_ok.mp hu
      cases hu
      intro a ha
      rcases h₁.vmUnmapPage_cases h₁.kernelAs_mem hlt hin hunmap with rfl | ⟨t, ht, rfl⟩
      · exact hwords a fun i hi => ha i (hi.trans hn)
      · have hne : a ≠ t + 4 * lvl2Index (virt + n * size4KB) := by
          rw [← (tableAt_eq_some.mp ht).2]
          have hne := ha n hn
          rw [← hcell, Vm.cell, ← hsets.ram.kernelAs] at hne
          exact hne
        exact (Function.update_of_ne hne _ _).trans (hwords a fun i hi => ha i (hi.trans hn))
    · exact absurd hloop (hno s₁)

end Ranges

end Pi0Os.Memory
