import Pi0Os.Memory.KernelPages
import Pi0Os.Memory.OwnershipSteps

/-! `vm_map`, `vm_unmap` and `vm_try_fix_page_fault` on the owned address spaces. -/

namespace Pi0Os.Memory

open Kernel Library PageAllocator MappedSpaces

lemma KeepsFrames.of_sameTable {s s' : Vm} {p : ℕ} (hr : s'.pages.ramStart = s.pages.ramStart)
    (h : ∀ i < kernelStartIdx, SameTable (pageAddr s.pages.ramStart p) s.words s'.words i) : KeepsFrames s s' p := by
  intro i hi j hj f hf
  rw [Vm.frameOf, hr] at hf
  exact ((h i hi).frame hj).symm.trans hf

namespace QuietStep

variable {first limit as i t j v q virt : ℕ} {s s' : Vm} {live live' : Finset Block} {roots : Finset ℕ}
variable {pages : PageAllocator}

lemma refl (h : MappedSpaces first limit s live roots) : QuietStep first limit s s live live roots :=
  .of_sameTables h (.refl s) rfl fun _ _ _ _ => ⟨rfl, fun _ _ _ _ => rfl⟩

/-- A space takes over the kernel's entry. -/
lemma share (h : MappedSpaces first limit s live roots) (has : as ∈ roots) (hk : kernelStartIdx ≤ i)
    (hi : i < lvl1Entries) (hz : s.words (pageAddr s.pages.ramStart as + 4 * i) = 0)
    (hne : s.words (pageAddr s.pages.ramStart s.kernelAs + 4 * i) ≠ 0) :
    QuietStep first limit s
      (s.store (pageAddr s.pages.ramStart as + 4 * i) (s.words (pageAddr s.pages.ramStart s.kernelAs + 4 * i)))
      live live roots := by
  have hsame {p i' : ℕ} (hp : p ∈ roots) (hi' : i' < lvl1Entries) (hother : as ≠ p ∨ i ≠ i') :
      SameTable (pageAddr s.pages.ramStart p) s.words (Function.update s.words (pageAddr s.pages.ramStart as + 4 * i)
        (s.words (pageAddr s.pages.ramStart s.kernelAs + 4 * i))) i' := by
    have hother := hother.imp_left (pageAddr_injective s.pages.ramStart).ne
    exact ⟨h.spaces.update_entry (mem_roots has) hi (mem_roots hp) hi' hother, fun t ht j hj =>
      h.spaces.update_table (mem_roots has) hi (mem_roots hp) hi' ht hj⟩
  refine ⟨(h.ready_shared has hk hi hz hne).mapped, .store s _ _, Finset.Subset.refl _, fun _ _ => rfl,
    fun p hp => .of_sameTable rfl fun i' hi' => hsame hp (lt_lvl1Entries hi') (.inr (hi'.trans_le hk).ne'),
    fun i' _ hi' t' ht' => .inl ?_⟩
  have hkernel : as ≠ s.kernelAs := fun he => hne (he ▸ hz)
  exact (hsame h.kernelAs_mem hi' (.inl hkernel)).table.symm.trans ht'

/-- A new table without entries. -/
lemma attach {inKernel : Prop} [Decidable inKernel] (h : MappedSpaces first limit s live roots) (has : as ∈ roots)
    (hi : i < lvl1Entries) (hin : inKernel ↔ kernelStartIdx ≤ i)
    (hz : s.words (pageAddr s.pages.ramStart as + 4 * i) = 0)
    (hkz : kernelStartIdx ≤ i → s.words (pageAddr s.pages.ramStart s.kernelAs + 4 * i) = 0)
    (ha : physicalPageAlloc .kb1 s.pages = .ok (some q, pages)) :
    QuietStep first limit s { s with
      pages := pages
      words := attachedWords s.words inKernel (pageAddr s.pages.ramStart as) (pageAddr s.pages.ramStart s.kernelAs) i
        (pageAddr s.pages.ramStart q) } live (insert ⟨q, .kb1⟩ live) roots := by
  have hready := h.ready_attached has hi hin hz hkz ha
  have hatt := h.attached has hi hin hz hkz ha
  have halloc := QuietStep.alloc h ha
  have hr : pages.ramStart = s.pages.ramStart := halloc.ram.ramStart
  generalize attachedWords s.words inKernel _ _ _ _ = m at *
  have hcases {p i' : ℕ} (hp : p ∈ roots) (hi' : i' < lvl1Entries) :
      tableAt m (pageAddr s.pages.ramStart p) i' = some (pageAddr s.pages.ramStart q) ∨
        tableAt m (pageAddr s.pages.ramStart p) i' = tableAt s.words (pageAddr s.pages.ramStart p) i' := by
    rcases hatt.cases (mem_roots hp) hi' with ⟨-, hnew, -⟩ | hsame
    · refine .inl (tableAt_eq_some.mpr ?_)
      rw [hnew]
      exact ⟨CoarsePageTableEntry.isCoarsePage_makeEntry _,
        CoarsePageTableEntry.baseAddress_makeEntry hatt.aligned hatt.lt⟩
    · exact .inr (by rw [tableAt, hsame, tableAt])
  refine ⟨hready.mapped, hready.ram, hready.sub, halloc.counts, fun p hp i' hi' j hj f hf => ?_,
    fun i' _ hi' t' ht' => ?_⟩
  · rw [Vm.frameOf, hr] at hf
    dsimp only at hf
    obtain ⟨t, ht, hframe⟩ := Option.bind_eq_some_iff.mp hf
    rcases hcases hp (lt_lvl1Entries hi') with hnew | hsame
    · obtain rfl := Option.some.inj (hnew.symm.trans ht)
      rw [frameIn, if_pos (hatt.zeroed j hj)] at hframe
      cases hframe
    · rw [hsame] at ht
      rw [Vm.frameOf_of_table ht, ← hframe]
      exact (frameIn_congr (hatt.page _ (mem_roots hp) i' (lt_lvl1Entries hi') t ht j hj)).symm
  · rw [Vm.tableOf, hr] at ht'
    rcases hcases h.kernelAs_mem hi' with hnew | hsame
    · exact .inr ⟨q, Finset.mem_insert_self _ _, Option.some.inj (ht'.symm.trans hnew)⟩
    · exact .inl (hsame.symm.trans ht')

/-- A second-level entry of the kernel area is written. -/
lemma storeKernel (h : MappedSpaces first limit s live roots) (has : as ∈ roots) (hk : kernelStartIdx ≤ i)
    (hi : i < lvl1Entries) (ht : s.tableOf as i = some t) (hj : j < lvl2Entries) (hv : v = 0 ∨ 2 ≤ v % 4) :
    QuietStep first limit s (s.store (t + 4 * j) v) live live roots := by
  have htable {p i' : ℕ} (hp : p ∈ roots) (hi' : i' < lvl1Entries) := h.tableOf_store (v := v) has hi ht hj hp hi'
  refine ⟨h.store_page has hi ht hj hv, .store s _ _, Finset.Subset.refl _, fun _ _ => rfl,
    fun p hp i' hi' j' hj' f hf => ?_, fun i' _ hi' t' ht' => .inl ((htable h.kernelAs_mem hi').symm.trans ht')⟩
  have htable' := htable hp (lt_lvl1Entries hi')
  cases ht' : s.tableOf p i' with
  | none =>
    rw [Vm.frameOf_of_noTable (htable'.trans ht')] at hf
    cases hf
  | some t' =>
    rw [Vm.frameOf_of_table (htable'.trans ht')] at hf
    rw [Vm.frameOf_of_table ht', ← hf]
    refine (frameIn_congr (Function.update_of_ne (fun he => ?_) _ _)).symm
    obtain ⟨rfl, -⟩ := page_eq (dvd_tableAt ht') (dvd_tableAt ht) hj' hj he
    obtain ⟨rfl, -⟩ := h.spaces.table_inj _ (mem_roots hp) i' (lt_lvl1Entries hi') _ (mem_roots has) i hi t' ht' ht
    exact Nat.not_le.mpr hi' hk

/-- The first half of `vm_map_page`, with the table cleared. -/
lemma fillLvl1Entry (h : MappedSpaces first limit s live roots) (has : as ∈ roots) (hv : virt < 2 ^ 32)
    (hd : size4KB ∣ virt) {new : Bool}
    (hfill : Memory.fillLvl1Entry (pageAddr s.pages.ramStart as) virt s = .ok (new, s')) :
    ∃ t live', CoarsePageTableEntry.baseAddress (s'.words (pageAddr s.pages.ramStart as + 4 * lvl1Index virt)) = t ∧
      QuietStep first limit s (if new then s'.clear t lvl2TableSize else s') live live' roots ∧
      Vm.tableOf (if new then s'.clear t lvl2TableSize else s') as (lvl1Index virt) = some t := by
  have hi := lvl1Index_lt_entries hv
  have hin := contains_iff hv hd
  obtain ⟨hsec, hcases⟩ := fillLvl1Entry_cases h.blocks (h.rootPtr _ h.kernelAs_mem) hfill
  rcases hcases with ⟨rfl, hne, rfl⟩ | ⟨rfl, hz, hc, hne, rfl⟩ | ⟨rfl, hz, hkz, q, pages, halloc, rfl⟩
  · exact ⟨_, live, rfl, .refl h, (h.ready_present has hi hsec hne).table⟩
  · have hready := h.ready_shared has (hin.mp hc) hi hz hne
    refine ⟨_, live, ?_, .share h has (hin.mp hc) hi hz hne, hready.table⟩
    rw [Vm.store_words, Function.update_self]
  · have hatt := h.attached has hi hin hz (fun hk => hkz (hin.mpr hk)) halloc
    have hquiet := QuietStep.attach h has hi hin hz (fun hk => hkz (hin.mpr hk)) halloc
    refine ⟨_, _, ?_, hquiet, ?_⟩
    · dsimp only
      rw [attachWords_entry]
      exact CoarsePageTableEntry.baseAddress_makeEntry hatt.aligned hatt.lt
    · have hr := hquiet.ram.ramStart
      rw [Vm.tableOf]
      dsimp only at hr
      rw [if_pos rfl, Vm.clear_pages, hr]
      exact hatt.tableAt

/-- `vm_map_page` writes an empty entry of a table that it has made sure of. -/
lemma vmMapPage {a : ℕ} {perm : PageAccessPermissions} (h : MappedSpaces first limit s live roots) (has : as ∈ roots)
    (hv : virt < 2 ^ 32) (hd : size4KB ∣ virt)
    (hm : Memory.vmMapPage (pageAddr s.pages.ramStart as) a virt perm s = .ok s') :
    ∃ t s₁ live', QuietStep first limit s s₁ live live' roots ∧ s₁.tableOf as (lvl1Index virt) = some t ∧
      s₁.words (t + 4 * lvl2Index virt) = 0 ∧
      s' = s₁.store (t + 4 * lvl2Index virt) (SmallPageEntry.makeEntry a perm) := by
  obtain ⟨⟨new, s₁⟩, hfill, hm⟩ := bind_eq_ok.mp hm
  obtain ⟨table, htable, hm⟩ := bind_eq_ok.mp hm
  obtain ⟨hempty, hm⟩ := panicIf_bind_eq_ok.mp hm
  obtain rfl := Except.ok.inj hm
  obtain rfl := phys2virt_eq htable
  obtain ⟨t, live', rfl, hquiet, ht⟩ := QuietStep.fillLvl1Entry h has hv hd hfill
  exact ⟨_, _, live', hquiet, ht, not_not.mp hempty, rfl⟩

end QuietStep

inductive PageFaultHandlerResult where
  | fixed
  | processFatal
  | kernelFatal
deriving DecidableEq

/-- With the physical address of the first-level table that the MMU uses. -/
def vmTryFixPageFault (instructionAddr faultAddr physTtbr0Addr : ℕ) (s : Vm) :
    Except Panic (PageFaultHandlerResult × Vm) :=
  if ¬ Areas.kernelArea.Contains instructionAddr then .ok (.processFatal, s)
  else if ¬ Areas.kernelArea.Contains faultAddr then .ok (.kernelFatal, s)
  else do
    let lvl1KernelTable ← rootTablePtr s s.kernelAs
    if s.words (lvl1KernelTable + 4 * lvl1Index faultAddr) = 0 then return (.kernelFatal, s)
    let kernelLvl1Entry := s.words (lvl1KernelTable + 4 * lvl1Index faultAddr)
    let ttbr0Lvl1Entry := (← phys2virt s physTtbr0Addr) + 4 * lvl1Index faultAddr
    if s.words ttbr0Lvl1Entry = 0 then return (.fixed, s.store ttbr0Lvl1Entry kernelLvl1Entry)
    else return (.kernelFatal, s)

/-- The page below the kernel area that `vm_unmap` takes from the space. -/
def Vm.unmappedPage (s : Vm) (as virt : ℕ) : Option ℕ :=
  if Areas.kernelArea.Contains virt then none
  else (s.frameOf as (lvl1Index virt) (lvl2Index virt)).map (pageOf s.pages.ramStart)

/-- The table of the page maps another one. -/
def Vm.MapsNeighbour (s : Vm) (as virt : ℕ) : Prop :=
  ∃ j < lvl2Entries, j ≠ lvl2Index virt ∧ s.frameOf as (lvl1Index virt) j ≠ none

/-- One more reference to the page, if there is one. -/
def credit (spare : ℕ → ℕ) : Option ℕ → ℕ → ℕ
  | none => spare
  | some q => Function.update spare q (spare q + 1)

namespace OwnedSpaces

variable {first limit as virt page a : ℕ} {s s' : Vm} {live : Finset Block} {roots : Finset ℕ} {X : Set ℕ}
variable {spare : ℕ → ℕ} {perm : PageAccessPermissions}

/-- Below the kernel area the entry takes over a reference of the caller's. -/
lemma vmMap_user (h : OwnedSpaces first limit X s live roots spare) (has : as ∈ roots)
    (hv : virt < Areas.kernelVirtStartAddr) (hd : size4KB ∣ virt) (hspare : 0 < spare page)
    (hm : vmMap s as page virt perm = .ok s') :
    s.SameRam s' ∧ ∃ live', live ⊆ live' ∧
      OwnedSpaces first limit X s' live' roots (Function.update spare page (spare page - 1)) := by
  have hi : lvl1Index virt < kernelStartIdx := lvl1Index_lt hv
  rw [vmMap, h.mapped.rootPtr as has, ok_bind] at hm
  obtain ⟨a, ha, hm⟩ := bind_eq_ok.mp hm
  obtain rfl := h.mapped.blocks.page2addr_eq ha
  obtain ⟨t, s₁, live', hquiet, ht, -, rfl⟩ :=
    QuietStep.vmMapPage h.mapped has (hv.trans (by decide)) hd hm
  refine ⟨hquiet.ram.trans (.store ..), live', hquiet.sub, ?_⟩
  rw [← hquiet.ram.ramStart]
  exact (h.quiet hquiet).mapPage has hi ht (lvl2Index_lt virt) hspare perm

/-- In the kernel area any frame may be mapped. -/
lemma vmMapPage_kernel (h : OwnedSpaces first limit X s live roots spare) (has : as ∈ roots)
    (hk : Areas.kernelVirtStartAddr ≤ virt) (hv : virt < 2 ^ 32) (hd : size4KB ∣ virt)
    (hm : vmMapPage (pageAddr s.pages.ramStart as) a virt perm s = .ok s') :
    s.SameRam s' ∧ ∃ live', live ⊆ live' ∧ OwnedSpaces first limit X s' live' roots spare := by
  obtain ⟨t, s₁, live', hquiet, ht, -, rfl⟩ := QuietStep.vmMapPage h.mapped has hv hd hm
  have hpage : 2 ≤ SmallPageEntry.makeEntry a perm % 4 := by
    simp only [SmallPageEntry.makeEntry, smallPageEntryId]
    omega
  have hstore := QuietStep.storeKernel (h.quiet hquiet).mapped has (kernelStartIdx_le_iff.mpr hk)
    (lvl1Index_lt_entries hv) ht (lvl2Index_lt virt) (.inr hpage)
  exact ⟨hquiet.ram.trans hstore.ram, live', hquiet.sub, (h.quiet hquiet).quiet hstore⟩

/-- The caller of `vm_unmap` has the reference of the entry afterwards. -/
lemma vmUnmap (h : OwnedSpaces first limit X s live roots spare) (has : as ∈ roots) (hv : virt < 2 ^ 32)
    (hd : size4KB ∣ virt) (hkept : s.unmappedPage as virt ≠ none → s.MapsNeighbour as virt)
    (hu : Memory.vmUnmap s as virt = .ok (a, s')) :
    s.SameRam s' ∧ OwnedSpaces first limit X s' live roots (credit spare (s.unmappedPage as virt)) := by
  have hi := lvl1Index_lt_entries hv
  rw [Vm.unmappedPage] at hkept ⊢
  rw [Memory.vmUnmap] at hu
  by_cases hin : Areas.kernelArea.Contains virt
  · rw [if_pos hin, h.mapped.rootPtr _ h.mapped.kernelAs_mem, ok_bind] at hu
    rw [if_pos hin]
    rcases h.mapped.vmUnmapPage_cases h.mapped.kernelAs_mem hv hin hu with rfl | ⟨t, ht, rfl⟩
    · exact ⟨.refl s', h⟩
    · exact ⟨.store .., h.quiet (.clearEntry h.mapped h.mapped.kernelAs_mem hi ht (lvl2Index_lt virt))⟩
  · rw [if_neg hin, h.mapped.rootPtr _ has, ok_bind] at hu
    rw [if_neg hin] at hkept ⊢
    have hi' : lvl1Index virt < kernelStartIdx := Nat.not_le.mp ((contains_iff hv hd).not.mp hin)
    obtain ⟨hsec, hu⟩ := panicIf_bind_eq_ok.mp hu
    rcases tableAt_cases (h.mapped.spaces.entry _ (mem_roots has) _ hi) with ⟨hz, hnone⟩ | ⟨hz, ht⟩
    · have hz := hz.resolve_right hsec
      rw [if_pos hz] at hu
      obtain ⟨-, rfl⟩ := Prod.mk.inj (Except.ok.inj hu)
      rw [Vm.frameOf_of_noTable hnone]
      exact ⟨.refl s, h⟩
    · rw [if_neg (not_or.mp hz).1] at hu
      obtain ⟨t, htable, hu⟩ := bind_eq_ok.mp hu
      obtain rfl := phys2virt_eq htable
      dsimp only at hu
      generalize CoarsePageTableEntry.baseAddress _ = t at *
      rw [Vm.frameOf_of_table ht] at hkept ⊢
      split_ifs at hu with he
      · obtain ⟨-, rfl⟩ := Prod.mk.inj (Except.ok.inj hu)
        rw [frameIn, if_pos he]
        exact ⟨.refl s, h⟩
      · obtain ⟨s₁, hdrop, hu⟩ := bind_eq_ok.mp hu
        obtain ⟨-, rfl⟩ := Prod.mk.inj (Except.ok.inj hu)
        rw [frameIn_of_ne he] at hkept ⊢
        obtain ⟨j, hj, hne, hframe⟩ := hkept (by simp)
        have hother : ¬ (¬ Areas.kernelArea.Contains virt ∧
            ∀ j < lvl2Entries, (s.store (t + 4 * lvl2Index virt) 0).words (t + 4 * j) = 0) := by
          rintro ⟨-, hall⟩
          refine hframe ?_
          rw [Vm.frameOf_of_table ht, frameIn, if_pos]
          rw [← hall j hj, Vm.store_words, Function.update_of_ne (by omega)]
        rw [dropLvl2Table, if_neg hother] at hdrop
        obtain rfl := Except.ok.inj hdrop
        have hold : s.frameOf as (lvl1Index virt) (lvl2Index virt) =
            some (SmallPageEntry.baseAddress (s.words (t + 4 * lvl2Index virt))) := by
          rw [Vm.frameOf_of_table ht, frameIn_of_ne he]
        obtain ⟨q, -, hq⟩ := h.frame as has _ hi' _ (lvl2Index_lt virt) _ hold
        rw [hq] at hold ⊢
        rw [Option.map_some, pageOf_pageAddr]
        exact ⟨.store .., h.unmapPage has hi' ht (lvl2Index_lt virt) hold⟩

/-- What `vm_try_fix_page_fault` writes is the kernel's entry, to the space that lacks it. -/
lemma vmTryFixPageFault {instr addr : ℕ} {r : PageFaultHandlerResult}
    (h : OwnedSpaces first limit X s live roots spare) (has : as ∈ roots) (hv : addr < 2 ^ 32)
    (hf : Memory.vmTryFixPageFault instr addr (pageAddr s.pages.ramStart as) s = .ok (r, s')) :
    s.SameRam s' ∧ OwnedSpaces first limit X s' live roots spare ∧
      (r = .fixed → s'.words (pageAddr s.pages.ramStart as + 4 * lvl1Index addr) =
        s'.words (pageAddr s.pages.ramStart s.kernelAs + 4 * lvl1Index addr)) := by
  rw [Memory.vmTryFixPageFault] at hf
  by_cases hi : Areas.kernelArea.Contains instr
  case neg =>
    rw [if_pos hi] at hf
    obtain ⟨rfl, rfl⟩ := Prod.mk.inj (Except.ok.inj hf)
    exact ⟨.refl s, h, by simp⟩
  by_cases ha : Areas.kernelArea.Contains addr
  case neg =>
    rw [if_neg (not_not.mpr hi), if_pos ha] at hf
    obtain ⟨rfl, rfl⟩ := Prod.mk.inj (Except.ok.inj hf)
    exact ⟨.refl s, h, by simp⟩
  have hidx : kernelStartIdx ≤ lvl1Index addr := kernelStartIdx_le_iff.mpr ha.1
  rw [if_neg (not_not.mpr hi), if_neg (not_not.mpr ha), h.mapped.rootPtr _ h.mapped.kernelAs_mem, ok_bind] at hf
  dsimp only at hf
  split_ifs at hf with hz
  · obtain ⟨rfl, rfl⟩ := Prod.mk.inj (Except.ok.inj hf)
    exact ⟨.refl s, h, by simp⟩
  · obtain ⟨root, hroot, hf⟩ := bind_eq_ok.mp hf
    obtain rfl := phys2virt_eq hroot
    split_ifs at hf with hempty
    · obtain ⟨-, rfl⟩ := Prod.mk.inj (Except.ok.inj hf)
      refine ⟨.store .., h.quiet (.share h.mapped has hidx (lvl1Index_lt_entries hv) hempty hz), fun _ => ?_⟩
      have hne : pageAddr s.pages.ramStart s.kernelAs + 4 * lvl1Index addr ≠
          pageAddr s.pages.ramStart as + 4 * lvl1Index addr := by
        intro he
        rw [he] at hz
        exact hz hempty
      rw [Vm.store_words, Function.update_self, Function.update_of_ne hne]
    · obtain ⟨rfl, rfl⟩ := Prod.mk.inj (Except.ok.inj hf)
      exact ⟨.refl s, h, by simp⟩

end OwnedSpaces

end Pi0Os.Memory
