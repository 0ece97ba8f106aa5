import Pi0Os.Memory.DeviceMappings
import Pi0Os.Memory.OwnedBoot

/-! Runs of the address spaces from `vm_init` on, in any order of the calls of `memory/vm.h` and of the page allocator's
by the rest of the kernel. -/

namespace Pi0Os.Memory

open Kernel Library PageAllocator MappedSpaces

section Device

variable {first limit as phys virt n : ℕ} {s s' : Vm} {live : Finset Block} {roots : Finset ℕ} {X : Set ℕ}
variable {spare : ℕ → ℕ}

/-- The loop of `vm_map_mmio`. -/
lemma OwnedSpaces.mapRange (h : OwnedSpaces first limit X s live roots spare) (has : as ∈ roots) (hd : size4KB ∣ virt)
    (hk : Areas.kernelVirtStartAddr ≤ virt) (hv : virt + n * size4KB ≤ 2 ^ 32)
    (hm : (List.range n).foldlM (mapDevicePage as phys virt) s = .ok s') :
    s.SameRam s' ∧ ∃ live', OwnedSpaces first limit X s' live' roots spare := by
  induction n generalizing s' with
  | zero =>
    cases hm
    exact ⟨.refl s, live, h⟩
  | succ n ih =>
    obtain ⟨s₁, hloop, hm⟩ := foldlM_range_succ.mp hm
    rw [Nat.succ_mul] at hv
    obtain ⟨hram, live₁, h₁⟩ := ih ((Nat.add_le_add_left (Nat.le_add_right _ _) virt).trans hv) hloop
    have hlt : virt + n * size4KB < 2 ^ 32 := by
      simp only [size4KB] at hv ⊢
      omega
    rw [mapDevicePage, h₁.mapped.rootPtr as has, ok_bind, add32_of_lt hlt] at hm
    obtain ⟨hram', live₂, -, h₂⟩ := h₁.vmMapPage_kernel has (hk.trans (Nat.le_add_right _ _)) hlt
      (hd.add (Dvd.intro_left n rfl)) hm
    exact ⟨hram.trans hram', live₂, h₂⟩

/-- The loop of `iounmap`. -/
lemma OwnedSpaces.unmapRange (h : OwnedSpaces first limit X s live roots spare) (has : as ∈ roots) (hd : size4KB ∣ virt)
    (hk : Areas.kernelVirtStartAddr ≤ virt) (hv : virt + n * size4KB ≤ 0xc3000000)
    (hm : (List.range n).foldlM (unmapDevicePage as virt) s = .ok s') :
    s.SameRam s' ∧ OwnedSpaces first limit X s' live roots spare := by
  induction n generalizing s' with
  | zero =>
    cases hm
    exact ⟨.refl s, h⟩
  | succ n ih =>
    obtain ⟨s₁, hloop, hm⟩ := foldlM_range_succ.mp hm
    rw [Nat.succ_mul] at hv
    obtain ⟨hram, h₁⟩ := ih ((Nat.add_le_add_left (Nat.le_add_right _ _) virt).trans hv) hloop
    have hlt : virt + n * size4KB < 2 ^ 32 := by
      simp only [size4KB] at hv ⊢
      omega
    have hd' : size4KB ∣ virt + n * size4KB := hd.add (Dvd.intro_left n rfl)
    have hin : Areas.kernelArea.Contains (virt + n * size4KB) :=
      (contains_iff hlt hd').mpr (kernelStartIdx_le_iff.mpr (hk.trans (Nat.le_add_right _ _)))
    obtain ⟨⟨a, s₂⟩, hu, hm⟩ := bind_eq_ok.mp hm
    rw [add32_of_lt hlt] at hu
    obtain ⟨-, hm⟩ := kassert_bind_eq_ok.mp hm
    obtain rfl := Except.ok.inj hm
    have hnone : s₁.unmappedPage as (virt + n * size4KB) = none := if_pos hin
    obtain ⟨hram', h₂⟩ := h₁.vmUnmap has hlt hd' (fun hne => absurd hnone hne) hu
    rw [hnone] at h₂
    exact ⟨hram.trans hram', h₂⟩

lemma OwnedSpaces.fork {src dst : ℕ} {done : Bool} (h : OwnedSpaces first limit X s live roots spare)
    (hsrc : src ∈ roots) (hdst : dst ∈ roots) (hne : dst ≠ s.kernelAs) (hnone : s.MapsNone dst X)
    (hf : vmFork s src dst = .ok (done, s')) :
    s.SameRam s' ∧ ∃ live', OwnedSpaces first limit X s' live' (if done then roots else roots.erase dst) spare := by
  rw [vmFork, h.mapped.rootPtr _ hsrc, ok_bind, h.mapped.rootPtr _ hdst, ok_bind] at hf
  obtain ⟨⟨forked, s₁⟩, hloop, hf⟩ := bind_eq_ok.mp hf
  obtain ⟨hram, hnone₁, live₁, -, h₁⟩ := h.forkLvl1 hdst (fun i hi => List.mem_range.mp hi) hloop
  cases forked with
  | true =>
    obtain ⟨rfl, rfl⟩ := Prod.mk.inj (Except.ok.inj hf)
    exact ⟨hram, live₁, h₁⟩
  | false =>
    obtain ⟨s₂, hfree, hf⟩ := bind_eq_ok.mp hf
    obtain ⟨rfl, rfl⟩ := Prod.mk.inj (Except.ok.inj hf)
    obtain ⟨s₃, live₃, hfree', hram', h₃, -⟩ := h₁.free hdst (hram.kernelAs ▸ hne) fun q hq =>
      .inl ((hnone₁ hnone).userMappings hq)
    obtain rfl := Except.ok.inj (hfree'.symm.trans hfree)
    exact ⟨hram.trans hram', live₃, h₃⟩

lemma OwnedSpaces.ioremap {d d' : DeviceSpace} {size : ℕ} (h : OwnedSpaces first limit X d.vm live roots spare)
    (hcur : d.current ∈ roots) (hc : d.initState = .completed) (hpos : 1 ≤ size) (hend : phys + size ≤ 2 ^ 32)
    (hm : Memory.ioremap phys size d = .ok (virt, d')) :
    d.vm.SameRam d'.vm ∧ d' = { d with vm := d'.vm, used := d'.used } ∧
      ∃ live', OwnedSpaces first limit X d'.vm live' roots spare := by
  rw [Memory.ioremap, if_neg (by rw [hc]; decide)] at hm
  obtain ⟨⟨start, used⟩, halloc, hm⟩ := bind_eq_ok.mp hm
  dsimp only at hm
  split_ifs at hm with hz
  · obtain ⟨-, rfl⟩ := Prod.mk.inj (Except.ok.inj hm)
    exact ⟨.refl d.vm, rfl, live, h⟩
  obtain ⟨vm, hvm, hm⟩ := bind_eq_ok.mp hm
  obtain ⟨-, rfl⟩ := Prod.mk.inj (Except.ok.inj hm)
  have hne : alignedSize phys size size4KB ≠ 0 := fun he => by
    rw [he, ioremapBitmapAlloc_zero] at halloc
    exact hz (Prod.mk.inj (Except.ok.inj halloc)).1.symm
  obtain ⟨haligned, -⟩ := alignedSize_pages hpos hend hne
  rw [haligned] at halloc
  rcases ioremapBitmapAlloc_cases (Dvd.intro_left _ rfl) (Nat.mul_pos (pagesOf_pos hpos) (by decide)) d.used with
    ⟨i, ⟨hrun, -⟩, he⟩ | ⟨-, he⟩
  · rw [Nat.mul_div_cancel _ (by decide)] at hrun he
    obtain ⟨rfl, -⟩ := Prod.mk.inj (Except.ok.inj (he.symm.trans halloc))
    have hin : i + pagesOf phys size ≤ ioremapSlots := hrun.1
    have hpages : mappedPages size ≤ pagesOf phys size := by
      simp only [mappedPages, pagesOf, roundUp32, size4KB, ioremapSlots] at *
      omega
    obtain ⟨hlo, -⟩ := slotAddr_le ((Nat.le_add_right _ _).trans hin)
    have hhi := (slotAddr_le ((Nat.add_le_add_left hpages i).trans hin)).2.trans (by decide : 0xc3000000 ≤ 2 ^ 32)
    rw [← slotAddr_add] at hhi
    obtain ⟨hram, live', h'⟩ := h.mapRange hcur (dvd_slotAddr i) hlo hhi hvm
    exact ⟨hram, rfl, live', h'⟩
  · exact absurd (Prod.mk.inj (Except.ok.inj (he.symm.trans halloc))).1.symm hz

lemma OwnedSpaces.iounmap {d d' : DeviceSpace} {addr size : ℕ} (h : OwnedSpaces first limit X d.vm live roots spare)
    (hcur : d.current ∈ roots) (hend : addr + size ≤ 0xc3000000) (hm : Memory.iounmap addr size d = .ok d') :
    d.vm.SameRam d'.vm ∧ d' = { d with vm := d'.vm, used := d'.used } ∧
      OwnedSpaces first limit X d'.vm live roots spare := by
  obtain ⟨-, hm⟩ := kassert_bind_eq_ok.mp hm
  obtain ⟨hin, hm⟩ := kassert_bind_eq_ok.mp hm
  obtain ⟨used, -, hm⟩ := bind_eq_ok.mp hm
  obtain ⟨vm, hvm, hm⟩ := bind_eq_ok.mp hm
  obtain rfl := Except.ok.inj hm
  have hlo : Areas.kernelVirtStartAddr ≤ roundDown addr size4KB := by
    have hlo := hin.1
    rw [peripherals_start] at hlo
    simp only [Areas.kernelVirtStartAddr, roundDown, size4KB]
    omega
  have hhi : roundDown addr size4KB + alignedSize addr size size4KB / size4KB * size4KB ≤ 0xc3000000 := by
    have hlo := hin.1
    rw [peripherals_start] at hlo
    simp only [alignedSize, sub32, roundUp32, add32, roundDown, size4KB] at *
    omega
  obtain ⟨hram, h'⟩ := h.unmapRange hcur (dvd_roundDown _ _) hlo hhi hvm
  exact ⟨hram, rfl, h'⟩

end Device

/-- The address spaces of a run, and the references to 4KB pages that the rest of the kernel holds. -/
structure SpacesState where
  device : DeviceSpace
  spaces : Finset ℕ
  held : ℕ → ℕ

/-- The calls of the rest of the kernel: of 4KB pages, of `memory/vm.h`, and the faults. -/
inductive SpaceOp where
  | alloc
  | retain (page : ℕ)
  | drop (page : ℕ)
  | write (page : ℕ) (words : ℕ → ℕ)
  | create
  | map (as page virt : ℕ) (permissions : PageAccessPermissions)
  | unmap (as virt : ℕ)
  | fork (as dst : ℕ)
  | free (as : ℕ)
  | switch (as : ℕ)
  | fault (instructionAddr faultAddr : ℕ)
  | ioremap (physAddr size : ℕ)
  | iounmap (addr size : ℕ)

/-- One reference to the page less. -/
def debit (held : ℕ → ℕ) (page : ℕ) : ℕ → ℕ := Function.update held page (held page - 1)

/-- What a program stores in a page. -/
def Vm.writePage (s : Vm) (page : ℕ) (words : ℕ → ℕ) : Vm :=
  let start := pageAddr s.pages.ramStart page
  { s with words := fun a => if start ≤ a ∧ a < start + size4KB then words a else s.words a }

namespace SpacesState

abbrev vm (c : SpacesState) : Vm := c.device.vm

def withVm (c : SpacesState) (vm : Vm) : SpacesState := { c with device := { c.device with vm := vm } }

def withPages (c : SpacesState) (pages : PageAllocator) : SpacesState := c.withVm { c.vm with pages := pages }

def exec (c : SpacesState) : SpaceOp → Except Panic SpacesState
  | .alloc => do
    let (page, pages) ← physicalPageAlloc .kb4 c.vm.pages
    return { c.withPages pages with held := credit c.held page }
  | .retain page =>
    return { c.withPages (c.vm.pages.setRefCount page (c.vm.pages.refCount page + 1)) with
      held := credit c.held (some page) }
  | .drop page => do
    let pages ← physicalPageFree page .kb4 c.vm.pages
    return { c.withPages pages with held := debit c.held page }
  | .write page words => return c.withVm (c.vm.writePage page words)
  | .create => do
    let (as, vm) ← vmCreateAddressSpace c.vm
    return { c.withVm vm with spaces := as.elim c.spaces fun as => insert as c.spaces }
  | .map as page virt permissions => do
    let vm ← vmMap c.vm as page virt permissions
    return { c.withVm vm with held := if Areas.kernelArea.Contains virt then c.held else debit c.held page }
  | .unmap as virt => do
    let (_, vm) ← vmUnmap c.vm as virt
    return { c.withVm vm with held := credit c.held (c.vm.unmappedPage as virt) }
  | .fork as dst => do
    let (forked, vm) ← vmFork c.vm as dst
    return { c.withVm vm with spaces := if forked then c.spaces else c.spaces.erase dst }
  | .free as => do
    let vm ← vmFree c.vm as
    return { c.withVm vm with spaces := c.spaces.erase as }
  | .switch as => do
    let ttbr0 ← page2addr c.vm.pages as
    return { c with device := { c.device with ttbr0 := ttbr0, current := as } }
  | .fault instructionAddr faultAddr => do
    let (_, vm) ← vmTryFixPageFault instructionAddr faultAddr c.device.ttbr0 c.vm
    return c.withVm vm
  | .ioremap physAddr size => do
    let (_, device) ← Memory.ioremap physAddr size c.device
    return { c with device := device }
  | .iounmap addr size => do
    let device ← Memory.iounmap addr size c.device
    return { c with device := device }

end SpacesState

/-- Who may make which call. `X` are the pages of the kernel image that programs may map. -/
def SpaceOp.Allowed (X : Set ℕ) (c : SpacesState) : SpaceOp → Prop
  | .alloc => True
  | .retain page => 0 < c.held page ∨ page ∈ X
  | .drop page => 0 < c.held page ∧ (page ∈ X → 1 < c.vm.pages.refCount page)
  | .write page _ => 0 < c.held page ∨ ∃ as ∈ c.spaces, 0 < c.vm.userMappings as page
  | .create => c.vm.vector ≠ none
  | .map as page virt _ =>
    as ∈ c.spaces ∧ virt < 2 ^ 32 ∧ size4KB ∣ virt ∧ (virt < Areas.kernelVirtStartAddr → 0 < c.held page)
  | .unmap as virt =>
    as ∈ c.spaces ∧ virt < 2 ^ 32 ∧ size4KB ∣ virt ∧ (c.vm.unmappedPage as virt ≠ none → c.vm.MapsNeighbour as virt)
  | .fork as dst => as ∈ c.spaces ∧ dst ∈ c.spaces ∧ dst ≠ c.vm.kernelAs ∧ c.vm.MapsNone dst X
  | .free as => as ∈ c.spaces ∧ as ≠ c.vm.kernelAs ∧ c.vm.LeavesReferences as X
  | .switch as => as ∈ c.spaces
  | .fault _ faultAddr => c.device.current ∈ c.spaces ∧ faultAddr < 2 ^ 32
  | .ioremap physAddr size => c.device.current ∈ c.spaces ∧ 1 ≤ size ∧ physAddr + size ≤ 2 ^ 32
  | .iounmap addr size => c.device.current ∈ c.spaces ∧ addr + size ≤ Areas.peripherals.end

/-- From the return of `vm_init` on. -/
def addressSpaces (boot : BootParams) (X : Set ℕ) : TransitionSystem SpacesState SpaceOp :=
  TransitionSystem.restrict
    { Init c := ∃ s k, BootTable boot X k s ∧ vmInit s = .ok c.device ∧ c.spaces = {k} ∧ c.held = 0
      Step c op c' := c.exec op = .ok c' } (fun c op => op.Allowed X c)

structure SpacesInv (boot : BootParams) (X : Set ℕ) (c : SpacesState) : Prop where
  owned : ∃ live, OwnedSpaces (firstFreePageIdx boot) (totalPages boot) X c.vm live c.spaces c.held
  completed : c.device.initState = .completed
  ttbr0 : c.device.ttbr0 = pageAddr c.vm.pages.ramStart c.device.current

section Steps

variable {boot : BootParams} {X : Set ℕ} {c c' : SpacesState} {op : SpaceOp}

lemma OwnedSpaces.writable {live : Finset Block} {page : ℕ}
    (h : OwnedSpaces (firstFreePageIdx boot) (totalPages boot) X c.vm live c.spaces c.held)
    (hpage : 0 < c.held page ∨ ∃ as ∈ c.spaces, 0 < c.vm.userMappings as page) : FramePage live X page := by
  rcases hpage with hheld | ⟨as, has, hpos⟩
  · exact h.spare page hheld
  · by_contra hno
    have hle := Finset.single_le_sum (fun p _ => Nat.zero_le (c.vm.userMappings p page)) has
    have hzero := h.unmapped hno
    omega

lemma SpacesInv.withVm {vm : Vm} {spaces : Finset ℕ} {held : ℕ → ℕ} (h : SpacesInv boot X c) (hr : c.vm.SameRam vm)
    (howned : ∃ live, OwnedSpaces (firstFreePageIdx boot) (totalPages boot) X vm live spaces held) :
    SpacesInv boot X ⟨{ c.device with vm := vm }, spaces, held⟩ := by
  refine ⟨howned, h.completed, ?_⟩
  dsimp only
  rw [hr.ramStart, h.ttbr0]

lemma SpacesInv.init (hboot : boot.Valid) (hi : (addressSpaces boot X).Init c) : SpacesInv boot X c := by
  obtain ⟨s, k, htable, hinit, hspaces, hheld⟩ := hi
  obtain ⟨s', hinit', hc, hcur, httbr0, -, -, howned⟩ := htable.vmInit hboot
  obtain rfl := Except.ok.inj (hinit'.symm.trans hinit)
  exact ⟨⟨∅, by rw [hspaces, hheld]; exact howned⟩, hc, hcur ▸ httbr0⟩

lemma SpacesInv.step (h : SpacesInv boot X c) (hallowed : op.Allowed X c) (he : c.exec op = .ok c') :
    SpacesInv boot X c' := by
  obtain ⟨live, howned⟩ := h.owned
  cases op with
  | alloc =>
    obtain ⟨⟨page, pages⟩, halloc, he⟩ := bind_eq_ok.mp he
    obtain rfl := Except.ok.inj he
    cases page with
    | none =>
      rcases howned.mapped.blocks.alloc_cases .kb4 with hn | ⟨_, _, hn⟩
      · obtain ⟨-, rfl⟩ := Prod.mk.inj (Except.ok.inj (halloc.symm.trans hn))
        exact h.withVm (.refl _) ⟨live, howned⟩
      · cases halloc.symm.trans hn
    | some q =>
      have hnext := howned.allocPage halloc
      have hspare : c.held q + 1 = 1 := by rw [howned.spare_fresh halloc]
      refine h.withVm (howned.mapped.blocks.alloc_sameRam halloc _) ⟨insert ⟨q, .kb4⟩ live, ?_⟩
      rw [credit, hspare]
      exact hnext
  | retain page =>
    obtain rfl := Except.ok.inj he
    have hq : FramePage live X page := hallowed.elim (howned.spare page) .inr
    exact h.withVm ⟨rfl, rfl, rfl, rfl⟩ ⟨live, howned.retain hq⟩
  | drop page =>
    obtain ⟨pages, hfree, he⟩ := bind_eq_ok.mp he
    obtain rfl := Except.ok.inj he
    obtain ⟨pages', live', hfree', hram, hnext⟩ := howned.drop hallowed.1 hallowed.2
    obtain rfl := Except.ok.inj (hfree'.symm.trans hfree)
    exact h.withVm hram ⟨live', hnext⟩
  | write page words =>
    obtain rfl := Except.ok.inj he
    have hq := howned.writable hallowed
    exact h.withVm ⟨rfl, rfl, rfl, rfl⟩ ⟨live, howned.quiet (howned.quiet_writeFrame hq ⟨rfl, rfl, rfl, rfl⟩ rfl
      fun a ha => if_neg ha)⟩
  | create =>
    obtain ⟨⟨as, vm⟩, hcreate, he⟩ := bind_eq_ok.mp he
    obtain rfl := Except.ok.inj he
    cases as with
    | none =>
      obtain ⟨hram, hnext⟩ := howned.create_none hcreate
      exact h.withVm hram ⟨live, hnext⟩
    | some as =>
      obtain ⟨-, hram, live', -, hnext⟩ := howned.create hallowed hcreate
      exact h.withVm hram ⟨live', hnext⟩
  | map as page virt permissions =>
    obtain ⟨has, hv, hd, hheld⟩ := hallowed
    obtain ⟨vm, hmap, he⟩ := bind_eq_ok.mp he
    obtain rfl := Except.ok.inj he
    by_cases hk : Areas.kernelVirtStartAddr ≤ virt
    · have hin : Areas.kernelArea.Contains virt := (contains_iff hv hd).mpr (kernelStartIdx_le_iff.mpr hk)
      rw [vmMap, howned.mapped.rootPtr as has, ok_bind] at hmap
      obtain ⟨a, -, hmap⟩ := bind_eq_ok.mp hmap
      obtain ⟨hram, live', -, hnext⟩ := howned.vmMapPage_kernel has hk hv hd hmap
      refine h.withVm hram ⟨live', ?_⟩
      rw [if_pos hin]
      exact hnext
    · have hlt := Nat.not_le.mp hk
      have hin : ¬ Areas.kernelArea.Contains virt :=
        (contains_iff hv hd).not.mpr (kernelStartIdx_le_iff.not.mpr hk)
      obtain ⟨hram, live', -, hnext⟩ := howned.vmMap_user has hlt hd (hheld hlt) hmap
      refine h.withVm hram ⟨live', ?_⟩
      rw [if_neg hin]
      exact hnext
  | unmap as virt =>
    obtain ⟨has, hv, hd, hkept⟩ := hallowed
    obtain ⟨⟨a, vm⟩, hunmap, he⟩ := bind_eq_ok.mp he
    obtain rfl := Except.ok.inj he
    obtain ⟨hram, hnext⟩ := howned.vmUnmap has hv hd hkept hunmap
    exact h.withVm hram ⟨live, hnext⟩
  | fork as dst =>
    obtain ⟨hsrc, hdst, hne, hnone⟩ := hallowed
    obtain ⟨⟨forked, vm⟩, hfork, he⟩ := bind_eq_ok.mp he
    obtain rfl := Except.ok.inj he
    obtain ⟨hram, live', hnext⟩ := howned.fork hsrc hdst hne hnone hfork
    exact h.withVm hram ⟨live', hnext⟩
  | free as =>
    obtain ⟨has, hne, hX⟩ := hallowed
    obtain ⟨vm, hfree, he⟩ := bind_eq_ok.mp he
    obtain rfl := Except.ok.inj he
    obtain ⟨vm', live', hfree', hram, hnext, -⟩ := howned.free has hne hX
    obtain rfl := Except.ok.inj (hfree'.symm.trans hfree)
    exact h.withVm hram ⟨live', hnext⟩
  | switch as =>
    obtain ⟨ttbr0, haddr, he⟩ := bind_eq_ok.mp he
    obtain rfl := Except.ok.inj he
    exact ⟨⟨live, howned⟩, h.completed, howned.mapped.blocks.page2addr_eq haddr⟩
  | fault instr addr =>
    obtain ⟨hcur, hv⟩ := hallowed
    obtain ⟨⟨r, vm⟩, hfault, he⟩ := bind_eq_ok.mp he
    obtain rfl := Except.ok.inj he
    rw [h.ttbr0] at hfault
    obtain ⟨hram, hnext, -⟩ := howned.vmTryFixPageFault hcur hv hfault
    exact h.withVm hram ⟨live, hnext⟩
  | ioremap phys size =>
    obtain ⟨hcur, hpos, hend⟩ := hallowed
    obtain ⟨⟨virt, d⟩, hmap, he⟩ := bind_eq_ok.mp he
    obtain rfl := Except.ok.inj he
    obtain ⟨hram, hd, live', hnext⟩ := howned.ioremap hcur h.completed hpos hend hmap
    have hinv := h.withVm hram ⟨live', hnext⟩
    exact ⟨hinv.owned, by rw [hd]; exact h.completed, by rw [hd]; exact hinv.ttbr0⟩
  | iounmap addr size =>
    obtain ⟨hcur, hend⟩ := hallowed
    obtain ⟨d, hunmap, he⟩ := bind_eq_ok.mp he
    obtain rfl := Except.ok.inj he
    obtain ⟨hram, hd, hnext⟩ := howned.iounmap hcur hend hunmap
    have hinv := h.withVm hram ⟨live, hnext⟩
    exact ⟨hinv.owned, by rw [hd]; exact h.completed, by rw [hd]; exact hinv.ttbr0⟩

lemma spaces_reachable (hboot : boot.Valid) (hc : (addressSpaces boot X).Reachable c) : SpacesInv boot X c :=
  hc.invariant ⟨fun _ hi => .init hboot hi, fun _ _ _ h ⟨he, hallowed⟩ => h.step hallowed he⟩

end Steps

section SmallBoard

lemma exec_reachable {boot : BootParams} {X : Set ℕ} {c c' : SpacesState} (hc : (addressSpaces boot X).Reachable c)
    (op : SpaceOp) (hallowed : op.Allowed X c) (he : c.exec op = .ok c') : (addressSpaces boot X).Reachable c' :=
  hc.step ⟨he, hallowed⟩

/-- A board whose kernel maps nothing, with its first-level table in the first page of the RAM. -/
def bareBoard (pages : PageAllocator) : DeviceSpace where
  vm := ⟨pages, smallBoot.ramSize, fun _ => 0, 0⟩
  initState := .early
  ttbr0 := 0x40000000
  current := 0
  used := fun _ => 0

lemma bareBoard_table {pages : PageAllocator} (h : physicalPageAllocatorInit smallBoot = .ok pages) :
    BootTable smallBoot ∅ 0 (bareBoard pages) where
  early := rfl
  pages := h
  ramSize := rfl
  ram_end := by decide
  ttbr0 := rfl
  below := by decide
  entry _ _ := .inl rfl
  user _ _ hne := absurd rfl hne
  table _ _ _ _ ht := absurd rfl (ne_zero_of_isCoarsePage (tableAt_eq_some.mp ht).1)
  table_inj _ _ _ _ _ _ _ ht := absurd rfl (ne_zero_of_isCoarsePage (tableAt_eq_some.mp ht).1)
  page _ _ _ _ _ _ _ := .inl rfl
  outside _ hq := hq.elim

/-- A page is allocated and mapped at 0, and a first space made and switched to. -/
def smallRun : Except Panic (SpacesState × SpacesState × SpacesState) := do
  let pages ← physicalPageAllocatorInit smallBoot
  let device ← vmInit (bareBoard pages)
  let c₁ ← SpacesState.exec ⟨device, {0}, 0⟩ .alloc
  let c₂ ← c₁.exec (.map 0 44 0 .priviledgedOnly)
  let c₃ ← c₂.exec .create
  let c₄ ← c₃.exec (.switch 48)
  return (c₁, c₂, c₄)

lemma smallRun_reachable : ∃ c₀ c₁ c₄, (addressSpaces smallBoot ∅).Reachable c₀ ∧ 0 ∈ c₀.spaces ∧ c₀.held = 0 ∧
    c₀.exec .alloc = .ok c₁ ∧ (addressSpaces smallBoot ∅).Reachable c₁ ∧ 0 ∈ c₁.spaces ∧ c₁.held 44 = 1 ∧
    (addressSpaces smallBoot ∅).Reachable c₄ ∧ 48 ∈ c₄.spaces ∧ c₄.vm.kernelAs = 0 ∧ c₄.device.current = 48 := by
  have heval : smallRun.map (fun (c₁, c₂, c₄) => decide (0 ∈ c₁.spaces ∧ c₁.held 44 = 1 ∧ c₂.vm.vector = some 44 ∧
      c₄.vm.kernelAs = 0 ∧ 48 ∈ c₄.spaces ∧ c₄.device.current = 48)) = .ok true := by
    decide +kernel
  obtain ⟨c₁, c₂, c₄, hrun⟩ : ∃ c₁ c₂ c₄, smallRun = .ok (c₁, c₂, c₄) := by
    cases h : smallRun with
    | error p =>
      rw [h] at heval
      cases heval
    | ok r => exact ⟨_, _, _, rfl⟩
  rw [hrun] at heval
  obtain ⟨hzero, hheld, hvector, hkernel, hspace, hcur⟩ := of_decide_eq_true (Except.ok.inj heval)
  obtain ⟨pages, hpages, hrun⟩ := bind_eq_ok.mp hrun
  obtain ⟨device, hdevice, hrun⟩ := bind_eq_ok.mp hrun
  obtain ⟨c₁', h₁, hrun⟩ := bind_eq_ok.mp hrun
  obtain ⟨c₂', h₂, hrun⟩ := bind_eq_ok.mp hrun
  obtain ⟨c₃, h₃, hrun⟩ := bind_eq_ok.mp hrun
  obtain ⟨c₄', h₄, hrun⟩ := bind_eq_ok.mp hrun
  obtain ⟨rfl, rfl, rfl⟩ : c₁' = c₁ ∧ c₂' = c₂ ∧ c₄' = c₄ := by
    have he := Except.ok.inj hrun
    exact ⟨congrArg (·.1) he, congrArg (·.2.1) he, congrArg (·.2.2) he⟩
  have hr₀ : (addressSpaces smallBoot ∅).Reachable ⟨device, {0}, 0⟩ :=
    .init ⟨_, 0, bareBoard_table hpages, hdevice, rfl, rfl⟩
  have hr₁ := exec_reachable hr₀ .alloc trivial h₁
  have hr₂ := exec_reachable hr₁ (.map 0 44 0 .priviledgedOnly) ⟨hzero, by decide, by decide, fun _ => by omega⟩ h₂
  have hr₃ := exec_reachable hr₂ .create (fun hnone => by cases hvector.symm.trans hnone) h₃
  refine ⟨⟨device, {0}, 0⟩, c₁', c₄', hr₀, Finset.mem_singleton_self 0, rfl, h₁, hr₁, hzero, hheld,
    exec_reachable hr₃ (.switch 48) ?_ h₄, hspace, hkernel, hcur⟩
  obtain ⟨ttbr0, -, h₄⟩ := bind_eq_ok.mp h₄
  obtain rfl := Except.ok.inj h₄
  exact hspace

end SmallBoard

end Pi0Os.Memory
