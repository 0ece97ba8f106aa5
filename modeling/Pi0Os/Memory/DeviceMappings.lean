import Pi0Os.Memory.EarlyMappings
import Pi0Os.Memory.KernelPages
import Pi0Os.Memory.TableReturns

/-! `ioremap` and `iounmap` after `vm_init`: the pages that are reserved, that are mapped and that are unmapped are
counted three times, and not alike. -/

namespace Pi0Os.Memory

open Kernel Library PageAllocator

def slotAddr (i : ℕ) : ℕ := Areas.peripherals.start + i * size4KB

/-- The pages that a range of addresses touches. -/
def pagesOf (addr size : ℕ) : ℕ := (addr % size4KB + size + (size4KB - 1)) / size4KB

/-- After `vm_init` a slot that is not in use is not mapped. -/
structure DeviceReady (first limit : ℕ) (s : DeviceSpace) (live : Finset Block) (roots : Set ℕ) : Prop where
  mapped : MappedSpaces first limit s.vm live roots
  current : s.current ∈ roots
  completed : s.initState = .completed
  free : ∀ i < ioremapSlots, s.used i = 0 → ∀ v, v / size4KB = slotAddr i / size4KB → s.vm.walk s.vm.kernelAs v = none

/-- Each byte of the range is mapped to the one of the device. -/
def MapsBytes (s : DeviceSpace) (virt phys size : ℕ) : Prop :=
  ∀ k < size, s.vm.walk s.current (virt + k) = some (phys + k, .priviledgedOnly)

/-- `iounmap` in `s'` returns, and makes the array and what is mapped in any address space what they were in `s`. -/
def UnmapsTo (s s' : DeviceSpace) (roots : Set ℕ) (virt size : ℕ) : Prop :=
  ∃ s'', iounmap virt size s' = .ok s'' ∧ s''.used = s.used ∧
    ∀ p ∈ roots, ∀ v < 2 ^ 32, s''.vm.sees p v = s.vm.sees p v

section Counts

variable {phys size i : ℕ} {used : ℕ → UInt8}

lemma alignedSize_pages (hpos : 1 ≤ size) (hend : phys + size ≤ 2 ^ 32) (hne : alignedSize phys size size4KB ≠ 0) :
    alignedSize phys size size4KB = pagesOf phys size * size4KB ∧
      roundDown phys size4KB + pagesOf phys size * size4KB ≤ 2 ^ 32 := by
  obtain ⟨hd, hbound, hcovers, htight⟩ := alignedSize_covers_4KB hpos hend
  have hcovers := hcovers hne
  have he : alignedSize phys size size4KB = pagesOf phys size * size4KB := by
    generalize alignedSize phys size size4KB = aligned at *
    simp only [pagesOf, roundDown, size4KB] at *
    omega
  exact ⟨he, he ▸ hbound⟩

lemma pagesOf_pos (hpos : 1 ≤ size) : 0 < pagesOf phys size := by
  simp only [pagesOf, size4KB]
  omega

/-- The pages of a slot's range, when it is unmapped. -/
lemma alignedSize_slot (hpos : 1 ≤ size) (hin : i + pagesOf phys size ≤ ioremapSlots) :
    alignedSize (slotAddr i + phys % size4KB) size size4KB = pagesOf phys size * size4KB := by
  simp only [alignedSize, slotAddr, peripherals_start, pagesOf, sub32, roundUp32, add32, roundDown, size4KB,
    ioremapSlots] at *
  omega

lemma roundDown_slot : roundDown (slotAddr i + phys % size4KB) size4KB = slotAddr i := by
  simp only [roundDown, slotAddr, peripherals_start, size4KB]
  omega

lemma dvd_slotAddr (i : ℕ) : size4KB ∣ slotAddr i := by
  simp only [slotAddr, peripherals_start, size4KB]
  omega

lemma slotAddr_add (i j : ℕ) : slotAddr i + j * size4KB = slotAddr (i + j) := by
  simp only [slotAddr, size4KB]
  omega

lemma slotAddr_le (hi : i ≤ ioremapSlots) : Areas.kernelVirtStartAddr ≤ slotAddr i ∧ slotAddr i ≤ 0xc3000000 := by
  simp only [slotAddr, peripherals_start, size4KB, ioremapSlots, Areas.kernelVirtStartAddr] at *
  omega

lemma fill_fill_used {count : ℕ} (h : FreeRun used i count) : fill (fill used i count 1) i count 0 = used := by
  funext k
  simp only [fill]
  split_ifs with hk
  · exact ((freeRun_iff.mp h).2 k hk.1 hk.2).symm
  · rfl

end Counts

section Ioremap

variable {first limit phys size virt : ℕ} {s s' : DeviceSpace} {live : Finset Block} {roots : Set ℕ}

/-- The pages that `vm_map_mmio` maps. -/
abbrev mappedPages (size : ℕ) : ℕ := roundUp32 size size4KB / size4KB

/-- A call of `ioremap` that returned a pointer: the slots, and the pages that were mapped into them. -/
structure Ioremapped (s s' : DeviceSpace) (phys size virt i : ℕ) (vm : Vm) : Prop where
  run : FreeRun s.used i (pagesOf phys size)
  mapped : (List.range (mappedPages size)).foldlM (mapDevicePage s.current (roundDown phys size4KB) (slotAddr i)) s.vm =
    .ok vm
  virt_eq : virt = slotAddr i + phys % size4KB
  state : s' = { s with vm := vm, used := fill s.used i (pagesOf phys size) 1 }
  bound : roundDown phys size4KB + pagesOf phys size * size4KB ≤ 2 ^ 32

lemma ioremap_cases (hc : s.initState = .completed) (hpos : 1 ≤ size) (hend : phys + size ≤ 2 ^ 32)
    (hm : ioremap phys size s = .ok (virt, s')) (hvirt : virt ≠ 0) : ∃ i vm, Ioremapped s s' phys size virt i vm := by
  rw [ioremap, if_neg (by rw [hc]; decide)] at hm
  dsimp only at hm
  obtain ⟨⟨start, used⟩, halloc, hm⟩ := bind_eq_ok.mp hm
  dsimp only at hm
  have hzero {used : ℕ → UInt8} (hz : start = 0)
      (hm : (if start = 0 then pure (0, { s with used := used }) else do
        let vm ← vmMapMmio s.vm s.current (roundDown phys size4KB) start size
        return (add32 start (phys % size4KB), { s with vm := vm, used := used })) = Except.ok (virt, s')) : False := by
    rw [if_pos hz] at hm
    exact hvirt (Prod.mk.inj (Except.ok.inj hm)).1.symm
  have hne : alignedSize phys size size4KB ≠ 0 := fun hz => by
    rw [hz, ioremapBitmapAlloc_zero] at halloc
    exact hzero (Prod.mk.inj (Except.ok.inj halloc)).1.symm hm
  obtain ⟨haligned, hbound⟩ := alignedSize_pages hpos hend hne
  rw [haligned] at halloc
  have hdiv : pagesOf phys size * size4KB / size4KB = pagesOf phys size := Nat.mul_div_cancel _ (by decide)
  rcases ioremapBitmapAlloc_cases (Dvd.intro_left _ rfl) (Nat.mul_pos (pagesOf_pos hpos) (by decide)) s.used with
    ⟨i, ⟨hrun, -⟩, he⟩ | ⟨-, he⟩
  · rw [hdiv] at hrun he
    obtain ⟨rfl, rfl⟩ := Prod.mk.inj (Except.ok.inj (he.symm.trans halloc))
    have hi : i ≤ ioremapSlots := (Nat.le_add_right _ _).trans hrun.1
    obtain ⟨hlo, hhi⟩ := slotAddr_le hi
    have hstart : Areas.peripherals.start + i * size4KB ≠ 0 := Nat.ne_of_gt (Nat.lt_of_lt_of_le (by decide) hlo)
    rw [if_neg hstart] at hm
    obtain ⟨vm, hvm, hm⟩ := bind_eq_ok.mp hm
    obtain ⟨rfl, rfl⟩ := Prod.mk.inj (Except.ok.inj hm)
    refine ⟨i, vm, hrun, hvm, add32_of_lt ?_, rfl, hbound⟩
    have hoff : phys % size4KB < size4KB := Nat.mod_lt _ (by decide)
    exact (Nat.add_lt_add_of_le_of_lt hhi hoff).trans (by decide)
  · obtain ⟨rfl, rfl⟩ := Prod.mk.inj (Except.ok.inj (he.symm.trans halloc))
    exact (hzero rfl hm).elim

lemma Ioremapped.unmap_loop {i : ℕ} {vm : Vm} (h : Ioremapped s s' phys size virt i vm) (hc : s.initState = .completed)
    (hpos : 1 ≤ size) : iounmap virt size s' = (do
      let vm ← (List.range (pagesOf phys size)).foldlM (unmapDevicePage s.current (slotAddr i)) vm
      return { s with vm := vm }) := by
  obtain ⟨hrun, -, rfl, rfl, -⟩ := h
  have hin := hrun.1
  simp only at hin
  have hpages := @pagesOf_pos phys _ hpos
  have hdiv : pagesOf phys size * size4KB / size4KB = pagesOf phys size := Nat.mul_div_cancel _ (by decide)
  have hcontains : Areas.peripherals.Contains (slotAddr i + phys % size4KB) := by
    have hend : Areas.peripherals.end = 0xc3000000 := by decide
    rw [Range.Contains, hend]
    simp only [slotAddr, peripherals_start, size4KB, ioremapSlots] at *
    omega
  have hfree := @ioremapBitmapFree_paged (fill s.used i (pagesOf phys size) 1) ⟨slotAddr i, pagesOf phys size * size4KB⟩
    (IoRange.paged_slot i (Dvd.intro_left _ rfl) (Nat.mul_pos hpages (by decide)))
    (by rw [slotAddr, IoRange.slots_slot, hdiv]; exact hin)
  rw [slotAddr, IoRange.slots_slot, hdiv, fill_fill_used hrun, ← slotAddr] at hfree
  rw [iounmap, kassert_of hc, ok_bind, kassert_of hcontains, ok_bind, roundDown_slot, alignedSize_slot hpos hin]
  dsimp only
  rw [hfree, ok_bind, hdiv]
  rfl

/-- The range fits in as many pages as its size alone needs. -/
def FitsSize (phys size : ℕ) : Prop := phys % size4KB + size ≤ roundUp32 size size4KB

namespace Ioremapped

variable {i j : ℕ} {vm : Vm}

lemma counts (h : Ioremapped s s' phys size virt i vm) (hpos : 1 ≤ size) :
    1 ≤ mappedPages size ∧ mappedPages size ≤ pagesOf phys size ∧ pagesOf phys size ≤ mappedPages size + 1 ∧
      (FitsSize phys size ↔ mappedPages size = pagesOf phys size) := by
  have hin := h.run.1
  simp only [FitsSize, mappedPages, pagesOf, roundUp32, size4KB, ioremapSlots] at *
  omega

lemma inside (h : Ioremapped s s' phys size virt i vm) {n : ℕ} (hn : n ≤ pagesOf phys size) :
    Areas.kernelVirtStartAddr ≤ slotAddr i ∧ slotAddr i + n * size4KB ≤ 2 ^ 32 := by
  have hin : i + pagesOf phys size ≤ ioremapSlots := h.run.1
  obtain ⟨hlo, -⟩ := slotAddr_le ((Nat.le_add_right _ _).trans hin)
  obtain ⟨-, hhi⟩ := slotAddr_le ((Nat.add_le_add_left hn i).trans hin)
  rw [slotAddr_add]
  exact ⟨hlo, hhi.trans (by decide)⟩

lemma sets (h : Ioremapped s s' phys size virt i vm) (hs : DeviceReady first limit s live roots) (hpos : 1 ≤ size) :
    (∃ live', MappedSpaces first limit vm live' roots) ∧
      SetsPages s.vm vm roots (pageRange (slotAddr i) (mappedPages size))
        (fun v => some (roundDown phys size4KB + (v - slotAddr i), .priviledgedOnly)) ∧
      ∀ j < mappedPages size, vm.lvl1Entry s.current (slotAddr i + j * size4KB) ≠ 0 := by
  obtain ⟨-, hle, -, -⟩ := h.counts hpos
  obtain ⟨hlo, hhi⟩ := h.inside hle
  have hphys := (Nat.add_le_add_left (Nat.mul_le_mul_right size4KB hle) (roundDown phys size4KB)).trans h.bound
  exact hs.mapped.mapRange hs.current (dvd_slotAddr i) (dvd_roundDown _ _) hlo hhi hphys h.mapped

lemma free (h : Ioremapped s s' phys size virt i vm) (hs : DeviceReady first limit s live roots)
    (hj : j < pagesOf phys size) {v : ℕ} (hv : v / size4KB = (slotAddr i + j * size4KB) / size4KB) :
    s.vm.walk s.vm.kernelAs v = none := by
  have hin : i + pagesOf phys size ≤ ioremapSlots := h.run.1
  rw [slotAddr_add] at hv
  exact hs.free (i + j) (by omega) ((freeRun_iff.mp h.run).2 _ (Nat.le_add_right _ _) (by omega)) v hv

lemma addr_lt (h : Ioremapped s s' phys size virt i vm) (hj : j < pagesOf phys size) :
    slotAddr i + j * size4KB < 2 ^ 32 := by
  obtain ⟨-, hhi⟩ := h.inside (Nat.succ_le_of_lt hj)
  rw [Nat.succ_mul] at hhi
  exact (Nat.add_lt_add_left (Nat.lt_add_of_pos_right (by decide)) _).trans_le hhi

lemma not_section (h : Ioremapped s s' phys size virt i vm) (hs : DeviceReady first limit s live roots)
    (hpos : 1 ≤ size)
    (hj : j < pagesOf phys size) : ¬ isSection (vm.lvl1Entry vm.kernelAs (slotAddr i + j * size4KB)) := by
  obtain ⟨-, hsets, -⟩ := h.sets hs hpos
  rw [hsets.ram.kernelAs]
  exact hsets.entries.not_section hsets.ram hs.mapped.kernelAs_mem (h.addr_lt hj)
    (not_isSection_of_walk (h.free hs hj rfl))

/-- What `iounmap` will find at a page: nothing, if it is the page that the size alone does not need. -/
lemma physOf_page (h : Ioremapped s s' phys size virt i vm) (hs : DeviceReady first limit s live roots)
    (hpos : 1 ≤ size)
    (hj : j < pagesOf phys size) : physOf (vm.walk vm.kernelAs (slotAddr i + j * size4KB)) =
      if j < mappedPages size then roundDown phys size4KB + j * size4KB else 0 := by
  obtain ⟨-, hsets, -⟩ := h.sets hs hpos
  rw [hsets.ram.kernelAs, hsets.kernel _ (h.addr_lt hj)]
  split_ifs with hin hlt hlt
  · rw [Nat.add_sub_cancel_left]
    rfl
  · have hd := dvd_slotAddr i
    simp only [pageRange, Finset.mem_Ico, size4KB] at hin hd
    omega
  · exact absurd (mem_pageRange (dvd_slotAddr i) hlt) hin
  · rw [h.free hs hj rfl]
    rfl

lemma found_iff (h : Ioremapped s s' phys size virt i vm) (hs : DeviceReady first limit s live roots)
    (hpos : 1 ≤ size) :
    (∀ j < pagesOf phys size, physOf (vm.walk vm.kernelAs (slotAddr i + j * size4KB)) ≠ 0) ↔
      size4KB ≤ phys ∧ FitsSize phys size := by
  obtain ⟨hone, hle, hmore, hfits⟩ := h.counts hpos
  have hphys : size4KB ≤ phys ↔ roundDown phys size4KB ≠ 0 := by
    simp only [roundDown, size4KB]
    omega
  rw [hfits, hphys]
  constructor
  · intro hall
    have hfirst := hall 0 (by omega)
    have hlast := hall (pagesOf phys size - 1) (by omega)
    rw [h.physOf_page hs hpos (by omega), if_pos (by omega), Nat.zero_mul, Nat.add_zero] at hfirst
    rw [h.physOf_page hs hpos (by omega)] at hlast
    refine ⟨hfirst, ?_⟩
    by_contra hne
    exact hlast (if_neg (by omega))
  · rintro ⟨hne, he⟩ j hj
    rw [h.physOf_page hs hpos hj, if_pos (by omega)]
    omega

/-- The page of a byte of the range. -/
lemma page_of_byte (h : Ioremapped s s' phys size virt i vm) {k : ℕ} (hk : k < size) : ∃ j < pagesOf phys size,
    (virt + k) / size4KB = (slotAddr i + j * size4KB) / size4KB ∧
      lvl1Index (virt + k) = lvl1Index (slotAddr i + j * size4KB) ∧ virt + k < 2 ^ 32 := by
  have hd := dvd_slotAddr i
  have hin : i + pagesOf phys size ≤ ioremapSlots := h.run.1
  have hle := (slotAddr_le hin).2
  rw [← slotAddr_add] at hle
  rw [h.virt_eq]
  refine ⟨(phys % size4KB + k) / size4KB, ?_⟩
  simp only [pagesOf, lvl1Index, size4KB] at *
  omega

lemma mapsBytes (h : Ioremapped s s' phys size virt i vm) (hs : DeviceReady first limit s live roots) (hpos : 1 ≤ size)
    (hfits : FitsSize phys size) : MapsBytes s' virt phys size := by
  intro k hk
  obtain ⟨-, -, -, hcount⟩ := h.counts hpos
  obtain ⟨⟨live', hmapped⟩, hsets, hpresent⟩ := h.sets hs hpos
  obtain ⟨j, hj, hpage, hidx, hlt⟩ := h.page_of_byte hk
  have hj' : j < mappedPages size := (hcount.mp hfits).symm ▸ hj
  have hle : Areas.kernelVirtStartAddr ≤ virt + k := by
    rw [h.virt_eq]
    exact ((h.inside le_rfl).1.trans (Nat.le_add_right _ _)).trans (Nat.le_add_right _ _)
  have hentry : vm.lvl1Entry s.current (virt + k) ≠ 0 := by
    rw [Vm.lvl1Entry, hidx]
    exact hpresent j hj'
  have hphys : roundDown phys size4KB + (virt + k - slotAddr i) = phys + k := by
    rw [h.virt_eq]
    simp only [roundDown, size4KB]
    omega
  rw [h.state]
  change vm.walk s.current (virt + k) = _
  rw [hmapped.walk_eq_kernel hs.current hlt hle, if_neg hentry, hsets.ram.kernelAs, hsets.kernel _ hlt, hpage,
    if_pos (mem_pageRange (dvd_slotAddr i) hj'), hphys]

/-- A slot that has been unmapped is as it was before: not mapped. -/
lemma restored (h : Ioremapped s s' phys size virt i vm) (hs : DeviceReady first limit s live roots) (hpos : 1 ≤ size)
    {vm' : Vm} (hsets' : SetsPages vm vm' roots (pageRange (slotAddr i) (pagesOf phys size)) (fun _ => none)) :
    ∀ v < 2 ^ 32, vm'.walk vm'.kernelAs v = s.vm.walk s.vm.kernelAs v := by
  intro v hv
  obtain ⟨-, hsets, -⟩ := h.sets hs hpos
  obtain ⟨-, hle, -, -⟩ := h.counts hpos
  rw [hsets'.ram.kernelAs, hsets'.kernel v hv]
  split_ifs with hin
  · obtain ⟨hlo, hhi⟩ := Finset.mem_Ico.mp hin
    have hd := dvd_slotAddr i
    refine (h.free hs (j := v / size4KB - slotAddr i / size4KB) (by omega) ?_).symm
    simp only [size4KB] at hlo hd ⊢
    omega
  · rw [hsets.ram.kernelAs, hsets.kernel v hv, if_neg fun hin' => hin ?_]
    obtain ⟨hlo, hhi⟩ := Finset.mem_Ico.mp hin'
    exact Finset.mem_Ico.mpr ⟨hlo, hhi.trans_le (Nat.add_le_add_left hle _)⟩

lemma unmapsTo (h : Ioremapped s s' phys size virt i vm) (hs : DeviceReady first limit s live roots) (hpos : 1 ≤ size)
    (hphys : size4KB ≤ phys) (hfits : FitsSize phys size) : UnmapsTo s s' roots virt size := by
  obtain ⟨⟨live', hmapped⟩, hsets, -⟩ := h.sets hs hpos
  obtain ⟨hlo, hhi⟩ := h.inside le_rfl
  rcases hmapped.unmapRange (dvd_slotAddr i) hlo hhi (fun j hj => h.not_section hs hpos hj) s.current with
    ⟨-, vm', hloop, hmapped', -, hsets'⟩ | ⟨hno, -⟩
  · refine ⟨{ s with vm := vm' }, ?_, rfl, fun p hp v hv => ?_⟩
    · rw [h.unmap_loop hs.completed hpos, hloop]
      rfl
    · rw [hmapped'.sees_eq hp hv, hs.mapped.sees_eq hp hv, h.restored hs hpos hsets' v hv]
      split_ifs with hk
      · rfl
      · have hu := Nat.not_le.mp hk
        rw [hsets'.user p hp v hu, hsets.user p hp v hu]
  · exact absurd ((h.found_iff hs hpos).mpr ⟨hphys, hfits⟩) hno

/-- The range has a byte in each of its pages. -/
lemma byte_of_page (h : Ioremapped s s' phys size virt i vm) (hpos : 1 ≤ size) (hj : j < pagesOf phys size) :
    ∃ k < size, lvl1Index (virt + k) = lvl1Index (slotAddr i + j * size4KB) := by
  have hd := dvd_slotAddr i
  rw [h.virt_eq]
  refine ⟨j * size4KB - phys % size4KB, ?_⟩
  simp only [pagesOf, lvl1Index, size4KB] at *
  omega

/-- Where no table was made or taken over, the memory is what it was. -/
lemma unmap_eq (h : Ioremapped s s' phys size virt i vm) (hs : DeviceReady first limit s live roots) (hpos : 1 ≤ size)
    (hfits : FitsSize phys size) (hall : ∀ j < pagesOf phys size,
      s.vm.lvl1Entry s.current (slotAddr i + j * size4KB) ≠ 0)
    {vm' : Vm} (hloop : (List.range (pagesOf phys size)).foldlM (unmapDevicePage s.current (slotAddr i)) vm = .ok vm')
    (hpages' : vm'.pages = vm.pages)
    (hsets' : SetsPages vm vm' roots (pageRange (slotAddr i) (pagesOf phys size)) (fun _ => none))
    (hmapped' : ∃ live', MappedSpaces first limit vm' live' roots) : vm' = s.vm := by
  obtain ⟨⟨live', hmapped⟩, hsets, -⟩ := h.sets hs hpos
  obtain ⟨-, -, -, hcount⟩ := h.counts hpos
  have hcount := hcount.mp hfits
  obtain ⟨hlo, hhi⟩ := h.inside le_rfl
  have hmap := h.mapped
  rw [hcount] at hmap
  obtain ⟨hpages, hwords⟩ := hs.mapped.mapRange_cells hs.current (dvd_slotAddr i)
    (dvd_roundDown _ _) hlo hhi h.bound hall hmap
  have hkernelArea {j : ℕ} : Areas.kernelVirtStartAddr ≤ slotAddr i + j * size4KB := hlo.trans (Nat.le_add_right _ _)
  have hkept {j : ℕ} (hj : j < pagesOf phys size) := hsets.entries.kept hsets.ram hs.current (h.addr_lt hj) (hall j hj)
  -- the kernel's entry is the one of the current space
  have hkernel {j : ℕ} (hj : j < pagesOf phys size) : vm.lvl1Entry vm.kernelAs (slotAddr i + j * size4KB) =
      s.vm.lvl1Entry s.current (slotAddr i + j * size4KB) := by
    rw [← hkept hj]
    exact hmapped.spaces.entry_eq_kernel (MappedSpaces.mem_roots hs.current) (kernelStartIdx_le_iff.mpr hkernelArea)
      (lvl1Index_lt_entries (h.addr_lt hj)) ((hkept hj).trans_ne (hall j hj))
  have hcell {j : ℕ} (hj : j < pagesOf phys size) : vm.cell vm.kernelAs (slotAddr i + j * size4KB) =
      s.vm.cell s.current (slotAddr i + j * size4KB) := by
    rw [Vm.cell, hkernel hj, Vm.cell]
  have hentry {j : ℕ} (hj : j < pagesOf phys size) : vm.lvl1Entry vm.kernelAs (slotAddr i + j * size4KB) ≠ 0 :=
    (hkernel hj).trans_ne (hall j hj)
  have hwords' := hmapped.unmapRange_cells (dvd_slotAddr i) hlo hhi (fun j hj => h.not_section hs hpos hj)
    (fun j hj => hentry hj) hloop
  have heq : vm'.words = s.vm.words := by
    funext a
    by_cases ha : ∃ j < pagesOf phys size, a = s.vm.cell s.current (slotAddr i + j * size4KB)
    · obtain ⟨j, hj, rfl⟩ := ha
      have hold : s.vm.words (s.vm.cell s.current (slotAddr i + j * size4KB)) = 0 := by
        refine hs.mapped.cell_zero hs.current (h.addr_lt hj) (hall j hj) ?_
        rw [hs.mapped.walk_eq_kernel hs.current (h.addr_lt hj) hkernelArea, if_neg (hall j hj), h.free hs hj rfl]
      have hnew : vm'.words (vm'.cell vm.kernelAs (slotAddr i + j * size4KB)) = 0 := by
        obtain ⟨live'', hmapped'⟩ := hmapped'
        refine hmapped'.cell_zero hmapped.kernelAs_mem (h.addr_lt hj) ?_ ?_
        · exact (hsets'.entries.kept hsets'.ram hmapped.kernelAs_mem (h.addr_lt hj) (hentry hj)).trans_ne (hentry hj)
        · rw [hsets'.kernel _ (h.addr_lt hj), if_pos (mem_pageRange (dvd_slotAddr i) hj)]
      rw [hsets'.entries.cell hsets'.ram hmapped.kernelAs_mem (h.addr_lt hj) (hentry hj), hcell hj] at hnew
      rw [hold, hnew]
    · have hout : ∀ j < pagesOf phys size, a ≠ s.vm.cell s.current (slotAddr i + j * size4KB) :=
        fun j hj he => ha ⟨j, hj, he⟩
      rw [hwords' a fun j hj => by rw [hcell hj]; exact hout j hj, hwords a hout]
  have hram := hsets.ram.trans hsets'.ram
  have hsize := hram.ramSize
  have has := hram.kernelAs
  have hpages := hpages'.trans hpages
  generalize s.vm = vm₀ at *
  cases vm'
  cases vm₀
  dsimp only at hpages hsize heq has
  rw [hpages, hsize, heq, has]

lemma iounmap_eq_iff (h : Ioremapped s s' phys size virt i vm) (hs : DeviceReady first limit s live roots)
    (hpos : 1 ≤ size) (hphys : size4KB ≤ phys) (hfits : FitsSize phys size) :
    iounmap virt size s' = .ok s ↔ ∀ k < size, s.vm.lvl1Entry s.current (virt + k) ≠ 0 := by
  obtain ⟨⟨live', hmapped⟩, hsets, hpresent⟩ := h.sets hs hpos
  obtain ⟨-, -, -, hcount⟩ := h.counts hpos
  obtain ⟨hlo, hhi⟩ := h.inside le_rfl
  rcases hmapped.unmapRange (dvd_slotAddr i) hlo hhi (fun j hj => h.not_section hs hpos hj) s.current with
    ⟨-, vm', hloop, hmapped', hpages', hsets'⟩ | ⟨hno, -⟩
  · have hok : iounmap virt size s' = .ok { s with vm := vm' } := by
      rw [h.unmap_loop hs.completed hpos, hloop]
      rfl
    rw [hok, Except.ok.injEq]
    constructor
    · intro he k hk hz
      obtain ⟨j, hj, -, hidx, -⟩ := h.page_of_byte hk
      have hj' : j < mappedPages size := (hcount.mp hfits).symm ▸ hj
      have hsame := hsets'.entries.kept hsets'.ram hs.current (h.addr_lt hj) (hpresent j hj')
      have hvm : vm' = s.vm := congrArg DeviceSpace.vm he
      rw [Vm.lvl1Entry, hidx] at hz
      refine hpresent j hj' (hsame.symm.trans ?_)
      rw [hvm]
      exact hz
    · intro hall
      have hentries : ∀ j < pagesOf phys size, s.vm.lvl1Entry s.current (slotAddr i + j * size4KB) ≠ 0 := by
        intro j hj
        obtain ⟨k, hk, hidx⟩ := h.byte_of_page hpos hj
        have hne := hall k hk
        rwa [Vm.lvl1Entry, hidx] at hne
      rw [h.unmap_eq hs hpos hfits hentries hloop hpages' hsets' ⟨live', hmapped'⟩]
  · exact absurd ((h.found_iff hs hpos).mpr ⟨hphys, hfits⟩) hno

lemma ready (h : Ioremapped s s' phys size virt i vm) (hs : DeviceReady first limit s live roots) (hpos : 1 ≤ size) :
    ∃ live', DeviceReady first limit s' live' roots := by
  obtain ⟨⟨live', hmapped⟩, hsets, -⟩ := h.sets hs hpos
  obtain ⟨-, hle, -, -⟩ := h.counts hpos
  rw [h.state]
  refine ⟨live', hmapped, hs.current, hs.completed, fun i' hi' hused v hv => ?_⟩
  have hlt : v < 2 ^ 32 := by
    have hend := (slotAddr_le hi'.le).2
    simp only [size4KB] at hv
    omega
  have hout : ¬ (i ≤ i' ∧ i' < i + pagesOf phys size) := fun hc => by
    dsimp only at hused
    rw [fill_of_mem hc] at hused
    exact absurd hused (by decide)
  have hfree : s.used i' = 0 := (if_neg hout).symm.trans hused
  have hnot : v / size4KB ∉ pageRange (slotAddr i) (mappedPages size) := by
    rw [hv]
    simp only [pageRange, Finset.mem_Ico, slotAddr, peripherals_start, size4KB]
    omega
  change vm.walk vm.kernelAs v = none
  rw [hsets.ram.kernelAs, hsets.kernel v hlt, if_neg hnot]
  exact hs.free i' hi' hfree v hv

end Ioremapped

/-- `vm_map_mmio` is given the size of the range where it should be given that of its pages; and the address 0 stands
for a page that is not mapped. -/
theorem ioremap_inverse_iff (h : DeviceReady first limit s live roots) (hpos : 1 ≤ size) (hend : phys + size ≤ 2 ^ 32)
    (hm : ioremap phys size s = .ok (virt, s')) (hvirt : virt ≠ 0) :
    (MapsBytes s' virt phys size ∧ UnmapsTo s s' roots virt size ↔ size4KB ≤ phys ∧ FitsSize phys size) ∧
    (size4KB ≤ phys → FitsSize phys size →
      (iounmap virt size s' = .ok s ↔ ∀ k < size, s.vm.lvl1Entry s.current (virt + k) ≠ 0)) ∧
    ∃ live', DeviceReady first limit s' live' roots := by
  obtain ⟨i, vm, hi⟩ := ioremap_cases h.completed hpos hend hm hvirt
  refine ⟨⟨fun ⟨_, hunmap⟩ => ?_, fun ⟨hphys, hfits⟩ => ⟨hi.mapsBytes h hpos hfits, hi.unmapsTo h hpos hphys hfits⟩⟩,
    fun hphys hfits => hi.iounmap_eq_iff h hpos hphys hfits, hi.ready h hpos⟩
  obtain ⟨s'', hok, -⟩ := hunmap
  rw [hi.unmap_loop h.completed hpos] at hok
  obtain ⟨vm', hloop, -⟩ := bind_eq_ok.mp hok
  obtain ⟨⟨live', hmapped⟩, -, -⟩ := hi.sets h hpos
  obtain ⟨hlo, hhi⟩ := hi.inside le_rfl
  rcases hmapped.unmapRange (dvd_slotAddr i) hlo hhi (fun j hj => hi.not_section h hpos hj) s.current with
    ⟨hall, -⟩ | ⟨-, hno⟩
  · exact (hi.found_iff h hpos).mp hall
  · exact absurd hloop (hno vm')

/-- A board after `vm_init`, without devices yet. -/
def deviceBoard (pages : PageAllocator) : DeviceSpace := ⟨emptyBoard pages, .completed, 0x40004000, 16, fun _ => 0⟩

lemma deviceBoard_ready {pages : PageAllocator} (h : physicalPageAllocatorInit smallBoot = .ok pages) :
    DeviceReady 32 256 (deviceBoard pages) ∅ {0, 16} :=
  ⟨(emptyBoard_mapped h).1, .inr rfl, rfl, fun _ _ _ _ _ => armWalk_empty rfl⟩

/-- Two registers in one page. -/
theorem ioremap_inverse_iff_registers : ∃ s virt s', ioremap 0x09000004 8 s = .ok (virt, s') ∧
    (MapsBytes s' virt 0x09000004 8 ∧ UnmapsTo s s' {0, 16} virt 8 ↔ size4KB ≤ 0x09000004 ∧ FitsSize 0x09000004 8) := by
  obtain ⟨pages, -, hinit, -⟩ := physicalPageAllocatorInit_spec smallBoot_valid
  have hrun : (do
      let pages ← physicalPageAllocatorInit smallBoot
      let (virt, _) ← ioremap 0x09000004 8 (deviceBoard pages)
      return virt) = .ok 0xc1000004 := by decide +kernel
  rw [hinit, ok_bind] at hrun
  obtain ⟨⟨virt, s'⟩, hok, hvirt⟩ := bind_eq_ok.mp hrun
  obtain rfl : virt = 0xc1000004 := Except.ok.inj hvirt
  exact ⟨_, _, s', hok, (ioremap_inverse_iff (deviceBoard_ready hinit) (by decide) (by decide) hok (by decide)).1⟩

/-- Two registers on two pages: the second one is not mapped, and `iounmap` dies. -/
theorem ioremap_straddling : ∃ s virt s', DeviceReady 32 256 s ∅ {0, 16} ∧ ioremap 0x09000ffc 8 s = .ok (virt, s') ∧
    virt ≠ 0 ∧ s'.vm.walk s'.current (virt + 4) = none ∧ (iounmap virt 8 s').isOk = false ∧
      ¬ (MapsBytes s' virt 0x09000ffc 8 ∧ UnmapsTo s s' {0, 16} virt 8) := by
  obtain ⟨pages, -, hinit, -⟩ := physicalPageAllocatorInit_spec smallBoot_valid
  have hrun : (do
      let pages ← physicalPageAllocatorInit smallBoot
      let (virt, s') ← ioremap 0x09000ffc 8 (deviceBoard pages)
      return (virt, s'.vm.walk s'.current (virt + 4), (iounmap virt 8 s').isOk)) = .ok (0xc1000ffc, none, false) := by
    decide +kernel
  rw [hinit, ok_bind] at hrun
  obtain ⟨⟨virt, s'⟩, hok, hrest⟩ := bind_eq_ok.mp hrun
  obtain ⟨rfl, hrest⟩ := Prod.mk.inj (Except.ok.inj hrest)
  obtain ⟨hwalk, hunmap⟩ := Prod.mk.inj hrest
  refine ⟨_, _, s', deviceBoard_ready hinit, hok, by decide, hwalk, hunmap, fun ⟨hbytes, _⟩ => ?_⟩
  rw [hbytes 4 (by decide)] at hwalk
  cases hwalk

end Ioremap

end Pi0Os.Memory
