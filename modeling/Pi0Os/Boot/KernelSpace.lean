import Pi0Os.Boot.FirstTable
import Pi0Os.Memory.OwnedRuns

/-! From `boot_start` to the return of `vm_init`: what the kernel's address space maps then, and that it is where the
runs of the address spaces begin. -/

namespace Pi0Os.Boot

open Kernel Library Memory

/-- The globals after `vm_early_init`. There is no page array yet. -/
def vmEarlyInit (boot : BootParams) (b : Booted) : DeviceSpace where
  vm := ⟨⟨boot.ramStart, 0, fun _ => ⟨0, none⟩, fun _ => none⟩, boot.ramSize, b.words, 0⟩
  initState := .early
  ttbr0 := b.ttbr0
  current := 0
  used := 0

/-- The device mappings that follow. -/
def earlyFrom (s₀ : DeviceSpace) : TransitionSystem (DeviceSpace × List EarlyMapping) EarlyMapping :=
  { earlySystem with Init := fun c => c = (s₀, []) }

/-- `physical_page_allocator_init` and `vm_init`. -/
def completeVm (boot : BootParams) (s : DeviceSpace) : Except Panic DeviceSpace := do
  let pages ← physicalPageAllocatorInit boot
  vmInit { s with vm := { s.vm with pages := pages } }

section Devices

variable {s₀ s s' : DeviceSpace} {table phys start size virt n : ℕ}

/-- Only entries of the peripherals area have been written. -/
structure EarlyKept (s₀ s : DeviceSpace) : Prop where
  ttbr0 : s.ttbr0 = s₀.ttbr0
  ramSize : s.vm.ramSize = s₀.vm.ramSize
  entry : ∀ i, s.vm.words (s₀.ttbr0 + 4 * i) = s₀.vm.words (s₀.ttbr0 + 4 * i) ∨
    (3088 ≤ i ∧ i < 3120) ∧ isSection (s.vm.words (s₀.ttbr0 + 4 * i))
  rest : ∀ a ∉ lvl1Bytes s₀.ttbr0, s.vm.words a = s₀.vm.words a

lemma mapSections_ramSize (s : Vm) : (mapSections table phys start n s).ramSize = s.ramSize := by
  induction n with
  | zero => rfl
  | succ n ih => exact ih

lemma EarlyKept.ioremap (h : EarlyKept s₀ s) (hearly : s.initState = .early) (hchunks : ChunkUsed s.used)
    (hpos : 1 ≤ size) (hend : phys + size ≤ 2 ^ 32) (hcall : Memory.ioremap phys size s = .ok (virt, s')) :
    EarlyKept s₀ s' := by
  rw [Memory.ioremap, if_pos hearly] at hcall
  obtain ⟨c, n, hin, -, -, hphys, -, rfl⟩ := ioremapEarly_eq hchunks hpos hend hcall
  obtain ⟨hnew, hold⟩ := @mapSections_words s.ttbr0 _ _ _ s.vm (dvd_start c) (start_le hin) hphys
  rw [lvl1Index_start, h.ttbr0] at hnew hold
  simp only [ioremapSlots] at hin
  refine ⟨h.ttbr0, (mapSections_ramSize s.vm).trans h.ramSize, fun i => ?_, fun a ha => ?_⟩ <;>
    dsimp only <;> rw [h.ttbr0]
  · by_cases hi : ∃ k < n, i = 3088 + c + k
    · obtain ⟨k, hk, rfl⟩ := hi
      rw [hnew k hk]
      exact .inr ⟨by omega, SectionEntry.isSection_makeEntry _ _⟩
    · rw [hold _ fun k hk he => hi ⟨k, hk, by omega⟩]
      exact h.entry i
  · rw [hold a fun k hk he => ha (he ▸ mem_lvl1Bytes (by simp only [lvl1Entries]; omega))]
    exact h.rest a ha

/-- Along the mappings from `s₀` on. -/
lemma earlyFrom_inductive (hearly : s₀.initState = .early) (hused : s₀.used = 0) :
    (earlyFrom s₀).Inductive fun c => EarlyInv c ∧ EarlyKept s₀ c.1 := by
  constructor
  · rintro _ rfl
    exact ⟨earlySystem_inductive.1 _ ⟨hearly, hused, rfl⟩, rfl, rfl, fun _ => .inl rfl, fun _ _ => rfl⟩
  · rintro c m c' ⟨hinv, hkept⟩ hs
    refine ⟨hinv.step hs, ?_⟩
    obtain ⟨hpos, hend, hcall⟩ := hs
    exact hkept.ioremap hinv.early hinv.chunks hpos hend hcall

end Devices

/-- The parameters, with the boot memory in use up to `top`. -/
def BoardLayout.params (c : BoardLayout) (top : ℕ) : BootParams :=
  ⟨c.ramStart, c.usedRam, c.remap c.bootmemStart, top - c.bootmemStart⟩

section Completion

variable {c : BoardLayout} {b : Booted} {top : ℕ} {s : DeviceSpace} {pages : PageAllocator} {X : Set ℕ}

lemma BootedTables.params_valid (h : c.Valid) (hb : BootedTables c b top) :
    (c.params top).Valid ∧ top - c.ramStart ≤ firstFreePageIdx (c.params top) * size1KB := by
  have hstart := h.bootmem_start
  have hend := h.ram_end
  have hroom := h.ram_room
  have hge := hb.root_ge
  have hbase := hb.base_le
  have htop := hb.top_le
  obtain ⟨hdram, hmax⟩ := c.usedRam_le
  have hremap : c.remap c.bootmemStart = Areas.physMemStartAddr + (c.bootmemStart - c.ramStart) := by
    rw [BoardLayout.remap, sub32_of_le hstart (by have := h.bootmem_end; omega), Nat.add_comm, add32_of_lt]
    simp only [Areas.physMemStartAddr, size1MB, size1KB] at hmax hdram hroom ⊢
    omega
  have hpages : totalPages (c.params top) * size1KB = c.usedRam := by
    simp only [totalPages, BoardLayout.params, roundDown, size1MB, size16KB, size1KB] at hdram ⊢
    omega
  have hparams : (c.params top).bootmemStart = Areas.physMemStartAddr + (c.bootmemStart - c.ramStart) := hremap
  have hused : (c.params top).bootmemSize = top - c.bootmemStart := rfl
  simp only [size1KB, size1MB, size16KB, lvl1TableSize, Areas.kernelVirtStartAddr, Areas.physMemStartAddr] at *
  have hvalid : (c.params top).Valid := by
    refine ⟨h.ram_aligned, ?_, ?_, ?_, ?_⟩
    · exact hend.trans (by decide)
    · change c.usedRam ≤ 512 * 1048576
      omega
    · rw [hparams, hused]
      simp only [Areas.physMemStartAddr]
      omega
    · rw [hparams, hused]
      simp only [Areas.physMemStartAddr, size16KB, size1KB]
      omega
  have hsum : add32 (c.params top).bootmemStart (c.params top).bootmemSize = 3758096384 + (top - c.ramStart) := by
    rw [hparams, hused, add32_of_lt] <;> omega
  refine ⟨hvalid, ?_⟩
  simp only [firstFreePageIdx, hsum]
  generalize totalPages (c.params top) = total at *
  rw [add32_of_lt (by omega)]
  generalize he : 3758096384 + (top - c.ramStart) + total * 8 = e at *
  have hle : e ≤ roundUp32 e size16KB := le_roundUp32 (by decide) (by simp only [size16KB]; omega)
  have hlt : roundUp32 e size16KB < e + size16KB := roundUp32_lt (by decide) (by simp only [size16KB]; omega)
  have hdvd := dvd_roundUp32 e size16KB
  simp only [size16KB] at hle hlt hdvd ⊢
  generalize roundUp32 e 16384 = u at hle hlt hdvd ⊢
  rw [sub32_of_le (by simp only [Areas.physMemStartAddr]; omega) (by omega)]
  simp only [Areas.physMemStartAddr, size1KB]
  omega

/-- The tables after the device mappings. -/
lemma BootedTables.kept (hb : BootedTables c b top) (hk : EarlyKept (vmEarlyInit (c.params top) b) s) :
    BuiltTable b.ttbr0 (b.ttbr0 + lvl1TableSize) top s.vm.words :=
  hb.built.sections (fun i _ => (hk.entry i).imp id And.right) fun a ha => hk.rest a fun hin => absurd hin.2 (by
    have hlow := ha.1
    simp only [vmEarlyInit]
    omega)

/-- `vm_init` finds what it relies on. -/
lemma BootedTables.bootTable (h : c.Valid) (hb : BootedTables c b top)
    (hk : EarlyKept (vmEarlyInit (c.params top) b) s) (hearly : s.initState = .early)
    (hpages : physicalPageAllocatorInit (c.params top) = .ok pages)
    (hX : ∀ q ∈ X, PageOrder.kb4.frames ∣ q ∧ pageAddr c.ramStart q + size4KB ≤ c.bootmemStart) :
    BootTable (c.params top) X ((b.ttbr0 - c.ramStart) / size1KB) { s with vm := { s.vm with pages := pages } } := by
  obtain ⟨hvalid, hfirst⟩ := hb.params_valid h
  have hbuilt := hb.kept hk
  obtain ⟨vm, initState, ttbr0, current, used⟩ := s
  obtain rfl : ttbr0 = b.ttbr0 := hk.ttbr0
  dsimp only at hbuilt
  have hstart := h.bootmem_start
  have hge := hb.root_ge
  have hbase := hb.base_le
  have hroot : b.ttbr0 = pageAddr c.ramStart ((b.ttbr0 - c.ramStart) / size1KB) := by
    have hd := hb.root_aligned
    have hd' := h.ram_aligned
    simp only [pageAddr, size1KB, size16KB, size1MB] at hd hd' ⊢
    omega
  have hboot : (c.params top).ramStart = c.ramStart := rfl
  have htable {i t : ℕ} (hi : i < lvl1Entries) (ht : tableAt vm.words b.ttbr0 i = some t) :
      ∃ q < firstFreePageIdx (c.params top), t = pageAddr c.ramStart q ∧ b.ttbr0 + lvl1TableSize ≤ t := by
    obtain ⟨hd, hlow, hhigh⟩ := hbuilt.table i hi t ht
    have hd' := h.ram_aligned
    refine ⟨(t - c.ramStart) / size1KB, ?_, ?_, hlow⟩ <;>
      simp only [pageAddr, lvl2TableSize, size1KB, size1MB] at * <;> omega
  have houtside {q : ℕ} (hq : q ∈ X) {S : Set ℕ} (hS : ∀ a ∈ S, b.ttbr0 ≤ a) :
      Disjoint ((⟨q, .kb4⟩ : Block).bytes c.ramStart) S := by
    obtain ⟨-, hlast⟩ := hX q hq
    rw [Set.disjoint_left]
    intro a ha hin
    have hhigh : a < pageAddr c.ramStart q + 4096 := ha.2
    have hlow := hS a hin
    simp only [size4KB] at hlast
    omega
  refine ⟨hearly, hpages, hk.ramSize, h.ram_end, hroot, ?_, hbuilt.entry, fun i hi hne => ?_, fun i _ hi t ht => ?_,
    fun i _ hi i' _ hi' t ht ht' => hbuilt.table_inj i hi i' hi' t ht ht',
    fun i _ hi t ht j hj => hbuilt.page i hi t ht j hj, fun q hq => ⟨(hX q hq).1, ?_, houtside hq fun a ha => ha.1, ?_⟩⟩
  · simp only [PageOrder.frames, lvl1TableSize, size1KB] at hbase hfirst ⊢
    omega
  · rcases hk.entry i with he | ⟨⟨hlow, -⟩, -⟩
    · exact hb.user i hi fun hz => hne (he.trans hz)
    · simp only [kernelStartIdx] at hi
      omega
  · obtain ⟨q, hq, rfl, hlow⟩ := htable hi ht
    refine ⟨q, hq, rfl, Set.disjoint_left.mpr fun a ha hin => ?_⟩
    have hhigh : a < b.ttbr0 + lvl1TableSize := ha.2
    have hlow' := hin.1
    omega
  · obtain ⟨-, hlast⟩ := hX q hq
    simp only [PageOrder.frames, pageAddr, lvl1TableSize, size1KB, size4KB] at hlast hbase hfirst ⊢
    omega
  · intro i _ hi t ht
    obtain ⟨q', -, rfl, hlow⟩ := htable hi ht
    refine houtside hq fun a ha => ?_
    have hlow' := ha.1
    omega

/-- What the kernel's address space maps when `vm_init` has returned. -/
structure KernelSpace (c : BoardLayout) (mapped : List EarlyMapping) (s : DeviceSpace) : Prop where
  image : ∀ o < c.imageSize,
    armWalk s.vm.words s.ttbr0 (Areas.kernelVirtStartAddr + o) = some (c.kernelStart + o, .priviledgedOnly)
  hole : ∀ o < c.usedRam,
    armWalk s.vm.words s.ttbr0 (Areas.physMemStartAddr + o) = some (c.ramStart + o, .priviledgedOnly)
  device : ∀ m ∈ mapped, ∀ k < m.size,
    armWalk s.vm.words s.ttbr0 (m.virt + k) = some (m.phys + k, .priviledgedOnly)
  user : ∀ v < Areas.kernelVirtStartAddr, armWalk s.vm.words s.ttbr0 v = none
  heap : ∀ v, Areas.kernelHeap.Contains v → armWalk s.vm.words s.ttbr0 v = none

lemma BootedTables.kernelSpace {s' : DeviceSpace} {mapped : List EarlyMapping} (h : c.Valid) (hb : BootedTables c b top)
    (hinv : EarlyInv (s, mapped)) (hk : EarlyKept (vmEarlyInit (c.params top) b) s) (hclear : UserCleared s s') :
    KernelSpace c mapped s' := by
  have hbuilt := hb.kept hk
  have httbr0 : s.ttbr0 = b.ttbr0 := hk.ttbr0
  obtain ⟨httbr0', huser, hkernel, hrest⟩ := hclear
  rw [httbr0] at httbr0' huser hkernel hrest
  have hentry {i : ℕ} (hi : kernelStartIdx ≤ i) : s'.vm.words (b.ttbr0 + 4 * i) = s.vm.words (b.ttbr0 + 4 * i) := by
    by_cases hlt : i < lvl1Entries
    · exact hkernel i hi hlt
    · refine hrest _ fun hin => ?_
      have hhigh := hin.2
      simp only [lvl1TableSize, size1KB, lvl1Entries] at hhigh hlt
      omega
  -- outside of the peripherals area the entries are those of the boot
  have hboot {i : ℕ} (hi : kernelStartIdx ≤ i) (hout : i < 3088 ∨ 3120 ≤ i) :
      s'.vm.words (b.ttbr0 + 4 * i) = b.words (b.ttbr0 + 4 * i) := by
    rw [hentry hi]
    rcases hk.entry i with he | ⟨hin, -⟩
    · exact he
    · omega
  have htables : Set.EqOn s'.vm.words b.words (Set.Ico (b.ttbr0 + lvl1TableSize) top) := by
    intro a ha
    have hout : a ∉ lvl1Bytes b.ttbr0 := fun hin => absurd hin.2 (Nat.not_lt.mpr ha.1)
    exact (hrest a hout).trans (hk.rest a hout)
  obtain ⟨hdram, hmax⟩ := c.usedRam_le
  constructor <;> rw [httbr0']
  · intro o ho
    obtain ⟨hle, -, -⟩ := h.imageSize_le
    simp only [size1MB] at hle
    have hidx := lvl1Index_kernel o
    rw [hb.built.walk_eq (by simp only [Areas.kernelVirtStartAddr]; omega) ?_ htables, hb.image o ho]
    rw [hidx, hboot (Nat.le_add_right _ _) (.inl (by simp only [kernelStartIdx]; omega))]
  · intro o ho
    refine hole_walk (fun i hi => ?_) h.ram_aligned ?_ (by rwa [Nat.div_mul_cancel hdram])
    · rw [hboot (by simp only [kernelStartIdx]; omega) (.inr (by omega)), hb.hole i hi]
    · rw [Nat.div_mul_cancel hdram]
      exact h.ram_end.trans (by decide)
  · intro m hm k hlt
    have hdevice := hinv.mapped m hm
    obtain ⟨hlow, -⟩ := hdevice.slot k hlt
    have hphys := hdevice.phys_lt
    rw [peripherals_start] at hlow
    refine armWalk_section (by omega) (hdevice.aligned k hlt) ?_
    rw [hentry (by simp only [lvl1Index, kernelStartIdx]; omega), ← httbr0]
    exact hdevice.entry k hlt
  · intro v hv
    refine armWalk_empty (huser _ ?_)
    simp only [lvl1Index, Areas.kernelVirtStartAddr, kernelStartIdx] at hv ⊢
    omega
  · rintro v ⟨hlow, hhigh⟩
    rw [show Areas.kernelHeap.start = 3271557120 by decide] at hlow
    rw [show Areas.kernelHeap.end = 3758096384 by decide] at hhigh
    refine armWalk_empty ?_
    rw [hboot (by simp only [lvl1Index, kernelStartIdx]; omega) (.inr (by simp only [lvl1Index]; omega))]
    exact hb.free _ (by simp only [lvl1Index, kernelStartIdx]; omega) (by simp only [lvl1Index]; omega)

/-- A board with 128MB of RAM, and a kernel that does not start at a megabyte. -/
def virtBoard : BoardLayout where
  bootmemStart := 0x41000000
  bootmemSize := 0x7000000
  kernelStart := 0x40018000
  kernelEnd := 0x40222345
  dtbStart := 0x40223000
  dtbEnd := 0x40224000
  ramStart := 0x40000000
  ramSize := 0x8000000

lemma virtBoard_valid : virtBoard.Valid := by constructor <;> decide

end Completion

end Pi0Os.Boot
