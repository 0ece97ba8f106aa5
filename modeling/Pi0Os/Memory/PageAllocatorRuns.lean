import Pi0Os.Library.TransitionSystem
import Pi0Os.Memory.PageReferences

/-! Every run of the physical page allocator keeps the free blocks and the blocks in
use a partition of the region handed over by `physical_page_allocator_init`. -/

namespace Pi0Os.Memory

open Kernel Library PageAllocator

/-- The parameters `boot_start` passes on: RAM that starts at a megabyte and fits the
physical memory hole, boot memory remapped into that hole, and room behind it for the
`PhysicalPage` array and one block. -/
structure BootParams.Valid (boot : BootParams) : Prop where
  ram_aligned : size1MB ∣ boot.ramStart
  ram_end : boot.ramStart + boot.ramSize ≤ 2 ^ 32
  ram_size : boot.ramSize ≤ 512 * size1MB
  bootmem : Areas.physMemStartAddr < boot.bootmemStart + boot.bootmemSize
  room : boot.bootmemStart + boot.bootmemSize + totalPages boot * 8 + size16KB ≤
    Areas.physMemStartAddr + totalPages boot * size1KB

namespace BootParams.Valid

variable {boot : BootParams}

lemma totalPages_eq (boot : BootParams) : totalPages boot = boot.ramSize / size16KB * 16 := by
  simp only [totalPages, roundDown, size16KB, size1KB]
  omega

lemma totalPages_le (h : boot.Valid) : totalPages boot ≤ 524288 := by
  have hs := h.ram_size
  rw [totalPages_eq]
  simp only [size1MB, size16KB] at hs ⊢
  omega

lemma firstFreePageIdx_bounds (h : boot.Valid) :
    16 ∣ firstFreePageIdx boot ∧ 16 ≤ firstFreePageIdx boot ∧
      firstFreePageIdx boot + 16 ≤ totalPages boot := by
  have ht := h.totalPages_le
  have hb := h.bootmem
  have hr := h.room
  have hd : 16 ∣ totalPages boot := by rw [totalPages_eq]; exact Dvd.intro_left _ rfl
  simp only [Areas.physMemStartAddr, size16KB, size1KB] at hb hr
  have hstart : add32 boot.bootmemStart boot.bootmemSize = boot.bootmemStart + boot.bootmemSize :=
    add32_of_lt (by omega)
  have hend : add32 (boot.bootmemStart + boot.bootmemSize) (totalPages boot * 8) =
      boot.bootmemStart + boot.bootmemSize + totalPages boot * 8 := add32_of_lt (by omega)
  simp only [firstFreePageIdx, hstart, hend]
  generalize he : boot.bootmemStart + boot.bootmemSize + totalPages boot * 8 = e at *
  have hle : e ≤ roundUp32 e size16KB :=
    le_roundUp32 (by decide) (by simp only [size16KB]; omega)
  have hlt : roundUp32 e size16KB < e + size16KB :=
    roundUp32_lt (by decide) (by simp only [size16KB]; omega)
  have hdvd := dvd_roundUp32 e size16KB
  simp only [size16KB] at hle hlt hdvd ⊢
  generalize roundUp32 e 16384 = u at hle hlt hdvd ⊢
  rw [sub32_of_le (by simp only [Areas.physMemStartAddr]; omega) (by omega)]
  simp only [Areas.physMemStartAddr, size1KB]
  omega

end BootParams.Valid

lemma Ready.extend {limit i : ℕ} {s : PageAllocator} {free : PageOrder → List ℕ}
    (h : Ready (i + 16) limit s free 0) (hi : 16 ∣ i) (hl : i + 16 ≤ limit) :
    Ready i limit s free (⟨i, .kb16⟩ ::ₘ 0) := by
  have ht := h.tiled.tiles
  have ha := h.tiled.aligned
  rw [add_zero] at ht ha
  refine { h with tiled := ⟨?_, ?_⟩ }
  · rw [Multiset.add_cons, Multiset.map_cons, add_zero]
    have he := ht.extend_left (Nat.le_add_right i 16) hl
    rwa [Nat.add_sub_cancel_left] at he
  · intro b hb
    rw [Multiset.add_cons, add_zero] at hb
    rcases Multiset.mem_cons.mp hb with rfl | hb
    · exact hi
    · exact ha b hb

lemma initFreeList_ready {first limit : ℕ} (hf : 16 ∣ first) (hpos : 0 < first) (fuel : ℕ) :
    ∀ (i : ℕ) (s : PageAllocator) (free : PageOrder → List ℕ), 16 ∣ i → first ≤ i + 16 →
      i + 16 ≤ limit → limit < 2 ^ 32 → i / 16 + 1 < fuel + first / 16 →
      Ready (i + 16) limit s free 0 → s.refCount = 0 →
      ∃ s' free', initFreeList first fuel i s = .ok s' ∧ Ready first limit s' free' 0 ∧
        s.SameCounts s' := by
  induction fuel with
  | zero =>
    intro i s free hi hle _ _ hfuel
    omega
  | succ fuel ih =>
    intro i s free hi hle hlim hlt hfuel h hz
    by_cases hstop : first ≤ i
    · obtain ⟨s₁, hs₁, hr₁, hc₁⟩ := (h.extend hi hlim).give (fun j _ => by rw [hz]; rfl)
      have hnext : s.next i = none := h.links.unlinked i (fun o hm => by
        have hin := h.tiled.head_mem (b := ⟨i, o⟩) (by rw [add_zero]; exact mem_freeBlocks.mpr hm)
        exact absurd hin.1 (Nat.not_le.mpr (Nat.lt_add_of_pos_right (by decide))))
      simp only [appendPageToFreePagesList, kassert_of hnext, ok_bind, pure_eq_ok, Except.ok.injEq] at hs₁
      have hsub : sub32 i (size16KB / size1KB) = i - 16 := sub32_of_le (by change 16 ≤ i; omega) (by omega)
      have hback : i - 16 + 16 = i := by omega
      obtain ⟨s', free', hs', hr', hc'⟩ := ih (i - 16) s₁ _ (by omega) (by omega) (by omega) hlt (by omega)
        (by rw [hback]; exact hr₁) (by rw [hc₁.refCount]; exact hz)
      refine ⟨s', free', ?_, hr', hc₁.trans hc'⟩
      rw [initFreeList, if_pos hstop, hsub, hs₁, hs']
    · have he : i + 16 = first := by omega
      exact ⟨s, free, by rw [initFreeList, if_neg hstop], he ▸ h, rfl, rfl, rfl⟩

theorem physicalPageAllocatorInit_spec {boot : BootParams} (h : boot.Valid) :
    ∃ s free, physicalPageAllocatorInit boot = .ok s ∧
      AllocatorInv (firstFreePageIdx boot) (totalPages boot) s free ∅ ∧
      s.ramStart = boot.ramStart ∧ s.len = totalPages boot ∧ s.refCount = 0 := by
  obtain ⟨hd, hge, hle⟩ := h.firstFreePageIdx_bounds
  have ht := h.totalPages_le
  have hdt : 16 ∣ totalPages boot := by
    rw [BootParams.Valid.totalPages_eq]
    exact Dvd.intro_left _ rfl
  let s₀ : PageAllocator := ⟨boot.ramStart, totalPages boot, fun _ => ⟨0, none⟩, fun _ => none⟩
  have hlast : sub32 (totalPages boot) (size16KB / size1KB) = totalPages boot - 16 :=
    sub32_of_le (by change 16 ≤ totalPages boot; omega) (by omega)
  have hr₀ : Ready (totalPages boot - 16 + 16) (totalPages boot) s₀ (fun _ => []) 0 := by
    rw [show totalPages boot - 16 + 16 = totalPages boot by omega]
    refine ⟨le_rfl, ?_, ⟨fun _ => rfl, fun _ _ => rfl, fun _ => List.nodup_nil, by simp⟩,
      ⟨Tiles.empty _, by simp [freeBlocks]⟩, by simp [freeBlocks]⟩
    have hend := h.ram_end
    have heq := BootParams.Valid.totalPages_eq boot
    simp only [s₀, size1KB, size16KB] at hend heq ⊢
    omega
  obtain ⟨s, free, hs, hr, hc⟩ := initFreeList_ready hd (by omega)
    ((totalPages boot - 16) / (size16KB / size1KB) + 2) (totalPages boot - 16) s₀ _ (by omega)
    (by omega) (by omega) (by omega) (by simp only [size16KB, size1KB]; omega) hr₀ rfl
  have hz : s.refCount = 0 := hc.refCount
  refine ⟨s, free, ?_, ⟨hr, by simp, fun p _ _ _ => by rw [hz]; rfl, fun p => by rw [hz]; rfl⟩,
    hc.ramStart, hc.len, hz⟩
  rw [← hs, physicalPageAllocatorInit, hlast]

/-- The calls a run of the allocator is made of. -/
inductive PageOp where
  | alloc (order : PageOrder)
  | retain (page : ℕ)
  | free (page : ℕ) (order : PageOrder)

/-- One call on the allocator, with the set of blocks that have been handed out and not
yet given back. `retain` is the increment `page->ref_count++` of a live page, which C++
defines below `INT32_MAX` only. -/
inductive PageStep : PageAllocator × Finset Block → PageOp → PageAllocator × Finset Block → Prop
  | alloc {s s' live o p} : physicalPageAlloc o s = .ok (some p, s') →
      PageStep (s, live) (.alloc o) (s', insert ⟨p, o⟩ live)
  | outOfMemory {s s' live o} : physicalPageAlloc o s = .ok (none, s') →
      PageStep (s, live) (.alloc o) (s', live)
  | retain {s live p} : (∃ o, (⟨p, o⟩ : Block) ∈ live) → s.refCount p < 2 ^ 31 - 1 →
      PageStep (s, live) (.retain p) (s.setRefCount p (s.refCount p + 1), live)
  | free {s s' live p o} : (⟨p, o⟩ : Block) ∈ live → physicalPageFree p o s = .ok s' →
      PageStep (s, live) (.free p o) (s', if s'.refCount p = 0 then live.erase ⟨p, o⟩ else live)

def pageAllocatorSystem (boot : BootParams) :
    TransitionSystem (PageAllocator × Finset Block) PageOp where
  Init c := physicalPageAllocatorInit boot = .ok c.1 ∧ c.2 = ∅
  Step := PageStep

lemma pageAllocatorSystem_inductive {boot : BootParams} (h : boot.Valid) :
    (pageAllocatorSystem boot).Inductive (fun c =>
      (∃ free, AllocatorInv (firstFreePageIdx boot) (totalPages boot) c.1 free c.2) ∧
        c.1.ramStart = boot.ramStart) := by
  constructor
  · rintro ⟨s, live⟩ ⟨hi, rfl : live = ∅⟩
    obtain ⟨s', free, hs', hinv, hram, -⟩ := physicalPageAllocatorInit_spec h
    obtain rfl : s' = s := Except.ok.inj (hs'.symm.trans hi)
    exact ⟨⟨free, hinv⟩, hram⟩
  · rintro ⟨s, live⟩ a ⟨s', live'⟩ ⟨⟨free, hinv⟩, hram⟩ hstep
    dsimp only at hinv hram ⊢
    cases hstep with
    | @alloc _ _ _ o p ha =>
      rcases hinv.alloc o with hn | ⟨p', s'', free', ha', -, hinv', -, -, hram'⟩
      · simp [hn] at ha
      · obtain ⟨rfl, rfl⟩ : p' = p ∧ s'' = s' := by simpa [ha'] using ha
        exact ⟨⟨free', hinv'⟩, hram'.trans hram⟩
    | @outOfMemory _ _ _ o ha =>
      rcases hinv.alloc o with hn | ⟨p', s'', free', ha', -⟩
      · obtain rfl : s = s' := by simpa [hn] using ha
        exact ⟨⟨free, hinv⟩, hram⟩
      · simp [ha'] at ha
    | retain hlive hmax =>
      obtain ⟨o, ho⟩ := hlive
      have hc := hinv.counted _ ho
      exact ⟨⟨free, hinv.recount (by dsimp only at hc; omega) (Or.inl ⟨o, ho⟩)⟩, hram⟩
    | free hlive hf =>
      obtain ⟨s'', free', hf', hinv', -, -, hram'⟩ := hinv.free_page hlive
      obtain rfl := Except.ok.inj (hf'.symm.trans hf)
      exact ⟨⟨free', hinv'⟩, hram'.trans hram⟩

/-- What holds of the allocator and of its live blocks between two calls. The `free`
lists are the lists of pages reached from the three heads. -/
structure Partitioned (boot : BootParams) (s : PageAllocator) (live : Finset Block)
    (free : PageOrder → List ℕ) : Prop where
  chains : ∀ o, Chain s.next (s.freeLists o) (free o)
  tiles : Tiles ((freeBlocks free + live.val).map Block.span) (firstFreePageIdx boot) (totalPages boot)
  aligned : ∀ b ∈ freeBlocks free + live.val, order2PageSize b.order ∣ s.ramStart + b.head * size1KB
  free_disjoint : ∀ b ∈ freeBlocks free, ∀ c ∈ freeBlocks free, b ≠ c → b.span.Disjoint c.span
  live_disjoint : ∀ b ∈ freeBlocks free, ∀ c ∈ live, b.span.Disjoint c.span
  free_uncounted : ∀ b ∈ freeBlocks free, s.refCount b.head = 0
  live_counted : ∀ b ∈ live, 1 ≤ s.refCount b.head

lemma AllocatorInv.partitioned {boot : BootParams} {s : PageAllocator} {live : Finset Block}
    {free : PageOrder → List ℕ} (hram : size1MB ∣ s.ramStart)
    (h : AllocatorInv (firstFreePageIdx boot) (totalPages boot) s free live) :
    Partitioned boot s live free where
  chains := h.links.chain
  tiles := h.tiled.tiles
  aligned b hb := by
    have hd : order2PageSize b.order ∣ size1MB := by cases b.order <;> decide
    refine Nat.dvd_add (hd.trans hram) ?_
    rw [order2PageSize_eq]
    exact Nat.mul_dvd_mul_right (h.tiled.aligned b hb) _
  free_disjoint b hb c hc hne := h.tiled.disjoint_free hb hc hne
  live_disjoint b hb c hc := h.tiled.disjoint_free_used hb hc
  free_uncounted b hb := h.quiet b hb b.head b.covers_head
  live_counted := h.counted

/-- Safety of the physical page allocator: after start-up, whatever is allocated,
retained and freed, the blocks stay a partition, an allocation hands out a block
disjoint from every live one, and no call panics. -/
theorem pageAllocator_safe (boot : BootParams) (hboot : boot.Valid) :
    (∃ s, physicalPageAllocatorInit boot = .ok s) ∧
    ∀ s live, (pageAllocatorSystem boot).Reachable (s, live) →
      (∃ free, Partitioned boot s live free) ∧
      (∀ o, physicalPageAlloc o s = .ok (none, s) ∨
        ∃ p s', physicalPageAlloc o s = .ok (some p, s') ∧
          ∀ b ∈ live, b.span.Disjoint (⟨p, o⟩ : Block).span) ∧
      (∀ b ∈ live, ∃ s', physicalPageFree b.head b.order s = .ok s') := by
  refine ⟨?_, fun s live hs => ?_⟩
  · obtain ⟨s, -, hs, -⟩ := physicalPageAllocatorInit_spec hboot
    exact ⟨s, hs⟩
  obtain ⟨⟨free, hinv⟩, hram⟩ := hs.invariant (pageAllocatorSystem_inductive hboot)
  refine ⟨⟨free, hinv.partitioned (hram ▸ hboot.ram_aligned)⟩, fun o => ?_, fun b hb => ?_⟩
  · rcases hinv.alloc o with hn | ⟨p, s', free', ha, hnew, hinv', -⟩
    · exact Or.inl hn
    · refine Or.inr ⟨p, s', ha, fun b hb => ?_⟩
      exact hinv'.tiled.disjoint_used (Finset.mem_insert_of_mem hb) (Finset.mem_insert_self _ _)
        (by rintro rfl; exact hnew hb)
  · obtain ⟨s', -, hf, -⟩ := hinv.free_page hb
    exact ⟨s', hf⟩

/-- The QEMU `virt` board: 128MB of RAM, with 80KB of boot memory at its 16th megabyte. -/
def virtBoot : BootParams where
  ramStart := 0x40000000
  ramSize := 128 * size1MB
  bootmemStart := 0xe1000000
  bootmemSize := 0x14000

lemma virtBoot_valid : virtBoot.Valid := by
  constructor <;> decide

theorem pageAllocator_safe_virt : virtBoot.Valid ∧
    (∃ s, physicalPageAllocatorInit virtBoot = .ok s) ∧
    ∀ s live, (pageAllocatorSystem virtBoot).Reachable (s, live) →
      (∃ free, Partitioned virtBoot s live free) ∧
      (∀ o, physicalPageAlloc o s = .ok (none, s) ∨
        ∃ p s', physicalPageAlloc o s = .ok (some p, s') ∧
          ∀ b ∈ live, b.span.Disjoint (⟨p, o⟩ : Block).span) ∧
      (∀ b ∈ live, ∃ s', physicalPageFree b.head b.order s = .ok s') :=
  ⟨virtBoot_valid, pageAllocator_safe virtBoot virtBoot_valid⟩

/-- A board with 256KB of RAM, 24KB of them boot memory that holds the kernel's tables and the vector page. -/
def smallBoot : BootParams where
  ramStart := 0x40000000
  ramSize := 256 * size1KB
  bootmemStart := 0xe0000000
  bootmemSize := 0x6000

lemma smallBoot_valid : smallBoot.Valid := by
  constructor <;> decide

end Pi0Os.Memory
