import Pi0Os.Memory.AddressTranslation

/-! The mapping of the bundled kernel by `boot_start`, over the memory that `bootmem_alloc` gives out. Each turn of its
loop fills one entry of the first-level table, with a section when both addresses are at a megabyte. -/

namespace Pi0Os.Boot

open Kernel Library Memory

/-- `s_bootmem`. -/
structure Bootmem where
  start : ℕ
  «end» : ℕ
  current : ℕ

def bootmemInit (start size : ℕ) : Bootmem := ⟨start, add32 start size, start⟩

def bootmemAlloc (size alignment : ℕ) (b : Bootmem) : Except Panic (ℕ × Bootmem) := do
  -- the source masks the low bits: `alignment` is a power of two
  let aligned := roundUp32 b.current alignment
  kassert "aligned + size <= s_bootmem.end" (add32 aligned size ≤ b.end)
  return (aligned, { b with current := add32 aligned size })

/-- The memory, and the variables of the loop. -/
structure KernelMapping where
  words : ℕ → ℕ
  bootmem : Bootmem
  nextVirt : ℕ
  nextPhys : ℕ
  mapped : ℕ

/-- The inner loop with `n` entries of the table to go. -/
def mapPages (table size : ℕ) : ℕ → KernelMapping → Except Panic KernelMapping
  | 0, s => .ok s
  | n + 1, s =>
    if s.mapped < size then do
      let entry := table + 4 * (lvl2Entries - (n + 1))
      kassert "table[idx].raw == 0" (s.words entry = 0)
      mapPages table size n { s with
        words := Function.update s.words entry (SmallPageEntry.makeEntry s.nextPhys .priviledgedOnly)
        nextPhys := add32 s.nextPhys size4KB
        nextVirt := add32 s.nextVirt size4KB
        mapped := add32 s.mapped size4KB }
    else .ok s

def fillTable (root : ℕ) (s : KernelMapping) : Except Panic KernelMapping :=
  let entry := root + 4 * lvl1Index s.nextVirt
  if s.words entry = 0 then do
    let (table, bootmem) ← bootmemAlloc size1KB size1KB s.bootmem
    let words := fill s.words table lvl2TableSize 0
    return { s with words := Function.update words entry (CoarsePageTableEntry.makeEntry table), bootmem := bootmem }
  else .ok s

/-- A turn of the outer loop. -/
def mapNext (root size : ℕ) (s : KernelMapping) : Except Panic KernelMapping :=
  let entry := root + 4 * lvl1Index s.nextVirt
  if s.nextVirt % size1MB = 0 ∧ s.nextPhys % size1MB = 0 then
    return { s with
      words := Function.update s.words entry (SectionEntry.makeEntry s.nextPhys .priviledgedOnly)
      nextPhys := add32 s.nextPhys size1MB
      nextVirt := add32 s.nextVirt size1MB
      mapped := add32 s.mapped size1MB }
  else do
    let s ← fillTable root s
    mapPages (CoarsePageTableEntry.baseAddress (s.words entry)) size (lvl2Entries - lvl2Index s.nextVirt) s

def mapKernel (root size : ℕ) : ℕ → KernelMapping → Except Panic KernelMapping
  | 0, s => if s.mapped < size then .error (.undefined "a loop that does not end") else .ok s
  | fuel + 1, s => if s.mapped < size then mapNext root size s >>= mapKernel root size fuel else .ok s

/-- The loop cannot take more turns than the image has bytes. -/
def mapBundledKernel (root kernelStart kernelEnd : ℕ) (words : ℕ → ℕ) (bootmem : Bootmem) :
    Except Panic KernelMapping :=
  let size := roundUp32 (sub32 kernelEnd kernelStart) size4KB
  mapKernel root size size ⟨words, bootmem, Areas.kernelVirtStartAddr, kernelStart, 0⟩

/-- `boot_start` to the end of that loop, with its `page_translation_table`. -/
def bootPageTable (bootmemStart bootmemSize kernelStart kernelEnd : ℕ) (words : ℕ → ℕ) :
    Except Panic (ℕ × KernelMapping) := do
  let (root, bootmem) ← bootmemAlloc lvl1TableSize size16KB (bootmemInit bootmemStart bootmemSize)
  return (root, ← mapBundledKernel root kernelStart kernelEnd (fill words root lvl1TableSize 0) bootmem)

section Pages

variable {table idx size n c : ℕ} {s s' : KernelMapping}

/-- The inner loop has filled `c` entries from `idx` on. -/
structure PagesMapped (table idx c : ℕ) (s s' : KernelMapping) : Prop where
  bootmem : s'.bootmem = s.bootmem
  virt : s'.nextVirt = s.nextVirt + c * size4KB
  phys : s'.nextPhys = (s.nextPhys + c * size4KB) % 2 ^ 32
  mapped : s'.mapped = s.mapped + c * size4KB
  entry : ∀ j < c, s'.words (table + 4 * (idx + j)) =
    SmallPageEntry.makeEntry ((s.nextPhys + j * size4KB) % 2 ^ 32) .priviledgedOnly
  frame : ∀ a, (∀ j < c, a ≠ table + 4 * (idx + j)) → s'.words a = s.words a

lemma PagesMapped.refl (hphys : s.nextPhys < 2 ^ 32) : PagesMapped table idx 0 s s := by
  refine ⟨rfl, (Nat.add_zero _).symm, ?_, (Nat.add_zero _).symm, fun j hj => absurd hj (Nat.not_lt_zero j),
    fun _ _ => rfl⟩
  rw [Nat.zero_mul, Nat.add_zero, Nat.mod_eq_of_lt hphys]

/-- The entry at `idx` first, then the `c` entries after it. -/
lemma PagesMapped.cons {t : KernelMapping} (h : PagesMapped table (idx + 1) c t s') (hphys : s.nextPhys < 2 ^ 32)
    (ht : t = { s with
      words := Function.update s.words (table + 4 * idx) (SmallPageEntry.makeEntry s.nextPhys .priviledgedOnly)
      nextPhys := (s.nextPhys + size4KB) % 2 ^ 32
      nextVirt := s.nextVirt + size4KB
      mapped := s.mapped + size4KB }) : PagesMapped table idx (c + 1) s s' := by
  subst ht
  obtain ⟨hbootmem, hvirt, hp, hmapped, hentry, hframe⟩ := h
  dsimp only at hbootmem hvirt hp hmapped hentry hframe
  simp only [size4KB] at hvirt hp hmapped hentry
  have hnext (j : ℕ) : idx + (j + 1) = idx + 1 + j := by omega
  have hmod (j : ℕ) : ((s.nextPhys + 4096) % 2 ^ 32 + j * 4096) % 2 ^ 32 = (s.nextPhys + (j + 1) * 4096) % 2 ^ 32 := by
    omega
  refine ⟨hbootmem, ?_, hp.trans (hmod c), ?_, fun j hj => ?_, fun a ha => ?_⟩
  · simp only [size4KB]
    omega
  · simp only [size4KB]
    omega
  · cases j with
    | zero =>
      rw [hframe _ fun j _ => by omega, Nat.add_zero, Function.update_self, Nat.zero_mul, Nat.add_zero,
        Nat.mod_eq_of_lt hphys]
    | succ j =>
      rw [hnext, hentry j (Nat.lt_of_succ_lt_succ hj), hmod]
  · have hne : a ≠ table + 4 * idx := ha 0 (Nat.succ_pos c)
    rw [hframe a fun j hj => ?_, Function.update_of_ne hne]
    rw [← hnext]
    exact ha (j + 1) (Nat.succ_lt_succ hj)

lemma mapPages_succ (hlt : s.mapped < size) (hempty : s.words (table + 4 * (lvl2Entries - (n + 1))) = 0)
    (hvirt : s.nextVirt + size4KB < 2 ^ 32) (hmapped : s.mapped + size4KB < 2 ^ 32) :
    mapPages table size (n + 1) s = mapPages table size n { s with
      words := Function.update s.words (table + 4 * (lvl2Entries - (n + 1)))
        (SmallPageEntry.makeEntry s.nextPhys .priviledgedOnly)
      nextPhys := (s.nextPhys + size4KB) % 2 ^ 32
      nextVirt := s.nextVirt + size4KB
      mapped := s.mapped + size4KB } := by
  rw [mapPages, if_pos hlt]
  dsimp only
  rw [kassert_of hempty, ok_bind, add32_of_lt hvirt, add32_of_lt hmapped, add32]

variable (size) in
lemma mapPages_spec (hn : n ≤ lvl2Entries) (hphys : s.nextPhys < 2 ^ 32) (hvirt : s.nextVirt + n * size4KB < 2 ^ 32)
    (hmapped : s.mapped + n * size4KB < 2 ^ 32)
    (hempty : ∀ j, lvl2Entries - n ≤ j → j < lvl2Entries → s.words (table + 4 * j) = 0) :
    ∃ c s', c ≤ n ∧ (c = n ∨ size ≤ s.mapped + c * size4KB) ∧ (0 < n → s.mapped < size → 0 < c) ∧
      mapPages table size n s = .ok s' ∧ PagesMapped table (lvl2Entries - n) c s s' := by
  induction n generalizing s with
  | zero => exact ⟨0, s, le_rfl, .inl rfl, fun h => absurd h (Nat.lt_irrefl 0), rfl, .refl hphys⟩
  | succ n ih =>
    by_cases hlt : s.mapped < size
    · have hidx : lvl2Entries - (n + 1) + 1 = lvl2Entries - n := by omega
      have hle (x k : ℕ) : x + size4KB + k * size4KB = x + (k + 1) * size4KB := by rw [Nat.succ_mul]; omega
      have hone (x : ℕ) : x + size4KB ≤ x + (n + 1) * size4KB := by
        rw [← hle]
        exact Nat.le_add_right _ _
      have hphys' : (s.nextPhys + size4KB) % 2 ^ 32 < 2 ^ 32 := Nat.mod_lt _ (by decide)
      rw [mapPages_succ hlt (hempty _ le_rfl (by omega)) ((hone _).trans_lt hvirt) ((hone _).trans_lt hmapped)]
      generalize ht : KernelMapping.mk _ _ _ _ _ = t
      have hnextPhys : t.nextPhys = (s.nextPhys + size4KB) % 2 ^ 32 := by rw [← ht]
      have hnextVirt : t.nextVirt = s.nextVirt + size4KB := by rw [← ht]
      have hnextMapped : t.mapped = s.mapped + size4KB := by rw [← ht]
      have hrest : ∀ j, lvl2Entries - n ≤ j → j < lvl2Entries → t.words (table + 4 * j) = 0 := by
        intro j hj hlt
        rw [← ht]
        exact (Function.update_of_ne (by omega) _ _).trans (hempty j (by omega) hlt)
      rw [← hle, ← hnextVirt] at hvirt
      rw [← hle, ← hnextMapped] at hmapped
      obtain ⟨c, s', hc, hend, -, hrun, hpages⟩ := ih (by omega) (hnextPhys ▸ hphys') hvirt hmapped hrest
      rw [hnextMapped, hle] at hend
      refine ⟨c + 1, s', by omega, hend.imp (congrArg (· + 1)) id, fun _ _ => Nat.succ_pos c, hrun, ?_⟩
      rw [← hidx] at hpages
      exact hpages.cons hphys ht.symm
    · refine ⟨0, s, Nat.zero_le _, .inr (by omega), fun _ h => absurd h hlt, ?_, .refl hphys⟩
      rw [mapPages, if_neg hlt]

end Pages

section Tables

variable {root n : ℕ} {b : Bootmem}

/-- The allocator has memory for `n` more tables, none of it in the first-level table. -/
structure FreshTables (root n : ℕ) (b : Bootmem) : Prop where
  room : roundDown (b.current + (size1KB - 1)) size1KB + n * size1KB ≤ b.end
  end_lt : b.end < 2 ^ 32
  disjoint : root + lvl1TableSize ≤ b.current ∨ b.end ≤ root

/-- A table that lies below `current` and not in the first-level table. -/
structure PlacedTable (root current t : ℕ) : Prop where
  below : t + lvl2TableSize ≤ current
  disjoint : root + lvl1TableSize ≤ t ∨ t + lvl2TableSize ≤ root

lemma PlacedTable.mono {current current' t : ℕ} (h : PlacedTable root current t) (hle : current ≤ current') :
    PlacedTable root current' t := ⟨h.below.trans hle, h.disjoint⟩

lemma FreshTables.alloc (h : FreshTables root (n + 1) b) :
    ∃ table b', bootmemAlloc size1KB size1KB b = .ok (table, b') ∧ size1KB ∣ table ∧ table < 2 ^ 32 ∧
      b.current ≤ table ∧ PlacedTable root b'.current table ∧ FreshTables root n b' := by
  obtain ⟨hroom, hend, hdisj⟩ := h
  obtain ⟨table, htable⟩ : ∃ table, roundDown (b.current + (size1KB - 1)) size1KB = table := ⟨_, rfl⟩
  have hd : size1KB ∣ table := htable ▸ dvd_roundDown _ _
  have hle : b.current ≤ table := by
    simp only [roundDown, size1KB] at htable
    omega
  rw [htable, Nat.succ_mul, Nat.add_comm (n * size1KB), ← Nat.add_assoc] at hroom
  simp only [lvl1TableSize, size1KB] at hdisj hroom
  have hup : roundUp32 b.current size1KB = table := by
    rw [← htable, roundUp32, roundDown, Nat.add_sub_assoc (by decide), Nat.mod_eq_of_lt]
    simp only [size1KB]
    omega
  have hadd : add32 table size1KB = table + size1KB := add32_of_lt (by simp only [size1KB]; omega)
  refine ⟨table, { b with current := table + size1KB }, ?_, hd, by omega, hle, ⟨le_rfl, ?_⟩, ⟨?_, hend, ?_⟩⟩
  · rw [bootmemAlloc, hup, kassert_of (hadd.trans_le ((Nat.le_add_right _ _).trans hroom)), ok_bind, hadd, pure_eq_ok]
  · simp only [lvl1TableSize, lvl2TableSize, size1KB]
    omega
  · refine le_trans (Nat.add_le_add_right (le_of_eq ?_) _) hroom
    obtain ⟨q, rfl⟩ := hd
    simp only [roundDown, size1KB]
    omega
  · simp only [lvl1TableSize, size1KB]
    omega

end Tables

section Turns

variable {root start size k : ℕ} {s s' : KernelMapping}

/-- What the loop has done when it has mapped `s.mapped` bytes: all of the image, or whole megabytes. -/
structure MappedTo (root start size : ℕ) (s : KernelMapping) : Prop where
  turn : size ≤ s.mapped ∨ size1MB ∣ s.mapped
  bound : s.mapped < size + size1MB
  virt : s.nextVirt = Areas.kernelVirtStartAddr + s.mapped
  phys : s.nextPhys = (start + s.mapped) % 2 ^ 32
  fresh : FreshTables root ((size - s.mapped + (size1MB - 1)) / size1MB) s.bootmem
  empty : ∀ i < 1024, s.mapped ≤ i * size1MB → s.words (root + 4 * (kernelStartIdx + i)) = 0
  tables : ∀ i < 1024, ∀ t, tableAt s.words root (kernelStartIdx + i) = some t → PlacedTable root s.bootmem.current t
  walk : ∀ o < s.mapped, o < size →
    armWalk s.words root (Areas.kernelVirtStartAddr + o) = some (start + o, .priviledgedOnly)

/-- The memory is as it was in the first-level table and in the tables placed so far, except for the entry of the
megabyte `k`. -/
def KeptBut (root k : ℕ) (s s' : KernelMapping) : Prop :=
  ∀ a, a ≠ root + 4 * (kernelStartIdx + k) → a ∈ Set.Ico root (root + lvl1TableSize) ∨ a < s.bootmem.current →
    s'.words a = s.words a

lemma lvl1Index_kernel (o : ℕ) : lvl1Index (Areas.kernelVirtStartAddr + o) = kernelStartIdx + o / 2 ^ 20 := by
  simp only [lvl1Index, Areas.kernelVirtStartAddr, kernelStartIdx]
  omega

lemma lvl2Index_lt (virt : ℕ) : lvl2Index virt < lvl2Entries := Nat.mod_lt _ (by decide)

lemma KeptBut.entry (h : KeptBut root k s s') {i : ℕ} (hi : i < 1024) (hik : i ≠ k) :
    s'.words (root + 4 * (kernelStartIdx + i)) = s.words (root + 4 * (kernelStartIdx + i)) := by
  refine h _ (by omega) (.inl ?_)
  simp only [Set.mem_Ico, lvl1TableSize, size1KB, kernelStartIdx]
  omega

lemma KeptBut.tableAt (h : KeptBut root k s s') {i : ℕ} (hi : i < 1024) (hik : i ≠ k) :
    Memory.tableAt s'.words root (kernelStartIdx + i) = Memory.tableAt s.words root (kernelStartIdx + i) := by
  rw [Memory.tableAt, h.entry hi hik, Memory.tableAt]

lemma KeptBut.walk (h : KeptBut root k s s') (hs : MappedTo root start size s) {o : ℕ} (ho : o / 2 ^ 20 < 1024)
    (hk : k < 1024) (hok : o / 2 ^ 20 ≠ k) :
    armWalk s'.words root (Areas.kernelVirtStartAddr + o) = armWalk s.words root (Areas.kernelVirtStartAddr + o) := by
  refine armWalk_congr ?_ fun t ht => ?_
  · rw [lvl1Index_kernel]
    exact h.entry ho hok
  · rw [lvl1Index_kernel] at ht
    obtain ⟨hbelow, hdisj⟩ := hs.tables _ ho t ht
    have hlt := lvl2Index_lt (Areas.kernelVirtStartAddr + o)
    simp only [lvl1TableSize, lvl2TableSize, size1KB, lvl2Entries] at hbelow hdisj hlt
    refine h _ ?_ (.inr ?_)
    · simp only [kernelStartIdx]
      omega
    · omega

/-- A turn fills the entry of the megabyte `k`, and maps it or what is left of the image. -/
structure Turn (root start size k n : ℕ) (s s' : KernelMapping) : Prop where
  le : n ≤ size1MB
  done : n = size1MB ∨ size ≤ s.mapped + n
  kept : KeptBut root k s s'
  mapped : s'.mapped = s.mapped + n
  virt : s'.nextVirt = s.nextVirt + n
  phys : s'.nextPhys = (s.nextPhys + n) % 2 ^ 32
  current : s.bootmem.current ≤ s'.bootmem.current
  fresh : FreshTables root ((size - s.mapped + (size1MB - 1)) / size1MB - 1) s'.bootmem
  table : ∀ t, tableAt s'.words root (kernelStartIdx + k) = some t → PlacedTable root s'.bootmem.current t
  walk : ∀ o, s.mapped ≤ o → o < s.mapped + n → o < size →
    armWalk s'.words root (Areas.kernelVirtStartAddr + o) = some (start + o, .priviledgedOnly)

lemma FreshTables.mono {m n : ℕ} {b : Bootmem} (h : FreshTables root n b) (hle : m ≤ n) : FreshTables root m b :=
  ⟨(Nat.add_le_add_left (Nat.mul_le_mul_right _ hle) _).trans h.room, h.end_lt, h.disjoint⟩

lemma MappedTo.next {n : ℕ} (h : MappedTo root start size s) (ht : Turn root start size k n s s') (hn : 0 < n)
    (hsize : size ≤ 1024 * size1MB) (hlt : s.mapped < size) (hk : s.mapped = k * size1MB) :
    MappedTo root start size s' := by
  obtain ⟨hle, hdone, hkept, hmapped, hvirt, hphys, hcurrent, hfresh, htable, hwalk⟩ := ht
  simp only [size1MB] at hsize hk hle hdone hfresh
  have hk1024 : k < 1024 := by omega
  refine ⟨?_, ?_, ?_, ?_, hfresh.mono ?_, fun i hi hge => ?_, fun i hi t hit => ?_, fun o ho hos => ?_⟩
  · simp only [size1MB]
    omega
  · simp only [size1MB]
    omega
  · rw [hvirt, hmapped, h.virt, Nat.add_assoc]
  · rw [hphys, hmapped, h.phys, Nat.mod_add_mod, Nat.add_assoc]
  · simp only [size1MB]
    omega
  · simp only [size1MB] at hge
    rw [hkept.entry hi (by omega)]
    exact h.empty i hi (by simp only [size1MB]; omega)
  · by_cases hik : i = k
    · subst hik
      exact htable t hit
    · rw [hkept.tableAt hi hik] at hit
      exact (h.tables i hi t hit).mono hcurrent
  · by_cases hold : o < s.mapped
    · rw [hkept.walk h (by omega) hk1024 (by omega)]
      exact h.walk o hold hos
    · exact hwalk o (by omega) (by omega) hos

lemma MappedTo.lvl1Index (h : MappedTo root start size s) (hk : s.mapped = k * size1MB) :
    lvl1Index s.nextVirt = kernelStartIdx + k := by
  rw [h.virt, lvl1Index_kernel, hk]
  simp only [size1MB]
  omega

lemma MappedTo.nextPhys_eq (h : MappedTo root start size s) (hend : start + size ≤ 2 ^ 32) (hlt : s.mapped < size) :
    s.nextPhys = start + s.mapped := by
  rw [h.phys, Nat.mod_eq_of_lt (by omega)]

/-- The virtual addresses keep pace with the image, so that it is its start that decides. -/
lemma MappedTo.aligned_iff (h : MappedTo root start size s) (hend : start + size ≤ 2 ^ 32) (hlt : s.mapped < size)
    (hk : s.mapped = k * size1MB) : (s.nextVirt % size1MB = 0 ∧ s.nextPhys % size1MB = 0) ↔ size1MB ∣ start := by
  rw [h.virt, h.nextPhys_eq hend hlt, hk]
  simp only [Areas.kernelVirtStartAddr, size1MB]
  omega

lemma mapNext_section (h : MappedTo root start size s) (hd : size1MB ∣ start) (hend : start + size ≤ 2 ^ 32)
    (hsize : size ≤ 16 * size1MB) (hlt : s.mapped < size) (hk : s.mapped = k * size1MB) :
    ∃ s', mapNext root size s = .ok s' ∧ Turn root start size k size1MB s s' := by
  have hphys := h.nextPhys_eq hend hlt
  have hvirt : add32 s.nextVirt size1MB = s.nextVirt + size1MB := add32_of_lt (by
    rw [h.virt]
    simp only [Areas.kernelVirtStartAddr, size1MB] at hsize ⊢
    omega)
  have hmapped : add32 s.mapped size1MB = s.mapped + size1MB := add32_of_lt (by
    simp only [size1MB] at hsize ⊢
    omega)
  rw [mapNext, if_pos ((h.aligned_iff hend hlt hk).mpr hd), h.lvl1Index hk, hvirt, hmapped]
  refine ⟨_, rfl, le_rfl, .inl rfl, fun a ha _ => Function.update_of_ne ha _ _, rfl, rfl, rfl, le_rfl,
    h.fresh.mono (Nat.sub_le _ _), fun t ht => ?_, fun o hlow hhigh ho => ?_⟩
  · obtain ⟨hc, -⟩ := tableAt_eq_some.mp ht
    dsimp only at hc
    rw [Function.update_self] at hc
    exact absurd (SectionEntry.isSection_makeEntry _ _) (not_isSection_of_isCoarsePage hc)
  · simp only [size1MB] at hd hk hhigh
    refine armWalk_section (by omega) (by simp only [Areas.kernelVirtStartAddr]; omega) ?_
    dsimp only
    rw [lvl1Index_kernel, show o / 2 ^ 20 = k by omega, Function.update_self]
    exact SectionEntry.makeEntry_congr _ (by omega)

/-- An empty table has been placed in the entry of the megabyte `k`. -/
structure TableFilled (root size k table : ℕ) (s t : KernelMapping) : Prop where
  aligned : size1KB ∣ table
  lt : table < 2 ^ 32
  virt : t.nextVirt = s.nextVirt
  phys : t.nextPhys = s.nextPhys
  mapped : t.mapped = s.mapped
  current : s.bootmem.current ≤ t.bootmem.current
  placed : PlacedTable root t.bootmem.current table
  fresh : FreshTables root ((size - s.mapped + (size1MB - 1)) / size1MB - 1) t.bootmem
  entry : t.words (root + 4 * (kernelStartIdx + k)) = CoarsePageTableEntry.makeEntry table
  empty : ∀ j < lvl2Entries, t.words (table + 4 * j) = 0
  unused : s.bootmem.current ≤ table
  kept : ∀ a, a ≠ root + 4 * (kernelStartIdx + k) → a ∉ Set.Ico table (table + lvl2TableSize) → t.words a = s.words a

lemma MappedTo.fillTable (h : MappedTo root start size s) (hsize : size ≤ 16 * size1MB) (hlt : s.mapped < size)
    (hk : s.mapped = k * size1MB) :
    ∃ table t, Boot.fillTable root s = .ok t ∧ TableFilled root size k table s t := by
  simp only [size1MB] at hsize
  have hneed : (size - s.mapped + (size1MB - 1)) / size1MB - 1 + 1 = (size - s.mapped + (size1MB - 1)) / size1MB := by
    simp only [size1MB]
    omega
  have hk16 : k < 16 := by
    simp only [size1MB] at hk
    omega
  obtain ⟨table, b, halloc, hd, htable, hcurrent, hplaced, hfresh⟩ := FreshTables.alloc (hneed ▸ h.fresh)
  have hzero : s.words (root + 4 * (kernelStartIdx + k)) = 0 := h.empty k (by omega) hk.le
  have hfill : Boot.fillTable root s = .ok { s with
      words := Function.update (fill s.words table lvl2TableSize 0) (root + 4 * (kernelStartIdx + k))
        (CoarsePageTableEntry.makeEntry table)
      bootmem := b } := by
    rw [Boot.fillTable, h.lvl1Index hk]
    dsimp only
    rw [if_pos hzero, halloc]
    rfl
  refine ⟨table, _, hfill, hd, htable, rfl, rfl, rfl, ?_, hplaced, hfresh, Function.update_self .., fun j hj => ?_,
    hcurrent, fun a ha hout => ?_⟩
  · exact hcurrent.trans ((Nat.le_add_right _ _).trans hplaced.below)
  · have hdisj := hplaced.disjoint
    simp only [lvl1TableSize, lvl2TableSize, size1KB, lvl2Entries] at hdisj hj
    refine (Function.update_of_ne ?_ _ _).trans (fill_of_mem ?_)
    · simp only [kernelStartIdx]
      omega
    · simp only [Set.mem_Ico, lvl2TableSize, size1KB]
      omega
  · exact (Function.update_of_ne ha _ _).trans (if_neg hout)

/-- The pages of a turn go to a table that was just placed. -/
lemma TableFilled.turn {table c : ℕ} {t : KernelMapping} (h : MappedTo root start size s)
    (ht : TableFilled root size k table s t) (hpages : PagesMapped table 0 c t s') (hc : c ≤ lvl2Entries)
    (hdone : c = lvl2Entries ∨ size ≤ s.mapped + c * size4KB) (hpage : size4KB ∣ start)
    (hend : start + size ≤ 2 ^ 32) (hsize : size ≤ 16 * size1MB) (hlt : s.mapped < size)
    (hk : s.mapped = k * size1MB) : Turn root start size k (c * size4KB) s s' := by
  obtain ⟨hd, htlt, hvirt, hphys, hmapped, hcurrent, hplaced, hfresh, hentry, -, hunused, hkept⟩ := ht
  have hnext := h.nextPhys_eq hend hlt
  have hdisj := hplaced.disjoint
  simp only [size1MB] at hk hsize
  simp only [lvl2Entries] at hc hdone
  simp only [lvl1TableSize, lvl2TableSize, size1KB] at hdisj
  have hroot : ∀ j < c, root + 4 * (kernelStartIdx + k) ≠ table + 4 * (0 + j) := by
    intro j hj
    simp only [kernelStartIdx]
    omega
  have hentry' : s'.words (root + 4 * (kernelStartIdx + k)) = CoarsePageTableEntry.makeEntry table :=
    (hpages.frame _ hroot).trans hentry
  have htable : tableAt s'.words root (kernelStartIdx + k) = some table := by
    rw [tableAt_eq_some, hentry']
    exact ⟨CoarsePageTableEntry.isCoarsePage_makeEntry _, CoarsePageTableEntry.baseAddress_makeEntry hd htlt⟩
  refine ⟨?_, ?_, fun a ha hin => ?_, ?_, ?_, ?_, ?_, ?_, fun t' ht' => ?_, fun o hlow hhigh ho => ?_⟩
  · simp only [size4KB, size1MB]
    omega
  · simp only [size4KB, size1MB] at hdone ⊢
    omega
  · have hout : a ∉ Set.Ico table (table + lvl2TableSize) := by
      simp only [Set.mem_Ico, lvl1TableSize, lvl2TableSize, size1KB] at hin ⊢
      omega
    rw [hpages.frame a fun j hj => ?_, hkept a ha hout]
    simp only [Set.mem_Ico, lvl2TableSize, size1KB] at hout
    omega
  · rw [hpages.mapped, hmapped]
  · rw [hpages.virt, hvirt]
  · rw [hpages.phys, hphys]
  · rw [hpages.bootmem]
    exact hcurrent
  · rw [hpages.bootmem]
    exact hfresh
  · obtain rfl := Option.some.inj (htable.symm.trans ht')
    rw [hpages.bootmem]
    exact hplaced
  · -- the page of the megabyte that the byte is in
    simp only [size4KB] at hhigh hpage
    have hindex : lvl2Index (Areas.kernelVirtStartAddr + o) = 0 + (o - s.mapped) / 4096 := by
      simp only [lvl2Index, Areas.kernelVirtStartAddr]
      omega
    have haddr : (t.nextPhys + (o - s.mapped) / 4096 * size4KB) % 2 ^ 32 = start + o - o % 4096 := by
      rw [hphys, hnext, Nat.mod_eq_of_lt] <;> simp only [size4KB] <;> omega
    rw [← show kernelStartIdx + o / 2 ^ 20 = kernelStartIdx + k by omega, ← lvl1Index_kernel] at htable
    rw [armWalk_table htable, hindex, hpages.entry _ (by omega), haddr, lvl2Translation_makeEntry _ _ (by omega)]
    · simp only [Areas.kernelVirtStartAddr, Option.some.injEq, Prod.mk.injEq, and_true]
      omega
    · simp only [size4KB]
      omega

lemma mapNext_table (h : MappedTo root start size s) (hd : ¬ size1MB ∣ start) (hpage : size4KB ∣ start)
    (hend : start + size ≤ 2 ^ 32) (hsize : size ≤ 16 * size1MB) (hlt : s.mapped < size)
    (hk : s.mapped = k * size1MB) : ∃ s' n, 0 < n ∧ mapNext root size s = .ok s' ∧ Turn root start size k n s s' := by
  obtain ⟨table, t, hfill, ht⟩ := h.fillTable hsize hlt hk
  have hphys := h.nextPhys_eq hend hlt
  have hidx : lvl2Index t.nextVirt = 0 := by
    rw [ht.virt, h.virt, hk]
    simp only [lvl2Index, Areas.kernelVirtStartAddr, size1MB]
    omega
  simp only [size1MB] at hsize hk
  have hvirt : t.nextVirt + lvl2Entries * size4KB < 2 ^ 32 := by
    rw [ht.virt, h.virt]
    simp only [Areas.kernelVirtStartAddr, lvl2Entries, size4KB]
    omega
  have hmapped : t.mapped + lvl2Entries * size4KB < 2 ^ 32 := by
    rw [ht.mapped]
    simp only [lvl2Entries, size4KB]
    omega
  obtain ⟨c, s', hc, hdone, hpos, hrun, hpages⟩ := mapPages_spec size le_rfl
    (by rw [ht.phys, hphys]; omega) hvirt hmapped fun j _ hj => ht.empty j hj
  · refine ⟨s', c * size4KB, Nat.mul_pos (hpos (by decide) (ht.mapped ▸ hlt)) (by decide), ?_, ?_⟩
    · rw [mapNext, if_neg ((h.aligned_iff hend hlt hk).not.mpr hd), h.lvl1Index hk, hfill, ok_bind, ht.entry,
        CoarsePageTableEntry.baseAddress_makeEntry ht.aligned ht.lt, hidx]
      exact hrun
    · rw [ht.mapped] at hdone
      exact ht.turn h hpages hc hdone hpage hend hsize hlt hk

end Turns

section Runs

variable {root start size : ℕ} {s : KernelMapping}

lemma mapNext_spec (h : MappedTo root start size s) (hpage : size4KB ∣ start)
    (hend : start + size ≤ 2 ^ 32) (hsize : size ≤ 16 * size1MB) (hlt : s.mapped < size) :
    ∃ s', mapNext root size s = .ok s' ∧ s.mapped < s'.mapped ∧ MappedTo root start size s' := by
  obtain ⟨k, hk⟩ := h.turn.resolve_left (Nat.not_le.mpr hlt)
  rw [Nat.mul_comm] at hk
  have hbig : size ≤ 1024 * size1MB := hsize.trans (Nat.mul_le_mul_right _ (by decide))
  by_cases hd : size1MB ∣ start
  · obtain ⟨s', hrun, ht⟩ := mapNext_section h hd hend hsize hlt hk
    exact ⟨s', hrun, ht.mapped ▸ Nat.lt_add_of_pos_right (by decide), h.next ht (by decide) hbig hlt hk⟩
  · obtain ⟨s', n, hn, hrun, ht⟩ := mapNext_table h hd hpage hend hsize hlt hk
    exact ⟨s', hrun, ht.mapped ▸ Nat.lt_add_of_pos_right hn, h.next ht hn hbig hlt hk⟩

lemma mapKernel_spec {fuel : ℕ} (h : MappedTo root start size s) (hpage : size4KB ∣ start)
    (hend : start + size ≤ 2 ^ 32) (hsize : size ≤ 16 * size1MB) (hfuel : size ≤ s.mapped + fuel) :
    ∃ s', mapKernel root size fuel s = .ok s' ∧ size ≤ s'.mapped ∧ MappedTo root start size s' := by
  induction fuel generalizing s with
  | zero => exact ⟨s, if_neg (Nat.not_lt.mpr hfuel), hfuel, h⟩
  | succ fuel ih =>
    by_cases hlt : s.mapped < size
    · obtain ⟨t, hrun, hmore, ht⟩ := mapNext_spec h hpage hend hsize hlt
      obtain ⟨s', hrest, hs'⟩ := ih ht (by omega)
      rw [mapKernel, if_pos hlt, hrun, ok_bind]
      exact ⟨s', hrest, hs'⟩
    · exact ⟨s, if_neg hlt, Nat.not_lt.mp hlt, h⟩

/-- The loop ends, and without a failed assertion, with the image mapped to the end of its last page. -/
theorem mapBundledKernel_translates {root kernelStart kernelEnd : ℕ} {words : ℕ → ℕ} {bootmem : Bootmem}
    (hpage : size4KB ∣ kernelStart) (hle : kernelStart ≤ kernelEnd) (hend : kernelEnd < 2 ^ 32)
    (hcode : kernelEnd - kernelStart ≤ Areas.kernelCode.size) (hzero : ∀ i < lvl1Entries, words (root + 4 * i) = 0)
    (hfresh : FreshTables root ((kernelEnd - kernelStart + (size1MB - 1)) / size1MB) bootmem) :
    ∃ s, mapBundledKernel root kernelStart kernelEnd words bootmem = .ok s ∧
      ∀ o < roundUp32 (kernelEnd - kernelStart) size4KB,
        armWalk s.words root (Areas.kernelVirtStartAddr + o) = some (kernelStart + o, .priviledgedOnly) := by
  have hmax : Areas.kernelCode.size = 16777216 := by decide
  rw [hmax] at hcode
  have hsize : roundUp32 (kernelEnd - kernelStart) size4KB = (kernelEnd - kernelStart + 4095) / 4096 * 4096 := by
    simp only [roundUp32, size4KB]
    omega
  have hempty : ∀ i < lvl1Entries, tableAt words root i = none := by
    intro i hi
    rw [tableAt, hzero i hi]
    rfl
  rw [mapBundledKernel, sub32_of_le hle hend]
  generalize roundUp32 (kernelEnd - kernelStart) size4KB = size at hsize ⊢
  simp only [size4KB] at hpage
  have hinit : MappedTo root kernelStart size ⟨words, bootmem, Areas.kernelVirtStartAddr, kernelStart, 0⟩ := by
    refine ⟨.inr (dvd_zero _), ?_, rfl, ?_, hfresh.mono ?_, fun i hi _ => hzero _ ?_, fun i hi t hit => ?_,
      fun o ho => absurd ho (Nat.not_lt_zero o)⟩
    · simp only [size1MB]
      omega
    · dsimp only
      omega
    · simp only [size1MB]
      omega
    · simp only [lvl1Entries, kernelStartIdx]
      omega
    · rw [hempty _ (by simp only [lvl1Entries, kernelStartIdx]; omega)] at hit
      cases hit
  obtain ⟨s, hrun, hdone, hs⟩ := mapKernel_spec hinit hpage (by omega) (by simp only [size1MB]; omega)
    (Nat.le_add_left size 0)
  exact ⟨s, hrun, fun o ho => hs.walk o (ho.trans_le hdone) ho⟩

theorem mapBundledKernel_translates_unaligned :
    ∃ s, mapBundledKernel 0x44000000 0x40010000 0x40222345 (fun _ => 0) ⟨0x44000000, 0x44100000, 0x44004000⟩ = .ok s ∧
      armWalk s.words 0x44000000 (Areas.kernelVirtStartAddr + 0x212fff) = some (0x40222fff, .priviledgedOnly) := by
  obtain ⟨s, hrun, hwalk⟩ := @mapBundledKernel_translates 0x44000000 0x40010000 0x40222345 (fun _ => 0)
    ⟨0x44000000, 0x44100000, 0x44004000⟩ (by decide) (by decide) (by decide) (by decide) (fun _ _ => rfl)
    ⟨by decide, by decide, by decide⟩
  exact ⟨s, hrun, hwalk 0x212fff (by decide)⟩

/-- Before its loop `boot_start` has cleared the first-level table, and has the memory behind it to give out. -/
lemma bootPageTable_eq {bootmemStart bootmemSize kernelStart kernelEnd n : ℕ} (words : ℕ → ℕ)
    (hend : bootmemStart + bootmemSize < 2 ^ 32)
    (hroom : roundDown (bootmemStart + (size16KB - 1)) size16KB + lvl1TableSize + n * size1KB ≤
      bootmemStart + bootmemSize) :
    ∃ root words' bootmem, (∀ i < lvl1Entries, words' (root + 4 * i) = 0) ∧ FreshTables root n bootmem ∧
      bootPageTable bootmemStart bootmemSize kernelStart kernelEnd words =
        (do return (root, ← mapBundledKernel root kernelStart kernelEnd words' bootmem)) := by
  obtain ⟨root, hroot⟩ : ∃ root, roundDown (bootmemStart + (size16KB - 1)) size16KB = root := ⟨_, rfl⟩
  obtain ⟨q, hq⟩ : size16KB ∣ root := hroot ▸ dvd_roundDown _ _
  rw [hroot] at hroom
  simp only [lvl1TableSize, size1KB] at hroom
  have hlow : bootmemStart ≤ root := by
    simp only [roundDown, size16KB] at hroot
    omega
  have hup : roundUp32 bootmemStart size16KB = root := by
    rw [← hroot, roundUp32, roundDown, Nat.add_sub_assoc (by decide), Nat.mod_eq_of_lt]
    simp only [size16KB]
    omega
  have hadd : add32 root lvl1TableSize = root + lvl1TableSize := add32_of_lt (by
    simp only [lvl1TableSize, size1KB]
    omega)
  refine ⟨root, fill words root lvl1TableSize 0, ⟨bootmemStart, bootmemStart + bootmemSize, root + lvl1TableSize⟩,
    fun i hi => fill_of_mem ?_, ⟨?_, hend, .inl le_rfl⟩, ?_⟩
  · simp only [lvl1Entries] at hi
    simp only [Set.mem_Ico, lvl1TableSize, size1KB]
    omega
  · simp only [roundDown, size1KB, lvl1TableSize, size16KB] at hq ⊢
    omega
  · have halloc : bootmemAlloc lvl1TableSize size16KB (bootmemInit bootmemStart bootmemSize) =
        .ok (root, ⟨bootmemStart, bootmemStart + bootmemSize, root + lvl1TableSize⟩) := by
      rw [bootmemInit, add32_of_lt hend, bootmemAlloc, hup, hadd, kassert_of ?_, ok_bind, pure_eq_ok]
      simp only [lvl1TableSize, size1KB]
      omega
    rw [bootPageTable, halloc, ok_bind]

end Runs

end Pi0Os.Boot
