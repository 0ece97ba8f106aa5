import Pi0Os.Boot.BootStart

/-! The page tables that `boot_start` leaves: which entries of the first-level table are used, and where the tables of
the second level lie. -/

namespace Pi0Os.Boot

open Kernel Library Memory

/-- A first-level table, whose second-level tables are in the memory from `base` to `current`. -/
structure BuiltTable (root base current : ℕ) (m : ℕ → ℕ) : Prop where
  entry : ∀ i < lvl1Entries, m (root + 4 * i) = 0 ∨ isSection (m (root + 4 * i)) ∨ isCoarsePage (m (root + 4 * i))
  table : ∀ i < lvl1Entries, ∀ t, tableAt m root i = some t → size1KB ∣ t ∧ base ≤ t ∧ t + lvl2TableSize ≤ current
  table_inj : ∀ i < lvl1Entries, ∀ i' < lvl1Entries, ∀ t, tableAt m root i = some t → tableAt m root i' = some t →
    i = i'
  page : ∀ i < lvl1Entries, ∀ t, tableAt m root i = some t → ∀ j < lvl2Entries,
    m (t + 4 * j) = 0 ∨ 2 ≤ m (t + 4 * j) % 4

section Tables

variable {root base current current' k : ℕ} {m m' : ℕ → ℕ}

lemma BuiltTable.empty (hzero : ∀ i < lvl1Entries, m (root + 4 * i) = 0) : BuiltTable root base current m := by
  have hnone {i t : ℕ} (hi : i < lvl1Entries) : tableAt m root i ≠ some t := by
    intro ht
    exact ne_zero_of_isCoarsePage (tableAt_eq_some.mp ht).1 (hzero i hi)
  exact ⟨fun i hi => .inl (hzero i hi), fun i hi t ht => absurd ht (hnone hi),
    fun i hi i' _ t ht => absurd ht (hnone hi), fun i hi t ht => absurd ht (hnone hi)⟩

/-- Entries become sections. -/
lemma BuiltTable.sections (h : BuiltTable root base current m)
    (hentry : ∀ i < lvl1Entries, m' (root + 4 * i) = m (root + 4 * i) ∨ isSection (m' (root + 4 * i)))
    (hrest : Set.EqOn m' m (Set.Ico base current)) : BuiltTable root base current m' := by
  have hold {i t : ℕ} (hi : i < lvl1Entries) (ht : tableAt m' root i = some t) : tableAt m root i = some t := by
    rcases hentry i hi with he | he
    · rw [tableAt, he] at ht
      exact ht
    · exact absurd he (not_isSection_of_isCoarsePage (tableAt_eq_some.mp ht).1)
  refine ⟨fun i hi => ?_, fun i hi t ht => h.table i hi t (hold hi ht), fun i hi i' hi' t ht ht' => ?_,
    fun i hi t ht j hj => ?_⟩
  · rcases hentry i hi with he | he
    · rw [he]
      exact h.entry i hi
    · exact .inr (.inl he)
  · exact h.table_inj i hi i' hi' t (hold hi ht) (hold hi' ht')
  · obtain ⟨-, hlow, hhigh⟩ := h.table i hi t (hold hi ht)
    simp only [lvl2TableSize, size1KB, lvl2Entries] at hhigh hj
    rw [hrest ⟨by omega, by omega⟩]
    exact h.page i hi t (hold hi ht) j hj

lemma BuiltTable.mono (h : BuiltTable root base current m) (hle : current ≤ current') :
    BuiltTable root base current' m :=
  ⟨h.entry, fun i hi t ht => let ⟨hd, hlow, hhigh⟩ := h.table i hi t ht; ⟨hd, hlow, hhigh.trans hle⟩,
    h.table_inj, h.page⟩

lemma BuiltTable.walk_eq (h : BuiltTable root base current m) {virt : ℕ} (hv : virt < 2 ^ 32)
    (hentry : m' (root + 4 * lvl1Index virt) = m (root + 4 * lvl1Index virt))
    (hrest : Set.EqOn m' m (Set.Ico base current)) : armWalk m' root virt = armWalk m root virt := by
  refine armWalk_congr hentry fun t ht => hrest ?_
  obtain ⟨-, hlow, hhigh⟩ := h.table _ (by simp only [lvl1Index, lvl1Entries]; omega) t ht
  have hlt := lvl2Index_lt virt
  simp only [lvl2TableSize, size1KB, lvl2Entries] at hhigh hlt
  exact ⟨by omega, by omega⟩

/-- The entry `k` gets the table `t`, in memory that was not in use. -/
lemma BuiltTable.insert (h : BuiltTable root base current m) {t : ℕ} (hk : k < lvl1Entries)
    (hbase : root + lvl1TableSize ≤ base) (ht : tableAt m' root k = some t) (hd : size1KB ∣ t)
    (hfresh : current ≤ t) (hlow : base ≤ current) (hend : t + lvl2TableSize ≤ current')
    (hpage : ∀ j < lvl2Entries, m' (t + 4 * j) = 0 ∨ 2 ≤ m' (t + 4 * j) % 4)
    (hkept : ∀ a, a ≠ root + 4 * k → root ≤ a → a < current → m' a = m a) : BuiltTable root base current' m' := by
  simp only [lvl1TableSize, size1KB] at hbase
  have hentry {i : ℕ} (hi : i < lvl1Entries) (hik : i ≠ k) : m' (root + 4 * i) = m (root + 4 * i) := by
    simp only [lvl1Entries] at hi
    exact hkept _ (by omega) (by omega) (by omega)
  have hold {i t : ℕ} (hi : i < lvl1Entries) (hik : i ≠ k) (hti : tableAt m' root i = some t) :
      tableAt m root i = some t := by
    rwa [tableAt, hentry hi hik] at hti
  have hapart {i : ℕ} (hi : i < lvl1Entries) (hik : i ≠ k) : tableAt m' root i ≠ some t := by
    intro hti
    obtain ⟨-, -, hle⟩ := h.table i hi t (hold hi hik hti)
    simp only [lvl2TableSize, size1KB] at hle
    omega
  refine ⟨fun i hi => ?_, fun i hi t' hti => ?_, fun i hi i' hi' t' hti hti' => ?_, fun i hi t' hti j hj => ?_⟩
  · by_cases hik : i = k
    · exact .inr (.inr (hik ▸ (tableAt_eq_some.mp ht).1))
    · rw [hentry hi hik]
      exact h.entry i hi
  · by_cases hik : i = k
    · obtain rfl := Option.some.inj (ht.symm.trans (hik ▸ hti))
      exact ⟨hd, hlow.trans hfresh, hend⟩
    · obtain ⟨hd', hlow', hhigh⟩ := h.table i hi t' (hold hi hik hti)
      exact ⟨hd', hlow', hhigh.trans (hfresh.trans ((Nat.le_add_right _ _).trans hend))⟩
  · by_cases hik : i = k
    · obtain rfl := Option.some.inj (ht.symm.trans (hik ▸ hti))
      by_contra hne
      exact hapart hi' (fun h' => hne (hik.trans h'.symm)) hti'
    · by_cases hik' : i' = k
      · obtain rfl := Option.some.inj (ht.symm.trans (hik' ▸ hti'))
        exact absurd hti (hapart hi hik)
      · exact h.table_inj i hi i' hi' t' (hold hi hik hti) (hold hi' hik' hti')
  · by_cases hik : i = k
    · obtain rfl := Option.some.inj (ht.symm.trans (hik ▸ hti))
      exact hpage j hj
    · obtain ⟨-, hlow', hhigh⟩ := h.table i hi t' (hold hi hik hti)
      have hpage' := h.page i hi t' (hold hi hik hti) j hj
      simp only [lvl2TableSize, size1KB, lvl2Entries] at hhigh hj
      simp only [lvl1Entries] at hk
      rwa [hkept _ (by omega) (by omega) (by omega)]

end Tables

section Image

variable {root base start size k alignment n : ℕ} {b b₀ : Bootmem} {s s' : KernelMapping}

lemma bootmemAlloc_eq (ha : 0 < alignment) (hn : alignment ≤ n) (hend : b.end < 2 ^ 32)
    (hroom : roundDown (b.current + (alignment - 1)) alignment + n ≤ b.end) :
    bootmemAlloc n alignment b = .ok (roundDown (b.current + (alignment - 1)) alignment,
      { b with current := roundDown (b.current + (alignment - 1)) alignment + n }) := by
  have hdiv := Nat.div_add_mod (b.current + (alignment - 1)) alignment
  have hmod := Nat.mod_lt (b.current + (alignment - 1)) ha
  have hup : roundUp32 b.current alignment = roundDown (b.current + (alignment - 1)) alignment := by
    rw [roundDown, Nat.mul_comm] at hroom
    rw [roundUp32, Nat.add_sub_assoc ha, Nat.mod_eq_of_lt (by omega), roundDown]
  rw [bootmemAlloc, hup, add32_of_lt (hroom.trans_lt hend), kassert_of hroom, ok_bind, pure_eq_ok]

/-- The part of the table that the loop over the image has filled. -/
structure ImageTable (root base : ℕ) (b₀ : Bootmem) (s : KernelMapping) : Prop where
  built : BuiltTable root base s.bootmem.current s.words
  elsewhere : ∀ i < lvl1Entries, i < kernelStartIdx ∨ kernelStartIdx + 16 ≤ i → s.words (root + 4 * i) = 0
  bounds : s.bootmem.start = b₀.start ∧ s.bootmem.end = b₀.end
  aligned : size1KB ∣ s.bootmem.current
  base_le : base ≤ s.bootmem.current
  current_le : s.bootmem.current ≤ base + (s.mapped + (size1MB - 1)) / size1MB * size1KB

lemma MappedTo.fillTable_eq (h : MappedTo root start size s) (hd : size1KB ∣ s.bootmem.current) (hlt : s.mapped < size)
    (hk : s.mapped = k * size1MB) (hk' : k < 1024) :
    s.bootmem.current + size1KB < 2 ^ 32 ∧ Boot.fillTable root s = .ok { s with
      words := Function.update (fill s.words s.bootmem.current lvl2TableSize 0) (root + 4 * (kernelStartIdx + k))
        (CoarsePageTableEntry.makeEntry s.bootmem.current)
      bootmem := { s.bootmem with current := s.bootmem.current + size1KB } } := by
  obtain ⟨hroom, hend, -⟩ := h.fresh
  have hround : roundDown (s.bootmem.current + (size1KB - 1)) size1KB = s.bootmem.current := by
    simp only [roundDown, size1KB] at hd ⊢
    omega
  have hone : s.bootmem.current + size1KB ≤ s.bootmem.end := by
    rw [hround] at hroom
    simp only [size1KB, size1MB] at hroom ⊢
    omega
  have hzero : s.words (root + 4 * (kernelStartIdx + k)) = 0 := h.empty k hk' hk.le
  refine ⟨hone.trans_lt hend, ?_⟩
  rw [Boot.fillTable, h.lvl1Index hk]
  dsimp only
  rw [if_pos hzero, bootmemAlloc_eq (by decide) le_rfl hend (hround.symm ▸ hone), hround]
  rfl

/-- A new table with `c` pages in it. -/
lemma ImageTable.pages {t : KernelMapping} {c : ℕ} (hi : ImageTable root base b₀ s)
    (hroot : root + lvl1TableSize ≤ base) (hfit : s.bootmem.current + size1KB < 2 ^ 32)
    (hk : s.mapped = k * size1MB) (hk' : k < 16)
    (ht : t = { s with
      words := Function.update (fill s.words s.bootmem.current lvl2TableSize 0) (root + 4 * (kernelStartIdx + k))
        (CoarsePageTableEntry.makeEntry s.bootmem.current)
      bootmem := { s.bootmem with current := s.bootmem.current + size1KB } })
    (hpages : PagesMapped s.bootmem.current 0 c t s') (hpos : 0 < c) (hc : c ≤ lvl2Entries) :
    ImageTable root base b₀ s' := by
  subst ht
  obtain ⟨hbootmem, -, -, hmapped, hentry, hframe⟩ := hpages
  dsimp only at hbootmem hmapped hframe
  have hbase := hi.base_le
  have hle := hi.current_le
  simp only [lvl1TableSize, size1KB] at hroot hfit
  simp only [lvl2Entries] at hc
  -- below the new table only the entry has been written
  have hkept (a : ℕ) (ha : a ≠ root + 4 * (kernelStartIdx + k)) (hlt : a < s.bootmem.current) :
      s'.words a = s.words a := by
    rw [hframe a (by omega), Function.update_of_ne ha, fill, if_neg (fun hin => absurd hin.1 (Nat.not_le.mpr hlt))]
  have hnew : s'.words (root + 4 * (kernelStartIdx + k)) = CoarsePageTableEntry.makeEntry s.bootmem.current := by
    rw [hframe _ (by simp only [kernelStartIdx]; omega), Function.update_self]
  have htable : tableAt s'.words root (kernelStartIdx + k) = some s.bootmem.current := by
    rw [tableAt_eq_some, hnew]
    exact ⟨CoarsePageTableEntry.isCoarsePage_makeEntry _,
      CoarsePageTableEntry.baseAddress_makeEntry hi.aligned (by omega)⟩
  have hcurrent : s'.bootmem.current = s.bootmem.current + size1KB := congrArg Bootmem.current hbootmem
  refine ⟨?_, fun i hi' he => ?_, hbootmem ▸ hi.bounds, ?_, ?_, ?_⟩
  · rw [hcurrent]
    refine hi.built.insert (by simp only [kernelStartIdx, lvl1Entries]; omega) hroot htable hi.aligned le_rfl hbase
      le_rfl (fun j hj => ?_) fun a ha _ hlt => hkept a ha hlt
    by_cases hjc : j < c
    · right
      rw [← Nat.zero_add j, hentry j hjc]
      simp only [SmallPageEntry.makeEntry, smallPageEntryId]
      omega
    · left
      simp only [lvl2Entries] at hj
      rw [hframe _ fun j' hj' => by omega, Function.update_of_ne (by simp only [kernelStartIdx]; omega)]
      refine fill_of_mem ?_
      simp only [Set.mem_Ico, lvl2TableSize, size1KB]
      omega
  · simp only [lvl1Entries] at hi'
    rw [hkept _ (by omega) (by omega)]
    exact hi.elsewhere i hi' he
  · rw [hcurrent]
    exact Nat.dvd_add hi.aligned (dvd_refl _)
  · rw [hcurrent]
    exact hbase.trans (Nat.le_add_right _ _)
  · rw [hcurrent, hmapped]
    simp only [size1KB, size1MB, size4KB] at hle hk ⊢
    omega

lemma mapNext_image (h : MappedTo root start size s) (hi : ImageTable root base b₀ s)
    (hroot : root + lvl1TableSize ≤ base) (hend : start + size ≤ 2 ^ 32)
    (hsize : size ≤ 16 * size1MB) (hlt : s.mapped < size) (hrun : mapNext root size s = .ok s') :
    ImageTable root base b₀ s' := by
  obtain ⟨k, hk⟩ := h.turn.resolve_left (Nat.not_le.mpr hlt)
  rw [Nat.mul_comm] at hk
  have hk' : k < 16 := by
    simp only [size1MB] at hk hsize
    omega
  have hpos := hi.current_le
  by_cases hd : size1MB ∣ start
  · have hmapped : add32 s.mapped size1MB = s.mapped + size1MB := add32_of_lt (by
      simp only [size1MB] at hsize ⊢
      omega)
    rw [mapNext, if_pos ((h.aligned_iff hend hlt hk).mpr hd), h.lvl1Index hk, hmapped, pure_eq_ok] at hrun
    obtain rfl := Except.ok.inj hrun
    refine ⟨hi.built.sections (fun i hi' => ?_) fun a ha => Function.update_of_ne ?_ _ _, fun i hi' he => ?_, hi.bounds,
      hi.aligned, hi.base_le, ?_⟩
    · by_cases hik : i = kernelStartIdx + k
      · right
        dsimp only
        rw [hik, Function.update_self]
        exact SectionEntry.isSection_makeEntry _ _
      · exact .inl (Function.update_of_ne (by omega) _ _)
    · have hlow : base ≤ a := ha.1
      simp only [lvl1TableSize, size1KB, kernelStartIdx] at hroot ⊢
      omega
    · have hne : root + 4 * i ≠ root + 4 * (kernelStartIdx + k) := by omega
      exact (Function.update_of_ne hne _ _).trans (hi.elsewhere i hi' he)
    · refine hpos.trans (Nat.add_le_add_left (Nat.mul_le_mul_right _ (Nat.div_le_div_right ?_)) _)
      exact Nat.add_le_add_right (Nat.le_add_right _ _) _
  · obtain ⟨hfit, hfill⟩ := h.fillTable_eq hi.aligned hlt hk (hk'.trans (by decide))
    rw [mapNext, if_neg ((h.aligned_iff hend hlt hk).not.mpr hd), h.lvl1Index hk, hfill, ok_bind] at hrun
    have hphys := h.nextPhys_eq hend hlt
    have hvirt := h.virt
    obtain ⟨t, ht⟩ : ∃ t : KernelMapping, t = { s with
        words := Function.update (fill s.words s.bootmem.current lvl2TableSize 0) (root + 4 * (kernelStartIdx + k))
          (CoarsePageTableEntry.makeEntry s.bootmem.current)
        bootmem := { s.bootmem with current := s.bootmem.current + size1KB } } := ⟨_, rfl⟩
    have htable : CoarsePageTableEntry.baseAddress (t.words (root + 4 * (kernelStartIdx + k))) = s.bootmem.current := by
      rw [ht]
      dsimp only
      rw [Function.update_self, CoarsePageTableEntry.baseAddress_makeEntry hi.aligned (by omega)]
    have htMapped : t.mapped = s.mapped := by rw [ht]
    have htVirt : t.nextVirt = s.nextVirt := by rw [ht]
    have htPhys : t.nextPhys = s.nextPhys := by rw [ht]
    have hidx : lvl2Index t.nextVirt = 0 := by
      rw [htVirt, hvirt, hk]
      simp only [lvl2Index, Areas.kernelVirtStartAddr, size1MB]
      omega
    rw [← ht] at hrun
    rw [htable, hidx, Nat.sub_zero] at hrun
    have hempty : ∀ j, lvl2Entries - lvl2Entries ≤ j → j < lvl2Entries → t.words (s.bootmem.current + 4 * j) = 0 := by
      intro j _ hj
      have hbase := hi.base_le
      simp only [lvl1TableSize, size1KB] at hroot
      simp only [lvl2Entries] at hj
      rw [ht]
      refine (Function.update_of_ne (by simp only [kernelStartIdx]; omega) _ _).trans (fill_of_mem ?_)
      simp only [Set.mem_Ico, lvl2TableSize, size1KB]
      omega
    simp only [size1MB] at hsize hk
    obtain ⟨c, s'', hc, -, hpos, hrun', hpages⟩ := mapPages_spec size le_rfl (by rw [htPhys, hphys]; omega)
      (by rw [htVirt, hvirt]; simp only [Areas.kernelVirtStartAddr, lvl2Entries, size4KB]; omega)
      (by rw [htMapped]; simp only [lvl2Entries, size4KB]; omega) hempty
    obtain rfl := Except.ok.inj (hrun'.symm.trans hrun)
    exact hi.pages hroot hfit hk hk' ht hpages (hpos (by decide) (htMapped ▸ hlt)) hc

lemma mapKernel_image {fuel : ℕ} (h : MappedTo root start size s) (hi : ImageTable root base b₀ s)
    (hroot : root + lvl1TableSize ≤ base) (hpage : size4KB ∣ start) (hend : start + size ≤ 2 ^ 32)
    (hsize : size ≤ 16 * size1MB) (hrun : mapKernel root size fuel s = .ok s') : ImageTable root base b₀ s' := by
  induction fuel generalizing s with
  | zero =>
    rw [mapKernel] at hrun
    split_ifs at hrun
    obtain rfl := Except.ok.inj hrun
    exact hi
  | succ fuel ih =>
    rw [mapKernel] at hrun
    split_ifs at hrun with hlt
    · obtain ⟨t, hnext, hrun⟩ := bind_eq_ok.mp hrun
      obtain ⟨t', hnext', -, ht⟩ := mapNext_spec h hpage hend hsize hlt
      obtain rfl := Except.ok.inj (hnext.symm.trans hnext')
      exact ih ht (mapNext_image h hi hroot hend hsize hlt hnext) hrun
    · obtain rfl := Except.ok.inj hrun
      exact hi

end Image

/-- What `boot_start` is promised of the board and of the bundle. -/
structure BoardLayout.Valid (c : BoardLayout) : Prop where
  kernel_page : size4KB ∣ c.kernelStart
  kernel_le : c.kernelStart ≤ c.kernelEnd
  kernel_end : c.kernelEnd < 2 ^ 32
  kernel_size : c.kernelEnd - c.kernelStart ≤ Areas.kernelCode.size
  ram_aligned : size1MB ∣ c.ramStart
  ram_end : c.ramStart + c.usedRam ≤ Areas.kernelVirtStartAddr
  bootmem_start : c.ramStart ≤ c.bootmemStart
  bootmem_size : 128 * size1KB ≤ c.bootmemSize
  bootmem_end : c.bootmemStart + c.bootmemSize < 2 ^ 32
  ram_room : c.bootmemStart + 128 * size1KB + c.usedRam / 128 + size16KB ≤ c.ramStart + c.usedRam

section Root

variable {c : BoardLayout}

/-- The bytes of the image that are mapped. -/
def BoardLayout.imageSize (c : BoardLayout) : ℕ := roundUp32 (c.kernelEnd - c.kernelStart) size4KB

lemma BoardLayout.Valid.imageSize_le (h : c.Valid) :
    c.imageSize ≤ 16 * size1MB ∧ c.kernelStart + c.imageSize ≤ 2 ^ 32 ∧
      (c.imageSize + (size1MB - 1)) / size1MB ≤ 16 := by
  obtain ⟨hpage, hle, hend, hsize, -⟩ := h
  rw [show Areas.kernelCode.size = 16777216 by decide] at hsize
  simp only [BoardLayout.imageSize, roundUp32, size4KB, size1MB] at hpage ⊢
  omega

/-- The first-level table and the tables of the image, when the loop over it has ended. -/
structure ImageMapped (c : BoardLayout) (root : ℕ) (s : KernelMapping) : Prop where
  root_aligned : size16KB ∣ root
  root_ge : c.bootmemStart ≤ root
  root_lt : root < c.bootmemStart + size16KB
  bounds : s.bootmem.start = c.bootmemStart ∧ s.bootmem.end = c.bootmemStart + c.bootmemSize
  base_le : root + lvl1TableSize ≤ s.bootmem.current
  current_le : s.bootmem.current ≤ root + lvl1TableSize + 17 * size1KB
  built : BuiltTable root (root + lvl1TableSize) s.bootmem.current s.words
  elsewhere : ∀ i < lvl1Entries, i < kernelStartIdx ∨ kernelStartIdx + 16 ≤ i → s.words (root + 4 * i) = 0
  image : ∀ o < c.imageSize,
    armWalk s.words root (Areas.kernelVirtStartAddr + o) = some (c.kernelStart + o, .priviledgedOnly)

lemma bootPageTable_spec (h : c.Valid) (words : ℕ → ℕ) :
    ∃ root s, bootPageTable c.bootmemStart c.bootmemSize c.kernelStart c.kernelEnd words = .ok (root, s) ∧
      ImageMapped c root s := by
  obtain ⟨hsize, hend, hmegabytes⟩ := h.imageSize_le
  have hroom := h.bootmem_size
  have hbootmem := h.bootmem_end
  simp only [size1KB] at hroom
  obtain ⟨root, hroot⟩ : ∃ root, roundDown (c.bootmemStart + (size16KB - 1)) size16KB = root := ⟨_, rfl⟩
  have hd : size16KB ∣ root := hroot ▸ dvd_roundDown _ _
  have hbounds : c.bootmemStart ≤ root ∧ root < c.bootmemStart + size16KB := by
    simp only [roundDown, size16KB] at hroot ⊢
    omega
  have halloc : bootmemAlloc lvl1TableSize size16KB (bootmemInit c.bootmemStart c.bootmemSize) =
      .ok (root, ⟨c.bootmemStart, c.bootmemStart + c.bootmemSize, root + lvl1TableSize⟩) := by
    rw [bootmemInit, add32_of_lt hbootmem, bootmemAlloc_eq (by decide) (by decide) hbootmem, hroot]
    dsimp only
    rw [hroot]
    simp only [lvl1TableSize, size1KB, size16KB] at hbounds ⊢
    omega
  obtain ⟨b, hb⟩ : ∃ b : Bootmem, b = ⟨c.bootmemStart, c.bootmemStart + c.bootmemSize, root + lvl1TableSize⟩ := ⟨_, rfl⟩
  have hempty : ∀ i < lvl1Entries, fill words root lvl1TableSize 0 (root + 4 * i) = 0 := by
    intro i hi
    simp only [lvl1Entries] at hi
    refine fill_of_mem ?_
    simp only [Set.mem_Ico, lvl1TableSize, size1KB]
    omega
  have hmapped : MappedTo root c.kernelStart c.imageSize
      ⟨fill words root lvl1TableSize 0, b, Areas.kernelVirtStartAddr, c.kernelStart, 0⟩ := by
    refine ⟨.inr (dvd_zero _), by simp only [size1MB]; omega, rfl, ?_, ?_, fun i hi _ => hempty _ ?_,
      fun i hi t ht => ?_, fun o ho => absurd ho (Nat.not_lt_zero o)⟩
    · have hlt := h.kernel_le.trans_lt h.kernel_end
      dsimp only
      omega
    · refine ⟨?_, by rw [hb]; exact hbootmem, .inl (by rw [hb])⟩
      rw [hb]
      simp only [roundDown, lvl1TableSize, size1KB, size16KB, size1MB] at hbounds hmegabytes ⊢
      omega
    · simp only [lvl1Entries, kernelStartIdx]
      omega
    · refine absurd (hempty (kernelStartIdx + i) ?_) (ne_zero_of_isCoarsePage (tableAt_eq_some.mp ht).1)
      simp only [lvl1Entries, kernelStartIdx]
      omega
  have himage : ImageTable root (root + lvl1TableSize) b
      ⟨fill words root lvl1TableSize 0, b, Areas.kernelVirtStartAddr, c.kernelStart, 0⟩ := by
    refine ⟨.empty hempty, fun i hi _ => hempty i hi, ⟨rfl, rfl⟩, ?_, ?_, ?_⟩ <;> rw [hb]
    · exact Nat.dvd_add ((by decide : size1KB ∣ size16KB).trans hd) (by decide)
    · exact Nat.le_add_right _ _
  obtain ⟨s, hrun, hdone, hs⟩ := mapKernel_spec hmapped h.kernel_page hend hsize (Nat.le_add_left c.imageSize 0)
  have hi := mapKernel_image hmapped himage le_rfl h.kernel_page hend hsize hrun
  refine ⟨root, s, ?_, hd, hbounds.1, hbounds.2, ?_, hi.base_le, ?_, hi.built, hi.elsewhere,
    fun o ho => hs.walk o (ho.trans_le hdone) ho⟩
  · rw [bootPageTable, halloc, ok_bind, ← hb]
    dsimp only
    rw [mapBundledKernel, sub32_of_le h.kernel_le h.kernel_end]
    exact congrArg (· >>= _) hrun
  · rw [hi.bounds.1, hi.bounds.2, hb]
    exact ⟨rfl, rfl⟩
  · have hbound := hs.bound
    refine hi.current_le.trans (Nat.add_le_add_left (Nat.mul_le_mul_right _ ?_) _)
    simp only [size1MB] at hbound hsize ⊢
    omega

end Root

/-- What the kernel finds: its boot memory is in use up to `top`. -/
structure BootedTables (c : BoardLayout) (b : Booted) (top : ℕ) : Prop where
  root_aligned : size16KB ∣ b.ttbr0
  root_ge : c.bootmemStart ≤ b.ttbr0
  base_le : b.ttbr0 + lvl1TableSize ≤ top
  top_le : top ≤ c.bootmemStart + 128 * size1KB
  built : BuiltTable b.ttbr0 (b.ttbr0 + lvl1TableSize) top b.words
  user : ∀ i < kernelStartIdx, b.words (b.ttbr0 + 4 * i) ≠ 0 →
    c.ramStart ≤ i * size1MB ∧ i * size1MB < c.ramStart + c.usedRam
  free : ∀ i, kernelStartIdx + 16 ≤ i → i < 3584 → b.words (b.ttbr0 + 4 * i) = 0
  hole : ∀ i < c.usedRam / size1MB,
    b.words (b.ttbr0 + 4 * (3584 + i)) = SectionEntry.makeEntry (c.ramStart + i * size1MB) .priviledgedOnly
  image : ∀ o < c.imageSize,
    armWalk b.words b.ttbr0 (Areas.kernelVirtStartAddr + o) = some (c.kernelStart + o, .priviledgedOnly)
  params : loadBootParams b.words b.ttbr0 b.sp =
    some ⟨c.ramStart, c.usedRam, c.remap c.bootmemStart, top - c.bootmemStart⟩

section Start

variable {c : BoardLayout}

lemma BoardLayout.usedRam_le (c : BoardLayout) : size1MB ∣ c.usedRam ∧ c.usedRam / size1MB ≤ 512 := by
  refine ⟨dvd_roundDown _ _, ?_⟩
  simp only [BoardLayout.usedRam, configPhysicalMemoryHoleSize, roundDown, size1MB]
  split_ifs <;> omega

lemma bootStart_spec (h : c.Valid) (words : ℕ → ℕ) :
    ∃ b top, bootStart c words = .ok b ∧ BootedTables c b top := by
  obtain ⟨root, s, htable, hd, hge, hlt, hbounds, hbase, hcurrent, hbuilt, helsewhere, himage⟩ :=
    bootPageTable_spec h words
  obtain ⟨hdram, hram⟩ := c.usedRam_le
  have hend := h.ram_end
  have haligned := h.ram_aligned
  simp only [lvl1Entries, kernelStartIdx] at helsewhere
  have hsize : c.usedRam / size1MB * size1MB = c.usedRam := Nat.div_mul_cancel hdram
  have hmax : c.usedRam ≤ 512 * 1048576 := hsize ▸ Nat.mul_le_mul_right _ hram
  have hidx {i : ℕ} (hi : i < c.usedRam / size1MB) : c.ramStart / size1MB + i < 3072 := by
    simp only [size1MB, Areas.kernelVirtStartAddr] at hend haligned hi ⊢
    omega
  obtain ⟨m, hmap, hmapped⟩ := @mapRam_spec root _ _ s.words haligned (by rw [hsize]; exact hend) hram
    (fun i hi => helsewhere _ (by omega) (by omega))
    fun i hi => helsewhere _ ((hidx hi).trans (by decide)) (.inl (hidx hi))
  -- the stack
  obtain ⟨stack, hstack⟩ : ∃ stack, roundDown (s.bootmem.current + (size4KB - 1)) size4KB = stack := ⟨_, rfl⟩
  have hround : s.bootmem.current ≤ stack ∧ stack < s.bootmem.current + size4KB := by
    simp only [roundDown, size4KB] at hstack ⊢
    omega
  have hroom := h.bootmem_size
  have hbootmem := h.bootmem_end
  have hram_room := h.ram_room
  have hstart := h.bootmem_start
  simp only [lvl1TableSize, size1KB, size4KB, size16KB, Areas.kernelVirtStartAddr] at *
  have halloc : bootmemAlloc configKernelStackSize size4KB s.bootmem =
      .ok (stack, { s.bootmem with current := stack + configKernelStackSize }) := by
    rw [bootmemAlloc_eq (by decide) (by decide)] <;>
      simp only [hstack, hbounds.2, size4KB, configKernelStackSize, size1KB]
    · omega
    · omega
  obtain ⟨sp, hsp⟩ : ∃ sp, stack + configKernelStackSize - 16 - sizeofBootParams = sp := ⟨_, rfl⟩
  simp only [configKernelStackSize, sizeofBootParams, size1KB] at hsp
  obtain ⟨used, hused⟩ : ∃ used, stack + 65536 - c.bootmemStart = used := ⟨_, rfl⟩
  obtain ⟨ws, hws⟩ : ∃ ws, c.bootParams used = ws := ⟨_, rfl⟩
  have hstore {a : ℕ} (ha : a < sp) : storeWords m sp ws a = m a := storeWords_of_lt ha
  have hentry {i : ℕ} (hi : i < 4096) : storeWords m sp ws (root + 4 * i) = m (root + 4 * i) := hstore (by omega)
  have hrest : Set.EqOn (storeWords m sp ws) s.words (Set.Ico (root + 16 * 1024) s.bootmem.current) := by
    rintro a ⟨hlow, hhigh⟩
    refine (hstore (by omega)).trans (hmapped.frame a fun i hi => ?_)
    have hlow' := hidx hi
    constructor <;> omega
  refine ⟨⟨storeWords m sp ws, root, c.remap sp⟩, stack + 65536, ?_, hd, hge, ?_, ?_, ?_, ?_, ?_, ?_, ?_, ?_⟩ <;>
    try dsimp only
  · rw [bootStart, htable, ok_bind]
    dsimp only
    rw [kassert_of (Nat.mod_eq_zero_of_dvd haligned), ok_bind, hmap, ok_bind, halloc, ok_bind, hbounds.1]
    simp only [configKernelStackSize, sizeofBootParams, size1KB]
    rw [sub32_of_le (by omega) (by omega), hsp, hused, hws, pure_eq_ok]
  · simp only [lvl1TableSize, size1KB]
    omega
  · simp only [size1KB]
    omega
  · refine (hbuilt.sections (fun i hi => ?_) hrest).mono (by omega)
    rw [hentry hi]
    rcases hmapped.entry i with he | ⟨j, -, -, he⟩
    · exact .inl he
    · exact .inr (he ▸ SectionEntry.isSection_makeEntry _ _)
  · intro i hi hne
    simp only [kernelStartIdx] at hi
    rw [hentry (by omega)] at hne
    rcases hmapped.entry i with he | ⟨j, hj, hij, -⟩
    · exact absurd (he.trans (helsewhere i (by omega) (.inl hi))) hne
    · simp only [size1MB] at *
      omega
  · intro i hlow hhigh
    simp only [kernelStartIdx] at hlow
    rw [hentry (by omega)]
    rcases hmapped.entry i with he | ⟨j, hj, hij, -⟩
    · exact he.trans (helsewhere i (by omega) (.inr hlow))
    · have hlow' := hidx hj
      omega
  · intro i hi
    rw [hentry (by omega), hmapped.hole i hi]
  · intro o ho
    obtain ⟨hle, -, -⟩ := h.imageSize_le
    simp only [size1MB] at hle
    rw [hbuilt.walk_eq (by simp only [Areas.kernelVirtStartAddr]; omega) ?_ hrest, himage o ho]
    have hkernel : lvl1Index (Areas.kernelVirtStartAddr + o) = 3072 + o / 2 ^ 20 := lvl1Index_kernel o
    simp only [Areas.kernelVirtStartAddr] at hkernel
    rw [hkernel, hentry (by omega)]
    refine hmapped.frame _ fun i hi => ?_
    have hlow' := hidx hi
    constructor <;> omega
  · have hremap : c.remap sp = Areas.physMemStartAddr + (sp - c.ramStart) := by
      rw [BoardLayout.remap, sub32_of_le (by omega) (by omega), Nat.add_comm, add32_of_lt]
      simp only [Areas.physMemStartAddr]
      omega
    have hload {j a w : ℕ} (hj : j < 8) (ha : a = c.remap sp + 4 * j) (hw : ws[j]? = some w) :
        loadWord (storeWords m sp ws) root a = some w := by
      have ho : sp + 4 * j - c.ramStart < c.usedRam / size1MB * size1MB := by omega
      have hcell : c.remap sp + 4 * j = Areas.physMemStartAddr + (sp + 4 * j - c.ramStart) := by omega
      have hwalk := @hole_walk root c.ramStart (c.usedRam / size1MB) (storeWords m sp ws)
        (fun i hi => by rw [hentry (by omega), hmapped.hole i hi]) haligned (by omega) _ ho
      rw [ha, hcell, loadWord, hwalk, Option.map_some, Nat.add_sub_cancel' (by omega), storeWords_get hw]
    subst hws
    have h₀ : loadWord _ root (c.remap sp) = some c.ramStart :=
      hload (by decide : 0 < 8) (by rw [Nat.mul_zero, Nat.add_zero]) rfl
    have h₁ : loadWord _ root (c.remap sp + 4) = some c.usedRam := hload (by decide : 1 < 8) (by rw [Nat.mul_one]) rfl
    have h₂ : loadWord _ root (c.remap sp + 8) = some (c.remap c.bootmemStart) :=
      hload (by decide : 2 < 8) (congrArg (c.remap sp + ·) (by decide)) rfl
    have h₃ : loadWord _ root (c.remap sp + 12) = some used :=
      hload (by decide : 3 < 8) (congrArg (c.remap sp + ·) (by decide)) rfl
    rw [hused, loadBootParams, h₀, h₁, h₂, h₃]
    rfl

end Start

end Pi0Os.Boot
