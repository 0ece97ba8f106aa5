import Pi0Os.Memory.AddressSpaceFork
import Pi0Os.Memory.AddressTranslation

/-! All address spaces at once: their first-level tables share the second-level tables of the kernel area and no
others. What a write to one of the tables does to the translations of each of them. -/

namespace Pi0Os.Memory

open Kernel Library

def lvl1Bytes (root : ℕ) : Set ℕ := Set.Ico root (root + lvl1TableSize)

def lvl2Bytes (table : ℕ) : Set ℕ := Set.Ico table (table + lvl2TableSize)

/-- The first-level tables `roots`, `kernel` the one that has the say on the kernel area. Another one lacks what it
has not needed yet; sections it has from the start. -/
structure Spaces (m : ℕ → ℕ) (kernel : ℕ) (roots : Set ℕ) : Prop where
  kernel_mem : kernel ∈ roots
  apart : ∀ r ∈ roots, ∀ r' ∈ roots, r ≠ r' → Disjoint (lvl1Bytes r) (lvl1Bytes r')
  entry : ∀ r ∈ roots, ∀ i < lvl1Entries,
    m (r + 4 * i) = 0 ∨ isSection (m (r + 4 * i)) ∨ isCoarsePage (m (r + 4 * i))
  shared : ∀ r ∈ roots, ∀ i, kernelStartIdx ≤ i → i < lvl1Entries →
    m (r + 4 * i) = m (kernel + 4 * i) ∨ m (r + 4 * i) = 0 ∧ ¬ isSection (m (kernel + 4 * i))
  table_apart : ∀ r ∈ roots, ∀ i < lvl1Entries, ∀ t, tableAt m r i = some t →
    ∀ r' ∈ roots, Disjoint (lvl1Bytes r') (lvl2Bytes t)
  table_inj : ∀ r ∈ roots, ∀ i < lvl1Entries, ∀ r' ∈ roots, ∀ i' < lvl1Entries, ∀ t,
    tableAt m r i = some t → tableAt m r' i' = some t → i = i' ∧ (r = r' ∨ kernelStartIdx ≤ i)
  page : ∀ r ∈ roots, ∀ i < lvl1Entries, ∀ t, tableAt m r i = some t → ∀ j < lvl2Entries,
    m (t + 4 * j) = 0 ∨ 2 ≤ m (t + 4 * j) % 4

section Bytes

variable {m : ℕ → ℕ} {r t t' i j j' : ℕ}

lemma mem_lvl1Bytes (hi : i < lvl1Entries) : r + 4 * i ∈ lvl1Bytes r := by
  simp only [lvl1Bytes, Set.mem_Ico, lvl1TableSize, size1KB, lvl1Entries] at hi ⊢
  omega

lemma mem_lvl2Bytes (hj : j < lvl2Entries) : t + 4 * j ∈ lvl2Bytes t := by
  simp only [lvl2Bytes, Set.mem_Ico, lvl2TableSize, size1KB, lvl2Entries] at hj ⊢
  omega

lemma entry_ne_page (h : Disjoint (lvl1Bytes r) (lvl2Bytes t)) (hi : i < lvl1Entries) (hj : j < lvl2Entries) :
    r + 4 * i ≠ t + 4 * j :=
  fun he => Set.disjoint_left.mp h (mem_lvl1Bytes hi) (he ▸ mem_lvl2Bytes hj)

lemma dvd_tableAt (h : tableAt m r i = some t) : size1KB ∣ t := by
  obtain ⟨-, rfl⟩ := tableAt_eq_some.mp h
  exact Dvd.intro_left _ rfl

lemma page_eq (ht : size1KB ∣ t) (ht' : size1KB ∣ t') (hj : j < lvl2Entries) (hj' : j' < lvl2Entries)
    (h : t + 4 * j = t' + 4 * j') : t = t' ∧ j = j' := by
  simp only [size1KB, lvl2Entries] at *
  omega

lemma lvl1Index_lt_entries {virt : ℕ} (h : virt < 2 ^ 32) : lvl1Index virt < lvl1Entries := by
  simp only [lvl1Index, lvl1Entries]
  omega

end Bytes

namespace Spaces

variable {m m' : ℕ → ℕ} {kernel : ℕ} {roots : Set ℕ} {r r' i i' j j' t t' v virt : ℕ}

lemma entry_ne (h : Spaces m kernel roots) (hr : r ∈ roots) (hr' : r' ∈ roots) (hi : i < lvl1Entries)
    (hi' : i' < lvl1Entries) (hne : r ≠ r' ∨ i ≠ i') : r + 4 * i ≠ r' + 4 * i' := by
  by_cases hrr : r = r'
  · subst hrr
    have hii := hne.resolve_left (fun hn => hn rfl)
    omega
  · exact fun he => Set.disjoint_left.mp (h.apart r hr r' hr' hrr) (mem_lvl1Bytes hi) (he ▸ mem_lvl1Bytes hi')

/-- A table is reached through the entry of its megabyte, in the spaces that have it. -/
lemma table_iff (h : Spaces m kernel roots) (hr : r ∈ roots) (hi : i < lvl1Entries) (hr' : r' ∈ roots)
    (hi' : i' < lvl1Entries) (ht : tableAt m r i = some t) :
    tableAt m r' i' = some t ↔ i' = i ∧ tableAt m r' i = some t := by
  refine ⟨fun ht' => ?_, fun ⟨he, ht'⟩ => he ▸ ht'⟩
  obtain ⟨rfl, -⟩ := h.table_inj r hr i hi r' hr' i' hi' t ht ht'
  exact ⟨rfl, ht'⟩

lemma user_table (h : Spaces m kernel roots) (hr : r ∈ roots) (hr' : r' ∈ roots) (hi : i < kernelStartIdx)
    (ht : tableAt m r i = some t) (ht' : tableAt m r' i = some t) : r' = r := by
  have hi' : i < lvl1Entries := hi.trans (by decide)
  exact ((h.table_inj r hr i hi' r' hr' i hi' t ht ht').2.resolve_right (Nat.not_le.mpr hi)).symm

lemma entry_eq_kernel (h : Spaces m kernel roots) (hr : r ∈ roots) (hk : kernelStartIdx ≤ i) (hi : i < lvl1Entries)
    (hne : m (r + 4 * i) ≠ 0) : m (kernel + 4 * i) = m (r + 4 * i) :=
  ((h.shared r hr i hk hi).resolve_right fun hz => hne hz.1).symm

/-- In the kernel area a space has the kernel's table or none. -/
lemma kernel_table (h : Spaces m kernel roots) (hr : r ∈ roots) (hr' : r' ∈ roots) (hi : kernelStartIdx ≤ i)
    (hi' : i < lvl1Entries) (ht : tableAt m r i = some t) :
    tableAt m r' i = some t ↔ m (r' + 4 * i) ≠ 0 := by
  obtain ⟨hc, hb⟩ := tableAt_eq_some.mp ht
  refine ⟨fun ht' hz => ne_zero_of_isCoarsePage (tableAt_eq_some.mp ht').1 hz, fun hne => ?_⟩
  rw [tableAt_eq_some, ← h.entry_eq_kernel hr' hi hi' hne, h.entry_eq_kernel hr hi hi' (ne_zero_of_isCoarsePage hc)]
  exact ⟨hc, hb⟩

lemma walk_kernel (h : Spaces m kernel roots) (hr : r ∈ roots) (hk : kernelStartIdx ≤ lvl1Index virt)
    (hv : virt < 2 ^ 32) :
    armWalk m r virt = if m (r + 4 * lvl1Index virt) = 0 then none else armWalk m kernel virt := by
  split_ifs with hz
  · exact armWalk_empty hz
  · exact armWalk_congr (h.entry_eq_kernel hr hk (lvl1Index_lt_entries hv) hz).symm fun _ _ => rfl

/-- Writing a second-level entry changes the translation of its page, in the spaces that have its table. -/
lemma walk_update (h : Spaces m kernel roots) (hr : r ∈ roots) (hi : i < lvl1Entries) (ht : tableAt m r i = some t)
    (hj : j < lvl2Entries) (hr' : r' ∈ roots) (hv : virt < 2 ^ 32) :
    armWalk (Function.update m (t + 4 * j) v) r' virt =
      if lvl1Index virt = i ∧ tableAt m r' i = some t ∧ lvl2Index virt = j then lvl2Translation v virt
      else armWalk m r' virt := by
  have hv' := lvl1Index_lt_entries hv
  have hentry : Function.update m (t + 4 * j) v (r' + 4 * lvl1Index virt) = m (r' + 4 * lvl1Index virt) :=
    Function.update_of_ne (entry_ne_page (h.table_apart r hr i hi t ht r' hr') hv' hj) _ _
  split_ifs with hin
  · obtain ⟨rfl, ht', rfl⟩ := hin
    have ht'' : tableAt (Function.update m (t + 4 * lvl2Index virt) v) r' (lvl1Index virt) = some t := by
      rw [tableAt, hentry, ← tableAt, ht']
    rw [armWalk_table ht'', Function.update_self]
  · refine armWalk_congr hentry fun t' ht' => Function.update_of_ne (fun he => hin ?_) _ _
    obtain ⟨rfl, hjj⟩ := page_eq (dvd_tableAt ht') (dvd_tableAt ht) (lvl2Index_lt virt) hj he
    obtain ⟨hii, ht''⟩ := (h.table_iff hr hi hr' hv' ht).mp ht'
    exact ⟨hii, ht'', hjj⟩

lemma update (h : Spaces m kernel roots) (hr : r ∈ roots) (hi : i < lvl1Entries) (ht : tableAt m r i = some t)
    (hj : j < lvl2Entries) (hv : v = 0 ∨ 2 ≤ v % 4) : Spaces (Function.update m (t + 4 * j) v) kernel roots := by
  have hentry : ∀ r' ∈ roots, ∀ i' < lvl1Entries,
      Function.update m (t + 4 * j) v (r' + 4 * i') = m (r' + 4 * i') := fun r' hr' i' hi' =>
    Function.update_of_ne (entry_ne_page (h.table_apart r hr i hi t ht r' hr') hi' hj) _ _
  have htable : ∀ r' ∈ roots, ∀ i' < lvl1Entries,
      tableAt (Function.update m (t + 4 * j) v) r' i' = tableAt m r' i' := by
    intro r' hr' i' hi'
    rw [tableAt, hentry r' hr' i' hi', ← tableAt]
  refine ⟨h.kernel_mem, h.apart, fun r' hr' i' hi' => ?_, fun r' hr' i' hk hi' => ?_, fun r' hr' i' hi' t' ht' => ?_,
    fun r₁ hr₁ i₁ hi₁ r₂ hr₂ i₂ hi₂ t' h₁ h₂ => ?_, fun r' hr' i' hi' t' ht' j' hj' => ?_⟩
  · rw [hentry r' hr' i' hi']
    exact h.entry r' hr' i' hi'
  · rw [hentry r' hr' i' hi', hentry kernel h.kernel_mem i' hi']
    exact h.shared r' hr' i' hk hi'
  · rw [htable r' hr' i' hi'] at ht'
    exact h.table_apart r' hr' i' hi' t' ht'
  · rw [htable r₁ hr₁ i₁ hi₁] at h₁
    rw [htable r₂ hr₂ i₂ hi₂] at h₂
    exact h.table_inj r₁ hr₁ i₁ hi₁ r₂ hr₂ i₂ hi₂ t' h₁ h₂
  · rw [htable r' hr' i' hi'] at ht'
    by_cases he : t' + 4 * j' = t + 4 * j
    · rw [he, Function.update_self]
      exact hv
    · rw [Function.update_of_ne he]
      exact h.page r' hr' i' hi' t' ht' j' hj'

section Entries

variable {e : ℕ}

lemma update_entry (h : Spaces m kernel roots) (hr : r ∈ roots) (hi : i < lvl1Entries) (hr' : r' ∈ roots)
    (hi' : i' < lvl1Entries) (hne : r ≠ r' ∨ i ≠ i') :
    Function.update m (r + 4 * i) e (r' + 4 * i') = m (r' + 4 * i') :=
  Function.update_of_ne (h.entry_ne hr hr' hi hi' hne).symm _ _

lemma update_table (h : Spaces m kernel roots) (hr : r ∈ roots) (hi : i < lvl1Entries) (hr' : r' ∈ roots)
    (hi' : i' < lvl1Entries) (ht : tableAt m r' i' = some t) (hj : j < lvl2Entries) :
    Function.update m (r + 4 * i) e (t + 4 * j) = m (t + 4 * j) :=
  Function.update_of_ne (entry_ne_page (h.table_apart r' hr' i' hi' t ht r hr) hi hj).symm _ _

lemma walk_update_entry (h : Spaces m kernel roots) (hr : r ∈ roots) (hi : i < lvl1Entries) (hr' : r' ∈ roots)
    (hv : virt < 2 ^ 32) (hne : r ≠ r' ∨ i ≠ lvl1Index virt) :
    armWalk (Function.update m (r + 4 * i) e) r' virt = armWalk m r' virt :=
  armWalk_congr (h.update_entry hr hi hr' (lvl1Index_lt_entries hv) hne) fun _ ht =>
    h.update_table hr hi hr' (lvl1Index_lt_entries hv) ht (lvl2Index_lt virt)

end Entries

/-- New first-level entries, which lead to tables of the same megabyte, or to new tables without entries. -/
lemma rebuild (h : Spaces m kernel roots) (new : ℕ → Prop)
    (hentry : ∀ r' ∈ roots, ∀ i' < lvl1Entries,
      m' (r' + 4 * i') = 0 ∨ isSection (m' (r' + 4 * i')) ∨ isCoarsePage (m' (r' + 4 * i')))
    (hshared : ∀ r' ∈ roots, ∀ i', kernelStartIdx ≤ i' → i' < lvl1Entries →
      m' (r' + 4 * i') = m' (kernel + 4 * i') ∨ m' (r' + 4 * i') = 0 ∧ ¬ isSection (m' (kernel + 4 * i')))
    (htable : ∀ r' ∈ roots, ∀ i' < lvl1Entries, ∀ t, tableAt m' r' i' = some t →
      (∃ r₀ ∈ roots, tableAt m r₀ i' = some t ∧ (r₀ = r' ∨ kernelStartIdx ≤ i')) ∨
        new t ∧ i' = i ∧ (r' = r ∨ kernelStartIdx ≤ i))
    (hpage : ∀ r' ∈ roots, ∀ i' < lvl1Entries, ∀ t, tableAt m r' i' = some t → ∀ j < lvl2Entries,
      m' (t + 4 * j) = m (t + 4 * j))
    (hnew : ∀ t, new t → (∀ r' ∈ roots, Disjoint (lvl1Bytes r') (lvl2Bytes t)) ∧
      (∀ r' ∈ roots, ∀ i' < lvl1Entries, tableAt m r' i' ≠ some t) ∧ ∀ j < lvl2Entries, m' (t + 4 * j) = 0) :
    Spaces m' kernel roots := by
  refine ⟨h.kernel_mem, h.apart, hentry, hshared, fun r' hr' i' hi' t ht => ?_,
    fun r₁ hr₁ i₁ hi₁ r₂ hr₂ i₂ hi₂ t h₁ h₂ => ?_, fun r' hr' i' hi' t ht j hj => ?_⟩
  · rcases htable r' hr' i' hi' t ht with ⟨r₀, hr₀, ht, -⟩ | ⟨hn, -⟩
    · exact h.table_apart r₀ hr₀ i' hi' t ht
    · exact (hnew t hn).1
  · rcases htable r₁ hr₁ i₁ hi₁ t h₁ with ⟨s₁, hs₁, ht₁, hown₁⟩ | ⟨hn₁, rfl, hown₁⟩
    · rcases htable r₂ hr₂ i₂ hi₂ t h₂ with ⟨s₂, hs₂, ht₂, hown₂⟩ | ⟨hn₂, -⟩
      · obtain ⟨rfl, hs⟩ := h.table_inj s₁ hs₁ i₁ hi₁ s₂ hs₂ i₂ hi₂ t ht₁ ht₂
        refine ⟨rfl, ?_⟩
        rcases hs with rfl | hs
        · rcases hown₁ with rfl | hk
          · exact hown₂.imp_left fun he => he
          · exact .inr hk
        · exact .inr hs
      · exact absurd ht₁ ((hnew t hn₂).2.1 s₁ hs₁ i₁ hi₁)
    · rcases htable r₂ hr₂ i₂ hi₂ t h₂ with ⟨s₂, hs₂, ht₂, -⟩ | ⟨-, rfl, hown₂⟩
      · exact absurd ht₂ ((hnew t hn₁).2.1 s₂ hs₂ i₂ hi₂)
      · refine ⟨rfl, ?_⟩
        rcases hown₁ with rfl | hk
        · exact hown₂.imp_left Eq.symm
        · exact .inr hk
  · rcases htable r' hr' i' hi' t ht with ⟨r₀, hr₀, ht, -⟩ | ⟨hn, -⟩
    · rw [hpage r₀ hr₀ i' hi' t ht j hj]
      exact h.page r₀ hr₀ i' hi' t ht j hj
    · exact .inl ((hnew t hn).2.2 j hj)

section Share

lemma update_entry_cases (h : Spaces m kernel roots) {e : ℕ} (hr : r ∈ roots) (hi : i < lvl1Entries) (hr' : r' ∈ roots)
    (hi' : i' < lvl1Entries) :
    (r = r' ∧ i = i') ∧ Function.update m (r + 4 * i) e (r' + 4 * i') = e ∨
      (r ≠ r' ∨ i ≠ i') ∧ Function.update m (r + 4 * i) e (r' + 4 * i') = m (r' + 4 * i') := by
  by_cases he : r = r' ∧ i = i'
  · obtain ⟨rfl, rfl⟩ := he
    exact .inl ⟨⟨rfl, rfl⟩, Function.update_self ..⟩
  · have hne := not_and_or.mp he
    exact .inr ⟨hne, h.update_entry hr hi hr' hi' hne⟩

/-- A space takes over the kernel's entry. -/
lemma share (h : Spaces m kernel roots) (hr : r ∈ roots) (hk : kernelStartIdx ≤ i) (hi : i < lvl1Entries) :
    Spaces (Function.update m (r + 4 * i) (m (kernel + 4 * i))) kernel roots := by
  have hkernel : ∀ i' < lvl1Entries, Function.update m (r + 4 * i) (m (kernel + 4 * i)) (kernel + 4 * i') =
      m (kernel + 4 * i') := by
    intro i' hi'
    rcases h.update_entry_cases hr hi h.kernel_mem hi' with ⟨⟨-, rfl⟩, he⟩ | ⟨-, he⟩ <;> exact he
  refine h.rebuild (i := i) (r := r) (fun _ => False) (fun r' hr' i' hi' => ?_) (fun r' hr' i' hk' hi' => ?_)
    (fun r' hr' i' hi' t ht => .inl ?_) (fun r' hr' i' hi' t ht j hj => h.update_table hr hi hr' hi' ht hj)
    (fun _ hf => hf.elim)
  · rcases h.update_entry_cases hr hi hr' hi' with ⟨⟨rfl, rfl⟩, he⟩ | ⟨-, he⟩ <;> rw [he]
    · exact h.entry kernel h.kernel_mem i hi
    · exact h.entry r' hr' i' hi'
  · rw [hkernel i' hi']
    rcases h.update_entry_cases hr hi hr' hi' with ⟨⟨rfl, rfl⟩, he⟩ | ⟨-, he⟩ <;> rw [he]
    · exact .inl rfl
    · exact h.shared r' hr' i' hk' hi'
  · rcases h.update_entry_cases hr hi hr' hi' with ⟨⟨rfl, rfl⟩, he⟩ | ⟨-, he⟩ <;> rw [tableAt, he] at ht
    · exact ⟨kernel, h.kernel_mem, ht, .inr hk⟩
    · exact ⟨r', hr', ht, .inl rfl⟩

lemma walk_share (h : Spaces m kernel roots) (hr : r ∈ roots) (hi : i < lvl1Entries) (hr' : r' ∈ roots)
    (hv : virt < 2 ^ 32) :
    armWalk (Function.update m (r + 4 * i) (m (kernel + 4 * i))) r' virt =
      if r' = r ∧ lvl1Index virt = i then armWalk m kernel virt else armWalk m r' virt := by
  split_ifs with he
  · obtain ⟨rfl, rfl⟩ := he
    exact armWalk_congr (Function.update_self ..) fun _ ht => h.update_table hr hi h.kernel_mem hi ht
      (lvl2Index_lt virt)
  · refine h.walk_update_entry hr hi hr' hv ?_
    rw [← not_and_or]
    exact fun hc => he ⟨hc.1.symm, hc.2.symm⟩

/-- A space drops a table without entries, of an address below the kernel area. -/
lemma detach (h : Spaces m kernel roots) (hr : r ∈ roots) (hi : i < kernelStartIdx) :
    Spaces (Function.update m (r + 4 * i) 0) kernel roots := by
  have hi₀ : i < lvl1Entries := hi.trans (by decide)
  refine h.rebuild (i := i) (r := r) (fun _ => False) (fun r' hr' i' hi' => ?_) (fun r' hr' i' hk hi' => ?_)
    (fun r' hr' i' hi' t ht => .inl ?_) (fun r' hr' i' hi' t ht j hj => h.update_table hr hi₀ hr' hi' ht hj)
    (fun _ hf => hf.elim)
  · rcases h.update_entry_cases hr hi₀ hr' hi' with ⟨-, he⟩ | ⟨-, he⟩ <;> rw [he]
    · exact .inl rfl
    · exact h.entry r' hr' i' hi'
  · have hne : i ≠ i' := (hi.trans_le hk).ne
    rw [h.update_entry hr hi₀ hr' hi' (.inr hne), h.update_entry hr hi₀ h.kernel_mem hi' (.inr hne)]
    exact h.shared r' hr' i' hk hi'
  · rcases h.update_entry_cases hr hi₀ hr' hi' with ⟨-, he⟩ | ⟨-, he⟩ <;> rw [tableAt, he] at ht
    · cases ht
    · exact ⟨r', hr', ht, .inl rfl⟩

lemma walk_detach (h : Spaces m kernel roots) (hr : r ∈ roots) (hi : i < lvl1Entries) (ht : tableAt m r i = some t)
    (hempty : ∀ j < lvl2Entries, m (t + 4 * j) = 0) (hr' : r' ∈ roots) (hv : virt < 2 ^ 32) :
    armWalk (Function.update m (r + 4 * i) 0) r' virt = armWalk m r' virt := by
  by_cases he : r = r' ∧ i = lvl1Index virt
  · obtain ⟨rfl, rfl⟩ := he
    rw [armWalk_empty (Function.update_self ..), armWalk_table ht, hempty _ (lvl2Index_lt virt), lvl2Translation_zero]
  · exact h.walk_update_entry hr hi hr' hv (not_and_or.mp he)

end Share

section Attach

/-- A table without entries, that no space has had, has been put into an empty first-level entry. In the kernel area
the kernel has it too. -/
structure Attached (m m' : ℕ → ℕ) (kernel : ℕ) (roots : Set ℕ) (r i t : ℕ) : Prop where
  aligned : size1KB ∣ t
  lt : t < 2 ^ 32
  apart : ∀ r' ∈ roots, Disjoint (lvl1Bytes r') (lvl2Bytes t)
  fresh : ∀ r' ∈ roots, ∀ i' < lvl1Entries, tableAt m r' i' ≠ some t
  empty : m (r + 4 * i) = 0
  kernel_empty : kernelStartIdx ≤ i → m (kernel + 4 * i) = 0
  entry : m' (r + 4 * i) = CoarsePageTableEntry.makeEntry t
  kernel_entry : kernelStartIdx ≤ i → m' (kernel + 4 * i) = CoarsePageTableEntry.makeEntry t
  other : ∀ r' ∈ roots, ∀ i' < lvl1Entries, i' ≠ i ∨ r' ≠ r ∧ (r' ≠ kernel ∨ i < kernelStartIdx) →
    m' (r' + 4 * i') = m (r' + 4 * i')
  page : ∀ r' ∈ roots, ∀ i' < lvl1Entries, ∀ t', tableAt m r' i' = some t' → ∀ j < lvl2Entries,
    m' (t' + 4 * j) = m (t' + 4 * j)
  zeroed : ∀ j < lvl2Entries, m' (t + 4 * j) = 0

namespace Attached

lemma tableAt (ha : Attached m m' kernel roots r i t) : tableAt m' r i = some t := by
  rw [tableAt_eq_some, ha.entry]
  exact ⟨CoarsePageTableEntry.isCoarsePage_makeEntry t, CoarsePageTableEntry.baseAddress_makeEntry ha.aligned ha.lt⟩

/-- An entry of the new memory is the new one, which was empty, or an old one. -/
lemma cases (ha : Attached m m' kernel roots r i t) (hr' : r' ∈ roots) (hi' : i' < lvl1Entries) :
    (i' = i ∧ (r' = r ∨ r' = kernel ∧ kernelStartIdx ≤ i)) ∧
        m' (r' + 4 * i') = CoarsePageTableEntry.makeEntry t ∧ m (r' + 4 * i') = 0 ∨
      m' (r' + 4 * i') = m (r' + 4 * i') := by
  by_cases he : i' = i ∧ (r' = r ∨ r' = kernel ∧ kernelStartIdx ≤ i)
  · refine .inl ⟨he, ?_⟩
    obtain ⟨rfl, rfl | ⟨rfl, hk⟩⟩ := he
    · exact ⟨ha.entry, ha.empty⟩
    · exact ⟨ha.kernel_entry hk, ha.kernel_empty hk⟩
  · refine .inr (ha.other r' hr' i' hi' ?_)
    rw [not_and_or, not_or, not_and_or, Nat.not_le] at he
    exact he

lemma walk (ha : Attached m m' kernel roots r i t) (hr' : r' ∈ roots) (hv : virt < 2 ^ 32) :
    armWalk m' r' virt = armWalk m r' virt := by
  have hi' := lvl1Index_lt_entries hv
  rcases ha.cases hr' hi' with ⟨-, hnew, hold⟩ | hsame
  · have ht : Memory.tableAt m' r' (lvl1Index virt) = some t := by
      rw [tableAt_eq_some, hnew]
      exact ⟨CoarsePageTableEntry.isCoarsePage_makeEntry t, CoarsePageTableEntry.baseAddress_makeEntry ha.aligned ha.lt⟩
    rw [armWalk_table ht, ha.zeroed _ (lvl2Index_lt virt), lvl2Translation_zero, armWalk_empty hold]
  · exact armWalk_congr hsame fun t' ht' => ha.page r' hr' _ hi' t' ht' _ (lvl2Index_lt virt)

lemma spaces (ha : Attached m m' kernel roots r i t) (h : Spaces m kernel roots) : Spaces m' kernel roots := by
  refine h.rebuild (i := i) (r := r) (· = t) (fun r' hr' i' hi' => ?_) (fun r' hr' i' hk hi' => ?_)
    (fun r' hr' i' hi' t' ht' => ?_) ha.page ?_
  · rcases ha.cases hr' hi' with ⟨-, hnew, -⟩ | hsame
    · rw [hnew]
      exact .inr (.inr (CoarsePageTableEntry.isCoarsePage_makeEntry t))
    · rw [hsame]
      exact h.entry r' hr' i' hi'
  · by_cases hii : i' = i
    · subst hii
      rw [ha.kernel_entry hk]
      rcases ha.cases hr' hi' with ⟨-, hnew, -⟩ | hsame
      · exact .inl hnew
      · refine .inr ⟨?_, not_isSection_of_isCoarsePage (CoarsePageTableEntry.isCoarsePage_makeEntry t)⟩
        have hz := ha.kernel_empty hk
        rw [hsame]
        rcases h.shared r' hr' i' hk hi' with he | ⟨he, -⟩
        · rw [he, hz]
        · exact he
    · rw [ha.other r' hr' i' hi' (.inl hii), ha.other kernel h.kernel_mem i' hi' (.inl hii)]
      exact h.shared r' hr' i' hk hi'
  · rcases ha.cases hr' hi' with ⟨⟨rfl, hown⟩, hnew, -⟩ | hsame
    · rw [tableAt_eq_some, hnew, CoarsePageTableEntry.baseAddress_makeEntry ha.aligned ha.lt] at ht'
      exact .inr ⟨ht'.2.symm, rfl, hown.imp_right And.right⟩
    · rw [Memory.tableAt, hsame, ← Memory.tableAt] at ht'
      exact .inl ⟨r', hr', ht', .inl rfl⟩
  · rintro t' rfl
    exact ⟨ha.apart, ha.fresh, ha.zeroed⟩

end Attached

end Attach

end Spaces

end Pi0Os.Memory
