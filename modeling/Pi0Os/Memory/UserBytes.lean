import Pi0Os.Memory.TranslationRefinement
import Pi0Os.Memory.UserTables

/-! What a user program reads in its address space. -/

namespace Pi0Os.Memory

open Kernel Library

/-- The byte at an address of a memory of little-endian words. -/
def byteAt (m : ℕ → ℕ) (a : ℕ) : UInt8 := UInt8.ofNat (m (a - a % 4) / 256 ^ (a % 4))

/-- The byte at `virt`, if the MMU finds a page there. -/
def Vm.userByte (s : Vm) (as virt : ℕ) : Option UInt8 := (s.walk as virt).map fun t => byteAt s.words t.1

lemma byteAt_eqOn {m m' : ℕ → ℕ} {dst n a : ℕ} (hd : 4 ∣ dst) (h : Set.EqOn m m' (Set.Ico dst (dst + n)))
    (ha : a ∈ Set.Ico dst (dst + n)) : byteAt m a = byteAt m' a := by
  obtain ⟨hlo, hhi⟩ := ha
  rw [byteAt, byteAt, h ⟨by omega, by omega⟩]

lemma byteAt_fill {m : ℕ → ℕ} {dst n a : ℕ} (hd : 4 ∣ dst) (hn : 4 ∣ n) :
    byteAt (fill m dst n 0) a = if a ∈ Set.Ico dst (dst + n) then 0 else byteAt m a := by
  by_cases ha : a ∈ Set.Ico dst (dst + n)
  · obtain ⟨hlo, hhi⟩ := ha
    have hword : a - a % 4 ∈ Set.Ico dst (dst + n) := ⟨by omega, by omega⟩
    rw [if_pos ⟨hlo, hhi⟩, byteAt, fill_of_mem hword, Nat.zero_div]
    rfl
  · have hword : a - a % 4 ∉ Set.Ico dst (dst + n) := by
      simp only [Set.mem_Ico] at ha ⊢
      omega
    rw [if_neg ha, byteAt, fill, if_neg hword, byteAt]

namespace UserTables

variable {first limit as virt p f : ℕ} {s s' : Vm} {live : Finset Block} {tables frames : ℕ → Option ℕ}

/-- The MMU finds the frames. -/
lemma walk_eq (h : UserTables first limit s live as tables frames) (hz : virt / size4KB ≠ 0)
    (hv : virt < Areas.kernelVirtStartAddr) :
    s.walk as virt = (frames (virt / size4KB)).map fun f =>
      (pageAddr s.pages.ramStart f + virt % size4KB, .userFullAccess) := by
  have hentry := h.entry _ (lvl1Index_lt hv)
  rw [Vm.walk]
  cases ht : tables (lvl1Index virt) with
  | none =>
    rw [ht, Option.elim_none] at hentry
    rw [armWalk_empty hentry]
    cases hf : frames (virt / size4KB) with
    | none => rfl
    | some f =>
      obtain ⟨-, -, -, htable⟩ := h.frame _ f hf
      rw [lvl1Index_div, ht] at htable
      cases htable
  | some t =>
    obtain ⟨hd, hlt, -⟩ := h.blocks.address (h.table _ t ht)
    have hleaf := h.leaf _ hz (page_lt hv) t (by rw [lvl1Index_div]; exact ht)
    rw [lvl2Index_mod] at hleaf
    rw [ht, Option.elim_some] at hentry
    have hat : tableAt s.words (pageAddr s.pages.ramStart as) (lvl1Index virt) =
        some (pageAddr s.pages.ramStart t) := by
      refine tableAt_eq_some.mpr ?_
      rw [hentry]
      exact ⟨CoarsePageTableEntry.isCoarsePage_makeEntry _, CoarsePageTableEntry.baseAddress_makeEntry hd hlt⟩
    rw [armWalk_table hat, hleaf, leafEntry]
    cases hf : frames (virt / size4KB) with
    | none => rfl
    | some f =>
      obtain ⟨hd₄, hlt₄, -⟩ := h.blocks.address (h.frame _ f hf).1
      exact lvl2Translation_makeEntry .userFullAccess hd₄ hlt₄

/-- `vm_map` leaves the frames of the user as they are. -/
lemma vmMap_frame_words (h : UserTables first limit s live as tables frames) (hr : RamReady limit s)
    (hp : (⟨p, .kb4⟩ : Block) ∈ live) (hv : virt < Areas.kernelVirtStartAddr)
    (hm : vmMap s as p virt .userFullAccess = .ok s') (hf : (⟨f, .kb4⟩ : Block) ∈ live) :
    Set.EqOn s'.words s.words ((⟨f, .kb4⟩ : Block).bytes s.pages.ramStart) := by
  have hout {a : ℕ} (ha : a ∈ tableBytes s.pages.ramStart as live) :
      a ∉ (⟨f, .kb4⟩ : Block).bytes s.pages.ramStart := Set.disjoint_left.mp (h.frame_disjoint hf) ha
  cases ht : tables (lvl1Index virt) with
  | some t =>
    rw [h.vmMap_table hr hp hv ht] at hm
    split at hm
    · cases hm
    · obtain rfl := Except.ok.inj hm
      exact update_eqOn (hout (Or.inr ⟨t, h.table _ t ht, lvl2Entry_mem (lvl2Index_lt virt)⟩))
  | none =>
    rcases h.blocks.alloc_cases .kb1 with hno | ⟨t, pages, ha⟩
    · rw [h.vmMap_noTable hr hp hv ht hno] at hm
      cases hm
    · rw [h.vmMap_newTable hr hp hv ht ha] at hm
      obtain rfl := Except.ok.inj hm
      have hnew := (h.blocks.alloc ha).unused.mono_left (bytes_subset_inUse hf)
      have hleaf : pageAddr s.pages.ramStart t + 4 * lvl2Index virt ∉
          (⟨f, .kb4⟩ : Block).bytes s.pages.ramStart :=
        fun hin => Set.disjoint_left.mp hnew hin (lvl2Entry_mem (lvl2Index_lt virt))
      refine (update_eqOn hleaf).trans ((fill_eqOn hnew).trans (update_eqOn (hout (Or.inl ?_))))
      exact lvl1Entry_mem (lvl1Index_lt hv)

/-- A page that `vm_map` has mapped. -/
lemma mapped_of_vmMap (h : UserTables first limit s live as tables frames) (hr : RamReady limit s)
    (hp : (⟨p, .kb4⟩ : Block) ∈ live) (hv : virt < Areas.kernelVirtStartAddr)
    (hm : vmMap s as p virt .userFullAccess = .ok s') :
    (virt / size4KB ≠ 0 ∧ frames (virt / size4KB) = none) ∧ s'.pages.ramStart = s.pages.ramStart ∧
      Mapped first limit s' s'.pages as virt p frames (fun i => (tables i).isSome) := by
  by_cases htaken : virt / size4KB = 0 ∨ (frames (virt / size4KB)).isSome
  · rw [h.vmMap_taken hr hp hv htaken] at hm
    cases hm
  obtain ⟨hz, hnot⟩ := not_or.mp htaken
  have hfree : frames (virt / size4KB) = none := Option.not_isSome_iff_eq_none.mp hnot
  refine ⟨⟨hz, hfree⟩, ?_⟩
  by_cases ht : (tables (lvl1Index virt)).isSome
  · obtain ⟨s'', hmap, hmapped⟩ := h.vmMap_withTable hr hp hv hz hfree ht
    obtain rfl := Except.ok.inj (hm.symm.trans hmap)
    exact ⟨by rw [hmapped.pages], rfl, hmapped.ready, hmapped.tables⟩
  · have hnone : tables (lvl1Index virt) = none := Option.not_isSome_iff_eq_none.mp ht
    rcases h.blocks.alloc_cases .kb1 with hno | ⟨t, pages, ha⟩
    · rw [h.vmMap_noTable hr hp hv hnone hno] at hm
      cases hm
    · obtain ⟨s'', hmap, hmapped⟩ := h.vmMap_withNewTable hr hp hv hz hnone ha
      obtain rfl := Except.ok.inj (hm.symm.trans hmap)
      exact ⟨by rw [hmapped.pages, (h.blocks.alloc ha).ramStart], rfl, hmapped.ready, hmapped.tables⟩

end UserTables

end Pi0Os.Memory
