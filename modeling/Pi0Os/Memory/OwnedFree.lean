import Pi0Os.Memory.OwnedFork

/-! `vm_free` among the owned address spaces: it gives back the references of one space, and leaves those of the others
and of the callers. -/

namespace Pi0Os.Memory

open Kernel Library PageAllocator MappedSpaces

section Release

variable {first limit p : ℕ} {a a' : PageAllocator} {live : Finset Block} {held : List Block}

/-- The blocks of `live` that have references left. -/
def stillLive (live : Finset Block) (a : PageAllocator) : Finset Block := live.filter fun b => 0 < a.refCount b.head

/-- A reference to a page that the allocator was never handed, and not the last. -/
lemma Blocks.release_outside (h : Blocks first limit a live) (hout : ¬ (first ≤ p ∧ p < limit))
    (hmore : 1 < a.refCount p) {o : PageOrder} :
    physicalPageFree p o a = .ok (a.setRefCount p (a.refCount p - 1)) ∧
      Blocks first limit (a.setRefCount p (a.refCount p - 1)) live := by
  obtain ⟨free, hinv⟩ := h.inv
  refine ⟨?_, ⟨free, hinv.recount (by omega) (.inr hout)⟩, h.ramAligned⟩
  rw [physicalPageFree, kassert_of (by omega), ok_bind]
  dsimp only
  rw [if_neg (by rw [refCount_setRefCount, Function.update_self]; omega)]
  rfl

/-- Releasing blocks in use, and references to other pages that are not the last ones. -/
lemma Blocks.release (h : Blocks first limit a live)
    (hheld : ∀ b ∈ held, b ∈ live ∨ ¬ (first ≤ b.head ∧ b.head < limit) ∧
      (held.countP (·.head = b.head) : ℤ) < a.refCount b.head)
    (hcount : ∀ p, (held.countP (·.head = p) : ℤ) ≤ a.refCount p) (hrel : releaseAll held a = .ok a') :
    Blocks first limit a' (stillLive live a') ∧
      ∀ p, a'.refCount p = a.refCount p - held.countP (·.head = p) := by
  induction held generalizing a live with
  | nil =>
    obtain rfl := Except.ok.inj hrel
    refine ⟨?_, by simp⟩
    rw [stillLive, Finset.filter_true_of_mem fun b hb => h.counted hb]
    exact h
  | cons b held ih =>
    obtain ⟨hb, hheld⟩ := List.forall_mem_cons.mp hheld
    obtain ⟨a₁, hfree, hrel⟩ := releaseAll_cons.mp hrel
    have hone : (b :: held).countP (·.head = b.head) = held.countP (·.head = b.head) + 1 :=
      List.countP_cons_of_pos (by simp)
    have hother {p : ℕ} (hp : p ≠ b.head) : (b :: held).countP (·.head = p) = held.countP (·.head = p) :=
      List.countP_cons_of_neg (by simpa using Ne.symm hp)
    have hle : (held.countP (·.head = b.head) : ℤ) + 1 ≤ a.refCount b.head := by
      have hle := hcount b.head
      rw [hone] at hle
      exact_mod_cast hle
    -- the page of `b` has a reference less
    have hstep : a₁.refCount = Function.update a.refCount b.head (a.refCount b.head - 1) ∧
        ∃ live₁, Blocks first limit a₁ live₁ ∧ (∀ c, c ∈ live₁ ↔ c ∈ live ∧ (c = b → 0 < a₁.refCount b.head)) := by
      rcases hb with hb | ⟨hout, hlt⟩
      · obtain ⟨free, hinv⟩ := h.inv
        obtain ⟨a₂, free', hfree', hinv', hrc, -, hr⟩ := hinv.free_page (p := b.head) (o := b.order) hb
        obtain rfl := Except.ok.inj (hfree'.symm.trans hfree)
        refine ⟨hrc, _, ⟨⟨free', hinv'⟩, hr ▸ h.ramAligned⟩, fun c => ?_⟩
        have hrc' : a₂.refCount b.head = a.refCount b.head - 1 := by rw [hrc, Function.update_self]
        split_ifs with hz
        · rw [Finset.mem_erase, and_comm, and_congr_right_iff]
          exact fun _ => ⟨fun hne he => absurd he hne, fun hpos he => absurd (hpos he) (by omega)⟩
        · exact ⟨fun hc => ⟨hc, fun _ => by omega⟩, And.left⟩
      · rw [hone] at hlt
        obtain ⟨hfree', hblocks⟩ := h.release_outside (o := b.order) hout (by omega)
        obtain rfl := Except.ok.inj (hfree'.symm.trans hfree)
        refine ⟨refCount_setRefCount .., live, hblocks, fun c => ⟨fun hc => ⟨hc, fun _ => ?_⟩, And.left⟩⟩
        rw [refCount_setRefCount, Function.update_self]
        omega
    obtain ⟨hrc, live₁, hblocks, hmem⟩ := hstep
    have hself : a₁.refCount b.head = a.refCount b.head - 1 := by rw [hrc, Function.update_self]
    have hkept {p : ℕ} (hp : p ≠ b.head) : a₁.refCount p = a.refCount p := by rw [hrc, Function.update_of_ne hp]
    have hrest (p : ℕ) : a₁.refCount p - held.countP (·.head = p) = a.refCount p - (b :: held).countP (·.head = p) := by
      by_cases hp : p = b.head
      · subst hp
        rw [hself, hone]
        omega
      · rw [hkept hp, hother hp]
    have hheld₁ : ∀ c ∈ held, c ∈ live₁ ∨ ¬ (first ≤ c.head ∧ c.head < limit) ∧
        (held.countP (·.head = c.head) : ℤ) < a₁.refCount c.head := by
      intro c hc
      by_cases hhead : c.head = b.head
      · have hpos : 0 < held.countP (·.head = b.head) := List.countP_pos_iff.mpr ⟨c, hc, by simpa using hhead⟩
        rcases hheld c hc with hlive | ⟨hout, hlt⟩
        · exact .inl ((hmem c).mpr ⟨hlive, fun _ => by omega⟩)
        · rw [hhead, hone] at hlt
          refine .inr ⟨hout, ?_⟩
          rw [hhead, hself]
          omega
      · rcases hheld c hc with hlive | ⟨hout, hlt⟩
        · exact .inl ((hmem c).mpr ⟨hlive, fun he => absurd (congrArg Block.head he) hhead⟩)
        · rw [hother hhead] at hlt
          rw [hkept hhead]
          exact .inr ⟨hout, hlt⟩
    have hcount₁ (p : ℕ) : (held.countP (·.head = p) : ℤ) ≤ a₁.refCount p := by
      have hr := hrest p
      have hp := hcount p
      omega
    obtain ⟨hblocks', hcounts⟩ := ih hblocks hheld₁ hcount₁ hrel
    refine ⟨?_, fun p => (hcounts p).trans (hrest p)⟩
    have hsame : stillLive live₁ a' = stillLive live a' := by
      refine Finset.ext fun c => ?_
      rw [stillLive, stillLive, Finset.mem_filter, Finset.mem_filter, hmem, and_assoc, and_congr_right_iff]
      refine fun _ => ⟨And.right, fun hpos => ⟨?_, hpos⟩⟩
      rintro rfl
      have hle := hcounts c.head
      omega
    rwa [hsame] at hblocks'

end Release

lemma Spaces.subset {m : ℕ → ℕ} {kernel : ℕ} {roots roots' : Set ℕ} (h : Spaces m kernel roots) (hsub : roots' ⊆ roots)
    (hk : kernel ∈ roots') : Spaces m kernel roots' where
  kernel_mem := hk
  apart r hr r' hr' := h.apart r (hsub hr) r' (hsub hr')
  entry r hr := h.entry r (hsub hr)
  shared r hr := h.shared r (hsub hr)
  table_apart r hr i hi t ht r' hr' := h.table_apart r (hsub hr) i hi t ht r' (hsub hr')
  table_inj r hr i hi r' hr' := h.table_inj r (hsub hr) i hi r' (hsub hr')
  page r hr := h.page r (hsub hr)

section Free

variable {first limit as p q : ℕ} {s s' : Vm} {live : Finset Block} {roots : Finset ℕ} {X : Set ℕ} {spare : ℕ → ℕ}
variable {b : Block}

lemma userMappings_pos {i j : ℕ} (hi : i < kernelStartIdx) (hj : j < lvl2Entries)
    (hf : s.frameOf p i j = some (pageAddr s.pages.ramStart q)) : 0 < s.userMappings p q := by
  rw [userMappings_eq]
  exact gridCount_pos hi hj hf

/-- The space does not have the last references to a page of `X`. -/
def Vm.LeavesReferences (s : Vm) (as : ℕ) (X : Set ℕ) : Prop :=
  ∀ q ∈ X, s.userMappings as q = 0 ∨ (s.userMappings as q : ℤ) < s.pages.refCount q

namespace OwnedSpaces

lemma userMappings_le (h : OwnedSpaces first limit X s live roots spare) (has : as ∈ roots) (hq : FramePage live X q) :
    ((s.userMappings as q + (∑ p ∈ roots.erase as, s.userMappings p q + spare q) : ℕ) : ℤ) ≤ s.pages.refCount q := by
  have hcount := h.counted q hq
  rw [← Finset.add_sum_erase roots _ has] at hcount
  omega

section Held

variable (h : OwnedSpaces first limit X s live roots spare) (has : as ∈ roots) (hne : as ≠ s.kernelAs)
include h has hne

lemma held_live (hb : s.Holds as b) : b ∈ live ∨ b.order = .kb4 ∧ b.head ∈ X := by
  obtain ⟨q, o⟩ := b
  cases o with
  | kb16 =>
    obtain rfl : q = as := hb
    exact .inl (h.root q has hne)
  | kb1 =>
    obtain ⟨i, hi, ht⟩ := hb
    obtain ⟨p, hp, he⟩ := h.mapped.userTable has hi ht
    exact .inl (pageAddr_injective _ he ▸ hp)
  | kb4 =>
    obtain ⟨i, hi, j, hj, hf⟩ := hb
    obtain ⟨p, hp, he⟩ := h.frame as has i hi j hj _ hf
    obtain rfl := pageAddr_injective _ he
    exact hp.imp_right fun hX => ⟨rfl, hX⟩

lemma framePage (hq : s.Holds as ⟨q, .kb4⟩) : FramePage live X q :=
  (h.held_live has hne hq).imp_right And.right

lemma holding : Holding s as := by
  refine ⟨h.mapped.blocks.counted (h.root as has hne), fun i hi j hj f hf => ?_, fun q hq => ?_, fun q hq b hb ho => ?_⟩
  · obtain ⟨q, hq, rfl⟩ := h.frame as has i hi j hj f hf
    exact ⟨q, (h.address hq).2.2, rfl⟩
  · have hle := h.userMappings_le has (h.framePage has hne hq)
    omega
  · have hpage := h.framePage has hne hq
    obtain ⟨p, o⟩ := b
    cases o with
    | kb4 => exact absurd rfl ho
    | kb1 =>
      obtain ⟨i, hi, ht⟩ := hb
      exact h.frame_table hpage has (lt_lvl1Entries hi) ht
    | kb16 =>
      obtain rfl : p = as := hb
      exact h.frame_root hpage has

/-- A block in use that the space does not hold shares its head with none that it does. -/
lemma count_other (hb : b ∈ live) (hno : ¬ s.Holds as b) : (s.heldBlocks as).countP (·.head = b.head) = 0 := by
  refine List.countP_eq_zero.mpr fun c hc he => hno ?_
  have he : c.head = b.head := of_decide_eq_true he
  have hc := (h.mapped.mem_heldBlocks has (h.holding has hne)).mp hc
  rcases h.held_live has hne hc with hlive | ⟨-, hX⟩
  · have hlive : (⟨b.head, c.order⟩ : Block) ∈ live := he ▸ hlive
    obtain rfl : c = b := Block.ext he (h.mapped.blocks.order_eq hlive hb)
    exact hc
  · obtain ⟨free, hinv⟩ := h.mapped.blocks.inv
    rw [he] at hX
    exact absurd (hinv.tiled.head_mem (AllocatorInv.mem_used hb)) (h.outside.notMem hX)

lemma count_kernel : (s.heldBlocks as).countP (·.head = s.kernelAs) = 0 := by
  obtain ⟨free, hinv⟩ := h.mapped.blocks.inv
  obtain ⟨pages, free', -, hreleased⟩ := h.mapped.released has (h.holding has hne) hinv.idleLists
  have hcount := hreleased.refCount s.kernelAs
  have hnonneg := hreleased.lists.nonneg s.kernelAs
  rw [hcount, h.idle] at hnonneg
  omega

/-- A page below the kernel area loses the references of the mappings. -/
lemma count_page (hq : FramePage live X q) : (s.heldBlocks as).countP (·.head = q) = s.userMappings as q := by
  have hnot {o : PageOrder} (ho : o ≠ .kb4) : ¬ s.Holds as ⟨q, o⟩ := fun hold => by
    rcases h.held_live has hne hold with hlive | ⟨ho', -⟩
    · rcases hq with hq | hq
      · exact ho (h.mapped.blocks.order_eq hlive hq)
      · obtain ⟨free, hinv⟩ := h.mapped.blocks.inv
        exact h.outside.notMem hq (hinv.tiled.head_mem (AllocatorInv.mem_used hlive))
    · exact ho ho'
  refine h.mapped.count_frame has (h.holding has hne) (hnot (by decide)) fun he => ?_
  exact @hnot .kb16 (by decide) he

end Held

/-- `vm_free` of a space other than the kernel's: the other spaces map what they did, and each page has lost the
references of the space. -/
lemma free (h : OwnedSpaces first limit X s live roots spare) (has : as ∈ roots) (hne : as ≠ s.kernelAs)
    (hX : s.LeavesReferences as X) :
    ∃ s' live', vmFree s as = .ok s' ∧ s.SameRam s' ∧ OwnedSpaces first limit X s' live' (roots.erase as) spare ∧
      (∀ p ∈ roots.erase as, ∀ v < 2 ^ 32, s'.walk p v = s.walk p v) ∧
      ∀ q, FramePage live X q → s'.pages.refCount q = s.pages.refCount q - s.userMappings as q := by
  have hh := h.holding has hne
  obtain ⟨free, hinv⟩ := h.mapped.blocks.inv
  obtain ⟨pages, free', hrel, hreleased⟩ := h.mapped.released has hh hinv.idleLists
  have hcounts := hreleased.refCount
  obtain ⟨hr, hlen⟩ := releaseAll_ram hrel
  have hram : s.SameRam { s with pages := pages, words := s.freedWords as } := ⟨hr, hlen, rfl, rfl⟩
  have hheld : ∀ b ∈ s.heldBlocks as, b ∈ live ∨ ¬ (first ≤ b.head ∧ b.head < limit) ∧
      ((s.heldBlocks as).countP (·.head = b.head) : ℤ) < s.pages.refCount b.head := by
    intro b hb
    have hmem := (h.mapped.mem_heldBlocks has hh).mp hb
    refine (h.held_live has hne hmem).imp_right fun ⟨ho, hq⟩ => ⟨h.outside.notMem hq, ?_⟩
    have hcount := h.count_page has hne (.inr hq)
    have hpos : 0 < (s.heldBlocks as).countP (·.head = b.head) := List.countP_pos_iff.mpr ⟨b, hb, by simp⟩
    rw [hcount] at hpos ⊢
    exact (hX b.head hq).resolve_left (by omega)
  have hle (p : ℕ) : ((s.heldBlocks as).countP (·.head = p) : ℤ) ≤ s.pages.refCount p := by
    have hnonneg := hreleased.lists.nonneg p
    rw [hcounts p] at hnonneg
    omega
  obtain ⟨hblocks, -⟩ := h.mapped.blocks.release hheld hle hrel
  have hsub : stillLive live pages ⊆ live := Finset.filter_subset _ _
  have hkept {b : Block} (hb : b ∈ live) (hno : ¬ s.Holds as b) : b ∈ stillLive live pages := by
    refine Finset.mem_filter.mpr ⟨hb, ?_⟩
    rw [hcounts, h.count_other has hne hb hno]
    have hpos := h.mapped.blocks.counted hb
    omega
  -- a page that has references beside those of the space stays
  have hpage {q : ℕ} (hq : FramePage live X q) (hpos : 0 < ∑ p ∈ roots.erase as, s.userMappings p q + spare q) :
      FramePage (stillLive live pages) X q := by
    refine hq.imp_left fun hlive => Finset.mem_filter.mpr ⟨hlive, ?_⟩
    have hle := h.userMappings_le has hq
    dsimp only
    rw [hcounts, h.count_page has hne hq]
    omega
  have hsame {p i : ℕ} (hp : p ∈ roots.erase as) (hi : i < lvl1Entries) :=
    h.mapped.freedWords_sameTable has (Finset.mem_of_mem_erase hp) hi (.inl (Finset.ne_of_mem_erase hp))
  have hkernel : s.kernelAs ∈ roots.erase as := Finset.mem_erase.mpr ⟨hne.symm, h.mapped.kernelAs_mem⟩
  generalize hwords : s.freedWords as = words at *
  have hframe {p i j : ℕ} (hp : p ∈ roots.erase as) (hi : i < kernelStartIdx) (hj : j < lvl2Entries) :
      Vm.frameOf { s with pages := pages, words := words } p i j = s.frameOf p i j := by
    rw [Vm.frameOf, hr]
    exact (hsame hp (lt_lvl1Entries hi)).frame hj
  have htable {p i : ℕ} (hp : p ∈ roots.erase as) (hi : i < lvl1Entries) :
      tableAt words (pageAddr s.pages.ramStart p) i = tableAt s.words (pageAddr s.pages.ramStart p) i :=
    (hsame hp hi).table
  have hspaces : Spaces words (pageAddr s.pages.ramStart s.kernelAs)
      (pageAddr s.pages.ramStart '' (roots.erase as : Finset ℕ)) := by
    refine (h.mapped.spaces.subset (Set.image_mono ?_) (mem_roots hkernel)).of_sameTables ?_
    · exact Finset.coe_subset.mpr (Finset.erase_subset as roots)
    · rintro _ ⟨p, hp, rfl⟩ i hi
      exact hsame hp hi
  have hmapped : MappedSpaces first limit { s with pages := pages, words := words } (stillLive live pages)
      (roots.erase as : Finset ℕ) := by
    refine ⟨hblocks, hram.ramReady h.mapped.ram, ?_, fun p hp => ?_, fun p hp => ?_, fun p hp i hi t ht => ?_,
      fun p hp i hi t ht => ?_⟩ <;> rw [hram.ramStart] at *
    · exact hspaces
    · rw [hram.rootTablePtr]
      exact h.mapped.rootPtr p (Finset.mem_of_mem_erase hp)
    · exact (h.mapped.root p (Finset.mem_of_mem_erase hp)).imp_left fun hb => hkept hb (Finset.ne_of_mem_erase hp)
    · rw [hram.phys2virt]
      exact h.mapped.tablePtr p (Finset.mem_of_mem_erase hp) i hi t (htable hp hi ▸ ht)
    · have ht := (htable hp hi).symm.trans ht
      have hp' := Finset.mem_of_mem_erase hp
      rcases h.mapped.table p hp' i hi t ht with ⟨q, hq, he⟩ | hout
      case inr => exact .inr hout
      refine .inl ⟨q, hkept hq ?_, he⟩
      rintro ⟨i', hi', ht'⟩
      obtain ⟨rfl, hown⟩ := h.mapped.spaces.table_inj _ (mem_roots hp') i hi _ (mem_roots has) i' (lt_lvl1Entries hi') t
        ht (ht'.trans (congrArg some he.symm))
      rcases hown with he | hk
      · exact Finset.ne_of_mem_erase hp (pageAddr_injective _ he)
      · exact Nat.not_le.mpr hi' hk
  have hmappings {p : ℕ} (hp : p ∈ roots.erase as) (q : ℕ) :
      Vm.userMappings { s with pages := pages, words := words } p q = s.userMappings p q := by
    have hle : Vm.userMappings { s with pages := pages, words := words } p q ≤ s.userMappings p q :=
      KeepsFrames.userMappings_le (fun i hi j hj f hf => hframe hp hi hj ▸ hf) hr
    refine hle.antisymm (KeepsFrames.userMappings_le (fun i hi j hj f hf => (hframe hp hi hj).symm ▸ hf) hr.symm)
  have hcount (q : ℕ) (hq : FramePage live X q) : pages.refCount q = s.pages.refCount q - s.userMappings as q := by
    rw [hcounts, h.count_page has hne hq]
  refine ⟨_, stillLive live pages, h.mapped.vmFree_eq has hh hrel, hwords ▸ hram, ?_, fun p hp v hv => ?_, hcount⟩
  case refine_2 =>
    rw [hwords, Vm.walk, hr]
    exact (hsame hp (lvl1Index_lt_entries hv)).walk
  rw [hwords]
  refine ⟨hmapped, h.outside.congr hram, fun q hq i hk hi t ht => ?_, fun p hp hne' => ?_,
    fun p hp i hi j hj f hf => ?_, fun q hq => ?_, fun q hq => ?_, ?_⟩
  · rw [Vm.tableOf, hr] at ht
    rw [hr]
    exact h.apart q hq i hk hi t ((htable hkernel hi).symm.trans ht)
  · exact hkept (h.root p (Finset.mem_of_mem_erase hp) hne') (Finset.ne_of_mem_erase hp)
  · rw [hframe hp hi hj] at hf
    rw [hr]
    obtain ⟨q, hq, he⟩ := h.frame p (Finset.mem_of_mem_erase hp) i hi j hj f hf
    refine ⟨q, hpage hq ?_, he⟩
    rw [he] at hf
    have hone := userMappings_pos hi hj hf
    have hsum := Finset.sum_pos' (fun p _ => Nat.zero_le (s.userMappings p q)) ⟨p, hp, hone⟩
    omega
  · have hle := h.userMappings_le has (hq.mono hsub)
    rw [Finset.sum_congr rfl fun p hp => hmappings hp q]
    dsimp only
    rw [hcounts, h.count_page has hne (hq.mono hsub)]
    omega
  · exact hpage (h.spare q hq) (by omega)
  · dsimp only
    rw [hcounts, h.count_kernel has hne, h.idle]
    rfl

/-- `physical_page_free` by a caller that holds a reference. -/
lemma drop (h : OwnedSpaces first limit X s live roots spare) (hspare : 0 < spare q)
    (hX : q ∈ X → 1 < s.pages.refCount q) :
    ∃ pages live', physicalPageFree q .kb4 s.pages = .ok pages ∧ s.SameRam { s with pages := pages } ∧
      OwnedSpaces first limit X { s with pages := pages } live' roots (Function.update spare q (spare q - 1)) := by
  have hq := h.spare q hspare
  have hcount := h.counted q hq
  obtain ⟨pages, hfree⟩ : ∃ pages, physicalPageFree q .kb4 s.pages = .ok pages := by
    rcases hq with hq | hq
    · obtain ⟨free, hinv⟩ := h.mapped.blocks.inv
      obtain ⟨pages, _, hfree, -⟩ := hinv.free_page hq
      exact ⟨pages, hfree⟩
    · exact ⟨_, (h.mapped.blocks.release_outside (h.outside.notMem hq) (hX hq)).1⟩
  have hcountP (p : ℕ) : [(⟨q, .kb4⟩ : Block)].countP (·.head = p) = if q = p then 1 else 0 := by
    simp [List.countP_cons]
  have hrel : releaseAll [⟨q, .kb4⟩] s.pages = .ok pages := by
    rw [releaseAll_cons]
    exact ⟨pages, hfree, rfl⟩
  have hheld : ∀ b ∈ [(⟨q, .kb4⟩ : Block)], b ∈ live ∨ ¬ (first ≤ b.head ∧ b.head < limit) ∧
      ([(⟨q, .kb4⟩ : Block)].countP (·.head = b.head) : ℤ) < s.pages.refCount b.head := by
    intro b hb
    obtain rfl := List.mem_singleton.mp hb
    refine hq.imp_right fun hq => ⟨h.outside.notMem hq, ?_⟩
    rw [hcountP, if_pos rfl]
    exact hX hq
  have hle (p : ℕ) : ([(⟨q, .kb4⟩ : Block)].countP (·.head = p) : ℤ) ≤ s.pages.refCount p := by
    obtain ⟨free, hinv⟩ := h.mapped.blocks.inv
    have hnonneg := hinv.nonneg p
    rw [hcountP]
    split_ifs with he
    · subst he
      omega
    · exact hnonneg
  obtain ⟨hblocks, hcounts⟩ := h.mapped.blocks.release hheld hle hrel
  have hself : pages.refCount q = s.pages.refCount q - 1 := by
    rw [hcounts, hcountP, if_pos rfl]
    rfl
  have hother {p : ℕ} (hp : p ≠ q) : pages.refCount p = s.pages.refCount p := by
    rw [hcounts, hcountP, if_neg hp.symm]
    exact Int.sub_zero _
  obtain ⟨hr, hlen⟩ := releaseAll_ram hrel
  have hram : s.SameRam { s with pages := pages } := ⟨hr, hlen, rfl, rfl⟩
  have hsub : stillLive live pages ⊆ live := Finset.filter_subset _ _
  have hkept {b : Block} (hb : b ∈ live) (ho : b.order ≠ .kb4) : b ∈ stillLive live pages := by
    have hne : b.head ≠ q := by
      rintro rfl
      rcases hq with hq | hq
      · exact ho (h.mapped.blocks.order_eq (p := b.head) (o := b.order) hb hq)
      · obtain ⟨free, hinv⟩ := h.mapped.blocks.inv
        exact h.outside.notMem hq (hinv.tiled.head_mem (AllocatorInv.mem_used hb))
    refine Finset.mem_filter.mpr ⟨hb, ?_⟩
    rw [hother hne]
    exact h.mapped.blocks.counted hb
  have hpage {p : ℕ} (hp : FramePage live X p) (hpos : 0 < pages.refCount p) : FramePage (stillLive live pages) X p :=
    hp.imp_left fun hlive => Finset.mem_filter.mpr ⟨hlive, hpos⟩
  have hcounted {p : ℕ} (hp : FramePage live X p) : ((∑ as ∈ roots, s.userMappings as p +
      Function.update spare q (spare q - 1) p : ℕ) : ℤ) ≤ pages.refCount p := by
    have hcount := h.counted p hp
    by_cases he : p = q
    · subst he
      rw [Function.update_self, hself]
      omega
    · rw [Function.update_of_ne he, hother he]
      exact hcount
  have hmappings (as p : ℕ) : Vm.userMappings { s with pages := pages } as p = s.userMappings as p := by
    rw [Vm.userMappings, hr]
    exact congrArg List.sum (List.map_congr_left fun i _ => List.countP_congr fun j _ => by rw [Vm.frameOf, hr]; rfl)
  refine ⟨pages, stillLive live pages, hfree, hram, ?_, h.outside.congr hram, ?_, fun p hp hne => ?_,
    fun p hp i hi j hj f hf => ?_, fun p hp => ?_, fun p hp => ?_, ?_⟩
  · refine ⟨hblocks, hram.ramReady h.mapped.ram, ?_, fun p hp => ?_, fun p hp => ?_, fun p hp i hi t ht => ?_,
      fun p hp i hi t ht => ?_⟩ <;> rw [hram.ramStart] at *
    · exact h.mapped.spaces
    · rw [hram.rootTablePtr]
      exact h.mapped.rootPtr p hp
    · exact (h.mapped.root p hp).imp_left fun hb => hkept hb (by simp)
    · rw [hram.phys2virt]
      exact h.mapped.tablePtr p hp i hi t ht
    · exact (h.mapped.table p hp i hi t ht).imp_left (.imp fun _ => .imp_left fun hb => hkept hb (by simp))
  · intro p hp i hk hi t ht
    rw [Vm.tableOf, hr] at ht
    rw [hr]
    exact h.apart p hp i hk hi t ht
  · exact hkept (h.root p hp hne) (by simp)
  · rw [Vm.frameOf, hr] at hf
    rw [hr]
    obtain ⟨p', hp', he⟩ := h.frame p hp i hi j hj f hf
    refine ⟨p', hpage hp' ?_, he⟩
    have hone : 0 < s.userMappings p p' := by
      rw [he] at hf
      exact userMappings_pos hi hj hf
    have hsum := Finset.sum_pos' (fun as _ => Nat.zero_le (s.userMappings as p')) ⟨p, hp, hone⟩
    have hle := hcounted hp'
    omega
  · rw [Finset.sum_congr rfl fun as _ => hmappings as p]
    exact hcounted (hp.mono hsub)
  · have hspare' : 0 < spare p := by
      by_cases he : p = q
      · subst he
        exact hspare
      · rwa [Function.update_of_ne he] at hp
    have hp' := h.spare p hspare'
    refine hpage hp' ?_
    have hle := hcounted hp'
    omega
  · have hne : s.kernelAs ≠ q := fun he => by
      have hz := h.idle
      rw [he] at hz
      omega
    dsimp only
    rw [hother hne, h.idle]

end OwnedSpaces

end Free

end Pi0Os.Memory
