import Pi0Os.Memory.FrameCounts

/-! Who owns the pages of the address spaces: each first-level table is a block of its own, each frame below the kernel
area is a page with a reference for every mapping of it, and what is left are the references of those who call. -/

namespace Pi0Os.Memory

open Kernel Library PageAllocator

/-- A page that may be mapped below the kernel area: one of the allocator, or one of `X`, which it was never handed. -/
def FramePage (live : Finset Block) (X : Set ℕ) (q : ℕ) : Prop := (⟨q, .kb4⟩ : Block) ∈ live ∨ q ∈ X

structure OutsidePages (first limit : ℕ) (s : Vm) (X : Set ℕ) : Prop where
  aligned : ∀ q ∈ X, PageOrder.kb4.frames ∣ q
  inArray : ∀ q ∈ X, q < s.pages.len
  outside : ∀ q ∈ X, Outside first limit s.pages.ramStart ((⟨q, .kb4⟩ : Block).bytes s.pages.ramStart)
  root : ∀ q ∈ X,
    Disjoint ((⟨q, .kb4⟩ : Block).bytes s.pages.ramStart) (lvl1Bytes (pageAddr s.pages.ramStart s.kernelAs))

/-- The invariant of the address spaces `roots`. Of each page callers hold `spare` references. -/
structure OwnedSpaces (first limit : ℕ) (X : Set ℕ) (s : Vm) (live : Finset Block) (roots : Finset ℕ) (spare : ℕ → ℕ) :
    Prop where
  mapped : MappedSpaces first limit s live roots
  outside : OutsidePages first limit s X
  apart : ∀ q ∈ X, ∀ i, kernelStartIdx ≤ i → i < lvl1Entries → ∀ t, s.tableOf s.kernelAs i = some t →
    Disjoint ((⟨q, .kb4⟩ : Block).bytes s.pages.ramStart) (lvl2Bytes t)
  root : ∀ p ∈ roots, p ≠ s.kernelAs → (⟨p, .kb16⟩ : Block) ∈ live
  frame : ∀ p ∈ roots, ∀ i < kernelStartIdx, ∀ j < lvl2Entries, ∀ f, s.frameOf p i j = some f →
    ∃ q, FramePage live X q ∧ f = pageAddr s.pages.ramStart q
  counted : ∀ q, FramePage live X q → ((∑ p ∈ roots, s.userMappings p q + spare q : ℕ) : ℤ) ≤ s.pages.refCount q
  spare : ∀ q, 0 < spare q → FramePage live X q
  idle : s.pages.refCount s.kernelAs = 0

section Outside

variable {first limit q : ℕ} {s s' : Vm} {live live' : Finset Block} {X : Set ℕ} {b : Block}

lemma FramePage.mono (h : FramePage live X q) (hsub : live ⊆ live') : FramePage live' X q :=
  h.imp_left fun hq => hsub hq

lemma Blocks.outside_disjoint {a : PageAllocator} {S : Set ℕ} (h : Blocks first limit a live) (hb : b ∈ live)
    (hS : Outside first limit a.ramStart S) : Disjoint S (b.bytes a.ramStart) := by
  have hunused := h.unused (Finset.empty_subset live) hb (Finset.notMem_empty b)
  exact hunused.mono_left fun x hx => .inr (hS x hx)

lemma OutsidePages.notMem (h : OutsidePages first limit s X) (hq : q ∈ X) : ¬ (first ≤ q ∧ q < limit) := by
  have hhead : pageAddr s.pages.ramStart q ∈ (⟨q, .kb4⟩ : Block).bytes s.pages.ramStart :=
    ⟨le_rfl, Nat.lt_add_of_pos_right (Nat.succ_pos _)⟩
  rintro ⟨hlo, hhi⟩
  rcases h.outside q hq _ hhead with h | h <;>
    simp only [pageAddr, size1KB] at h <;> omega

lemma FramePage.held (h : OutsidePages first limit s X) (hq : FramePage live X q) : Blocks.Held first limit live q :=
  hq.imp (fun hq => ⟨.kb4, hq⟩) fun hq => h.notMem hq

lemma OutsidePages.congr (h : OutsidePages first limit s X) (hr : s.SameRam s') : OutsidePages first limit s' X := by
  refine ⟨h.aligned, ?_, ?_, ?_⟩
  · rw [hr.len]
    exact h.inArray
  · rw [hr.ramStart]
    exact h.outside
  · rw [hr.ramStart, hr.kernelAs]
    exact h.root

end Outside

/-- A step that maps no page below the kernel area and keeps the references that are there. -/
structure QuietStep (first limit : ℕ) (s s' : Vm) (live live' : Finset Block) (roots : Finset ℕ) : Prop where
  mapped : MappedSpaces first limit s' live' roots
  ram : s.SameRam s'
  sub : live ⊆ live'
  counts : ∀ q, Blocks.Held first limit live q → s'.pages.refCount q = s.pages.refCount q
  frames : ∀ p ∈ roots, KeepsFrames s s' p
  tables : ∀ i, kernelStartIdx ≤ i → i < lvl1Entries → ∀ t, s'.tableOf s.kernelAs i = some t →
    s.tableOf s.kernelAs i = some t ∨ ∃ q, (⟨q, .kb1⟩ : Block) ∈ live' ∧ t = pageAddr s.pages.ramStart q

namespace OwnedSpaces

variable {first limit as q i j t v : ℕ} {s s' : Vm} {live live' : Finset Block} {roots : Finset ℕ} {X : Set ℕ}
variable {spare spare' : ℕ → ℕ}

lemma held (h : OwnedSpaces first limit X s live roots spare) (hq : FramePage live X q) :
    Blocks.Held first limit live q := hq.held h.outside

/-- A page that nobody may map is not mapped. -/
lemma unmapped (h : OwnedSpaces first limit X s live roots spare) (hq : ¬ FramePage live X q) :
    ∑ p ∈ roots, s.userMappings p q = 0 := by
  refine Finset.sum_eq_zero fun p hp => userMappings_eq_zero ?_
  rintro ⟨i, hi, j, hj, hf⟩
  obtain ⟨q', hq', he⟩ := h.frame p hp i hi j hj _ hf
  exact hq (pageAddr_injective _ he ▸ hq')

/-- The kernel's first-level table is not a block of the allocator's. -/
lemma kernel_held (h : OwnedSpaces first limit X s live roots spare) : Blocks.Held first limit live s.kernelAs := by
  rcases h.mapped.root _ h.mapped.kernelAs_mem with hlive | hout
  · exact .inl ⟨_, hlive⟩
  · refine .inr ?_
    rintro ⟨hlo, hhi⟩
    rcases hout (pageAddr s.pages.ramStart s.kernelAs + 4 * 0) (mem_lvl1Bytes (by decide)) with h | h <;>
      simp only [pageAddr, size1KB] at h <;> omega

lemma quiet (h : OwnedSpaces first limit X s live roots spare) (hs : QuietStep first limit s s' live live' roots) :
    OwnedSpaces first limit X s' live' roots spare := by
  have hr := hs.ram.ramStart
  have hmappings (q : ℕ) : ∑ p ∈ roots, s'.userMappings p q ≤ ∑ p ∈ roots, s.userMappings p q :=
    Finset.sum_le_sum fun p hp => (hs.frames p hp).userMappings_le hr
  refine ⟨hs.mapped, h.outside.congr hs.ram, fun q hq i hk hi t ht => ?_, fun p hp hne => hs.sub (h.root p hp ?_),
    fun p hp i hi j hj f hf => ?_, fun q hq => ?_, fun q hq => (h.spare q hq).mono hs.sub, ?_⟩
  · rw [hs.ram.kernelAs] at ht
    rw [hr]
    rcases hs.tables i hk hi t ht with ht | ⟨p, hp, rfl⟩
    · exact h.apart q hq i hk hi t ht
    · have hblock := hs.mapped.blocks.outside_disjoint hp ((h.outside.congr hs.ram).outside q hq)
      rwa [hr] at hblock
  · rwa [← hs.ram.kernelAs]
  · obtain ⟨q, hq, he⟩ := h.frame p hp i hi j hj f (hs.frames p hp i hi j hj f hf)
    exact ⟨q, hq.mono hs.sub, hr ▸ he⟩
  · by_cases hold : FramePage live X q
    · have hcount := h.counted q hold
      have hle := hmappings q
      rw [hs.counts q (h.held hold)]
      omega
    · have hle := (hmappings q).trans_eq (h.unmapped hold)
      have hspare : spare q = 0 := by
        by_contra hne
        exact hold (h.spare q (Nat.pos_of_ne_zero hne))
      obtain ⟨free, hinv⟩ := hs.mapped.blocks.inv
      have hnonneg := hinv.nonneg q
      omega
  · rw [hs.ram.kernelAs, hs.counts _ h.kernel_held, h.idle]

/-- Callers hold other references. -/
lemma respare (h : OwnedSpaces first limit X s live roots spare)
    (hcount : ∀ q, FramePage live X q → ((∑ p ∈ roots, s.userMappings p q + spare' q : ℕ) : ℤ) ≤ s.pages.refCount q)
    (hspare : ∀ q, 0 < spare' q → FramePage live X q) : OwnedSpaces first limit X s live roots spare' :=
  { h with counted := hcount, spare := hspare }

end OwnedSpaces

end Pi0Os.Memory
