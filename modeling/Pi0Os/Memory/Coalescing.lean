import Pi0Os.Memory.PageAllocatorRuns

/-! Whether a run of the allocator that gives every block back finds the free lists as
`physical_page_allocator_init` left them. -/

namespace Pi0Os.Memory

open Kernel Library PageAllocator

/-- The free lists hold the blocks they held after start-up. -/
structure Restored (boot : BootParams) (s : PageAllocator) : Prop where
  small : ∀ o, o ≠ .kb16 → s.freeLists o = none
  kb16 : ∃ s₀ l₀ l, physicalPageAllocatorInit boot = .ok s₀ ∧ Chain s₀.next (s₀.freeLists .kb16) l₀ ∧
    Chain s.next (s.freeLists .kb16) l ∧ l.Perm l₀

/-- The call asks for less than 16KB while a 16KB block is free. -/
def BreaksBlock (c : PageAllocator × Finset Block) (op : PageOp) : Prop :=
  ∃ o, op = .alloc o ∧ o ≠ .kb16 ∧ c.1.freeLists .kb16 ≠ none

/-- No part of a split block is free or in use. -/
structure Whole (c : PageAllocator × Finset Block) : Prop where
  lists : ∀ o, o ≠ .kb16 → c.1.freeLists o = none
  live : ∀ b ∈ c.2, b.order = .kb16

/-- The part of a split block that is free or in use. -/
def Broken (c : PageAllocator × Finset Block) : Prop :=
  ∃ o, o ≠ .kb16 ∧ (c.1.freeLists o ≠ none ∨ ∃ b ∈ c.2, b.order = o)

section Lists

variable {first limit p : ℕ} {s s' : PageAllocator} {free : PageOrder → List ℕ} {live : Finset Block}
variable {o big : PageOrder}

lemma alloc16KB_lists (h : alloc16KB s = .ok (some p, s')) (ho : o ≠ .kb16) : s'.freeLists o = s.freeLists o := by
  rw [alloc16KB] at h
  split at h
  · cases h
  · rename_i head he
    obtain ⟨⟨page, s₁⟩, hpop, h⟩ := bind_eq_ok.mp h
    rw [popPageFromFreePagesList, he] at hpop
    obtain ⟨-, hpop⟩ := kassert_bind_eq_ok.mp hpop
    cases hpop
    cases h
    exact Function.update_of_ne ho _ _

lemma alloc16KB_served (hfree : s.freeLists .kb16 ≠ none) : alloc16KB s ≠ .ok (none, s') := by
  intro h
  rw [alloc16KB] at h
  split at h
  · exact hfree ‹_›
  · obtain ⟨_, -, h⟩ := bind_eq_ok.mp h
    cases h

lemma allocSplitting_served {bigger : PageAllocator → Except Panic (Option ℕ × PageAllocator)}
    (hb : ∀ s', bigger s ≠ .ok (none, s')) : allocSplitting o big bigger s ≠ .ok (none, s') := by
  intro h
  rw [allocSplitting] at h
  split at h
  · obtain ⟨_, -, h⟩ := bind_eq_ok.mp h
    cases h
  · obtain ⟨⟨page, s₁⟩, hbig, h⟩ := bind_eq_ok.mp h
    cases page with
    | none => exact hb s₁ hbig
    | some page =>
      obtain ⟨_, -, h⟩ := bind_eq_ok.mp h
      obtain ⟨_, -, h⟩ := bind_eq_ok.mp h
      cases h

lemma allocFreePage_served (hfree : s.freeLists .kb16 ≠ none) : allocFreePage o s ≠ .ok (none, s') := by
  have h16 : ∀ s', alloc16KB s ≠ .ok (none, s') := fun _ => alloc16KB_served hfree
  cases o with
  | kb16 => exact h16 s'
  | kb4 => exact allocSplitting_served h16
  | kb1 => exact allocSplitting_served fun _ => allocSplitting_served h16

lemma allocFreePage_empty (h : ∀ o, s.freeLists o = none) : allocFreePage o s = .ok (none, s) := by
  cases o <;> simp [allocFreePage, allocSplitting, alloc16KB, h]

lemma physicalPageAlloc_some (h : physicalPageAlloc o s = .ok (some p, s')) :
    ∃ s₁, allocFreePage o s = .ok (some p, s₁) ∧ s' = s₁.setRefCount p 1 := by
  obtain ⟨⟨page, s₁⟩, ha, h⟩ := bind_eq_ok.mp h
  cases page with
  | none => cases h
  | some page =>
    cases h
    exact ⟨s₁, ha, rfl⟩

lemma physicalPageAlloc_none (h : physicalPageAlloc o s = .ok (none, s')) : allocFreePage o s = .ok (none, s') := by
  obtain ⟨⟨page, s₁⟩, ha, h⟩ := bind_eq_ok.mp h
  cases page with
  | none =>
    cases h
    exact ha
  | some page => cases h

/-- A block that is given back is put on the list of its own order, whatever its buddies are. -/
lemma AllocatorInv.free_lists (h : AllocatorInv first limit s free live) (hb : (⟨p, o⟩ : Block) ∈ live)
    (hf : physicalPageFree p o s = .ok s') :
    s'.freeLists = if s'.refCount p = 0 then Function.update s.freeLists o (some p) else s.freeLists := by
  have hc := h.counted _ hb
  obtain ⟨-, hf⟩ := kassert_bind_eq_ok.mp hf
  dsimp only at hf
  split_ifs at hf with hz
  · rw [freePage_append] at hf
    · obtain ⟨-, hf⟩ := kassert_bind_eq_ok.mp hf
      cases hf
      rw [if_pos (by simpa using hz)]
      rfl
    · intro q
      rw [refCount_setRefCount]
      by_cases hq : q = p
      · subst hq
        rw [Function.update_self]
        dsimp only at hc
        omega
      · rw [Function.update_of_ne hq]
        exact h.nonneg q
    · rw [next_setRefCount]
      exact h.links.unlinked p (h.tiled.not_free (b := ⟨p, o⟩) hb (Block.covers_head _))
    · exact h.tiled.aligned _ (mem_used hb)
  · cases hf
    rw [if_neg hz]
    rfl

end Lists

section Steps

variable {boot : BootParams} {first limit : ℕ} {c c' : PageAllocator × Finset Block} {op : PageOp}
variable {free : PageOrder → List ℕ}

lemma Whole.step (h : Whole c) (hinv : AllocatorInv first limit c.1 free c.2) (hs : PageStep c op c')
    (hop : ¬ BreaksBlock c op) : Whole c' := by
  cases hs with
  | @alloc s s' live o p ha =>
    obtain ⟨s₁, htaken, rfl⟩ := physicalPageAlloc_some ha
    have ho : o = .kb16 := by
      by_contra hne
      have hnone : s.freeLists .kb16 = none := by
        by_contra hfree
        exact hop ⟨o, rfl, hne, hfree⟩
      have hall : ∀ o, s.freeLists o = none := by
        intro o'
        by_cases ho' : o' = .kb16
        · rw [ho', hnone]
        · exact h.lists o' ho'
      rw [allocFreePage_empty hall] at htaken
      cases htaken
    subst ho
    refine ⟨fun o ho => ?_, fun b hb => ?_⟩
    · exact (alloc16KB_lists htaken ho).trans (h.lists o ho)
    · rcases Finset.mem_insert.mp hb with rfl | hb
      · rfl
      · exact h.live b hb
  | @outOfMemory s s' live o ha =>
    rcases hinv.alloc o with hn | ⟨p, s'', free', ha', -⟩
    · rw [hn] at ha
      cases ha
      exact h
    · rw [ha'] at ha
      cases ha
  | retain => exact ⟨h.lists, h.live⟩
  | @free s s' live p o hb hf =>
    have ho : o = .kb16 := h.live _ hb
    refine ⟨fun o' ho' => ?_, fun b hb' => ?_⟩
    · dsimp only
      rw [hinv.free_lists hb hf]
      split
      · rw [Function.update_of_ne (ho ▸ ho')]
        exact h.lists o' ho'
      · exact h.lists o' ho'
    · dsimp only at hb'
      split at hb'
      · exact h.live b (Finset.mem_of_mem_erase hb')
      · exact h.live b hb'

lemma BreaksBlock.broken (h : BreaksBlock c op) (hs : PageStep c op c') : Broken c' := by
  obtain ⟨o, rfl, ho, hfree⟩ := h
  cases hs with
  | @alloc s s' live o p ha => exact ⟨o, ho, Or.inr ⟨⟨p, o⟩, Finset.mem_insert_self _ _, rfl⟩⟩
  | outOfMemory ha => exact absurd (physicalPageAlloc_none ha) (allocFreePage_served hfree)

lemma Broken.step (h : Broken c) (hinv : AllocatorInv first limit c.1 free c.2) (hs : PageStep c op c') :
    Broken c' := by
  obtain ⟨o, ho, h⟩ := h
  cases hs with
  | @alloc s s' live o' p ha =>
    by_cases ho' : o' = .kb16
    · subst ho'
      obtain ⟨s₁, htaken, rfl⟩ := physicalPageAlloc_some ha
      refine ⟨o, ho, h.imp (fun hl => ?_) fun ⟨b, hb, hbo⟩ => ⟨b, Finset.mem_insert_of_mem hb, hbo⟩⟩
      have hsame : s₁.freeLists o = s.freeLists o := alloc16KB_lists htaken ho
      exact fun he => hl (hsame.symm.trans he)
    · exact ⟨o', ho', Or.inr ⟨⟨p, o'⟩, Finset.mem_insert_self _ _, rfl⟩⟩
  | @outOfMemory s s' live o' ha =>
    rcases hinv.alloc o' with hn | ⟨p, s'', free', ha', -⟩
    · rw [hn] at ha
      cases ha
      exact ⟨o, ho, h⟩
    · rw [ha'] at ha
      cases ha
  | retain => exact ⟨o, ho, h⟩
  | @free s s' live p o' hb hf =>
    have hlists := hinv.free_lists hb hf
    by_cases hz : s'.refCount p = 0
    · rw [if_pos hz] at hlists
      by_cases ho' : o = o'
      · -- its list now starts with the page
        subst ho'
        exact ⟨o, ho, Or.inl (by simp [hlists])⟩
      · refine ⟨o, ho, h.imp (fun hl => ?_) fun ⟨b, hb', hbo⟩ => ⟨b, ?_, hbo⟩⟩
        · dsimp only
          rw [hlists, Function.update_of_ne ho']
          exact hl
        · rw [if_pos hz]
          exact Finset.mem_erase.mpr ⟨fun he => ho' (by rw [← hbo, he]), hb'⟩
    · rw [if_neg hz] at hlists ⊢
      exact ⟨o, ho, h.imp (fun hl => by dsimp only; rwa [hlists]) id⟩

end Steps

/-- Without split blocks the 16KB list is every block of the region. -/
lemma Tiled.mem_kb16 {first limit p : ℕ} {free : PageOrder → List ℕ} (h : Tiled first limit free 0)
    (hsmall : ∀ o, o ≠ .kb16 → free o = []) :
    p ∈ free .kb16 ↔ 16 ∣ p ∧ first ≤ p ∧ p < limit := by
  constructor
  · intro hp
    have hb : (⟨p, .kb16⟩ : Block) ∈ freeBlocks free + 0 := by
      rw [add_zero]
      exact mem_freeBlocks.mpr hp
    exact ⟨h.aligned _ hb, h.head_mem hb⟩
  · rintro ⟨hd, hle, hlt⟩
    have hcount := h.tiles p
    rw [if_pos ⟨hle, hlt⟩] at hcount
    obtain ⟨span, hspan, hcov⟩ := Multiset.countP_pos.mp (by rw [hcount]; exact Nat.one_pos)
    obtain ⟨b, hb, rfl⟩ := Multiset.mem_map.mp hspan
    have hfree : b ∈ freeBlocks free := by rwa [add_zero] at hb
    have ho : b.order = .kb16 := by
      by_contra hne
      have hm := mem_freeBlocks.mp hfree
      rw [hsmall _ hne] at hm
      cases hm
    have hdb := h.aligned b hb
    have hhead : b.head = p := by
      simp only [Span.Covers, Block.span, ho, PageOrder.frames] at hcov hdb
      omega
    rw [← hhead, ← ho]
    exact mem_freeBlocks.mp hfree

lemma initFreeList_lists {first : ℕ} {o : PageOrder} (ho : o ≠ .kb16) {fuel i : ℕ} {s s' : PageAllocator}
    (h : initFreeList first fuel i s = .ok s') : s'.freeLists o = s.freeLists o := by
  induction fuel generalizing i s with
  | zero => cases h
  | succ fuel ih =>
    rw [initFreeList] at h
    split at h
    · exact (ih h).trans (Function.update_of_ne ho _ _)
    · cases h
      rfl

section Runs

variable {boot : BootParams} {s : PageAllocator} {run : List ((PageAllocator × Finset Block) × PageOp)}
variable {c : PageAllocator × Finset Block}

lemma init_whole (h : (pageAllocatorSystem boot).Init c) : Whole c := by
  obtain ⟨hs, hlive⟩ := h
  refine ⟨fun o ho => initFreeList_lists ho hs, fun b hb => ?_⟩
  rw [hlive] at hb
  cases hb

lemma run_whole (hboot : boot.Valid) (h : (pageAllocatorSystem boot).Trace run c)
    (hrun : ∀ x ∈ run, ¬ BreaksBlock x.1 x.2) : Whole c := by
  induction h with
  | init h => exact init_whole h
  | @step run c c' op htrace hs ih =>
    obtain ⟨⟨free, hinv⟩, -⟩ := htrace.reachable.invariant (pageAllocatorSystem_inductive hboot)
    obtain ⟨hrun, hlast⟩ := List.forall_mem_append.mp hrun
    exact (ih hrun).step hinv hs (hlast _ List.mem_cons_self)

lemma run_broken (hboot : boot.Valid) (h : (pageAllocatorSystem boot).Trace run c)
    (hrun : ∃ x ∈ run, BreaksBlock x.1 x.2) : Broken c := by
  induction h with
  | init h => simp at hrun
  | @step run c c' op htrace hs ih =>
    obtain ⟨⟨free, hinv⟩, -⟩ := htrace.reachable.invariant (pageAllocatorSystem_inductive hboot)
    obtain ⟨x, hx, hb⟩ := hrun
    rcases List.mem_append.mp hx with hx | hx
    · exact (ih ⟨x, hx, hb⟩).step hinv hs
    · obtain rfl := List.mem_singleton.mp hx
      exact hb.broken hs

lemma Whole.restored (hboot : boot.Valid) (h : Whole (s, ∅))
    (hs : (pageAllocatorSystem boot).Reachable (s, ∅)) : Restored boot s := by
  obtain ⟨s₀, free₀, hs₀, hinv₀, -⟩ := physicalPageAllocatorInit_spec hboot
  obtain ⟨⟨free, hinv⟩, -⟩ := hs.invariant (pageAllocatorSystem_inductive hboot)
  have h₀ : Whole (s₀, ∅) := init_whole ⟨hs₀, rfl⟩
  refine ⟨h.lists, s₀, free₀ .kb16, free .kb16, hs₀, hinv₀.links.chain _, hinv.links.chain _, ?_⟩
  refine (List.perm_ext_iff_of_nodup (hinv.links.nodup _) (hinv₀.links.nodup _)).mpr fun p => ?_
  have hempty : ∀ o, o ≠ .kb16 → free o = [] := fun o ho => hinv.links.head_nil (h.lists o ho)
  have hempty₀ : ∀ o, o ≠ .kb16 → free₀ o = [] := fun o ho => hinv₀.links.head_nil (h₀.lists o ho)
  exact (hinv.tiled.mem_kb16 hempty).trans (hinv₀.tiled.mem_kb16 hempty₀).symm

lemma Broken.not_restored (h : Broken (s, ∅)) : ¬ Restored boot s := by
  obtain ⟨o, ho, hl | ⟨b, hb, -⟩⟩ := h
  · exact fun hr => hl (hr.small o ho)
  · cases hb

/-- A run that has given every block back leaves the free lists as they were after start-up exactly if it never
asked for less than 16KB while a 16KB block was free: no four parts are ever put together again. -/
theorem freeLists_restored_iff (hboot : boot.Valid) (h : (pageAllocatorSystem boot).Trace run (s, ∅)) :
    Restored boot s ↔ ∀ x ∈ run, ¬ BreaksBlock x.1 x.2 := by
  constructor
  · intro hr x hx hb
    exact (run_broken hboot h ⟨x, hx, hb⟩).not_restored hr
  · exact fun hrun => (run_whole hboot h hrun).restored hboot h.reachable

/-- One block is taken and given back at once; with the page, the count it is left with and the head of its list. -/
def takeAndGive (o : PageOrder) : Except Panic (ℕ × ℤ × Option ℕ) := do
  let s ← physicalPageAllocatorInit smallBoot
  match ← physicalPageAlloc o s with
  | (none, _) => .error (.undefined "out of memory")
  | (some p, s) =>
    let s ← physicalPageFree p o s
    return (p, s.refCount p, s.freeLists o)

lemma takeAndGive_kb16 : takeAndGive .kb16 = .ok (32, 0, some 32) := by decide +kernel

lemma takeAndGive_kb4 : takeAndGive .kb4 = .ok (44, 0, some 44) := by decide +kernel

lemma takeAndGive_trace {o : PageOrder} {p : ℕ} {head : Option ℕ} (h : takeAndGive o = .ok (p, 0, head)) :
    ∃ run s, (pageAllocatorSystem smallBoot).Trace run (s, ∅) ∧
      run.map Prod.snd = [.alloc o, .free p o] ∧ s.freeLists o = head := by
  obtain ⟨s₀, hinit, h⟩ := bind_eq_ok.mp h
  obtain ⟨⟨page, s₁⟩, halloc, h⟩ := bind_eq_ok.mp h
  cases page with
  | none => cases h
  | some page =>
    obtain ⟨s₂, hfree, h⟩ := bind_eq_ok.mp h
    simp only [pure_eq_ok, Except.ok.injEq, Prod.mk.injEq] at h
    obtain ⟨rfl, hzero, rfl⟩ := h
    have h₀ : (pageAllocatorSystem smallBoot).Trace [] (s₀, ∅) := .init ⟨hinit, rfl⟩
    have h₁ := h₀.step (.alloc halloc)
    have h₂ := h₁.step (.free (Finset.mem_insert_self _ _) hfree)
    rw [if_pos hzero, Finset.erase_insert (Finset.notMem_empty _)] at h₂
    exact ⟨_, s₂, h₂, rfl, rfl⟩

theorem freeLists_restored_small : ∃ run s, (pageAllocatorSystem smallBoot).Trace run (s, ∅) ∧
    run.map Prod.snd = [.alloc .kb16, .free 32 .kb16] ∧ Restored smallBoot s := by
  obtain ⟨run, s, htrace, hops, -⟩ := takeAndGive_trace takeAndGive_kb16
  refine ⟨run, s, htrace, hops, (freeLists_restored_iff smallBoot_valid htrace).mpr ?_⟩
  rintro x hx ⟨o, ho, hne, -⟩
  have hmem : x.2 ∈ run.map Prod.snd := List.mem_map_of_mem hx
  rw [hops, ho] at hmem
  simp [hne] at hmem

/-- A page is allocated and freed, and the block it was cut from stays in four. -/
theorem freed_page_not_coalesced : ∃ run s, (pageAllocatorSystem smallBoot).Trace run (s, ∅) ∧
    run.map Prod.snd = [.alloc .kb4, .free 44 .kb4] ∧ ¬ Restored smallBoot s := by
  obtain ⟨run, s, htrace, hops, hlist⟩ := takeAndGive_trace takeAndGive_kb4
  refine ⟨run, s, htrace, hops, fun h => ?_⟩
  rw [h.small .kb4 (by decide)] at hlist
  cases hlist

end Runs

end Pi0Os.Memory
