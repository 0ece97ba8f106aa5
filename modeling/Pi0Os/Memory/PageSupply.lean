import Pi0Os.Memory.BlockBytes
import Pi0Os.Memory.Coalescing

/-! How many pages of 4KB can still be had. The bigger free blocks count: a page of 4KB uses up one of them, a page of
1KB at most one. -/

namespace Pi0Os.Memory

open Kernel Library PageAllocator

/-- The pages of 4KB in the free blocks that are no smaller. -/
def supply (free : PageOrder → List ℕ) : ℕ := 4 * (free .kb16).length + (free .kb4).length

/-- At least `n` pages of 4KB, each of them alone or in a block of 16KB, are free. -/
def Supplies (s : PageAllocator) (n : ℕ) : Prop := ∃ free, Links s free ∧ n ≤ supply free

lemma Supplies.mono {s : PageAllocator} {m n : ℕ} (h : Supplies s n) (hm : m ≤ n) : Supplies s m :=
  h.imp fun _ ⟨hl, hn⟩ => ⟨hl, hm.trans hn⟩

section Supply

variable {first limit p : ℕ} {s : PageAllocator} {free : PageOrder → List ℕ} {used : Multiset Block} {l : List ℕ}

@[simp] lemma supply_update_kb1 : supply (Function.update free .kb1 l) = supply free := rfl

@[simp] lemma supply_update_kb4 : supply (Function.update free .kb4 l) = 4 * (free .kb16).length + l.length := rfl

@[simp] lemma supply_update_kb16 : supply (Function.update free .kb16 l) = 4 * l.length + (free .kb4).length := rfl

lemma alloc_kb4_supply (h : Ready first limit s free used) :
    allocFreePage .kb4 s = .ok (none, s) ∧ supply free = 0 ∨
    ∃ p s' free', allocFreePage .kb4 s = .ok (some p, s') ∧ Ready first limit s' free' (⟨p, .kb4⟩ ::ₘ used) ∧
      s.SameCounts s' ∧ Quiet s ⟨p, .kb4⟩ ∧ supply free = supply free' + 1 := by
  cases h4 : s.freeLists .kb4 with
  | some p =>
    obtain ⟨s', rest, hp, hfree, hr, hs, hq⟩ := h.pop h4
    refine .inr ⟨p, s', _, by simp [allocFreePage, allocSplitting, h4, hp], hr, hs, hq, ?_⟩
    rw [supply_update_kb4, supply, hfree, List.length_cons]
    rfl
  | none =>
    have hnil := h.links.head_nil h4
    cases h16 : s.freeLists .kb16 with
    | none =>
      refine .inl ⟨by simp [allocFreePage, allocSplitting, alloc16KB, h4, h16], ?_⟩
      rw [supply, hnil, h.links.head_nil h16]
      rfl
    | some q =>
      obtain ⟨s₁, rest, hq, hfree, hr₁, hs₁, hquiet⟩ := h.pop h16
      have hquiet₁ : Quiet s₁ ⟨q, .kb16⟩ := fun i hi => by
        rw [hs₁.refCount]
        exact hquiet i hi
      obtain ⟨s₂, hsplit, hr₂, hs₂, hlist⟩ := hr₁.split rfl hquiet₁
      obtain ⟨s₃, rest₃, hp, hfree₃, hr₃, hs₃, hq₃⟩ := hr₂.pop hlist
      refine .inr ⟨_, s₃, _, ?_, hr₃, (hs₁.trans hs₂).trans hs₃, fun i hi => ?_, ?_⟩
      · simp [allocFreePage, allocSplitting, alloc16KB, h4, h16, hq, hsplit, hp]
      · rw [← (hs₁.trans hs₂).refCount]
        exact hq₃ i hi
      · rw [Function.update_self, Function.update_of_ne (by decide), hnil] at hfree₃
        have hlen := congrArg List.length hfree₃
        simp only [List.append_nil, List.length_cons, List.length_nil] at hlen
        rw [Function.update_idem, supply_update_kb4, Function.update_self, supply, hnil, hfree, List.length_cons,
          List.length_nil]
        omega

lemma alloc_kb1_supply (h : Ready first limit s free used) :
    allocFreePage .kb1 s = .ok (none, s) ∧ supply free = 0 ∨
    ∃ p s' free', allocFreePage .kb1 s = .ok (some p, s') ∧ Ready first limit s' free' (⟨p, .kb1⟩ ::ₘ used) ∧
      supply free ≤ supply free' + 1 := by
  cases h1 : s.freeLists .kb1 with
  | some p =>
    obtain ⟨s', rest, hp, -, hr, -, -⟩ := h.pop h1
    exact .inr ⟨p, s', _, by simp [allocFreePage, allocSplitting, h1, hp], hr, Nat.le_succ _⟩
  | none =>
    have hsplitting (r : Except Panic (Option ℕ × PageAllocator)) (h4 : allocFreePage .kb4 s = r) :
        allocFreePage .kb1 s = allocSplitting .kb1 .kb4 (fun _ => r) s := by
      simp only [allocFreePage, allocSplitting, h1] at h4 ⊢
      rw [h4]
    rcases alloc_kb4_supply h with ⟨hn, hz⟩ | ⟨q, s₁, free₁, hq, hr₁, hs₁, hquiet, hsupply⟩
    · exact .inl ⟨by rw [hsplitting _ hn]; simp [allocSplitting, h1], hz⟩
    · have hquiet₁ : Quiet s₁ ⟨q, .kb4⟩ := fun i hi => by
        rw [hs₁.refCount]
        exact hquiet i hi
      obtain ⟨s₂, hsplit, hr₂, -, hlist⟩ := hr₁.split rfl hquiet₁
      obtain ⟨s₃, rest, hp, -, hr₃, -, -⟩ := hr₂.pop hlist
      refine .inr ⟨_, s₃, _, ?_, hr₃, hsupply.le⟩
      rw [hsplitting _ hq]
      simp [allocSplitting, h1, hsplit, hp]

/-- After start-up the whole region is there. -/
lemma init_supplies {boot : BootParams} (hboot : boot.Valid) (h : physicalPageAllocatorInit boot = .ok s) :
    Supplies s ((totalPages boot - firstFreePageIdx boot) / 4) := by
  obtain ⟨s₀, free, hs₀, hinv, -⟩ := physicalPageAllocatorInit_spec hboot
  cases h.symm.trans hs₀
  obtain ⟨hd, -, -⟩ := hboot.firstFreePageIdx_bounds
  have hdt := BootParams.Valid.totalPages_eq boot
  have hempty : ∀ o, o ≠ .kb16 → free o = [] := fun o ho => hinv.links.head_nil (initFreeList_lists ho h)
  have hsub : (Finset.range ((totalPages boot - firstFreePageIdx boot) / 16)).image (firstFreePageIdx boot + 16 * ·) ⊆
      (free .kb16).toFinset := by
    intro p hp
    obtain ⟨i, hi, rfl⟩ := Finset.mem_image.mp hp
    have hi := Finset.mem_range.mp hi
    rw [List.mem_toFinset, hinv.tiled.mem_kb16 hempty]
    omega
  have hcard := (Finset.card_le_card hsub).trans (List.toFinset_card_le _)
  rw [Finset.card_image_of_injective _ (fun i j he => by omega), Finset.card_range] at hcard
  refine ⟨free, hinv.links, ?_⟩
  rw [supply]
  omega

end Supply

namespace Blocks

variable {first limit n : ℕ} {s : PageAllocator} {live : Finset Block} {o : PageOrder}

lemma alloc_supplied (h : Blocks first limit s live) (ho : o ≠ .kb16) (hs : Supplies s (n + 1)) :
    ∃ p s', physicalPageAlloc o s = .ok (some p, s') ∧ Supplies s' n := by
  obtain ⟨free, hinv⟩ := h.inv
  obtain ⟨free', hlinks, hn⟩ := hs
  obtain rfl : free' = free := funext fun o => (hlinks.chain o).unique (hinv.links.chain o)
  have hserved : ∃ p s' free₁, allocFreePage o s = .ok (some p, s') ∧ Links s' free₁ ∧ n ≤ supply free₁ := by
    cases o with
    | kb16 => exact absurd rfl ho
    | kb4 =>
      rcases alloc_kb4_supply hinv.toReady with ⟨-, hz⟩ | ⟨p, s', free₁, hp, hr, -, -, he⟩
      · omega
      · exact ⟨p, s', free₁, hp, hr.links, by omega⟩
    | kb1 =>
      rcases alloc_kb1_supply hinv.toReady with ⟨-, hz⟩ | ⟨p, s', free₁, hp, hr, hle⟩
      · omega
      · exact ⟨p, s', free₁, hp, hr.links, by omega⟩
  obtain ⟨p, s', free₁, hp, hl, hn⟩ := hserved
  exact ⟨p, s'.setRefCount p 1, by simp [physicalPageAlloc, hp], free₁, hl.congr (by simp) rfl, hn⟩

end Blocks

/-- Blocks of these orders can be had one after the other. -/
def ServesAll : List PageOrder → PageAllocator → Prop
  | [], _ => True
  | o :: os, s => ∃ p s', physicalPageAlloc o s = .ok (some p, s') ∧ ServesAll os s'

/-- `m` pages of 4KB and `n` of 1KB can be had, in whatever order they are asked for. -/
def Affords (s : PageAllocator) (m n : ℕ) : Prop :=
  ∀ os : List PageOrder, os.Perm (List.replicate m .kb4 ++ List.replicate n .kb1) → ServesAll os s

section Affords

variable {s : PageAllocator} {m n m' n' : ℕ} {o : PageOrder}

lemma Affords.step (h : Affords s m n)
    (hperm : (o :: (List.replicate m' .kb4 ++ List.replicate n' .kb1)).Perm
      (List.replicate m .kb4 ++ List.replicate n .kb1)) :
    ∃ p s', physicalPageAlloc o s = .ok (some p, s') ∧ Affords s' m' n' := by
  obtain ⟨p, s', ha, -⟩ := h _ hperm
  refine ⟨p, s', ha, fun os hos => ?_⟩
  obtain ⟨p', s'', ha', hserves⟩ := h _ ((hos.cons o).trans hperm)
  obtain ⟨-, rfl⟩ := Prod.mk.inj (Except.ok.inj (ha.symm.trans ha'))
  exact hserves

lemma Affords.kb4 (h : Affords s (m + 1) n) :
    ∃ p s', physicalPageAlloc .kb4 s = .ok (some p, s') ∧ Affords s' m n :=
  h.step (List.Perm.refl _)

lemma Affords.kb1 (h : Affords s m (n + 1)) :
    ∃ p s', physicalPageAlloc .kb1 s = .ok (some p, s') ∧ Affords s' m n :=
  h.step List.perm_middle.symm

end Affords

end Pi0Os.Memory
