import Pi0Os.Memory.OwnedCreation

/-! `vm_fork` among the owned address spaces: every table of the forked space is replaced by a new one, and every page
in it is a new block. -/

namespace Pi0Os.Memory

open Kernel Library PageAllocator MappedSpaces

section Tables

variable {first limit d i t : ℕ} {s : Vm} {live : Finset Block} {roots : Finset ℕ} {X : Set ℕ} {spare : ℕ → ℕ}
variable {pages : PageAllocator}

/-- A first-level entry below the kernel area is cleared. -/
lemma QuietStep.detach (h : MappedSpaces first limit s live roots) (hd : d ∈ roots) (hi : i < kernelStartIdx) :
    QuietStep first limit s (s.store (pageAddr s.pages.ramStart d + 4 * i) 0) live live roots := by
  have hi₀ := lt_lvl1Entries hi
  have hcases {p i' : ℕ} (hp : p ∈ roots) (hi' : i' < lvl1Entries) :
      (d = p ∧ i = i') ∧ tableAt (Function.update s.words (pageAddr s.pages.ramStart d + 4 * i) 0)
        (pageAddr s.pages.ramStart p) i' = none ∨
      SameTable (pageAddr s.pages.ramStart p) s.words
        (Function.update s.words (pageAddr s.pages.ramStart d + 4 * i) 0) i' := by
    rcases h.spaces.update_entry_cases (e := 0) (mem_roots hd) hi₀ (mem_roots hp) hi' with ⟨⟨he, rfl⟩, hz⟩ | ⟨-, hsame⟩
    · refine .inl ⟨⟨pageAddr_injective _ he, rfl⟩, if_neg fun hc => ?_⟩
      exact ne_zero_of_isCoarsePage hc hz
    · exact .inr ⟨hsame, fun t ht j hj => h.spaces.update_table (mem_roots hd) hi₀ (mem_roots hp) hi' ht hj⟩
  refine ⟨h.congr h.blocks (Finset.Subset.refl _) (.store s _ _) (h.spaces.detach (mem_roots hd) hi)
      fun p hp i' hi' t ht => .inl ⟨p, hp, ?_⟩, .store s _ _, Finset.Subset.refl _, fun _ _ => rfl,
    fun p hp i' hi' j hj f hf => ?_, fun i' hk hi' t ht => .inl ?_⟩
  · rcases hcases hp hi' with ⟨-, hnone⟩ | hsame
    · cases hnone.symm.trans ht
    · exact hsame.table ▸ ht
  · rcases hcases hp (lt_lvl1Entries hi') with ⟨-, hnone⟩ | hsame
    · have hnone : (s.store (pageAddr s.pages.ramStart d + 4 * i) 0).tableOf p i' = none := hnone
      rw [Vm.frameOf_of_noTable hnone] at hf
      cases hf
    · exact (hsame.frame hj).symm.trans hf
  · rcases hcases h.kernelAs_mem hi' with ⟨⟨-, rfl⟩, -⟩ | hsame
    · exact absurd hi (Nat.not_lt.mpr hk)
    · exact hsame.table.symm.trans ht

/-- The writes of `vm_fork` for a first-level entry. -/
def forkedEntry (m : ℕ → ℕ) (entry table : ℕ) : ℕ → ℕ :=
  Function.update (fill m table lvl2TableSize 0) entry (CoarsePageTableEntry.makeEntry table)

lemma OwnedSpaces.replaceTable (h : OwnedSpaces first limit X s live roots spare) (hd : d ∈ roots)
    (hi : i < kernelStartIdx) (ha : physicalPageAlloc .kb1 s.pages = .ok (some t, pages)) :
    s.SameRam { s with
        pages := pages
        words := forkedEntry s.words (pageAddr s.pages.ramStart d + 4 * i) (pageAddr s.pages.ramStart t) } ∧
      OwnedSpaces first limit X { s with
        pages := pages
        words := forkedEntry s.words (pageAddr s.pages.ramStart d + 4 * i) (pageAddr s.pages.ramStart t) }
      (insert ⟨t, .kb1⟩ live) roots spare ∧
      tableAt (forkedEntry s.words (pageAddr s.pages.ramStart d + 4 * i) (pageAddr s.pages.ramStart t))
        (pageAddr s.pages.ramStart d) i = some (pageAddr s.pages.ramStart t) ∧
      KeepsFrames s { s with
        pages := pages
        words := forkedEntry s.words (pageAddr s.pages.ramStart d + 4 * i) (pageAddr s.pages.ramStart t) } d := by
  have hi₀ := lt_lvl1Entries hi
  have hin : False ↔ kernelStartIdx ≤ i := iff_of_false not_false (Nat.not_le.mpr hi)
  have hdetach := QuietStep.detach h.mapped hd hi
  have h₁ := h.quiet hdetach
  have hz : (s.store (pageAddr s.pages.ramStart d + 4 * i) 0).words (pageAddr s.pages.ramStart d + 4 * i) = 0 :=
    Function.update_self ..
  have hkz : kernelStartIdx ≤ i → (s.store (pageAddr s.pages.ramStart d + 4 * i) 0).words
      (pageAddr s.pages.ramStart s.kernelAs + 4 * i) = 0 := fun hk => absurd hi (Nat.not_lt.mpr hk)
  have hattach := QuietStep.attach h₁.mapped hd hi₀ hin hz hkz ha
  have ht := (h₁.mapped.attached hd hi₀ hin hz hkz ha).tableAt
  have hout : pageAddr s.pages.ramStart d + 4 * i ∉ lvl2Bytes (pageAddr s.pages.ramStart t) := by
    have hunused := (h.mapped.blocks.alloc ha).unused
    exact Set.disjoint_left.mp hunused (h.mapped.root_inUse hd (mem_lvl1Bytes hi₀))
  have hwords : attachedWords (s.store (pageAddr s.pages.ramStart d + 4 * i) 0).words False
      (pageAddr s.pages.ramStart d) (pageAddr s.pages.ramStart s.kernelAs) i (pageAddr s.pages.ramStart t) =
      forkedEntry s.words (pageAddr s.pages.ramStart d + 4 * i) (pageAddr s.pages.ramStart t) := by
    rw [attachedWords, attachWords, if_neg not_false, Vm.store_words, Function.update_idem, forkedEntry]
    exact (update_fill hout).symm
  have h₂ := h₁.quiet hattach
  have hram := hdetach.ram.trans hattach.ram
  have hframes : KeepsFrames s _ d := fun i' hi' j hj f hf =>
    hdetach.frames d hd i' hi' j hj f (hattach.frames d hd i' hi' j hj f hf)
  rw [Vm.store_pages, Vm.store_kernelAs, hwords] at h₂ hram ht hframes
  exact ⟨hram, h₂, ht, hframes⟩

end Tables

section Pages

variable {first limit d i j t q src : ℕ} {s s' : Vm} {live : Finset Block} {roots : Finset ℕ} {X : Set ℕ}
variable {spare : ℕ → ℕ} {pages : PageAllocator} {perm : PageAccessPermissions} {done : Bool}

lemma OwnedSpaces.spare_fresh {o : PageOrder} (h : OwnedSpaces first limit X s live roots spare)
    (ha : physicalPageAlloc o s.pages = .ok (some q, pages)) : spare q = 0 := by
  have hnew := h.mapped.blocks.alloc ha
  by_contra hne
  exact hnew.blocks.not_held (Finset.subset_insert ..) (Finset.mem_insert_self _ _) hnew.fresh
    (h.held (h.spare q (Nat.pos_of_ne_zero hne)))

/-- A new block with the contents of a page, and the entry that maps it. -/
lemma OwnedSpaces.copyPage (h : OwnedSpaces first limit X s live roots spare) (hd : d ∈ roots)
    (hi : i < kernelStartIdx) (ht : s.tableOf d i = some t) (hj : j < lvl2Entries)
    (ha₀ : physicalPageAlloc .kb4 s.pages = .ok (some q, pages))
    (hs' : s' = Vm.store (Vm.memcpy { s with pages := pages } (pageAddr s.pages.ramStart q) src size4KB) (t + 4 * j)
      (SmallPageEntry.makeEntry (pageAddr s.pages.ramStart q) perm)) :
    s.SameRam s' ∧ OwnedSpaces first limit X s' (insert ⟨q, .kb4⟩ live) roots spare ∧ s'.tableOf d i = some t ∧
      (s.MapsNone d X → s'.MapsNone d X) := by
  subst hs'
  have hi₀ := lt_lvl1Entries hi
  have hr : pages.ramStart = s.pages.ramStart := (h.mapped.blocks.alloc ha₀).ramStart
  have h₁ := h.allocPage ha₀
  have hq : FramePage (insert (⟨q, .kb4⟩ : Block) live) X q := .inl (Finset.mem_insert_self _ _)
  have hcopy : ∀ a ∉ (⟨q, .kb4⟩ : Block).bytes pages.ramStart,
      (Vm.memcpy { s with pages := pages } (pageAddr s.pages.ramStart q) src size4KB).words a = s.words a := by
    intro a hout
    refine if_neg fun hm => hout ?_
    rw [hr]
    exact hm
  have hquiet : QuietStep first limit { s with pages := pages }
      (Vm.memcpy { s with pages := pages } (pageAddr s.pages.ramStart q) src size4KB) (insert ⟨q, .kb4⟩ live)
      (insert ⟨q, .kb4⟩ live) roots := h₁.quiet_writeFrame hq ⟨rfl, rfl, rfl, rfl⟩ rfl hcopy
  have h₂ := h₁.quiet hquiet
  have ht₂ : (Vm.memcpy { s with pages := pages } (pageAddr s.pages.ramStart q) src size4KB).tableOf d i = some t := by
    have ht₁ : Vm.tableOf { s with pages := pages } d i = some t := by
      rw [Vm.tableOf, hr]
      exact ht
    have hroot : pageAddr pages.ramStart d + 4 * i ∉ (⟨q, .kb4⟩ : Block).bytes pages.ramStart :=
      Set.disjoint_left.mp (h₁.frame_root hq hd).symm (mem_lvl1Bytes hi₀)
    rw [← ht₁, Vm.tableOf, Vm.memcpy_pages, tableAt, hcopy _ hroot]
    rfl
  have hspare : 0 < Function.update spare q 1 q := by
    rw [Function.update_self]
    exact Nat.succ_pos _
  have h₃ := h₂.mapPage hd hi ht₂ hj hspare perm
  have hspares : Function.update (Function.update spare q 1) q (Function.update spare q 1 q - 1) = spare := by
    rw [Function.update_self, Function.update_idem]
    exact (congrArg (Function.update spare q) (h.spare_fresh ha₀).symm).trans (Function.update_eq_self q spare)
  rw [hspares] at h₃
  have hram : s.SameRam (Vm.memcpy { s with pages := pages } (pageAddr s.pages.ramStart q) src size4KB) :=
    h.mapped.blocks.alloc_sameRam ha₀ _
  rw [Vm.memcpy_pages, hr] at h₃
  refine ⟨hram.trans (.store ..), h₃, (h₂.mapped.tableOf_store hd hi₀ ht₂ hj hd hi₀).trans ht₂, fun hnone => ?_⟩
  -- the new page is no page of `X`
  intro x hx i' hi' j' hj' hf
  obtain ⟨ha, hlt, -⟩ := h₁.address hq
  rw [hr] at ha hlt
  rw [h₂.mapped.frameOf_store hd hi ht₂ hj hd hi' hj', if_neg (SmallPageEntry.makeEntry_ne_zero _ _),
    SmallPageEntry.baseAddress_makeEntry perm ha hlt] at hf
  split_ifs at hf
  · rw [Vm.store_pages, Vm.memcpy_pages, hr] at hf
    obtain rfl := pageAddr_injective _ (Option.some.inj hf)
    obtain ⟨free, hinv⟩ := h₁.mapped.blocks.inv
    exact h.outside.notMem hx (hinv.tiled.head_mem (AllocatorInv.mem_used (Finset.mem_insert_self _ _)))
  · have hkept := ((QuietStep.alloc h.mapped ha₀).frames d hd).mapsNone hr hnone
    exact hkept x hx i' hi' j' hj' (hquiet.frames d hd i' hi' j' hj' _ hf)

/-- The inner loop, to its end or until there is no memory for a page. -/
lemma OwnedSpaces.forkLvl2 {srcEntry p : ℕ} {js : List ℕ} (h : OwnedSpaces first limit X s live roots spare)
    (hd : d ∈ roots) (hi : i < kernelStartIdx) (hp : (⟨p, .kb1⟩ : Block) ∈ live)
    (ht : s.tableOf d i = some (pageAddr s.pages.ramStart p)) (hjs : ∀ j ∈ js, j < lvl2Entries)
    (hf : Memory.forkLvl2 srcEntry p js s = .ok (done, s')) :
    s.SameRam s' ∧ (s.MapsNone d X → s'.MapsNone d X) ∧
      ∃ live', live ⊆ live' ∧ OwnedSpaces first limit X s' live' roots spare := by
  induction js generalizing s live with
  | nil =>
    obtain ⟨-, rfl⟩ := Prod.mk.inj (Except.ok.inj hf)
    exact ⟨.refl s, id, live, Finset.Subset.refl _, h⟩
  | cons j js ih =>
    obtain ⟨hj, hjs⟩ := List.forall_mem_cons.mp hjs
    obtain ⟨a, ha, hf⟩ := bind_eq_ok.mp hf
    obtain ⟨b, hb, hf⟩ := bind_eq_ok.mp hf
    obtain rfl := h.mapped.blocks.page2addr_eq ha
    obtain rfl := phys2virt_eq hb
    obtain ⟨c, hc, hf⟩ := bind_eq_ok.mp hf
    obtain rfl := phys2virt_eq hc
    dsimp only at hf
    split_ifs at hf with hz
    · exact ih h hp ht hjs hf
    · obtain ⟨⟨page, pages⟩, halloc, hf⟩ := bind_eq_ok.mp hf
      cases page with
      | none =>
        obtain ⟨-, rfl⟩ := Prod.mk.inj (Except.ok.inj hf)
        rcases h.mapped.blocks.alloc_cases .kb4 with hn | ⟨_, _, hn⟩
        · obtain ⟨-, rfl⟩ := Prod.mk.inj (Except.ok.inj (halloc.symm.trans hn))
          exact ⟨.refl s, id, live, Finset.Subset.refl _, h⟩
        · cases halloc.symm.trans hn
      | some q =>
        have hr : pages.ramStart = s.pages.ramStart := (h.mapped.blocks.alloc halloc).ramStart
        have hblocks := (h.mapped.blocks.alloc halloc).blocks
        obtain ⟨src, -, hf⟩ := bind_eq_ok.mp hf
        obtain ⟨a, ha, hf⟩ := bind_eq_ok.mp hf
        obtain ⟨b, hb, hf⟩ := bind_eq_ok.mp hf
        obtain ⟨c, hc, hf⟩ := bind_eq_ok.mp hf
        obtain rfl := hblocks.page2addr_eq ha
        obtain rfl := phys2virt_eq hb
        obtain rfl := hblocks.page2addr_eq hc
        rw [hr] at hf
        obtain ⟨hram, h', ht', hnone⟩ := h.copyPage hd hi ht hj halloc rfl
        have hsub := Finset.subset_insert (⟨q, .kb4⟩ : Block) live
        obtain ⟨hram', hnone', live', hsub', hrest⟩ := ih h' (hsub hp) (hram.ramStart ▸ ht') hjs hf
        exact ⟨hram.trans hram', hnone' ∘ hnone, live', hsub.trans hsub', hrest⟩

lemma OwnedSpaces.forkLvl1 {srcLvl1 : ℕ} {is : List ℕ} (h : OwnedSpaces first limit X s live roots spare)
    (hd : d ∈ roots) (his : ∀ i ∈ is, i < kernelStartIdx)
    (hf : Memory.forkLvl1 srcLvl1 (pageAddr s.pages.ramStart d) is s = .ok (done, s')) :
    s.SameRam s' ∧ (s.MapsNone d X → s'.MapsNone d X) ∧
      ∃ live', live ⊆ live' ∧ OwnedSpaces first limit X s' live' roots spare := by
  induction is generalizing s live with
  | nil =>
    obtain ⟨-, rfl⟩ := Prod.mk.inj (Except.ok.inj hf)
    exact ⟨.refl s, id, live, Finset.Subset.refl _, h⟩
  | cons i is ih =>
    obtain ⟨hi, his⟩ := List.forall_mem_cons.mp his
    rw [Memory.forkLvl1] at hf
    dsimp only at hf
    split_ifs at hf with hz
    · exact ih h his hf
    · obtain ⟨-, hf⟩ := panicIf_bind_eq_ok.mp hf
      obtain ⟨-, hf⟩ := kassert_bind_eq_ok.mp hf
      obtain ⟨⟨page, pages⟩, halloc, hf⟩ := bind_eq_ok.mp hf
      cases page with
      | none =>
        obtain ⟨-, rfl⟩ := Prod.mk.inj (Except.ok.inj hf)
        rcases h.mapped.blocks.alloc_cases .kb1 with hn | ⟨_, _, hn⟩
        · obtain ⟨-, rfl⟩ := Prod.mk.inj (Except.ok.inj (halloc.symm.trans hn))
          exact ⟨.refl s, id, live, Finset.Subset.refl _, h⟩
        · cases halloc.symm.trans hn
      | some t =>
        have hr : pages.ramStart = s.pages.ramStart := (h.mapped.blocks.alloc halloc).ramStart
        have hblocks := (h.mapped.blocks.alloc halloc).blocks
        obtain ⟨a, ha, hf⟩ := bind_eq_ok.mp hf
        obtain ⟨b, hb, hf⟩ := bind_eq_ok.mp hf
        obtain ⟨c, hc, hf⟩ := bind_eq_ok.mp hf
        obtain rfl := hblocks.page2addr_eq ha
        obtain rfl := phys2virt_eq hb
        obtain rfl := hblocks.page2addr_eq hc
        rw [hr] at hf
        obtain ⟨hram, h₁, ht, hframes⟩ := h.replaceTable hd hi halloc
        have hsub := Finset.subset_insert (⟨t, .kb1⟩ : Block) live
        obtain ⟨⟨done', s₂⟩, hlvl2, hf⟩ := bind_eq_ok.mp hf
        have ht' : Vm.tableOf { s with
            pages := pages
            words := forkedEntry s.words (pageAddr s.pages.ramStart d + 4 * i) (pageAddr s.pages.ramStart t) } d i =
            some (pageAddr pages.ramStart t) := by
          rw [Vm.tableOf, hr]
          exact ht
        have hnone := hframes.mapsNone (X := X) hr
        obtain ⟨hram₂, hnone₂, live₂, hsub₂, h₂⟩ := h₁.forkLvl2 hd hi (Finset.mem_insert_self _ _) ht'
          (fun j hj => List.mem_range.mp hj) hlvl2
        cases done' with
        | false =>
          obtain ⟨-, rfl⟩ := Prod.mk.inj (Except.ok.inj hf)
          exact ⟨hram.trans hram₂, hnone₂ ∘ hnone, live₂, hsub.trans hsub₂, h₂⟩
        | true =>
          rw [← (hram.trans hram₂).ramStart] at hf
          obtain ⟨hram₃, hnone₃, live₃, hsub₃, h₃⟩ := ih h₂ his hf
          exact ⟨(hram.trans hram₂).trans hram₃, hnone₃ ∘ hnone₂ ∘ hnone, live₃, (hsub.trans hsub₂).trans hsub₃, h₃⟩

end Pages

end Pi0Os.Memory
