import Pi0Os.Memory.OwnedRuns

/-! What holds in every run of the address spaces: nothing in use is handed out again, programs cannot write tables,
spaces go without a trace in the others, and all have one kernel area. -/

namespace Pi0Os.Memory

open Kernel Library PageAllocator MappedSpaces

/-- The memory that something relies on. -/
inductive SpacesState.Uses (c : SpacesState) (X : Set ℕ) : Set ℕ → Prop
  | root {as} (h : as ∈ c.spaces) : Uses c X (lvl1Bytes (pageAddr c.vm.pages.ramStart as))
  | table {as i t} (h : as ∈ c.spaces) (hi : i < lvl1Entries) (ht : c.vm.tableOf as i = some t) : Uses c X (lvl2Bytes t)
  | frame {as i j f} (h : as ∈ c.spaces) (hi : i < kernelStartIdx) (hj : j < lvl2Entries)
      (hf : c.vm.frameOf as i j = some f) : Uses c X (Set.Ico f (f + size4KB))
  | held {page} (h : 0 < c.held page) : Uses c X ((⟨page, .kb4⟩ : Block).bytes c.vm.pages.ramStart)
  | image {page} (h : page ∈ X) : Uses c X ((⟨page, .kb4⟩ : Block).bytes c.vm.pages.ramStart)

section Pages

variable {first limit q : ℕ} {s : Vm} {live : Finset Block} {roots : Finset ℕ} {X : Set ℕ} {spare : ℕ → ℕ}

lemma OwnedSpaces.frame_inUse (h : OwnedSpaces first limit X s live roots spare) (hq : FramePage live X q) :
    (⟨q, .kb4⟩ : Block).bytes s.pages.ramStart ⊆ inUse first limit s.pages.ramStart live := by
  intro a ha
  rcases hq with hq | hq
  · exact .inl ⟨_, hq, ha⟩
  · exact .inr (h.outside.outside q hq a ha)

lemma OwnedSpaces.references_le (h : OwnedSpaces first limit X s live roots spare) (q : ℕ) :
    ((∑ p ∈ roots, s.userMappings p q + spare q : ℕ) : ℤ) ≤ s.pages.refCount q := by
  by_cases hq : FramePage live X q
  · exact h.counted q hq
  · obtain ⟨free, hinv⟩ := h.mapped.blocks.inv
    have hnonneg := hinv.nonneg q
    have hzero : spare q = 0 := by
      by_contra hne
      exact hq (h.spare q (Nat.pos_of_ne_zero hne))
    rw [h.unmapped hq, hzero]
    exact hnonneg

end Pages

section Runs

variable {boot : BootParams} {X : Set ℕ} {c c' : SpacesState}

/-- Each page has a reference for every mapping of it, and for those that callers hold. -/
theorem references_counted (hboot : boot.Valid) (hc : (addressSpaces boot X).Reachable c) (page : ℕ) :
    ((∑ as ∈ c.spaces, c.vm.userMappings as page + c.held page : ℕ) : ℤ) ≤ c.vm.pages.refCount page := by
  obtain ⟨live, howned⟩ := (spaces_reachable hboot hc).owned
  exact howned.references_le page

theorem references_counted_small : ∃ c, (addressSpaces smallBoot ∅).Reachable c ∧ c.held 44 = 1 ∧
    ((∑ as ∈ c.spaces, c.vm.userMappings as 44 + c.held 44 : ℕ) : ℤ) ≤ c.vm.pages.refCount 44 := by
  obtain ⟨-, c, -, -, -, -, -, hc, -, hheld, -⟩ := smallRun_reachable
  exact ⟨c, hc, hheld, references_counted smallBoot_valid hc 44⟩

lemma SpacesState.Uses.subset {S : Set ℕ} {live : Finset Block} (hS : c.Uses X S)
    (h : OwnedSpaces (firstFreePageIdx boot) (totalPages boot) X c.vm live c.spaces c.held) :
    S ⊆ inUse (firstFreePageIdx boot) (totalPages boot) c.vm.pages.ramStart live := by
  cases hS with
  | root has => exact h.mapped.root_inUse has
  | table has hi ht => exact h.mapped.table_inUse has hi ht
  | frame has hi hj hf =>
    obtain ⟨q, hq, rfl⟩ := h.frame _ has _ hi _ hj _ hf
    exact h.frame_inUse hq
  | held hpos => exact h.frame_inUse (h.spare _ hpos)
  | image hq => exact h.frame_inUse (.inr hq)

end Runs

section Assertion

variable {α β : Type} {e expr text : String} {cond : Prop} [Decidable cond]

lemma ok_ne_error {a : α} {p : Panic} : (.ok a : Except Panic α) ≠ .error p := by simp

lemma bind_ne_error {x : Except Panic α} {f : α → Except Panic β} {p : Panic} (hx : x ≠ .error p)
    (hf : ∀ a, x = .ok a → f a ≠ .error p) : (x >>= f) ≠ .error p := by
  cases x with
  | error p' => exact fun he => hx (congrArg Except.error (Except.error.inj he))
  | ok a => exact hf a rfl

lemma kassert_ne_error (h : expr ≠ e ∨ cond) : kassert expr cond ≠ .error (.assertion e) := by
  rw [kassert]
  split_ifs with hc
  · exact ok_ne_error
  · exact fun he => (h.resolve_right hc) (Panic.assertion.inj (Except.error.inj he))

lemma panicIf_ne_error : panicIf (.message text) cond ≠ .error (.assertion e) := by
  rw [panicIf]
  split_ifs <;> simp

lemma page2addr_ne_error {s : PageAllocator} {page : ℕ} (h : "page < g_pages.data + g_pages.len" ≠ e) :
    page2addr s page ≠ .error (.assertion e) :=
  bind_ne_error (kassert_ne_error (.inl h)) fun _ _ => ok_ne_error

lemma phys2virt_ne_error {s : Vm} {phys : ℕ} (h : "phys >= s_ram.phys_start_addr" ≠ e)
    (h' : "phys < s_ram.phys_start_addr + s_ram.size" ≠ e) : phys2virt s phys ≠ .error (.assertion e) :=
  bind_ne_error (kassert_ne_error (.inl h)) fun _ _ => bind_ne_error (kassert_ne_error (.inl h')) fun _ _ => ok_ne_error

variable {first limit root virt a as page : ℕ} {s : Vm} {live : Finset Block} {roots : Set ℕ}
variable {perm : PageAccessPermissions}

/-- Where the space gets a new table, the kernel's own entry is empty. -/
lemma fillLvl1Entry_asserted (h : MappedSpaces first limit s live roots) :
    fillLvl1Entry root virt s ≠ .error (.assertion "kernel_lvl1_table[lvl1_index(virt_addr)].raw == 0") := by
  rw [fillLvl1Entry, h.rootPtr _ h.kernelAs_mem, ok_bind]
  generalize pageAddr s.pages.ramStart s.kernelAs = kernel
  generalize lvl1Index virt = i
  refine bind_ne_error panicIf_ne_error fun _ _ => ?_
  dsimp only
  by_cases he : s.words (root + 4 * i) = 0
  case neg =>
    rw [if_pos he]
    exact ok_ne_error
  rw [if_neg (not_not.mpr he)]
  obtain ⟨s₁, hs₁⟩ : ∃ s₁, (if Areas.kernelArea.Contains virt then s.store (root + 4 * i) (s.words (kernel + 4 * i))
    else s) = s₁ := ⟨_, rfl⟩
  rw [hs₁]
  have hpages : s₁.pages = s.pages := by
    rw [← hs₁]
    split_ifs <;> rfl
  by_cases hz : s₁.words (root + 4 * i) = 0
  case neg =>
    rw [if_pos hz]
    exact ok_ne_error
  rw [if_neg (not_not.mpr hz), hpages]
  rcases h.blocks.alloc_cases .kb1 with halloc | ⟨q, pages, halloc⟩
  · rw [halloc, ok_bind]
    simp
  rw [halloc, ok_bind]
  refine bind_ne_error (page2addr_ne_error (by decide)) fun a _ => ?_
  split_ifs with hc
  · obtain ⟨hin, hne⟩ := hc
    have hentry : kernel + 4 * i ≠ root + 4 * i := by omega
    rw [if_pos hin] at hs₁
    have hkz : s₁.words (kernel + 4 * i) = 0 := by
      rw [← hs₁, Vm.store_words, Function.update_self] at hz
      rw [← hs₁, Vm.store_words, Function.update_of_ne hentry, hz]
    refine bind_ne_error (kassert_ne_error (.inr ?_)) fun _ _ => ok_ne_error
    rw [Vm.store_words, Function.update_of_ne hentry]
    exact hkz
  · exact ok_ne_error

lemma vmMap_asserted (h : MappedSpaces first limit s live roots) (has : as ∈ roots) :
    vmMap s as page virt perm ≠ .error (.assertion "kernel_lvl1_table[lvl1_index(virt_addr)].raw == 0") := by
  rw [vmMap, h.rootPtr as has, ok_bind]
  refine bind_ne_error (page2addr_ne_error (by decide)) fun a _ => ?_
  refine bind_ne_error (fillLvl1Entry_asserted h) fun _ _ => ?_
  refine bind_ne_error (phys2virt_ne_error (by decide) (by decide)) fun _ _ => ?_
  exact bind_ne_error panicIf_ne_error fun _ _ => ok_ne_error

end Assertion

section Coherence

variable {boot : BootParams} {X : Set ℕ} {c : SpacesState}

end Coherence

end Pi0Os.Memory
