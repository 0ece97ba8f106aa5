import Pi0Os.Boot.KernelMapping

/-! `boot_start` to its jump to the kernel: the rest of the first-level table, and the parameters on the kernel's stack.
The messages on the early console are left out. -/

namespace Pi0Os.Boot

open Kernel Library Memory

abbrev configPhysicalMemoryHoleSize : ℕ := 512 * size1MB
abbrev configKernelStackSize : ℕ := 64 * size1KB
abbrev sizeofBootParams : ℕ := 32

/-- What the board and the linker script say. -/
structure BoardLayout where
  bootmemStart : ℕ
  bootmemSize : ℕ
  kernelStart : ℕ
  kernelEnd : ℕ
  dtbStart : ℕ
  dtbEnd : ℕ
  ramStart : ℕ
  ramSize : ℕ

/-- `ram.size` as it is used. -/
def BoardLayout.usedRam (c : BoardLayout) : ℕ :=
  roundDown (if c.ramSize > configPhysicalMemoryHoleSize then configPhysicalMemoryHoleSize else c.ramSize) size1MB

/-- `REMAP_TO_PHYS_MEMORY_HOLE`. -/
def BoardLayout.remap (c : BoardLayout) (addr : ℕ) : ℕ := add32 (sub32 addr c.ramStart) Areas.physMemStartAddr

/-- The loop over the RAM for the first `n` megabytes. -/
def mapRam (root ramStart : ℕ) : ℕ → (ℕ → ℕ) → Except Panic (ℕ → ℕ)
  | 0, m => .ok m
  | n + 1, m => do
    let m ← mapRam root ramStart n m
    let «section» := SectionEntry.makeEntry (add32 ramStart (n * size1MB)) .priviledgedOnly
    let entry1 := root + 4 * lvl1Index (add32 Areas.physMemStartAddr (n * size1MB))
    kassert "page_translation_table[idx1].raw == 0" (m entry1 = 0)
    let m := Function.update m entry1 «section»
    let entry2 := root + 4 * lvl1Index (add32 ramStart (n * size1MB))
    kassert "page_translation_table[idx2].raw == 0" (m entry2 = 0)
    return Function.update m entry2 «section»

/-- The `memcpy` of words. -/
def storeWords (m : ℕ → ℕ) (addr : ℕ) : List ℕ → ℕ → ℕ
  | [] => m
  | w :: ws => storeWords (Function.update m addr w) (addr + 4) ws

def BoardLayout.bootParams (c : BoardLayout) (bootmemAllocated : ℕ) : List ℕ :=
  [c.ramStart, c.usedRam, c.remap c.bootmemStart, bootmemAllocated, c.remap c.dtbStart, sub32 c.dtbEnd c.dtbStart,
    c.remap 0, 0]

/-- What the kernel is started with: the memory, the translation table base register and the stack pointer. -/
structure Booted where
  words : ℕ → ℕ
  ttbr0 : ℕ
  sp : ℕ

def bootStart (c : BoardLayout) (words : ℕ → ℕ) : Except Panic Booted := do
  let (root, s) ← bootPageTable c.bootmemStart c.bootmemSize c.kernelStart c.kernelEnd words
  kassert "ram.start % _1MB == 0" (c.ramStart % size1MB = 0)
  let words ← mapRam root c.ramStart (c.usedRam / size1MB) s.words
  let (stack, bootmem) ← bootmemAlloc configKernelStackSize size4KB s.bootmem
  let sp := stack + configKernelStackSize - 16 - sizeofBootParams
  return ⟨storeWords words sp (c.bootParams (sub32 bootmem.current bootmem.start)), root, c.remap sp⟩

/-- A load of the kernel, with the MMU on. -/
def loadWord (m : ℕ → ℕ) (root virt : ℕ) : Option ℕ := (armWalk m root virt).map fun p => m p.1

/-- The fields that the modelled functions read through `boot_params`. -/
def loadBootParams (m : ℕ → ℕ) (root virt : ℕ) : Option BootParams := do
  return ⟨← loadWord m root virt, ← loadWord m root (virt + 4), ← loadWord m root (virt + 8),
    ← loadWord m root (virt + 12)⟩

section Stores

variable {m : ℕ → ℕ} {a addr : ℕ} {ws : List ℕ}

lemma storeWords_of_lt (h : a < addr) : storeWords m addr ws a = m a := by
  induction ws generalizing m addr with
  | nil => rfl
  | cons w ws ih => rw [storeWords, ih (h.trans_le (Nat.le_add_right _ _)), Function.update_of_ne h.ne]

lemma storeWords_get {i w : ℕ} (h : ws[i]? = some w) : storeWords m addr ws (addr + 4 * i) = w := by
  induction ws generalizing m addr i with
  | nil => cases h
  | cons v ws ih =>
    cases i with
    | zero =>
      obtain rfl : v = w := Option.some.inj h
      rw [storeWords, storeWords_of_lt (by omega), Nat.mul_zero, Nat.add_zero, Function.update_self]
    | succ i =>
      have hnext : addr + 4 * (i + 1) = addr + 4 + 4 * i := by ring
      rw [storeWords, hnext, ih h]

end Stores

section Sections

variable {root start n : ℕ} {m : ℕ → ℕ}

lemma lvl1Index_ram {start : ℕ} (hd : size1MB ∣ start) {i : ℕ} (hlt : start + i * size1MB < 2 ^ 32) :
    lvl1Index (add32 start (i * size1MB)) = start / size1MB + i := by
  rw [add32_of_lt hlt]
  simp only [lvl1Index, size1MB] at hd ⊢
  omega

/-- The entries of a megabyte of the hole and of the RAM itself. -/
structure RamMapped (root start n : ℕ) (m m' : ℕ → ℕ) : Prop where
  hole : ∀ i < n, m' (root + 4 * (3584 + i)) = SectionEntry.makeEntry (start + i * size1MB) .priviledgedOnly
  identity : ∀ i < n,
    m' (root + 4 * (start / size1MB + i)) = SectionEntry.makeEntry (start + i * size1MB) .priviledgedOnly
  frame : ∀ a, (∀ i < n, a ≠ root + 4 * (3584 + i) ∧ a ≠ root + 4 * (start / size1MB + i)) → m' a = m a

lemma mapRam_spec (hd : size1MB ∣ start) (hend : start + n * size1MB ≤ Areas.kernelVirtStartAddr) (hn : n ≤ 512)
    (hhole : ∀ i < n, m (root + 4 * (3584 + i)) = 0) (hram : ∀ i < n, m (root + 4 * (start / size1MB + i)) = 0) :
    ∃ m', mapRam root start n m = .ok m' ∧ RamMapped root start n m m' := by
  induction n with
  | zero => exact ⟨m, rfl, nofun, nofun, fun _ _ => rfl⟩
  | succ n ih =>
    rw [Nat.succ_mul, ← Nat.add_assoc] at hend
    obtain ⟨m', hrun, hold⟩ := ih ((Nat.le_add_right _ _).trans hend) (Nat.le_of_succ_le hn)
      (fun i hi => hhole i (hi.trans (Nat.lt_succ_self n))) fun i hi => hram i (hi.trans (Nat.lt_succ_self n))
    simp only [size1MB, Areas.kernelVirtStartAddr] at hend
    have hphys : add32 start (n * size1MB) = start + n * size1MB := add32_of_lt (by simp only [size1MB]; omega)
    have hidx₁ : lvl1Index (add32 Areas.physMemStartAddr (n * size1MB)) = 3584 + n :=
      @lvl1Index_ram Areas.physMemStartAddr (by decide) n
        (by simp only [size1MB, Areas.physMemStartAddr]; omega)
    have hidx₂ : lvl1Index (add32 start (n * size1MB)) = start / size1MB + n :=
      lvl1Index_ram hd (by simp only [size1MB]; omega)
    have hlt : start / size1MB + n < 3072 := by
      simp only [size1MB] at hd ⊢
      omega
    have hfree₁ : m' (root + 4 * (3584 + n)) = 0 :=
      (hold.frame _ fun i hi => by constructor <;> omega).trans (hhole n (Nat.lt_succ_self n))
    have hfree₂ : m' (root + 4 * (start / size1MB + n)) = 0 :=
      (hold.frame _ fun i hi => by constructor <;> omega).trans (hram n (Nat.lt_succ_self n))
    have hne : root + 4 * (start / size1MB + n) ≠ root + 4 * (3584 + n) := by omega
    rw [mapRam, hrun, ok_bind, hidx₁, hidx₂, hphys]
    dsimp only
    rw [kassert_of hfree₁, ok_bind, kassert_of (by rw [Function.update_of_ne hne, hfree₂]), ok_bind, pure_eq_ok]
    refine ⟨_, rfl, fun i hi => ?_, fun i hi => ?_, fun a ha => ?_⟩
    · by_cases hin : i = n
      · rw [hin, Function.update_of_ne hne.symm, Function.update_self]
      · rw [Function.update_of_ne (by omega), Function.update_of_ne (by omega), hold.hole i (by omega)]
    · by_cases hin : i = n
      · rw [hin, Function.update_self]
      · rw [Function.update_of_ne (by omega), Function.update_of_ne (by omega), hold.identity i (by omega)]
    · obtain ⟨ha₁, ha₂⟩ := ha n (Nat.lt_succ_self n)
      rw [Function.update_of_ne ha₂, Function.update_of_ne ha₁]
      exact hold.frame a fun i hi => ha i (hi.trans (Nat.lt_succ_self n))

lemma RamMapped.entry {m' : ℕ → ℕ} (h : RamMapped root start n m m') (i : ℕ) :
    m' (root + 4 * i) = m (root + 4 * i) ∨ ∃ j < n, (i = 3584 + j ∨ i = start / size1MB + j) ∧
      m' (root + 4 * i) = SectionEntry.makeEntry (start + j * size1MB) .priviledgedOnly := by
  by_cases hin : ∃ j < n, i = 3584 + j ∨ i = start / size1MB + j
  · obtain ⟨j, hj, rfl | rfl⟩ := hin
    · exact .inr ⟨j, hj, .inl rfl, h.hole j hj⟩
    · exact .inr ⟨j, hj, .inr rfl, h.identity j hj⟩
  · refine .inl (h.frame _ fun j hj => ⟨fun he => hin ⟨j, hj, .inl ?_⟩, fun he => hin ⟨j, hj, .inr ?_⟩⟩) <;> omega

/-- The hole shows the RAM. -/
lemma hole_walk
    (hhole : ∀ i < n, m (root + 4 * (3584 + i)) = SectionEntry.makeEntry (start + i * size1MB) .priviledgedOnly)
    (hd : size1MB ∣ start) (hend : start + n * size1MB ≤ 2 ^ 32) {o : ℕ} (ho : o < n * size1MB) :
    armWalk m root (Areas.physMemStartAddr + o) = some (start + o, .priviledgedOnly) := by
  simp only [size1MB] at hd hend ho
  refine armWalk_section (by omega) ?_ ?_
  · simp only [Areas.physMemStartAddr]
    omega
  · have hidx : lvl1Index (Areas.physMemStartAddr + o) = 3584 + o / 2 ^ 20 := by
      simp only [lvl1Index, Areas.physMemStartAddr]
      omega
    rw [hidx, hhole _ (by omega)]
    refine SectionEntry.makeEntry_congr _ ?_
    simp only [size1MB]
    omega

end Sections

end Pi0Os.Boot
