import Pi0Os.Memory.AddressSpaceCreation
import Pi0Os.Memory.AddressTranslation
import Pi0Os.Memory.Ioremap

/-! The device mappings made before `vm_init`. They are sections, whose megabytes must be aligned, in slots of 4KB:
it is first fit over slots that were all taken in whole megabytes that aligns them. -/

namespace Pi0Os.Memory

open Kernel Library

/-- What a call of `ioremap` was given and what it returned. -/
structure EarlyMapping where
  virt : ℕ
  phys : ℕ
  size : ℕ

/-- A call of `ioremap` between `vm_early_init` and `vm_init`, with the mappings made so far. -/
inductive EarlyStep : DeviceSpace × List EarlyMapping → EarlyMapping → DeviceSpace × List EarlyMapping → Prop
  | mk {s s' mapped virt phys size} : 1 ≤ size → phys + size ≤ 2 ^ 32 → ioremap phys size s = .ok (virt, s') →
      EarlyStep (s, mapped) ⟨virt, phys, size⟩ (s', ⟨virt, phys, size⟩ :: mapped)

def earlySystem : TransitionSystem (DeviceSpace × List EarlyMapping) EarlyMapping where
  Init c := c.1.initState = .early ∧ c.1.used = 0 ∧ c.2 = []
  Step := EarlyStep

section Sections

variable {table phys start n a k : ℕ} {s : Vm}

lemma mapSections_words (hd : size1MB ∣ start) (hstart : start + n * size1MB ≤ 2 ^ 32)
    (hphys : phys + n * size1MB ≤ 2 ^ 32) :
    (∀ k < n, (mapSections table phys start n s).words (table + 4 * (lvl1Index start + k)) =
        SectionEntry.makeEntry (phys + k * size1MB) .priviledgedOnly) ∧
      ∀ a, (∀ k < n, a ≠ table + 4 * (lvl1Index start + k)) →
        (mapSections table phys start n s).words a = s.words a := by
  induction n with
  | zero => exact ⟨fun k hk => absurd hk (Nat.not_lt_zero k), fun _ _ => rfl⟩
  | succ n ih =>
    rw [Nat.succ_mul] at hstart hphys
    have hle (x : ℕ) : x + n * size1MB ≤ x + (n * size1MB + size1MB) := Nat.add_le_add_left (Nat.le_add_right _ _) x
    obtain ⟨hnew, hold⟩ := ih ((hle start).trans hstart) ((hle phys).trans hphys)
    have hlast : lvl1Index (add32 start (n * size1MB)) = lvl1Index start + n := by
      rw [add32_of_lt (by simp only [size1MB] at hd hstart ⊢; omega)]
      simp only [lvl1Index, size1MB] at hd ⊢
      omega
    rw [mapSections, hlast, add32_of_lt (by simp only [size1MB] at hd hphys ⊢; omega)]
    refine ⟨fun k hk => ?_, fun a ha => ?_⟩
    · by_cases hkn : k = n
      · subst hkn
        exact Function.update_self ..
      · rw [Vm.store_words, Function.update_of_ne (by omega)]
        exact hnew k (by omega)
    · rw [Vm.store_words, Function.update_of_ne (ha n (Nat.lt_succ_self n))]
      exact hold a fun k hk => ha k (hk.trans (Nat.lt_succ_self n))

end Sections

section AlignedSize

variable {phys size : ℕ}

/-- The aligned pages cover the range, unless they are the whole address space. -/
structure Covers (phys size align aligned : ℕ) : Prop where
  dvd : align ∣ aligned
  bound : roundDown phys align + aligned ≤ 2 ^ 32
  covers : aligned ≠ 0 → phys + size ≤ roundDown phys align + aligned
  tight : roundDown phys align + aligned < phys + size + align

lemma alignedSize_covers_1MB (hpos : 1 ≤ size) (hend : phys + size ≤ 2 ^ 32) :
    Covers phys size size1MB (alignedSize phys size size1MB) := by
  constructor <;> simp only [alignedSize, sub32, roundUp32, add32, roundDown, size1MB] <;> omega

lemma alignedSize_covers_4KB (hpos : 1 ≤ size) (hend : phys + size ≤ 2 ^ 32) :
    Covers phys size size4KB (alignedSize phys size size4KB) := by
  constructor <;> simp only [alignedSize, sub32, roundUp32, add32, roundDown, size4KB] <;> omega

end AlignedSize

/-- The slot of a virtual address in the peripherals area. -/
def slotOf (virt : ℕ) : ℕ := (virt - Areas.peripherals.start) / size4KB

/-- The slots of a megabyte are used together. -/
def ChunkUsed (used : ℕ → UInt8) : Prop := ∀ j, used j = 0 ↔ used (j / 256 * 256) = 0

structure EarlyMapped (s : DeviceSpace) (m : EarlyMapping) : Prop where
  phys_lt : m.phys + m.size ≤ 2 ^ 32
  aligned : ∀ k < m.size, (m.virt + k) % 2 ^ 20 = (m.phys + k) % 2 ^ 20
  entry : ∀ k < m.size, s.vm.words (s.ttbr0 + 4 * lvl1Index (m.virt + k)) =
    SectionEntry.makeEntry (m.phys + k) .priviledgedOnly
  slot : ∀ k < m.size, Areas.peripherals.start ≤ m.virt + k ∧ s.used (slotOf (m.virt + k)) ≠ 0

lemma EarlyMapped.walk {s : DeviceSpace} {m : EarlyMapping} (h : EarlyMapped s m) {k : ℕ} (hk : k < m.size) :
    armWalk s.vm.words s.ttbr0 (m.virt + k) = some (m.phys + k, .priviledgedOnly) := by
  have hlt := h.phys_lt
  exact armWalk_section (by omega) (h.aligned k hk) (h.entry k hk)

structure EarlyInv (c : DeviceSpace × List EarlyMapping) : Prop where
  early : c.1.initState = .early
  chunks : ChunkUsed c.1.used
  mapped : ∀ m ∈ c.2, EarlyMapped c.1 m

section Chunks

variable {used : ℕ → UInt8} {i count : ℕ}

/-- The lowest run of whole megabytes starts at a megabyte: below it would be a lower one. -/
lemma ChunkUsed.run_aligned (h : ChunkUsed used) (hcount : 256 ∣ count) (hpos : 0 < count)
    (hi : IsLeast {k | FreeRun used k count} i) : 256 ∣ i := by
  obtain ⟨hrun, hmin⟩ := hi
  obtain ⟨hle, hfree⟩ := freeRun_iff.mp hrun
  have hchunk : used (i / 256 * 256) = 0 := (h i).mp (hfree i le_rfl (by omega))
  have hlow : FreeRun used (i / 256 * 256) count := by
    refine freeRun_iff.mpr ⟨by omega, fun k hk hlt => ?_⟩
    by_cases hki : k < i
    · rw [h k, show k / 256 = i / 256 by omega]
      exact hchunk
    · exact hfree k (by omega) (by omega)
  have hge := hmin hlow
  omega

lemma ChunkUsed.fill (h : ChunkUsed used) (hi : 256 ∣ i) (hcount : 256 ∣ count) :
    ChunkUsed (fill used i count 1) := by
  intro j
  have hin : j ∈ Set.Ico i (i + count) ↔ j / 256 * 256 ∈ Set.Ico i (i + count) := by
    simp only [Set.mem_Ico]
    omega
  by_cases hj : j ∈ Set.Ico i (i + count)
  · rw [fill_of_mem hj, fill_of_mem (hin.mp hj)]
  · rw [Library.fill, if_neg hj, Library.fill, if_neg (fun hm => hj (hin.mpr hm))]
    exact h j

end Chunks

/-- What a call of `ioremap_early` does: the sections of `n` free megabytes from the slot `i` on. -/
lemma ioremapEarly_eq {phys size virt : ℕ} {s s' : DeviceSpace} (hchunks : ChunkUsed s.used) (hpos : 1 ≤ size)
    (hend : phys + size ≤ 2 ^ 32) (h : ioremapEarly phys size s = .ok (virt, s')) :
    ∃ c n, c * 256 + n * 256 ≤ ioremapSlots ∧ (∀ j, c * 256 ≤ j → j < c * 256 + n * 256 → s.used j = 0) ∧
      phys + size ≤ roundDown phys size1MB + n * size1MB ∧ roundDown phys size1MB + n * size1MB ≤ 2 ^ 32 ∧
      virt = Areas.peripherals.start + c * size1MB + phys % size1MB ∧
      s' = { s with
        vm := mapSections s.ttbr0 (roundDown phys size1MB) (Areas.peripherals.start + c * size1MB) n s.vm
        used := fill s.used (c * 256) (n * 256) 1 } := by
  obtain ⟨hd, hbound, hcovers, -⟩ := alignedSize_covers_1MB hpos hend
  obtain ⟨-, h⟩ := kassert_bind_eq_ok.mp h
  obtain ⟨⟨start, used⟩, halloc, h⟩ := bind_eq_ok.mp h
  obtain ⟨hstart, h⟩ := panicIf_bind_eq_ok.mp h
  obtain ⟨table, htable, h⟩ := bind_eq_ok.mp h
  obtain rfl := phys2virt_eq htable
  obtain ⟨rfl, rfl⟩ := Prod.mk.inj (Except.ok.inj h)
  generalize alignedSize phys size size1MB = aligned at *
  have hne : aligned ≠ 0 := by
    rintro rfl
    rw [ioremapBitmapAlloc_zero] at halloc
    cases halloc
    exact hstart rfl
  obtain ⟨n, rfl⟩ := hd
  have hcount : size1MB * n / size4KB = n * 256 := by
    simp only [size1MB, size4KB]
    omega
  have hn : 0 < n := Nat.pos_of_ne_zero fun hz => hne (by rw [hz, Nat.mul_zero])
  have hpage : size4KB ∣ size1MB * n := Nat.dvd_mul_right_of_dvd (by decide) n
  rcases ioremapBitmapAlloc_cases hpage (Nat.pos_of_ne_zero hne) s.used with ⟨i, hi, he⟩ | ⟨-, he⟩
  · rw [halloc, Except.ok.injEq, Prod.mk.injEq] at he
    obtain ⟨rfl, rfl⟩ := he
    rw [hcount] at hi ⊢
    obtain ⟨c, rfl⟩ := hchunks.run_aligned (Dvd.intro_left n rfl) (by omega) hi
    obtain ⟨hle, hfree⟩ := freeRun_iff.mp hi.1
    have haddr : Areas.peripherals.start + 256 * c * size4KB = Areas.peripherals.start + c * size1MB := by
      simp only [size4KB, size1MB]
      omega
    have hbase : Areas.peripherals.start = 0xc1000000 := by decide
    have hoff : phys % size1MB < size1MB := Nat.mod_lt _ (by decide)
    refine ⟨c, n, by omega, fun j hj hlt => hfree j (by omega) (by omega), ?_, ?_, ?_, ?_⟩
    · rw [Nat.mul_comm n]
      exact hcovers hne
    · rw [Nat.mul_comm n]
      exact hbound
    · rw [haddr, add32_of_lt]
      rw [hbase]
      simp only [ioremapSlots, size1MB] at hle hoff ⊢
      omega
    · rw [haddr, Nat.mul_div_cancel_left n (by decide), Nat.mul_comm 256 c]
  · rw [he] at halloc
    cases halloc
    exact absurd rfl hstart

lemma peripherals_start : Areas.peripherals.start = 0xc1000000 := by decide

section Step

variable {s : DeviceSpace} {m : EarlyMapping} {c n phys size virt : ℕ}

lemma lvl1Index_start (c : ℕ) : lvl1Index (Areas.peripherals.start + c * size1MB) = 3088 + c := by
  simp only [lvl1Index, peripherals_start, size1MB]
  omega

lemma dvd_start (c : ℕ) : size1MB ∣ Areas.peripherals.start + c * size1MB :=
  Nat.dvd_add (by rw [peripherals_start]; decide) (Dvd.intro_left c rfl)

lemma start_le (hin : c * 256 + n * 256 ≤ ioremapSlots) :
    Areas.peripherals.start + c * size1MB + n * size1MB ≤ 2 ^ 32 := by
  simp only [peripherals_start, size1MB, ioremapSlots] at hin ⊢
  omega

/-- A mapping keeps its sections when `n` free megabytes are given to another one. -/
lemma EarlyMapped.mapSections (h : EarlyMapped s m) (hchunks : ChunkUsed s.used)
    (hin : c * 256 + n * 256 ≤ ioremapSlots) (hfree : ∀ j, c * 256 ≤ j → j < c * 256 + n * 256 → s.used j = 0)
    (hphys : phys + n * size1MB ≤ 2 ^ 32) :
    EarlyMapped { s with
      vm := Memory.mapSections s.ttbr0 phys (Areas.peripherals.start + c * size1MB) n s.vm
      used := fill s.used (c * 256) (n * 256) 1 } m := by
  obtain ⟨-, hother⟩ := @mapSections_words s.ttbr0 _ _ _ s.vm (dvd_start c) (start_le hin) hphys
  refine ⟨h.phys_lt, h.aligned, fun k hk => ?_, fun k hk => ⟨(h.slot k hk).1, ?_⟩⟩
  · obtain ⟨hle, hused⟩ := h.slot k hk
    refine (hother _ fun q hq he => hused ?_).trans (h.entry k hk)
    rw [lvl1Index_start] at he
    have hchunk : slotOf (m.virt + k) / 256 * 256 = (c + q) * 256 := by
      simp only [slotOf, peripherals_start, lvl1Index, size4KB] at he hle ⊢
      omega
    have hlt : (c + q) * 256 < c * 256 + n * 256 := by
      clear hle he hchunk hphys
      omega
    rw [hchunks, hchunk]
    exact hfree _ (Nat.mul_le_mul_right 256 (Nat.le_add_right c q)) hlt
  · dsimp only [fill]
    split
    · decide
    · exact (h.slot k hk).2

lemma EarlyMapped.new (hend : phys + size ≤ 2 ^ 32) (hin : c * 256 + n * 256 ≤ ioremapSlots)
    (hcovers : phys + size ≤ roundDown phys size1MB + n * size1MB)
    (hphys : roundDown phys size1MB + n * size1MB ≤ 2 ^ 32)
    (hvirt : virt = Areas.peripherals.start + c * size1MB + phys % size1MB) :
    EarlyMapped { s with
      vm := Memory.mapSections s.ttbr0 (roundDown phys size1MB) (Areas.peripherals.start + c * size1MB) n s.vm
      used := fill s.used (c * 256) (n * 256) 1 } ⟨virt, phys, size⟩ := by
  obtain ⟨hnew, -⟩ := @mapSections_words s.ttbr0 _ _ _ s.vm (dvd_start c) (start_le hin) hphys
  rw [lvl1Index_start] at hnew
  simp only [roundDown, peripherals_start, size1MB] at hcovers hvirt hphys
  refine ⟨hend, fun k hk => ?_, fun k hk => ?_, fun k hk => ⟨?_, ?_⟩⟩
  · dsimp only at hk ⊢
    omega
  · -- the megabyte of the range that the byte is in
    have hq : (phys % 2 ^ 20 + k) / 2 ^ 20 < n := by
      dsimp only at hk
      omega
    have hindex : lvl1Index (virt + k) = 3088 + c + (phys % 2 ^ 20 + k) / 2 ^ 20 := by
      simp only [lvl1Index]
      omega
    dsimp only
    rw [hindex, hnew _ hq]
    refine SectionEntry.makeEntry_congr _ ?_
    simp only [roundDown, size1MB]
    omega
  · dsimp only
    rw [peripherals_start]
    omega
  · have hslot : slotOf (virt + k) ∈ Set.Ico (c * 256) (c * 256 + n * 256) := by
      dsimp only at hk
      simp only [slotOf, peripherals_start, size4KB, Set.mem_Ico]
      omega
    dsimp only
    rw [fill_of_mem hslot]
    decide

end Step

lemma EarlyInv.step {c c' : DeviceSpace × List EarlyMapping} {m : EarlyMapping} (h : EarlyInv c)
    (hs : EarlyStep c m c') : EarlyInv c' := by
  obtain ⟨hpos, hend, hcall⟩ := hs
  obtain ⟨hearly, hchunks, hmapped⟩ := h
  rw [ioremap, if_pos hearly] at hcall
  obtain ⟨i, n, hin, hfree, hcovers, hphys, hvirt, rfl⟩ := ioremapEarly_eq hchunks hpos hend hcall
  refine ⟨hearly, hchunks.fill (Dvd.intro_left i rfl) (Dvd.intro_left n rfl), List.forall_mem_cons.mpr ⟨?_, ?_⟩⟩
  · exact .new hend hin hcovers hphys hvirt
  · exact fun m hm => (hmapped m hm).mapSections hchunks hin hfree hphys

lemma earlySystem_inductive : earlySystem.Inductive EarlyInv := by
  constructor
  · rintro ⟨s, mapped⟩ ⟨hearly, hused, hnil⟩
    dsimp only at hused hnil
    subst hnil
    exact ⟨hearly, fun j => by simp [hused], by simp⟩
  · exact fun c m c' h hs => h.step hs

/-- Every byte of an early mapping is the byte of the device asked for, and stays it. -/
theorem earlyMappings_exact {s : DeviceSpace} {mapped : List EarlyMapping} (h : earlySystem.Reachable (s, mapped)) :
    (∀ m ∈ mapped, ∀ k < m.size,
      armWalk s.vm.words s.ttbr0 (m.virt + k) = some (m.phys + k, .priviledgedOnly)) ∧
    ∀ new s' mapped', earlySystem.Step (s, mapped) new (s', mapped') → ∀ m ∈ mapped, ∀ k < m.size,
      armWalk s'.vm.words s'.ttbr0 (m.virt + k) = armWalk s.vm.words s.ttbr0 (m.virt + k) := by
  have hinv := h.invariant earlySystem_inductive
  refine ⟨fun m hm k hk => (hinv.mapped m hm).walk hk, fun new s' mapped' hs m hm k hk => ?_⟩
  have hinv' := hinv.step hs
  have hm' : m ∈ mapped' := by
    cases hs
    exact List.mem_cons_of_mem _ hm
  rw [(hinv.mapped m hm).walk hk, (hinv'.mapped m hm').walk hk]

/-- Before `vm_init` of a board with 128MB of RAM, whose first-level table is at its start. -/
def earlyBoard : DeviceSpace where
  vm := ⟨⟨0x40000000, 0, fun _ => ⟨0, none⟩, fun _ => none⟩, 128 * size1MB, fun _ => 0, 0⟩
  initState := .early
  ttbr0 := 0x40000000
  current := 0
  used := 0

lemma ioremap_uart : (ioremap 0x09000004 0x1000 earlyBoard).map Prod.fst = .ok 0xc1000004 := by decide +kernel

theorem earlyMappings_exact_uart : ∃ s, earlySystem.Reachable (s, [⟨0xc1000004, 0x09000004, 0x1000⟩]) ∧
    armWalk s.vm.words s.ttbr0 (0xc1000004 + 0x10) = some (0x09000004 + 0x10, .priviledgedOnly) := by
  have h := ioremap_uart
  cases hcall : ioremap 0x09000004 0x1000 earlyBoard with
  | error e =>
    rw [hcall] at h
    cases h
  | ok r =>
    obtain ⟨virt, s⟩ := r
    rw [hcall] at h
    obtain rfl : virt = 0xc1000004 := Except.ok.inj h
    have h₀ : earlySystem.Reachable (earlyBoard, []) := .init ⟨rfl, rfl, rfl⟩
    have h₁ : earlySystem.Reachable (s, [⟨0xc1000004, 0x09000004, 0x1000⟩]) :=
      h₀.step (.mk (by decide) (by decide) hcall)
    exact ⟨s, h₁, (earlyMappings_exact h₁).1 _ List.mem_cons_self 0x10 (by decide)⟩

end Pi0Os.Memory
