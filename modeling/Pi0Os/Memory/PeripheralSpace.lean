import Mathlib.Data.UInt
import Mathlib.Order.Bounds.Basic
import Pi0Os.Kernel.Base
import Pi0Os.Library.FlatMemory
import Pi0Os.Library.Reservations
import Pi0Os.Library.TransitionSystem

/-! The virtual addresses that `memory/vm.cpp` gives to device registers: first fit over an array with one byte for
each page of `areas::peripherals`. -/

namespace Pi0Os.Memory

open Kernel Library

/-- `array_size(s_ioremap.used)`. -/
abbrev ioremapSlots : ℕ := 8192

/-- The inner loop of `ioremap_bitmap_alloc`, which leaves `j` where it stops; `n` more slots are in the array. -/
def scanUsed (used : ℕ → UInt8) (count i : ℕ) : ℕ → ℕ → ℕ
  | 0, j => j
  | n + 1, j => if used j ≠ 0 ∨ j - i = count then j else scanUsed used count i n (j + 1)

/-- The outer loop. -/
def findRun (used : ℕ → UInt8) (count : ℕ) : ℕ → ℕ → Option ℕ
  | 0, _ => none
  | n + 1, i =>
    if used i ≠ 0 then findRun used count n (i + 1)
    else if scanUsed used count i n (i + 1) - i = count then some i
    else findRun used count n (i + 1)

def ioremapBitmapAlloc (size : ℕ) (used : ℕ → UInt8) : Except Panic (ℕ × (ℕ → UInt8)) := do
  kassert "size % _4KB == 0" (size % size4KB = 0)
  let count := size / size4KB
  match findRun used count ioremapSlots 0 with
  | some i => return (Areas.peripherals.start + i * size4KB, fill used i count 1)
  | none => return (0, used)

def ioremapBitmapFree (startaddr size : ℕ) (used : ℕ → UInt8) : Except Panic (ℕ → UInt8) := do
  kassert "startaddr >= areas::peripherals.start" (Areas.peripherals.start ≤ startaddr)
  kassert "startaddr < areas::peripherals.end" (startaddr < Areas.peripherals.end)
  kassert "startaddr % _4KB == 0" (startaddr % size4KB = 0)
  kassert "size % _4KB == 0" (size % size4KB = 0)
  let start := (startaddr - Areas.peripherals.start) / size4KB
  let count := size / size4KB
  return fill used start count 0

def FreeRun (used : ℕ → UInt8) (i count : ℕ) : Prop := Unmarked (used · ≠ 0) ioremapSlots ⟨i, count⟩

section FirstFit

variable {used : ℕ → UInt8} {count i j n : ℕ}

lemma freeRun_iff : FreeRun used i count ↔ i + count ≤ ioremapSlots ∧ ∀ k, i ≤ k → k < i + count → used k = 0 := by
  simp only [FreeRun, Unmarked, Span.Covers, ne_eq, not_not, and_imp]

lemma scanUsed_spec (hn : j + n = ioremapSlots) (hij : i < j) (hcount : j - i ≤ count)
    (hfree : ∀ k, i ≤ k → k < j → used k = 0) : scanUsed used count i n j - i = count ↔ FreeRun used i count := by
  rw [freeRun_iff]
  induction n generalizing j with
  | zero =>
    rw [scanUsed]
    constructor
    · rintro rfl
      exact ⟨by omega, fun k hk hlt => hfree k hk (by omega)⟩
    · rintro ⟨hle, -⟩
      omega
  | succ n ih =>
    rw [scanUsed]
    split_ifs with hstop
    · by_cases hdone : j - i = count
      · exact iff_of_true hdone ⟨by omega, fun k hk hlt => hfree k hk (by omega)⟩
      · -- a used slot inside the run that is looked for
        refine iff_of_false hdone fun h => hstop.resolve_right hdone (h.2 j (by omega) (by omega))
    · obtain ⟨hj, hmore⟩ := not_or.mp hstop
      refine ih (by omega) (by omega) (by omega) fun k hk hlt => ?_
      by_cases hkj : k = j
      · rw [hkj]
        exact not_not.mp hj
      · exact hfree k hk (by omega)

lemma findRun_spec (hpos : 1 ≤ count) (hn : i + n = ioremapSlots) :
    (∀ j, findRun used count n i = some j → IsLeast {k | i ≤ k ∧ FreeRun used k count} j) ∧
      (findRun used count n i = none → ∀ k, i ≤ k → ¬ FreeRun used k count) := by
  induction n generalizing i with
  | zero =>
    refine ⟨fun j h => (nomatch h), fun _ k hk hrun => ?_⟩
    have hle := hrun.1
    simp only at hle
    omega
  | succ n ih =>
    obtain ⟨hsome, hnone⟩ := ih (i := i + 1) (by omega)
    have hskip (hno : ¬ FreeRun used i count) {k : ℕ} (hk : i ≤ k) (hrun : FreeRun used k count) : i + 1 ≤ k := by
      have hne : k ≠ i := by
        rintro rfl
        exact hno hrun
      omega
    have hrest (hno : ¬ FreeRun used i count) :
        (∀ j, findRun used count n (i + 1) = some j → IsLeast {k | i ≤ k ∧ FreeRun used k count} j) ∧
          (findRun used count n (i + 1) = none → ∀ k, i ≤ k → ¬ FreeRun used k count) := by
      refine ⟨fun j hj => ?_, fun hall k hk hrun => hnone hall k (hskip hno hk hrun) hrun⟩
      obtain ⟨⟨hle, hrun⟩, hmin⟩ := hsome j hj
      exact ⟨⟨by omega, hrun⟩, fun k hk => hmin ⟨hskip hno hk.1 hk.2, hk.2⟩⟩
    rw [findRun]
    split_ifs with hused hfit
    · exact hrest fun hrun => hused ((freeRun_iff.mp hrun).2 i le_rfl (by omega))
    · have hfree : ∀ k, i ≤ k → k < i + 1 → used k = 0 := fun k hk hlt => by
        obtain rfl : k = i := by omega
        exact not_not.mp hused
      have hrun := (scanUsed_spec (by omega) (by omega) (by omega) hfree).mp hfit
      refine ⟨fun j hj => ?_, fun h => nomatch h⟩
      obtain rfl := Option.some.inj hj
      exact ⟨⟨le_rfl, hrun⟩, fun k hk => hk.1⟩
    · have hfree : ∀ k, i ≤ k → k < i + 1 → used k = 0 := fun k hk hlt => by
        obtain rfl : k = i := by omega
        exact not_not.mp hused
      exact hrest fun hrun => hfit ((scanUsed_spec (by omega) (by omega) (by omega) hfree).mpr hrun)

lemma ioremapBitmapAlloc_eq (size : ℕ) (hsize : size4KB ∣ size) (used : ℕ → UInt8) :
    ioremapBitmapAlloc size used =
      match findRun used (size / size4KB) ioremapSlots 0 with
      | some i => .ok (Areas.peripherals.start + i * size4KB, fill used i (size / size4KB) 1)
      | none => .ok (0, used) := by
  rw [ioremapBitmapAlloc, kassert_of (Nat.mod_eq_zero_of_dvd hsize), ok_bind]
  dsimp only
  split <;> rfl

/-- The run that is handed out is the lowest one that fits. -/
lemma ioremapBitmapAlloc_cases {size : ℕ} (hsize : size4KB ∣ size) (hpos : 0 < size) (used : ℕ → UInt8) :
    (∃ i, IsLeast {k | FreeRun used k (size / size4KB)} i ∧
      ioremapBitmapAlloc size used = .ok (Areas.peripherals.start + i * size4KB, fill used i (size / size4KB) 1)) ∨
    (∀ k, ¬ FreeRun used k (size / size4KB)) ∧ ioremapBitmapAlloc size used = .ok (0, used) := by
  have hcount : 1 ≤ size / size4KB := Nat.div_pos (Nat.le_of_dvd hpos hsize) (by decide)
  obtain ⟨hsome, hnone⟩ := @findRun_spec used _ _ _ hcount (Nat.zero_add ioremapSlots)
  rw [ioremapBitmapAlloc_eq size hsize]
  cases hrun : findRun used (size / size4KB) ioremapSlots 0 with
  | some i =>
    obtain ⟨⟨-, hfree⟩, hmin⟩ := hsome i hrun
    exact Or.inl ⟨i, ⟨hfree, fun k hk => hmin ⟨Nat.zero_le k, hk⟩⟩, rfl⟩
  | none => exact Or.inr ⟨fun k => hnone hrun k (Nat.zero_le k), rfl⟩

lemma scanUsed_gt (h : i < j) : i < scanUsed used count i n j := by
  induction n generalizing j with
  | zero => exact h
  | succ n ih =>
    rw [scanUsed]
    split_ifs
    · exact h
    · exact ih (by omega)

/-- No run of no slots is found. -/
lemma ioremapBitmapAlloc_zero (used : ℕ → UInt8) : ioremapBitmapAlloc 0 used = .ok (0, used) := by
  have hnone : ∀ n i, findRun used 0 n i = none := by
    intro n
    induction n with
    | zero => exact fun _ => rfl
    | succ n ih =>
      intro i
      have hgt : i < scanUsed used 0 i n (i + 1) := scanUsed_gt (Nat.lt_succ_self i)
      rw [findRun, if_neg (show ¬ scanUsed used 0 i n (i + 1) - i = 0 by omega)]
      split_ifs <;> exact ih (i + 1)
  rw [ioremapBitmapAlloc_eq 0 (dvd_zero _), Nat.zero_div, hnone]

end FirstFit

/-- The addresses of a device's registers, as `ioremap_bitmap_alloc` returned them for a size. -/
structure IoRange where
  start : ℕ
  size : ℕ
deriving DecidableEq

def IoRange.addresses (r : IoRange) : Set ℕ := Set.Ico r.start (r.start + r.size)

def IoRange.slots (r : IoRange) : Span := ⟨(r.start - Areas.peripherals.start) / size4KB, r.size / size4KB⟩

/-- The address of a page of `areas::peripherals`, and whole pages. -/
structure IoRange.Paged (r : IoRange) : Prop where
  start_le : Areas.peripherals.start ≤ r.start
  start_dvd : size4KB ∣ r.start - Areas.peripherals.start
  size_dvd : size4KB ∣ r.size
  size_pos : 0 < r.size

inductive PeripheralOp where
  | alloc (size : ℕ)
  | free (range : IoRange)

/-- A call, with the ranges that are in use. -/
inductive PeripheralStep : (ℕ → UInt8) × List IoRange → PeripheralOp → (ℕ → UInt8) × List IoRange → Prop
  | alloc {used used' live size start} : 0 < size → start ≠ 0 → ioremapBitmapAlloc size used = .ok (start, used') →
      PeripheralStep (used, live) (.alloc size) (used', ⟨start, size⟩ :: live)
  | exhausted {used used' live size} : 0 < size → ioremapBitmapAlloc size used = .ok (0, used') →
      PeripheralStep (used, live) (.alloc size) (used', live)
  | free {used used' live range} : range ∈ live → ioremapBitmapFree range.start range.size used = .ok used' →
      PeripheralStep (used, live) (.free range) (used', live.erase range)

def peripheralSystem : TransitionSystem ((ℕ → UInt8) × List IoRange) PeripheralOp where
  Init c := c.1 = 0 ∧ c.2 = []
  Step := PeripheralStep

structure PeripheralInv (c : (ℕ → UInt8) × List IoRange) : Prop where
  reserved : Reservations (c.1 · ≠ 0) ioremapSlots (c.2.map IoRange.slots)
  paged : ∀ r ∈ c.2, r.Paged

namespace IoRange

variable {r r' : IoRange} {i size : ℕ}

lemma paged_slot (i : ℕ) (hsize : size4KB ∣ size) (hpos : 0 < size) :
    IoRange.Paged ⟨Areas.peripherals.start + i * size4KB, size⟩ where
  start_le := Nat.le_add_right _ _
  start_dvd := by rw [Nat.add_sub_cancel_left]; exact Dvd.intro_left i rfl
  size_dvd := hsize
  size_pos := hpos

lemma slots_slot (i size : ℕ) :
    IoRange.slots ⟨Areas.peripherals.start + i * size4KB, size⟩ = ⟨i, size / size4KB⟩ := by
  rw [IoRange.slots, Nat.add_sub_cancel_left, Nat.mul_div_cancel _ (by decide)]

lemma Paged.covers (h : r.Paged) {a : ℕ} (ha : a ∈ r.addresses) :
    r.slots.Covers ((a - Areas.peripherals.start) / size4KB) := by
  obtain ⟨hle, hd, hd', -⟩ := h
  obtain ⟨hlo, hhi⟩ := ha
  simp only [IoRange.slots, Span.Covers, size4KB] at *
  omega

lemma Paged.disjoint (h : r.Paged) (h' : r'.Paged) (hd : r.slots.Disjoint r'.slots) :
    Disjoint r.addresses r'.addresses :=
  Set.disjoint_left.mpr fun _ ha ha' => hd _ ⟨h.covers ha, h'.covers ha'⟩

lemma Paged.inside (h : r.Paged) (hin : r.slots.start + r.slots.length ≤ ioremapSlots) {a : ℕ}
    (ha : a ∈ r.addresses) : Areas.peripherals.Contains a := by
  have hcov := h.covers ha
  have hle := h.start_le
  have hend : Areas.peripherals.end = Areas.peripherals.start + ioremapSlots * size4KB := by decide
  have hlo := ha.1
  have hlt : (a - Areas.peripherals.start) / size4KB < ioremapSlots := hcov.2.trans_le hin
  have hoff : a - Areas.peripherals.start < ioremapSlots * size4KB :=
    (Nat.div_lt_iff_lt_mul (by decide)).mp hlt
  refine ⟨hle.trans hlo, ?_⟩
  rw [hend]
  omega

end IoRange

section Runs

variable {used used' : ℕ → UInt8} {live : List IoRange} {r : IoRange} {size start : ℕ}

lemma ioremapBitmapAlloc_dvd {x : ℕ × (ℕ → UInt8)} (h : ioremapBitmapAlloc size used = .ok x) : size4KB ∣ size :=
  Nat.dvd_of_mod_eq_zero (kassert_bind_eq_ok.mp h).1

lemma peripherals_start_pos : 0 < Areas.peripherals.start := by decide

lemma PeripheralInv.alloc (h : PeripheralInv (used, live)) (hpos : 0 < size) (hstart : start ≠ 0)
    (ha : ioremapBitmapAlloc size used = .ok (start, used')) : PeripheralInv (used', ⟨start, size⟩ :: live) := by
  have hd := ioremapBitmapAlloc_dvd ha
  rcases ioremapBitmapAlloc_cases hd hpos used with ⟨i, ⟨hfree, -⟩, he⟩ | ⟨-, he⟩
  · rw [he] at ha
    cases ha
    refine ⟨?_, List.forall_mem_cons.mpr ⟨IoRange.paged_slot i hd hpos, h.paged⟩⟩
    rw [List.map_cons, IoRange.slots_slot]
    refine h.reserved.reserve hfree fun k => ?_
    simp only [fill, Set.mem_Ico, Span.Covers]
    split
    · exact iff_of_true (by decide) (Or.inl ‹_›)
    · exact (or_iff_right ‹_›).symm
  · rw [he] at ha
    cases ha
    exact absurd rfl hstart

lemma ioremapBitmapFree_paged (hr : r.Paged) (hin : r.slots.start + r.slots.length ≤ ioremapSlots) :
    ioremapBitmapFree r.start r.size used = .ok (fill used r.slots.start r.slots.length 0) := by
  obtain ⟨hle, hd, hd', hpos⟩ := hr
  have hstart : Areas.peripherals.Contains r.start :=
    IoRange.Paged.inside ⟨hle, hd, hd', hpos⟩ hin ⟨le_rfl, Nat.lt_add_of_pos_right hpos⟩
  have hbase : size4KB ∣ Areas.peripherals.start := by decide
  have hmod : r.start % size4KB = 0 := Nat.mod_eq_zero_of_dvd ((Nat.dvd_sub_iff_left hle hbase).mp hd)
  rw [ioremapBitmapFree, kassert_of hle, ok_bind, kassert_of hstart.2, ok_bind, kassert_of hmod, ok_bind,
    kassert_of (Nat.mod_eq_zero_of_dvd hd')]
  rfl

lemma PeripheralInv.free (h : PeripheralInv (used, live)) (hr : r ∈ live)
    (hf : ioremapBitmapFree r.start r.size used = .ok used') : PeripheralInv (used', live.erase r) := by
  have hin := h.reserved.inside r.slots (List.mem_map_of_mem hr)
  rw [ioremapBitmapFree_paged (h.paged r hr) hin] at hf
  cases hf
  have hperm : (live.map IoRange.slots).Perm (r.slots :: (live.erase r).map IoRange.slots) :=
    (List.perm_cons_erase hr).map _
  refine ⟨(h.reserved.perm hperm).release fun k => ?_, fun r' hr' => h.paged r' (List.mem_of_mem_erase hr')⟩
  simp only [fill, Set.mem_Ico, Span.Covers]
  split
  · exact iff_of_false (by decide) fun hk => hk.2 ‹_›
  · exact (and_iff_left ‹_›).symm

lemma peripheralSystem_inductive : peripheralSystem.Inductive PeripheralInv := by
  constructor
  · rintro ⟨used, live⟩ ⟨hused, hlive⟩
    dsimp only at hused hlive
    subst hused hlive
    exact ⟨.empty fun i _ => by simp, by simp⟩
  · rintro c op c' h hs
    cases hs with
    | alloc hpos hstart ha => exact h.alloc hpos hstart ha
    | @exhausted used used' live size hpos ha =>
      rcases ioremapBitmapAlloc_cases (ioremapBitmapAlloc_dvd ha) hpos used with ⟨i, -, he⟩ | ⟨-, he⟩
      · rw [he] at ha
        have hzero := congrArg Prod.fst (Except.ok.inj ha)
        have hpos := peripherals_start_pos
        simp only at hzero
        omega
      · rw [he] at ha
        cases ha
        exact h
    | free hr hf => exact h.free hr hf

/-- First fit, over any array; and over any run of allocations and of the frees that match them, what is in use. -/
theorem peripheralSpace_firstFit :
    (∀ (used : ℕ → UInt8) (count : ℕ), 1 ≤ count →
      (∀ i, IsLeast {k | FreeRun used k count} i →
        ioremapBitmapAlloc (count * size4KB) used =
          .ok (Areas.peripherals.start + i * size4KB, fill used i count 1)) ∧
      (ioremapBitmapAlloc (count * size4KB) used = .ok (0, used) ↔ ¬ ∃ k, FreeRun used k count)) ∧
    ∀ used live, peripheralSystem.Reachable (used, live) →
      live.Pairwise (fun r r' => Disjoint r.addresses r'.addresses) ∧
      (∀ r ∈ live, ∀ a ∈ r.addresses, Areas.peripherals.Contains a) ∧
      ∀ r ∈ live, ∃ used', ioremapBitmapFree r.start r.size used = .ok used' := by
  refine ⟨fun used count hcount => ?_, fun used live hreach => ?_⟩
  · have hdiv : count * size4KB / size4KB = count := Nat.mul_div_cancel _ (by decide)
    have hcases := ioremapBitmapAlloc_cases (Dvd.intro_left count rfl) (Nat.mul_pos hcount (by decide)) used
    rw [hdiv] at hcases
    rcases hcases with ⟨i, hleast, he⟩ | ⟨hnone, he⟩
    · refine ⟨fun j hj => by rw [hj.unique hleast, he], iff_of_false (fun h => ?_) fun h => h ⟨i, hleast.1⟩⟩
      rw [he] at h
      have hzero := congrArg Prod.fst (Except.ok.inj h)
      have hpos := peripherals_start_pos
      simp only at hzero
      omega
    · exact ⟨fun j hj => absurd hj.1 (hnone j), iff_of_true he fun ⟨k, hk⟩ => hnone k hk⟩
  · obtain ⟨hreserved, hpaged⟩ := hreach.invariant peripheralSystem_inductive
    have hin : ∀ r ∈ live, r.slots.start + r.slots.length ≤ ioremapSlots := fun r hr =>
      hreserved.inside r.slots (List.mem_map_of_mem hr)
    refine ⟨?_, fun r hr a ha => (hpaged r hr).inside (hin r hr) ha, fun r hr =>
      ⟨_, ioremapBitmapFree_paged (hpaged r hr) (hin r hr)⟩⟩
    exact (List.pairwise_map.mp hreserved.disjoint).imp_of_mem fun hr hr' hd =>
      (hpaged _ hr).disjoint (hpaged _ hr') hd

end Runs

end Pi0Os.Memory
