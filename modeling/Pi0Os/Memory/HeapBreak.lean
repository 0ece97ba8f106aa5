import Pi0Os.Library.TransitionSystem
import Pi0Os.Memory.KernelHeap
import Pi0Os.Memory.TableReturns

/-! Runs of `_sbrk`. The end of the area is a break that `brk` accepts, and its page belongs to another area. -/

namespace Pi0Os.Memory

open Kernel Library PageAllocator

/-- The pages that a call maps. -/
def KernelHeap.newChunks (h : KernelHeap) (incr : BitVec 32) : ℕ :=
  if HeapBreak (h.newBrk incr) then (roundDown (h.newBrk incr).toNat chunkSize - h.lastMappedChunk) / chunkSize else 0

/-- The pages that a call needs: those that it maps, and the second-level tables which are not there yet. -/
def KernelHeap.needed (h : KernelHeap) (incr : BitVec 32) : ℕ :=
  h.newChunks incr + h.vm.newTables (h.lastMappedChunk + chunkSize) (h.newChunks incr)

/-- Mapped are the pages up to that of the break, all in the area of the heap, and each byte to one of its own. -/
structure HeapExact (h : KernelHeap) (roots : Set ℕ) : Prop where
  last : h.lastMappedChunk = roundDown h.gBrk chunkSize
  inside : Areas.kernelHeap.start ≤ h.lastMappedChunk ∧ h.lastMappedChunk + chunkSize ≤ Areas.kernelHeap.end
  mapped : ∀ p ∈ roots, ∀ v, Areas.kernelHeap.Contains v →
    (h.vm.sees p v ≠ none ↔ v < h.lastMappedChunk + chunkSize)
  distinct : ∀ p ∈ roots, ∀ v v' a perm perm', Areas.kernelHeap.Contains v → Areas.kernelHeap.Contains v' →
    h.vm.sees p v = some (a, perm) → h.vm.sees p v' = some (a, perm') → v = v'

/-- A call moves the break by the increment and returns the old one, or has no effect. What lies outside the area of the
heap, and the pages that the heap has both before and after, stay mapped as they were. -/
structure SbrkCorrect (h h' : KernelHeap) (roots : Set ℕ) (incr : BitVec 32) (result : Option ℕ) : Prop where
  result_eq : if HeapBreak (h.newBrk incr) then result = some h.gBrk ∧ (h'.gBrk : ℤ) = h.newBrk incr
    else result = none ∧ h' = h
  kept : ∀ p ∈ roots, ∀ v < 2 ^ 32,
    ¬ Areas.kernelHeap.Contains v ∨ v < min h.lastMappedChunk h'.lastMappedChunk + chunkSize →
      h'.vm.sees p v = h.vm.sees p v

/-- The break lies on the last page that is mapped. -/
structure HeapReady (first limit : ℕ) (h : KernelHeap) (live : Finset Block) (roots : Set ℕ) (frames : ℕ → ℕ)
    (n : ℕ) : Prop extends HeapPages first limit h live roots frames n where
  settled : roundDown h.gBrk chunkSize = heapChunk n

section Break

variable {first limit current n newBrk : ℕ} {s s' : KernelHeap} {live : Finset Block} {roots : Set ℕ} {frames : ℕ → ℕ}
  {incr : BitVec 32}

lemma roundDown_heap (hlo : Areas.kernelHeap.start ≤ newBrk) (hhi : newBrk < Areas.kernelHeap.end) :
    ∃ m < heapChunks, roundDown newBrk chunkSize = heapChunk m := by
  refine ⟨(newBrk - Areas.kernelHeap.start) / size4KB, ?_⟩
  simp only [kernelHeap_start, kernelHeap_end, heapChunks, heapChunk, roundDown, chunkSize, size1KB, size4KB] at *
  omega

lemma page_of_heap {v : ℕ} (hv : Areas.kernelHeap.Contains v) :
    ∃ i < heapChunks, v / size4KB = heapChunk i / size4KB := by
  refine ⟨(v - Areas.kernelHeap.start) / size4KB, ?_⟩
  simp only [Range.Contains, kernelHeap_start, kernelHeap_end, heapChunks, heapChunk, size4KB] at *
  omega

lemma area_bounds {v : ℕ} (hv : Areas.kernelHeap.Contains v) : Areas.kernelVirtStartAddr ≤ v ∧ v < 2 ^ 32 := by
  simp only [Range.Contains, kernelHeap_start, kernelHeap_end, Areas.kernelVirtStartAddr] at *
  omega

lemma chunks_between {m : ℕ} : (heapChunk m - heapChunk n) / chunkSize = m - n := by
  simp only [heapChunk, chunkSize, size1KB, size4KB]
  omega

lemma heapChunk_lt_iff {i j : ℕ} : heapChunk i < heapChunk j ↔ i < j := by
  simp only [heapChunk, size4KB]
  omega

lemma HeapPages.settle (h : HeapPages first limit s live roots frames n)
    (hround : roundDown newBrk chunkSize = heapChunk n) :
    HeapReady first limit { s with gBrk := newBrk } live roots frames n :=
  ⟨⟨h.mapped, h.last, h.inside, h.page, h.small, h.frame, h.distinct⟩, hround⟩

lemma HeapPages.removeChunks_to {m : ℕ} (h : HeapPages first limit s live roots frames n) (hm : m < n) (current : ℕ) :
    ∃ s' live', Memory.removeChunks current (n - m) s = .ok s' ∧ HeapPages first limit s' live' roots frames m ∧
      ChangesOnly s.vm s'.vm roots (heapChunk (m + 1)) (heapChunk (n + 1)) := by
  have he := Nat.add_sub_of_le hm.le
  rw [← he] at h
  obtain ⟨s', live', hloop, h', -, hchanges⟩ := h.removeChunks current
  rw [he] at hchanges
  exact ⟨s', live', hloop, h', hchanges⟩

lemma HeapPages.brk_ok (h : HeapPages first limit s live roots frames n) (hcur : current ∈ roots)
    (hlo : Areas.kernelHeap.start ≤ newBrk) (hhi : newBrk < Areas.kernelHeap.end) {r : Except HeapError KernelHeap}
    (hr : brk current newBrk s = .ok r) :
    ∃ s' live' frames' m, r = .ok s' ∧ HeapReady first limit s' live' roots frames' m ∧ s'.gBrk = newBrk ∧
      ChangesOnly s.vm s'.vm roots (heapChunk (min n m + 1)) Areas.kernelHeap.end := by
  obtain ⟨m, hm, hround⟩ := roundDown_heap hlo hhi
  have hend {i : ℕ} (hi : i < heapChunks) : heapChunk (i + 1) ≤ Areas.kernelHeap.end := (heapChunk_bounds hi).2
  rw [brk, if_neg (by omega)] at hr
  dsimp only at hr
  rw [hround, h.last] at hr
  simp only [heapChunk_lt_iff, chunks_between] at hr
  split_ifs at hr with hadd hremove
  · obtain ⟨s₁, hloop, hr⟩ := bind_eq_ok.mp hr
    cases hr
    obtain ⟨live', frames', h', -, hchanges⟩ := h.addChunks hcur (by omega) hloop
    rw [Nat.add_sub_of_le hadd.le] at h' hchanges
    refine ⟨_, live', frames', m, rfl, h'.settle hround, rfl, ?_⟩
    rw [Nat.min_eq_left hadd.le]
    exact hchanges.mono le_rfl (hend hm)
  · obtain ⟨s₁, hloop, hr⟩ := bind_eq_ok.mp hr
    cases hr
    obtain ⟨s₂, live', hloop', h', hchanges⟩ := h.removeChunks_to hremove current
    cases hloop.symm.trans hloop'
    refine ⟨_, live', frames, m, rfl, h'.settle hround, rfl, ?_⟩
    rw [Nat.min_eq_right hremove.le]
    exact hchanges.mono le_rfl (hend h.inside)
  · cases hr
    obtain rfl : n = m := by omega
    exact ⟨_, live, frames, n, rfl, h.settle hround, rfl, .refl _ _ _ _⟩

lemma HeapPages.brk_supplied (h : HeapPages first limit s live roots frames n) (hcur : current ∈ roots)
    (hlo : Areas.kernelHeap.start ≤ newBrk) (hhi : newBrk < Areas.kernelHeap.end)
    (hs : Supplies s.vm.pages ((roundDown newBrk chunkSize - s.lastMappedChunk) / chunkSize +
      s.vm.newTables (s.lastMappedChunk + chunkSize) ((roundDown newBrk chunkSize - s.lastMappedChunk) / chunkSize))) :
    ∃ s', brk current newBrk s = .ok (.ok s') := by
  obtain ⟨m, hm, hround⟩ := roundDown_heap hlo hhi
  rw [brk, if_neg (by omega)]
  dsimp only
  rw [hround, h.last, chunks_between] at hs
  rw [hround, h.last]
  simp only [heapChunk_lt_iff, chunks_between]
  split_ifs with hadd hremove
  · have hs : Supplies s.vm.pages (0 + (m - n) + s.vm.newTables (heapChunk (n + 1)) (m - n)) := by
      rw [Nat.zero_add, heapChunk_succ]
      exact hs
    obtain ⟨s', hloop, -⟩ := h.addChunks_supplied hcur (by omega) hs
    rw [hloop]
    exact ⟨_, rfl⟩
  · obtain ⟨s', live', hloop, -⟩ := h.removeChunks_to hremove current
    rw [hloop]
    exact ⟨_, rfl⟩
  · exact ⟨_, rfl⟩

lemma HeapReady.break_bounds (h : HeapReady first limit s live roots frames n) :
    Areas.kernelHeap.start ≤ s.gBrk ∧ s.gBrk < Areas.kernelHeap.end := by
  have hround := h.settled
  have hin := h.inside
  simp only [kernelHeap_start, kernelHeap_end, heapChunks, heapChunk, roundDown, chunkSize, size1KB, size4KB] at *
  omega

lemma HeapReady.heapBreak (h : HeapReady first limit s live roots frames n) : HeapBreak s.gBrk := by
  obtain ⟨hlo, hhi⟩ := h.break_bounds
  exact ⟨Int.ofNat_le.mpr hlo, Int.ofNat_le.mpr hhi.le⟩

lemma sbrkIncr_outside (hb : HeapBreak s.gBrk) (hout : ¬ HeapBreak (s.newBrk incr)) :
    sbrkIncr current incr s = .ok (none, s) := by
  rw [heapBreak_iff hb] at hout
  rw [sbrkIncr, sbrk]
  split_ifs with hsize
  · rfl
  · rw [brk, if_pos (not_not.mp fun hc => hout ⟨hsize, hc⟩)]
    rfl

lemma sbrkIncr_inside (hb : HeapBreak s.gBrk) (hin : HeapBreak (s.newBrk incr)) :
    sbrkIncr current incr s = (do
      match ← brk current (s.newBrk incr).toNat s with
      | .error _ => return (none, s)
      | .ok s' => return (some s.gBrk, s')) := by
  have hnew : add32 s.gBrk incr.toNat = (s.newBrk incr).toNat := by
    rw [← newBrk_eq hin, Int.toNat_natCast]
  rw [sbrkIncr, sbrk, if_neg ((heapBreak_iff hb).mp hin).1, hnew, bind_assoc]
  refine bind_congr fun r => ?_
  cases r <;> rfl

/-- The new break of a call that succeeds. -/
lemma newBrk_bounds (hin : HeapBreak (s.newBrk incr)) (hne : s.newBrk incr ≠ (Areas.kernelHeap.end : ℤ)) :
    Areas.kernelHeap.start ≤ (s.newBrk incr).toNat ∧ (s.newBrk incr).toNat < Areas.kernelHeap.end := by
  simp only [HeapBreak, kernelHeap_start, kernelHeap_end] at *
  omega

lemma HeapReady.exact (h : HeapReady first limit s live roots frames n) : HeapExact s roots := by
  have hsees {p v : ℕ} (hp : p ∈ roots) (hv : Areas.kernelHeap.Contains v) : ∃ i < heapChunks,
      v / size4KB = heapChunk i / size4KB ∧ (v < s.lastMappedChunk + chunkSize ↔ i ≤ n) ∧ s.vm.sees p v =
        if i ≤ n then some (pageAddr s.vm.pages.ramStart (frames i) + v % size4KB, .priviledgedOnly) else none := by
    obtain ⟨i, hi, hpage⟩ := page_of_heap hv
    obtain ⟨hlo, hlt⟩ := area_bounds hv
    refine ⟨i, hi, hpage, ?_, ?_⟩
    · rw [h.last]
      simp only [heapChunk, kernelHeap_start, chunkSize, size1KB, size4KB] at hpage ⊢
      omega
    · rw [h.mapped.sees_eq hp hlt, if_pos hlo, h.page i hi v hpage]
  refine ⟨h.last.trans h.settled.symm, ⟨?_, ?_⟩, fun p hp v hv => ?_, fun p hp v v' a perm perm' hv hv' he he' => ?_⟩
  · rw [h.last]
    exact Nat.le_add_right _ _
  · have hle := (heapChunk_bounds h.inside).2
    rw [heapChunk_succ] at hle
    rw [h.last]
    exact hle
  · obtain ⟨i, -, -, hiff, he⟩ := hsees hp hv
    rw [he, hiff]
    split_ifs with hi <;> simp [hi]
  · obtain ⟨i, -, hpage, -, hi⟩ := hsees hp hv
    obtain ⟨j, -, hpage', -, hj⟩ := hsees hp hv'
    rw [hi] at he
    rw [hj] at he'
    split_ifs at he he' with hin hjn
    obtain ⟨ha, -⟩ := Prod.mk.inj (Option.some.inj he)
    obtain ⟨ha', -⟩ := Prod.mk.inj (Option.some.inj he')
    have hdi := (h.mapped.blocks.address (h.frame i hin).1).1
    have hdj := (h.mapped.blocks.address (h.frame j hjn).1).1
    -- the blocks start at multiples of 4KB
    have heq : pageAddr s.vm.pages.ramStart (frames i) = pageAddr s.vm.pages.ramStart (frames j) ∧
        v % size4KB = v' % size4KB := by
      rw [← ha'] at ha
      generalize pageAddr s.vm.pages.ramStart (frames i) = x at *
      generalize pageAddr s.vm.pages.ramStart (frames j) = y at *
      simp only [order2PageSize, size4KB] at *
      omega
    obtain rfl := h.distinct i hin j hjn (pageAddr_injective _ heq.1)
    have hoff := heq.2
    rw [← hpage'] at hpage
    simp only [size4KB] at hpage hoff
    omega

lemma HeapReady.sbrk_ok (h : HeapReady first limit s live roots frames n) (hcur : current ∈ roots)
    (hne : s.newBrk incr ≠ (Areas.kernelHeap.end : ℤ)) {r : Option ℕ} (hm : sbrkIncr current incr s = .ok (r, s')) :
    (∃ live' frames' m, HeapReady first limit s' live' roots frames' m) ∧ SbrkCorrect s s' roots incr r := by
  by_cases hin : HeapBreak (s.newBrk incr)
  · obtain ⟨hlo, hhi⟩ := newBrk_bounds hin hne
    rw [sbrkIncr_inside h.heapBreak hin] at hm
    obtain ⟨r', hbrk, hm⟩ := bind_eq_ok.mp hm
    obtain ⟨s₁, live', frames', m, rfl, h', hnew, hchanges⟩ := h.brk_ok hcur hlo hhi hbrk
    cases hm
    refine ⟨⟨live', frames', m, h'⟩, ?_, fun p hp v hv hkept => ?_⟩
    · rw [if_pos hin, hnew]
      refine ⟨rfl, Int.toNat_of_nonneg ?_⟩
      exact (Int.natCast_nonneg _).trans hin.1
    · refine hchanges.sees h.mapped h'.mapped hp hv fun hc => ?_
      rw [h.last, h'.last, ← monotone_heapChunk.map_min] at hkept
      rw [heapChunk_succ] at hc
      rcases hkept with hout | hlt
      · exact hout ⟨((Nat.le_add_right _ _).trans (Nat.le_add_right _ _)).trans hc.1, hc.2⟩
      · exact Nat.not_lt.mpr hc.1 hlt
  · rw [sbrkIncr_outside h.heapBreak hin] at hm
    cases hm
    exact ⟨⟨live, frames, n, h⟩, by rw [if_neg hin]; exact ⟨rfl, rfl⟩, fun _ _ _ _ _ => rfl⟩

/-- A call returns when there are the pages that it needs. -/
lemma HeapReady.sbrk_supplied (h : HeapReady first limit s live roots frames n) (hcur : current ∈ roots)
    (hne : s.newBrk incr ≠ (Areas.kernelHeap.end : ℤ)) (hs : Supplies s.vm.pages (s.needed incr)) :
    ∃ r s', sbrkIncr current incr s = .ok (r, s') := by
  by_cases hin : HeapBreak (s.newBrk incr)
  · obtain ⟨hlo, hhi⟩ := newBrk_bounds hin hne
    rw [KernelHeap.needed, KernelHeap.newChunks, if_pos hin] at hs
    obtain ⟨s', hbrk⟩ := h.brk_supplied hcur hlo hhi hs
    rw [sbrkIncr_inside h.heapBreak hin, hbrk]
    exact ⟨_, _, rfl⟩
  · exact ⟨_, _, sbrkIncr_outside h.heapBreak hin⟩

lemma brk_gBrk (hlo : Areas.kernelHeap.start ≤ newBrk) (hhi : newBrk ≤ Areas.kernelHeap.end)
    {r : Except HeapError KernelHeap} (hr : brk current newBrk s = .ok r) : ∃ s', r = .ok s' ∧ s'.gBrk = newBrk := by
  rw [brk, if_neg (by omega)] at hr
  dsimp only at hr
  split_ifs at hr
  · obtain ⟨s₁, -, hr⟩ := bind_eq_ok.mp hr
    cases hr
    exact ⟨_, rfl, rfl⟩
  · obtain ⟨s₁, -, hr⟩ := bind_eq_ok.mp hr
    cases hr
    exact ⟨_, rfl, rfl⟩
  · cases hr
    exact ⟨_, rfl, rfl⟩

lemma HeapReady.not_exact_end (h : HeapReady first limit s live roots frames n)
    (hend : s.newBrk incr = (Areas.kernelHeap.end : ℤ)) {r : Option ℕ} (hm : sbrkIncr current incr s = .ok (r, s')) :
    ¬ HeapExact s' roots := by
  have hin : HeapBreak (s.newBrk incr) := by
    rw [hend]
    decide
  rw [sbrkIncr_inside h.heapBreak hin, hend, Int.toNat_natCast] at hm
  obtain ⟨r', hbrk, hm⟩ := bind_eq_ok.mp hm
  obtain ⟨s₁, rfl, hgBrk⟩ := brk_gBrk (by decide) le_rfl hbrk
  cases hm
  -- the page of the break lies behind the area
  intro hexact
  have hlast := hexact.last
  have hle := hexact.inside.2
  rw [hgBrk] at hlast
  simp only [kernelHeap_end, roundDown, chunkSize, size1KB] at hlast hle
  omega

end Break

section Init

variable {first limit current n : ℕ} {vm : Vm} {s : KernelHeap} {live : Finset Block} {roots : Set ℕ}

lemma kheapInit_ready (h : MappedSpaces first limit vm live roots) (hcur : current ∈ roots)
    (hfree : ∀ v, Areas.kernelHeap.Contains v → vm.walk vm.kernelAs v = none)
    (hm : kheapInit current vm = .ok (some s)) : (∃ live' frames, HeapReady first limit s live' roots frames 0) ∧
      s.gBrk = Areas.kernelHeap.start ∧ KeepsEntries roots vm s.vm ∧ vm.SameRam s.vm := by
  obtain ⟨⟨page, pages⟩, ha, hm⟩ := bind_eq_ok.mp hm
  cases page with
  | none => cases hm
  | some p =>
    obtain ⟨vm', hmap, hm⟩ := bind_eq_ok.mp hm
    cases hm
    have hpos : 0 < heapChunks := by decide
    have hbrk : roundDown Areas.kernelHeap.start chunkSize = heapChunk 0 := by decide
    obtain ⟨live', hs', hsub, hone, -, hsets⟩ := h.mapFrame hcur (heapChunk_lt hpos.le)
      (dvd_heapChunk 0) (heapChunk_bounds hpos.le).1 ha hmap
    have hnone {i : ℕ} (hi : i < heapChunks) {v : ℕ} (hv : v / size4KB = heapChunk i / size4KB) :
        v < 2 ^ 32 ∧ vm.walk vm.kernelAs v = none := by
      have hin : Areas.kernelHeap.Contains v := by
        simp only [Range.Contains, kernelHeap_start, kernelHeap_end, heapChunks, heapChunk, size4KB] at *
        omega
      exact ⟨(area_bounds hin).2, hfree v hin⟩
    refine ⟨⟨live', fun _ => p, ⟨⟨hs', ?_, hpos, fun i hi v hv => ?_, fun i hi => ?_, fun i _ =>
      ⟨hsub (Finset.mem_insert_self _ _), hone⟩, fun i hi j hj _ => by omega⟩, hbrk⟩⟩, rfl, hsets.entries, hsets.ram⟩
    · exact (Nat.add_zero _).symm
    · obtain ⟨hlt, hwalk⟩ := hnone hi hv
      change vm'.walk vm'.kernelAs v = if _ then some (pageAddr vm'.pages.ramStart _ + _, _) else none
      rw [hsets.ram.kernelAs, hsets.ram.ramStart, hsets.kernel v hlt, hv, hwalk]
      simp only [Finset.mem_singleton, heapChunk_page, Nat.le_zero]
    · change ¬ isSection (vm'.lvl1Entry vm'.kernelAs _)
      rw [hsets.ram.kernelAs]
      exact hsets.entries.not_section hsets.ram h.kernelAs_mem (heapChunk_lt hi.le)
        (not_isSection_of_walk (hnone hi rfl).2)

lemma kheapInit_supplied (h : MappedSpaces first limit vm live roots) (hcur : current ∈ roots)
    (hfree : ∀ v, Areas.kernelHeap.Contains v → vm.walk vm.kernelAs v = none) (hs : Supplies vm.pages (n + 2)) :
    ∃ s, kheapInit current vm = .ok (some s) ∧ Supplies s.vm.pages n := by
  have hpos : 0 < heapChunks := by decide
  have hin : Areas.kernelHeap.Contains (heapChunk 0) := ⟨Nat.le_add_right _ _, by decide⟩
  obtain ⟨p, pages, vm', ha, hmap, hleft⟩ := h.mapFrame_supplied (n := n) hcur (heapChunk_lt hpos.le) (dvd_heapChunk 0)
    (heapChunk_bounds hpos.le).1 (hfree _ hin) (hs.mono (by split_ifs <;> omega))
  refine ⟨⟨vm', Areas.kernelHeap.start, Areas.kernelHeap.start⟩, ?_, hleft⟩
  rw [kheapInit, ha, ok_bind]
  exact congrArg (· >>= _) hmap

end Init

/-- The heap from `kheap_init` on. A step is a call in the address space that is current at the time. -/
def kernelHeapSystem (first limit : ℕ) (roots : Set ℕ) : TransitionSystem KernelHeap (ℕ × BitVec 32) where
  Init s := ∃ vm current live, current ∈ roots ∧ MappedSpaces first limit vm live roots ∧
    (∀ v, Areas.kernelHeap.Contains v → vm.walk vm.kernelAs v = none) ∧ kheapInit current vm = .ok (some s)
  Step s call s' := call.1 ∈ roots ∧ ∃ r, sbrkIncr call.1 call.2 s = .ok (r, s')

/-- The call does not move the break to the end of the area. -/
def BelowEnd (s : KernelHeap) (call : ℕ × BitVec 32) : Prop := s.newBrk call.2 ≠ (Areas.kernelHeap.end : ℤ)

section Runs

variable {first limit : ℕ} {s : KernelHeap} {roots : Set ℕ}

lemma kernelHeapSystem_inductive : ((kernelHeapSystem first limit roots).restrict BelowEnd).Inductive
    fun s => ∃ live frames n, HeapReady first limit s live roots frames n := by
  refine ⟨fun s ⟨vm, current, live, hcur, hvm, hfree, hinit⟩ => ?_, fun s call s' ⟨live, frames, n, h⟩
    ⟨⟨hcur, r, hm⟩, hbelow⟩ => (h.sbrk_ok hcur hbelow hm).1⟩
  obtain ⟨⟨live', frames, h⟩, -⟩ := kheapInit_ready hvm hcur hfree hinit
  exact ⟨live', frames, 0, h⟩

/-- While no call moves the break to the end of the area, calls do what they should; one that does so does not. -/
theorem sbrk_correct_iff (hs : ((kernelHeapSystem first limit roots).restrict BelowEnd).Reachable s) :
    HeapExact s roots ∧ ∀ current ∈ roots, ∀ incr,
      (BelowEnd s (current, incr) → ∀ r s', sbrkIncr current incr s = .ok (r, s') → SbrkCorrect s s' roots incr r) ∧
      (Supplies s.vm.pages (s.needed incr) → (BelowEnd s (current, incr) ↔
        ∃ r s', sbrkIncr current incr s = .ok (r, s') ∧ SbrkCorrect s s' roots incr r ∧ HeapExact s' roots)) := by
  obtain ⟨live, frames, n, h⟩ := hs.invariant kernelHeapSystem_inductive
  refine ⟨h.exact, fun current hcur incr => ⟨fun hbelow r s' hm => (h.sbrk_ok hcur hbelow hm).2, fun hpages =>
    ⟨fun hbelow => ?_, ?_⟩⟩⟩
  · obtain ⟨r, s', hm⟩ := h.sbrk_supplied hcur hbelow hpages
    obtain ⟨⟨live', frames', m, h'⟩, hcorrect⟩ := h.sbrk_ok hcur hbelow hm
    exact ⟨r, s', hm, hcorrect, h'.exact⟩
  · rintro ⟨r, s', hm, -, hexact⟩ hend
    exact h.not_exact_end hend hm hexact

theorem sbrk_correct_iff_small : ∃ pages s, physicalPageAllocatorInit smallBoot = .ok pages ∧
    kheapInit 16 (emptyBoard pages) = .ok (some s) ∧ HeapExact s {0, 16} ∧
      ∃ r s', sbrkIncr 16 0x2345 s = .ok (r, s') ∧ SbrkCorrect s s' {0, 16} 0x2345 r := by
  obtain ⟨pages, -, hinit, -⟩ := physicalPageAllocatorInit_spec smallBoot_valid
  have hrun : (do
      let pages ← physicalPageAllocatorInit smallBoot
      match ← kheapInit 16 (emptyBoard pages) with
      | none => return none
      | some s => do
        let (r, _) ← sbrkIncr 16 0x2345 s
        return some r) = .ok (some (some 0xc3000000)) := by decide +kernel
  rw [hinit, ok_bind] at hrun
  obtain ⟨o, hheap, hrun⟩ := bind_eq_ok.mp hrun
  cases o with
  | none => cases hrun
  | some s =>
    obtain ⟨⟨r, s'⟩, hm, -⟩ := bind_eq_ok.mp hrun
    have hboard := (emptyBoard_mapped hinit).1
    have hfree : ∀ v, Areas.kernelHeap.Contains v → (emptyBoard pages).walk (emptyBoard pages).kernelAs v = none :=
      fun _ _ => armWalk_empty rfl
    have hcur : 16 ∈ ({0, 16} : Set ℕ) := .inr rfl
    have hstart : ((kernelHeapSystem 32 256 {0, 16}).restrict BelowEnd).Reachable s :=
      .init ⟨_, 16, ∅, hcur, hboard, hfree, hheap⟩
    obtain ⟨hexact, hcalls⟩ := sbrk_correct_iff hstart
    have hbelow : BelowEnd s (16, 0x2345) := by
      rw [BelowEnd, KernelHeap.newBrk, (kheapInit_ready hboard hcur hfree hheap).2.1]
      decide
    exact ⟨pages, s, hinit, hheap, hexact, r, s', hm, (hcalls 16 hcur _).1 hbelow r s' hm⟩

end Runs

section Section

variable {first limit current root kernel virt a n : ℕ} {vm : Vm} {s : KernelHeap} {live : Finset Block} {roots : Set ℕ}
  {frames : ℕ → ℕ} {perm : PageAccessPermissions} {incr : BitVec 32}

lemma ne_zero_of_isSection {raw : ℕ} (h : isSection raw) : raw ≠ 0 := by
  rintro rfl
  exact absurd h (by decide)

lemma vmMapPage_section (hk : rootTablePtr vm vm.kernelAs = .ok kernel)
    (hsec : isSection (vm.words (root + 4 * lvl1Index virt))) : vmMapPage root a virt perm vm =
      .error (.message "vm_map_page: Address %p is already mapped to a section") := by
  rw [vmMapPage, fillLvl1Entry, hk, ok_bind]
  dsimp only
  rw [panicIf, if_pos hsec]
  rfl

lemma HeapPages.addChunk_section (h : HeapPages first limit s live roots frames n) (hcur : current ∈ roots)
    (hsec : isSection (s.vm.lvl1Entry current (heapChunk (n + 1)))) (hs : Supplies s.vm.pages 1) :
    Memory.addChunk current s = .error (.message "vm_map_page: Address %p is already mapped to a section") := by
  obtain ⟨p, pages, ha, -⟩ := h.mapped.blocks.alloc_supplied (o := .kb4) (by decide) hs
  have hs₁ := h.mapped.with_frame ha
  have hpage := (hs₁.blocks.address (Finset.mem_insert_self _ _)).2.2
  have hr := (h.mapped.blocks.alloc_sameRam ha s.vm.words).ramStart
  rw [Memory.addChunk, ha, ok_bind]
  dsimp only
  rw [h.last, add32_heapChunk h.inside, vmMap, hs₁.rootPtr current hcur, ok_bind, hpage, ok_bind,
    vmMapPage_section (hs₁.rootPtr _ hs₁.kernelAs_mem)]
  · rfl
  · dsimp only at hr ⊢
    rw [hr]
    exact hsec

/-- Where the memory behind the area is mapped by sections, a call that moves the break there dies. -/
lemma HeapReady.sbrk_end (h : HeapReady first limit s live roots frames n) (hcur : current ∈ roots)
    (hsec : isSection (s.vm.lvl1Entry current Areas.kernelHeap.end))
    (hend : s.newBrk incr = (Areas.kernelHeap.end : ℤ)) (hs : Supplies s.vm.pages (s.needed incr)) :
    sbrkIncr current incr s = .error (.message "vm_map_page: Address %p is already mapped to a section") := by
  have hin : HeapBreak (s.newBrk incr) := by
    rw [hend]
    decide
  have hround : roundDown Areas.kernelHeap.end chunkSize = heapChunk heapChunks := by decide
  obtain ⟨k, hk⟩ := Nat.exists_eq_add_of_lt h.inside
  rw [KernelHeap.needed, KernelHeap.newChunks, if_pos hin, hend, Int.toNat_natCast, hround, h.last,
    chunks_between] at hs
  rw [sbrkIncr_inside h.heapBreak hin, hend, Int.toNat_natCast, brk, if_neg (by decide)]
  dsimp only
  rw [hround, h.last, if_pos (heapChunk_lt_iff.mpr h.inside), chunks_between]
  have hpages : heapChunks - n = k + 1 := by omega
  have hchunk : heapChunk (n + k + 1) = Areas.kernelHeap.end := by
    rw [← hk]
    decide
  have hnext : heapChunk n + chunkSize = heapChunk (n + 1) := (heapChunk_succ n).symm
  rw [hpages, hnext] at hs
  rw [hpages, addChunks_succ]
  obtain ⟨b, hb, hleft⟩ := h.addChunks_supplied (m := 1) hcur (k := k) (by omega) (hs.mono (by
    have hle := s.vm.newTables_mono (heapChunk (n + 1)) (Nat.le_add_right k 1)
    omega))
  obtain ⟨live', frames', h', -, hchanges⟩ := h.addChunks hcur (by omega) hb
  have hsec' : isSection (b.vm.lvl1Entry current (heapChunk (n + k + 1))) := by
    rw [hchunk, hchanges.entries.kept hchanges.ram hcur (by decide) (ne_zero_of_isSection hsec)]
    exact hsec
  rw [hb, ok_bind, h'.addChunk_section hcur hsec' hleft]
  rfl

/-- The `virt` board with 512MB. -/
def heapBoot : BootParams := ⟨0x40000000, 512 * size1MB, 0xe1000000, 0x14000⟩

lemma heapBoot_valid : heapBoot.Valid := by
  constructor <;> decide

/-- The kernel's table at the start of the memory, with the sections through which the kernel reaches all of it. -/
def heapWords (a : ℕ) : ℕ :=
  if 0x40003800 ≤ a ∧ a < 0x40004000 then
    SectionEntry.makeEntry (0x40000000 + (a - 0x40003800) / 4 * size1MB) .priviledgedOnly
  else 0

def heapBoard (pages : PageAllocator) : Vm := ⟨pages, heapBoot.ramSize, heapWords, 0⟩

lemma heapWords_cases (a : ℕ) : heapWords a = 0 ∨ isSection (heapWords a) := by
  rw [heapWords]
  split_ifs
  · exact .inr (SectionEntry.isSection_makeEntry _ _)
  · exact .inl rfl

lemma heapBoard_mapped {pages : PageAllocator} (h : physicalPageAllocatorInit heapBoot = .ok pages) :
    MappedSpaces (firstFreePageIdx heapBoot) (totalPages heapBoot) (heapBoard pages) ∅ {0} := by
  obtain ⟨pages', free, h', hinv, hram, hlen, -⟩ := physicalPageAllocatorInit_spec heapBoot_valid
  cases h.symm.trans h'
  have hram : pages.ramStart = 0x40000000 := hram
  have hlen : pages.len = 524288 := hlen.trans (by decide)
  have hroot : rootTablePtr (heapBoard pages) 0 = .ok (pageAddr (heapBoard pages).pages.ramStart 0) := by
    simp [rootTablePtr, page2addr, phys2virt, kassert, heapBoard, hram, hlen, add32, pageAddr, size1KB, size1MB,
      heapBoot]
  have hnone {r i t : ℕ} : tableAt (heapBoard pages).words r i ≠ some t := fun ht => by
    have hc := (tableAt_eq_some.mp ht).1
    rcases heapWords_cases (r + 4 * i) with hz | hsec
    · exact ne_zero_of_isCoarsePage hc hz
    · exact not_isSection_of_isCoarsePage hc hsec
  have haligned : size1MB ∣ pages.ramStart := by
    rw [hram]
    decide
  refine ⟨⟨⟨free, hinv⟩, haligned⟩, ⟨?_, _, hroot⟩, ⟨⟨0, rfl, rfl⟩, ?_, ?_, ?_,
    fun _ _ _ _ _ ht => absurd ht hnone, fun _ _ _ _ _ _ _ _ _ ht => absurd ht hnone,
    fun _ _ _ _ _ ht => absurd ht hnone⟩, ?_, ?_, fun _ _ _ _ _ ht => absurd ht hnone,
    fun _ _ _ _ _ ht => absurd ht hnone⟩
  · change pageAddr pages.ramStart _ ≤ add32 pages.ramStart heapBoot.ramSize
    rw [hram]
    decide
  · rintro _ ⟨_, rfl, rfl⟩ _ ⟨_, rfl, rfl⟩ hne
    exact absurd rfl hne
  · intro r _ i _
    exact (heapWords_cases _).imp_right .inl
  · rintro _ ⟨_, rfl, rfl⟩ i _ _
    exact .inl rfl
  · rintro _ rfl
    exact hroot
  · rintro _ rfl
    refine .inr fun a ha => .inl ?_
    have hfirst := heapBoot_valid.firstFreePageIdx_bounds.2.1
    change a < pageAddr pages.ramStart _
    simp only [lvl1Bytes, Set.mem_Ico, lvl1TableSize, size1KB, pageAddr, heapBoard] at ha ⊢
    omega

lemma heapBoard_walk {pages : PageAllocator} (hram : pages.ramStart = 0x40000000) {v : ℕ}
    (hv : Areas.kernelHeap.Contains v) : (heapBoard pages).walk (heapBoard pages).kernelAs v = none := by
  refine armWalk_empty (if_neg ?_)
  simp only [Range.Contains, kernelHeap_end, pageAddr, heapBoard, hram, lvl1Index] at hv ⊢
  omega

/-- The heap and the end of its area lie in 465 megabytes. -/
lemma newTables_heap (vm : Vm) : vm.newTables (heapChunk 1) heapChunks ≤ 465 := by
  have hsub : ((Finset.range heapChunks).image fun i => lvl1Index (heapChunk 1 + i * size4KB)) ⊆
      Finset.Icc 0xc30 0xe00 := by
    intro x hx
    obtain ⟨i, hi, rfl⟩ := Finset.mem_image.mp hx
    have hi := Finset.mem_range.mp hi
    simp only [Finset.mem_Icc, lvl1Index, heapChunk, kernelHeap_start, heapChunks, size4KB] at hi ⊢
    omega
  have hcard := Finset.card_le_card hsub
  rw [Nat.card_Icc] at hcard
  exact (Finset.card_filter_le _ _).trans hcard

/-- With 464MB of heap and the memory for it, the last page is never had: its address is that of the memory. -/
theorem sbrk_to_end : ∃ s, (kernelHeapSystem (firstFreePageIdx heapBoot) (totalPages heapBoot) {0}).Reachable s ∧
    Supplies s.vm.pages (s.needed 0x1d000000) ∧
    sbrkIncr 0 0x1d000000 s = .error (.message "vm_map_page: Address %p is already mapped to a section") := by
  obtain ⟨pages, -, hinit, -, hram, -⟩ := physicalPageAllocatorInit_spec heapBoot_valid
  have hram : pages.ramStart = 0x40000000 := hram
  have hboard := heapBoard_mapped hinit
  have hcur : 0 ∈ ({0} : Set ℕ) := rfl
  have hfree := fun v (hv : Areas.kernelHeap.Contains v) => heapBoard_walk hram hv
  have hpages : Supplies pages (heapChunks + 465 + 2) := (init_supplies heapBoot_valid hinit).mono (by decide)
  obtain ⟨s, hheap, hleft⟩ := kheapInit_supplied hboard hcur hfree hpages
  obtain ⟨⟨live, frames, h⟩, hbrk, hentries, hsame⟩ := kheapInit_ready hboard hcur hfree hheap
  have hend : s.newBrk 0x1d000000 = (Areas.kernelHeap.end : ℤ) := by
    rw [KernelHeap.newBrk, hbrk]
    decide
  have hchunks : s.newChunks 0x1d000000 = heapChunks := by
    rw [KernelHeap.newChunks, hend, h.last]
    decide
  have hsupplies : Supplies s.vm.pages (s.needed 0x1d000000) := by
    have hnext : heapChunk 0 + chunkSize = heapChunk 1 := by decide
    rw [KernelHeap.needed, hchunks, h.last, hnext]
    exact hleft.mono (Nat.add_le_add_left (newTables_heap s.vm) _)
  have hsec : isSection (s.vm.lvl1Entry 0 Areas.kernelHeap.end) := by
    have hentry : isSection ((heapBoard pages).lvl1Entry 0 Areas.kernelHeap.end) := by
      rw [Vm.lvl1Entry, heapBoard, hram]
      dsimp only
      decide
    rwa [hentries.kept hsame hcur (by decide) (ne_zero_of_isSection hentry)]
  exact ⟨s, .init ⟨_, 0, ∅, hcur, hboard, hfree, hheap⟩, hsupplies, h.sbrk_end hcur hsec hend hsupplies⟩

end Section

end Pi0Os.Memory
