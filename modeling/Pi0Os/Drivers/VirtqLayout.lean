import Pi0Os.Drivers.SplitVirtQueue
import Pi0Os.Library.LittleEndian

/-! `virtq_alloc` on the bytes of the page that it receives. -/

namespace Pi0Os.Drivers

open Kernel Library

abbrev sizeofSplitVirtQueue : ℕ := 28

-- `idx`, `size`, `alloc_page`, `first_free_desc_idx`, `last_seen_used_idx` and the three pointers
def queueBytes (idx size allocPage descTable avail used : ℕ) : List UInt8 :=
  toBytes 4 idx ++ toBytes 4 size ++ toBytes 4 allocPage ++ toBytes 2 0 ++ toBytes 2 0 ++ toBytes 4 descTable ++
    toBytes 4 avail ++ toBytes 4 used

def VirtqDesc.bytes (desc : VirtqDesc) : List UInt8 :=
  toBytes 8 desc.addr ++ toBytes 4 desc.len ++ toBytes 2 desc.flags ++ toBytes 2 desc.next

/-- The loop over the descriptors below `n`. -/
def initDescs (m : ℕ → UInt8) (descTable : ℕ) : ℕ → ℕ → UInt8
  | 0 => m
  | n + 1 => overwrite (initDescs m descTable n) (add32 descTable (16 * n % 2 ^ 32)) (VirtqDesc.bytes ⟨0, 0, 0, n + 1⟩)

/-- `virtq_alloc` once `page` is allocated: the queue and the memory afterwards. -/
def virtqAlloc (page allocPage idx size : ℕ) (m : ℕ → UInt8) : Except Panic (ℕ × (ℕ → UInt8)) := do
  let mem := page
  let «end» := add32 mem size4KB
  let descTable := mem
  let mem := add32 mem (16 * size % 2 ^ 32)
  let avail := mem
  let mem := add32 mem (roundUp32 (add32 6 (2 * size % 2 ^ 32)) 8)
  let used := mem
  let mem := add32 mem (roundUp32 (add32 6 (8 * size % 2 ^ 32)) 8)
  let q := mem
  let mem := add32 mem sizeofSplitVirtQueue
  panicIf (.message "too big") (mem ≥ «end»)
  let m := overwrite m q (queueBytes idx size allocPage descTable avail used)
  return (q, initDescs m descTable size)

section Fields

variable (m : ℕ → UInt8) (q : ℕ)

def descTableOf : ℕ := word m (q + 16) 4
def availOf : ℕ := word m (q + 20) 4
def usedOf : ℕ := word m (q + 24) 4

/-- The queue that the bytes of the memory make up. -/
def queueAt : SplitVirtQueue where
  size := word m (q + 4) 4
  firstFreeDescIdx := word m (q + 12) 2
  lastSeenUsedIdx := word m (q + 14) 2
  descTable i :=
    let desc := descTableOf m q + 16 * i
    ⟨word m desc 8, word m (desc + 8) 4, word m (desc + 12) 2, word m (desc + 14) 2⟩
  availIdx := word m (availOf m q + 2) 2
  availRing i := word m (availOf m q + 4 + 2 * i) 2
  usedIdx := word m (usedOf m q + 2) 2
  usedRing i := ⟨word m (usedOf m q + 4 + 8 * i) 4, word m (usedOf m q + 8 + 8 * i) 4⟩

end Fields

/-- The descriptors that the loop of `foreach_used_descriptor` passes on, in at most `fuel` rounds. -/
def SplitVirtQueue.foreachUsed (q : SplitVirtQueue) (used : ℕ) : ℕ → ℕ → Except Panic (List ℕ)
  | 0, _ => .error (.undefined "the loop did not end")
  | fuel + 1, idx =>
    if idx ≠ used then do
      let ids ← foreachUsed q used fuel ((idx + 1) % q.size)
      return (q.usedRing idx).id :: ids
    else .ok []

/-- The parts of a queue, with their sizes. -/
def queueParts (size : ℕ) (m : ℕ → UInt8) (q : ℕ) : List (ℕ × ℕ) :=
  [(descTableOf m q, 16 * size), (availOf m q, 6 + 2 * size), (usedOf m q, 6 + 8 * size), (q, sizeofSplitVirtQueue)]

structure FreshQueue (page size : ℕ) (m : ℕ → UInt8) (q : ℕ) : Prop where
  disjoint : (queueParts size m q).Pairwise fun x y => x.1 + x.2 ≤ y.1 ∨ y.1 + y.2 ≤ x.1
  inPage : ∀ part ∈ queueParts size m q, page ≤ part.1 ∧ part.1 + part.2 ≤ page + size4KB
  aligned : 16 ∣ descTableOf m q ∧ 2 ∣ availOf m q ∧ 4 ∣ usedOf m q
  chain : (queueAt m q).FreeList (List.range size)
  availIdx : (queueAt m q).availIdx = 0
  usedIdx : (queueAt m q).usedIdx = 0
  lastSeenUsedIdx : (queueAt m q).lastSeenUsedIdx = 0
  visitsNothing : (queueAt m q).foreachUsed ((queueAt m q).usedIdx % (queueAt m q).size) (size + 1)
    (queueAt m q).lastSeenUsedIdx = .ok []

/-- Where `used` and the queue stand in the page, and the end of it all. -/
def usedOffset (size : ℕ) : ℕ := 16 * size + (6 + 2 * size + 7) / 8 * 8
def queueOffset (size : ℕ) : ℕ := usedOffset size + (6 + 8 * size + 7) / 8 * 8
def endOffset (size : ℕ) : ℕ := queueOffset size + sizeofSplitVirtQueue

section Descs

variable {m : ℕ → UInt8} {d n i : ℕ}

lemma length_descBytes (desc : VirtqDesc) : desc.bytes.length = 16 := by
  simp [VirtqDesc.bytes]

lemma initDescs_frame (hd : d + 16 * n < 2 ^ 32) (hi : i < d ∨ d + 16 * n ≤ i) : initDescs m d n i = m i := by
  induction n with
  | zero => rfl
  | succ n ih =>
    have hat : add32 d (16 * n % 2 ^ 32) = d + 16 * n := by
      rw [Nat.mod_eq_of_lt (by omega), add32_of_lt (by omega)]
    rw [initDescs, hat, overwrite_of_notMem (by rw [length_descBytes]; omega)]
    exact ih (by omega) (by omega)

lemma initDescs_slice (hd : d + 16 * n < 2 ^ 32) (hi : i < n) :
    slice (initDescs m d n) (d + 16 * i) 16 = VirtqDesc.bytes ⟨0, 0, 0, i + 1⟩ := by
  induction n with
  | zero => omega
  | succ n ih =>
    have hat : add32 d (16 * n % 2 ^ 32) = d + 16 * n := by
      rw [Nat.mod_eq_of_lt (by omega), add32_of_lt (by omega)]
    rw [initDescs, hat]
    rcases Nat.lt_succ_iff_lt_or_eq.mp hi with hlt | rfl
    · rw [slice_overwrite_of_disjoint (by omega)]
      exact ih (by omega) hlt
    · have hself := slice_overwrite (initDescs m d i) (d + 16 * i) (VirtqDesc.bytes ⟨0, 0, 0, i + 1⟩)
      rwa [length_descBytes] at hself

end Descs

section Alloc

variable {m m' : ℕ → UInt8} {page allocPage idx size q i : ℕ}

/-- With few descriptors the sums do not wrap. -/
lemma virtqAlloc_ok (hpage : size4KB ∣ page) (hlt : page < 2 ^ 32) (hsize : size ≤ 256)
    (h : virtqAlloc page allocPage idx size m = .ok (q, m')) :
    endOffset size < size4KB ∧ page + size4KB < 2 ^ 32 ∧ q = page + queueOffset size ∧
      m' = initDescs (overwrite m q (queueBytes idx size allocPage page (page + 16 * size) (page + usedOffset size)))
        page size := by
  obtain ⟨u, hfits, hret⟩ := bind_eq_ok.mp h
  unfold panicIf at hfits
  by_cases hbig : add32 (add32 (add32 (add32 page (16 * size % 2 ^ 32)) (roundUp32 (add32 6 (2 * size % 2 ^ 32)) 8))
      (roundUp32 (add32 6 (8 * size % 2 ^ 32)) 8)) sizeofSplitVirtQueue ≥ add32 page size4KB
  · rw [if_pos hbig] at hfits
    cases hfits
  have havail : roundUp32 (add32 6 (2 * size % 2 ^ 32)) 8 = (6 + 2 * size + 7) / 8 * 8 := by
    unfold roundUp32 add32
    omega
  have hused : roundUp32 (add32 6 (8 * size % 2 ^ 32)) 8 = (6 + 8 * size + 7) / 8 * 8 := by
    unfold roundUp32 add32
    omega
  have hroom : page + size4KB < 2 ^ 32 := by
    unfold add32 at hbig
    simp only [size4KB, sizeofSplitVirtQueue] at hpage hbig ⊢
    omega
  rw [havail, hused] at hbig
  have h₁ : add32 page (16 * size % 2 ^ 32) = page + 16 * size := by
    rw [Nat.mod_eq_of_lt (by omega), add32_of_lt (by simp only [size4KB] at hpage hroom; omega)]
  have h₂ : add32 (page + 16 * size) ((6 + 2 * size + 7) / 8 * 8) = page + usedOffset size := by
    rw [usedOffset, ← add_assoc, add32_of_lt (by simp only [size4KB] at hpage hroom; omega)]
  have h₃ : add32 (page + usedOffset size) ((6 + 8 * size + 7) / 8 * 8) = page + queueOffset size := by
    rw [queueOffset, ← add_assoc, add32_of_lt (by simp only [size4KB, usedOffset] at hpage hroom ⊢; omega)]
  simp only [havail, hused, h₁, h₂, h₃] at hret
  have h₄ : add32 (page + queueOffset size) sizeofSplitVirtQueue = page + endOffset size := by
    rw [endOffset, ← add_assoc,
      add32_of_lt (by
        simp only [size4KB, queueOffset, usedOffset, sizeofSplitVirtQueue] at hpage hroom ⊢
        omega)]
  rw [h₁, h₂, h₃, h₄, add32_of_lt hroom, ge_iff_le, not_le] at hbig
  cases hret
  exact ⟨Nat.lt_of_add_lt_add_left hbig, hroom, rfl, rfl⟩

/-- What `virtq_alloc` has stored, and what it has left of the page. -/
structure Allocated (page size : ℕ) (m m' : ℕ → UInt8) (q : ℕ) : Prop where
  fits : endOffset size < size4KB
  queue : q = page + queueOffset size
  descTable : descTableOf m' q = page
  avail : availOf m' q = page + 16 * size
  used : usedOf m' q = page + usedOffset size
  size_eq : (queueAt m' q).size = size
  first : (queueAt m' q).firstFreeDescIdx = 0
  lastSeen : (queueAt m' q).lastSeenUsedIdx = 0
  next : ∀ i < size, ((queueAt m' q).descTable i).next = i + 1
  availIdx : (queueAt m' q).availIdx = word m (page + 16 * size + 2) 2
  usedIdx : (queueAt m' q).usedIdx = word m (page + usedOffset size + 2) 2

lemma virtqAlloc_allocated (hpage : size4KB ∣ page) (hlt : page < 2 ^ 32) (hsize : size ≤ 256)
    (h : virtqAlloc page allocPage idx size m = .ok (q, m')) : Allocated page size m m' q := by
  obtain ⟨hfits, hroom, hq, hm⟩ := virtqAlloc_ok hpage hlt hsize h
  have hend := hfits
  simp only [endOffset, queueOffset, usedOffset, size4KB, sizeofSplitVirtQueue] at hend hroom
  have hlen : (queueBytes idx size allocPage page (page + 16 * size) (page + usedOffset size)).length = 28 := by
    simp [queueBytes]
  have htable : page + 16 * size < 2 ^ 32 := by omega
  -- the table does not reach the queue, and neither of them the indices
  have hqueue : slice m' q 28 = queueBytes idx size allocPage page (page + 16 * size) (page + usedOffset size) := by
    have hself := slice_overwrite m q (queueBytes idx size allocPage page (page + 16 * size) (page + usedOffset size))
    rw [hlen] at hself
    rw [← hself, hm]
    refine slice_congr fun i hi _ => initDescs_frame htable (.inr ?_)
    rw [hq, queueOffset, usedOffset] at hi
    omega
  have hframe : ∀ i, page + 16 * size ≤ i → i < q → m' i = m i := fun i hi hiq => by
    rw [hm, initDescs_frame htable (.inr hi), overwrite_of_notMem (.inl hiq)]
  have hfield (j k n : ℕ) (hk : j + k ≤ 28) (hn : n < 256 ^ k)
      (hbytes : ((queueBytes idx size allocPage page (page + 16 * size) (page + usedOffset size)).drop j).take k =
        toBytes k n) : word m' (q + j) k = n := by
    rw [word_field hqueue hk, hbytes, ofBytes_toBytes, Nat.mod_eq_of_lt hn]
  have hdesc : descTableOf m' q = page := hfield 16 4 page (by decide) (by omega) rfl
  have havail : availOf m' q = page + 16 * size := hfield 20 4 _ (by decide) (by omega) rfl
  have hused : usedOf m' q = page + usedOffset size :=
    hfield 24 4 _ (by decide) (by rw [usedOffset]; omega) rfl
  refine ⟨hfits, hq, hdesc, havail, hused, hfield 4 4 size (by decide) (by omega) rfl,
    hfield 12 2 0 (by decide) (by decide) rfl, hfield 14 2 0 (by decide) (by decide) rfl, fun i hi => ?_, ?_, ?_⟩
  · have hbytes := initDescs_slice (m := overwrite m q (queueBytes idx size allocPage page (page + 16 * size)
      (page + usedOffset size))) htable hi
    rw [← hm] at hbytes
    have hnext : word m' (page + 16 * i + 14) 2 = (i + 1) % 256 ^ 2 :=
      (word_field hbytes (by decide)).trans (ofBytes_toBytes 2 (i + 1))
    change word m' (descTableOf m' q + 16 * i + 14) 2 = i + 1
    rw [hdesc, hnext]
    exact Nat.mod_eq_of_lt (by omega)
  · change word m' (availOf m' q + 2) 2 = _
    rw [havail]
    refine word_congr fun i hi hi' => hframe i (by omega) ?_
    rw [hq, queueOffset, usedOffset]
    omega
  · change word m' (usedOf m' q + 2) 2 = _
    rw [hused]
    refine word_congr fun i hi hi' => hframe i (by rw [usedOffset] at hi; omega) ?_
    rw [hq, queueOffset]
    omega

lemma Allocated.freshQueue (h : Allocated page size m m' q) (hpage : size4KB ∣ page) (hlt : page < 2 ^ 32)
    (havail : word m (page + 16 * size + 2) 2 = 0) (hused : word m (page + usedOffset size + 2) 2 = 0) :
    FreshQueue page size m' q := by
  have hfits := h.fits
  have husedIdx := h.usedIdx.trans hused
  have hparts : queueParts size m' q = [(page, 16 * size), (page + 16 * size, 6 + 2 * size),
      (page + usedOffset size, 6 + 8 * size), (page + queueOffset size, 28)] := by
    rw [queueParts, h.descTable, h.avail, h.used, h.queue]
  simp only [endOffset, queueOffset, usedOffset, size4KB, sizeofSplitVirtQueue] at hfits hpage
  refine ⟨?_, ?_, ?_, ?_, h.availIdx.trans havail, husedIdx, h.lastSeen, ?_⟩
  · rw [hparts]
    simp only [List.pairwise_cons, List.mem_cons, List.not_mem_nil, or_false, queueOffset, usedOffset]
    refine ⟨?_, ?_, ?_, fun _ hx => hx.elim, .nil⟩
    · rintro x (rfl | rfl | rfl) <;> dsimp only <;> omega
    · rintro x (rfl | rfl) <;> dsimp only <;> omega
    · rintro x rfl
      dsimp only
      omega
  · rw [hparts]
    simp only [List.mem_cons, List.not_mem_nil, or_false, queueOffset, usedOffset, size4KB]
    rintro x (rfl | rfl | rfl | rfl) <;> dsimp only <;> omega
  · rw [h.descTable, h.avail, h.used, usedOffset]
    omega
  · exact SplitVirtQueue.freeList_range _ (by omega) h.size_eq h.first h.next
  · rw [husedIdx, h.lastSeen, Nat.zero_mod]
    exact if_neg (not_not_intro rfl)

/-- What a fresh queue depends on: the sums, and two numbers that the page held before. -/
theorem freshQueue_iff (hpage : size4KB ∣ page) (hlt : page < 2 ^ 32)
    (h : virtqAlloc page allocPage idx size m = .ok (q, m')) :
    FreshQueue page size m' q ↔ endOffset size < size4KB ∧ word m (page + 16 * size + 2) 2 = 0 ∧
      word m (page + usedOffset size + 2) 2 = 0 := by
  constructor
  · intro hfresh
    have htable := hfresh.inPage _ List.mem_cons_self
    have hsize : size ≤ 256 := by
      simp only [size4KB] at htable
      omega
    have hall := virtqAlloc_allocated hpage hlt hsize h
    exact ⟨hall.fits, hall.availIdx ▸ hfresh.availIdx, hall.usedIdx ▸ hfresh.usedIdx⟩
  · rintro ⟨hfits, havail, hused⟩
    have hsize : size ≤ 256 := by
      simp only [endOffset, queueOffset, usedOffset, size4KB] at hfits
      omega
    exact (virtqAlloc_allocated hpage hlt hsize h).freshQueue hpage hlt havail hused

end Alloc

section Example

abbrev samplePage : ℕ := 0xe0001000

lemma virtqAlloc_sample (m : ℕ → UInt8) : ∃ m', virtqAlloc samplePage 0 0 8 m = .ok (samplePage + 224, m') := by
  exact ⟨_, rfl⟩

theorem freshQueue_zeroed : ∃ m', virtqAlloc samplePage 0 0 8 (fun _ => 0) = .ok (samplePage + 224, m') ∧
    FreshQueue samplePage 8 m' (samplePage + 224) := by
  obtain ⟨m', h⟩ := virtqAlloc_sample fun _ => 0
  exact ⟨m', h, (freshQueue_iff (by decide) (by decide) h).mpr ⟨by decide, by decide, by decide⟩⟩

/-- A page that its last owner has left full of ones. -/
theorem freshQueue_recycled : ∃ m', virtqAlloc samplePage 0 0 8 (fun _ => 0xff) = .ok (samplePage + 224, m') ∧
    (queueAt m' (samplePage + 224)).usedIdx = 0xffff ∧ ¬ FreshQueue samplePage 8 m' (samplePage + 224) := by
  obtain ⟨m', h⟩ := virtqAlloc_sample fun _ => 0xff
  have hused := (virtqAlloc_allocated (by decide) (by decide) (by decide) h).usedIdx
  have hones : (queueAt m' (samplePage + 224)).usedIdx = 0xffff := hused.trans (by decide)
  refine ⟨m', h, hones, fun hfresh => ?_⟩
  exact absurd (hones.symm.trans hfresh.usedIdx) (by decide)

end Example

end Pi0Os.Drivers
