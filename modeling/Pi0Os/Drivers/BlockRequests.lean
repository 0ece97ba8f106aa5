import Mathlib.Data.List.Perm.Basic
import Pi0Os.Drivers.UsedRing
import Pi0Os.Drivers.VirtioBlock

/-! The life of the requests of `virtioblk.cpp` over every run in which no request is given up while
the device still has its chain. -/

namespace Pi0Os.Drivers

open Kernel Library IntrusiveLinkedList

/-- No dead request is listed and no free descriptor is the device's; what the device has completed
leads to the request it was made for, so that the handler finds it; and nothing is left over when
`read_sector` has returned. -/
structure RequestsSafe (s : VirtioBlockDevice) : Prop where
  listed : ∃ l, Chain s.requests.next s.requests.head l ∧ ∀ req ∈ l, s.reader.alive req
  free : ∃ l, s.q.FreeList l ∧ l.Nodup ∧ ∀ d ∈ l, ∀ c ∈ s.given, d ∉ c.descs
  attributed : ∀ c ∈ s.done,
    s.requests.findFirst s.reader.alive (fun req => (s.reqs req).descriptorIdx[0]? = some c.head) 2 s.requests.head =
      .ok (some c.req)
  irq : ∀ irqStatus, ∃ s', handleIrq s irqStatus = .ok s'
  returned : s.reader = .idle → s.requests.head = none ∧ s.requests.tail = none ∧
    ∃ l, s.q.FreeList l ∧ l.Perm (List.range s.q.size)

/-- Three descriptors can be allocated; and a request that has timed out is only cleaned up after
the device has completed its chain and the handler has seen that. -/
def InTime (s : VirtioBlockDevice) : BlockAct → Prop
  | .start _ _ => 0 ≤ s.q.allocDesc.2.allocDesc.2.allocDesc.1
  | .cleanup => ∀ req, s.reader = .returning req (-Err.timedOut) → s.given = [] ∧ s.done = []
  | _ => True

structure Unlisted (s : VirtioBlockDevice) : Prop where
  head : s.requests.head = none
  tail : s.requests.tail = none

/-- The device has no chain and the handler nothing to do. -/
structure Quiet (s : VirtioBlockDevice) : Prop where
  unlisted : Unlisted s
  given : s.given = []
  done : s.done = []
  held : s.held = []
  avail : s.lastAvailIdx = s.q.availIdx
  used : s.q.lastSeenUsedIdx = s.q.usedIdx % s.q.size

structure Listed (s : VirtioBlockDevice) (c : BlockChain) : Prop where
  head : s.requests.head = some c.req
  tail : s.requests.tail = some c.req
  prev : s.requests.prev c.req = none

/-- How far the device has come with the only chain that it was given. -/
inductive ChainStage (s : VirtioBlockDevice) (c : BlockChain) : Prop
  | pending : s.given = [c] → s.done = [] → s.held = [] → s.q.availIdx = le16 (s.lastAvailIdx + 1) →
      s.q.availRing (s.lastAvailIdx % s.q.size) = c.head → s.q.lastSeenUsedIdx = s.q.usedIdx % s.q.size →
      ChainStage s c
  | taken : s.given = [c] → s.done = [] → s.held = [c.head] → s.lastAvailIdx = s.q.availIdx →
      s.q.lastSeenUsedIdx = s.q.usedIdx % s.q.size → ChainStage s c
  | completed (w : ℕ) : s.given = [] → s.done = [c] → s.held = [] → s.lastAvailIdx = s.q.availIdx →
      s.q.usedIdx = le16 (w + 1) → s.q.lastSeenUsedIdx = w % s.q.size → (s.q.usedRing (w % s.q.size)).id = c.head →
      ChainStage s c

/-- The request `req` is being served: in flight while `P`, or handled while `Q`. -/
structure Serving (s : VirtioBlockDevice) (req : ℕ) (P Q : Prop) (c : BlockChain) : Prop where
  made : c.req = req
  descs : (s.reqs req).descriptorIdx = c.descs
  next : s.requests.next req = none
  free : ∃ l, s.q.FreeList l ∧ (c.descs ++ l).Perm (List.range s.q.size)
  progress : (ChainStage s c ∧ Listed s c ∧ P) ∨ (Quiet s ∧ Q)

def ReaderInv (s : VirtioBlockDevice) : Reader → Prop
  | .idle => Quiet s ∧ ∃ l, s.q.FreeList l ∧ l.Perm (List.range s.q.size)
  | .waiting req => ∃ c, Serving s req ((s.reqs req).completed = true) ((s.reqs req).completed = false) c
  | .returning req rc => ∃ c, Serving s req (rc = -Err.timedOut) True c

structure BlockInv (s : VirtioBlockDevice) : Prop where
  size_dvd : s.q.size ∣ 2 ^ 16
  size_le : s.q.size ≤ 64
  used_lt : s.q.usedIdx < 2 ^ 16
  avail_lt : s.q.availIdx < 2 ^ 16
  aligned : 512 ∣ s.tempbuffer
  reader : ReaderInv s s.reader

section Queue

variable {s : VirtioBlockDevice} {c : BlockChain} {l : List ℕ}

lemma desc_lt {d n : ℕ} (h : (c.descs ++ l).Perm (List.range n)) (hd : d ∈ c.descs) : d < n :=
  List.mem_range.mp (h.subset (List.mem_append_left _ hd))

lemma BlockInv.size_pos (h : BlockInv s) : 0 < s.q.size := Nat.pos_of_dvd_of_pos h.size_dvd (Nat.two_pow_pos 16)

lemma BlockInv.size_le16 (h : BlockInv s) : s.q.size ≤ 2 ^ 16 := Nat.le_of_dvd (Nat.two_pow_pos 16) h.size_dvd

lemma allocThree (h : s.q.FreeList l) :
    (∃ (d b t : ℕ) (l' : List ℕ) (q₁ q₂ : SplitVirtQueue) (first : ℕ), l = d :: b :: t :: l' ∧
      s.q.allocDesc = ((d : ℤ), q₁) ∧ q₁.allocDesc = ((b : ℤ), q₂) ∧
      q₂.allocDesc = ((t : ℤ), { s.q with firstFreeDescIdx := first }) ∧
      SplitVirtQueue.FreeList { s.q with firstFreeDescIdx := first } l') ∨
    s.q.allocDesc.2.allocDesc.2.allocDesc.1 = -Err.noMem := by
  cases l with
  | nil =>
    right
    rw [h.allocDesc_nil, h.allocDesc_nil, h.allocDesc_nil]
  | cons d l =>
    obtain ⟨h₁, hf₁⟩ := h.allocDesc_cons
    cases l with
    | nil =>
      right
      rw [h₁, hf₁.allocDesc_nil, hf₁.allocDesc_nil]
    | cons b l =>
      obtain ⟨h₂, hf₂⟩ := hf₁.allocDesc_cons
      cases l with
      | nil =>
        right
        rw [h₁, h₂, hf₂.allocDesc_nil]
      | cons t l =>
        obtain ⟨h₃, hf₃⟩ := hf₂.allocDesc_cons
        exact Or.inl ⟨d, b, t, l, _, _, _, rfl, h₁, h₂, h₃, hf₃⟩

end Queue

section Read

variable {s s' : VirtioBlockDevice} {c : BlockChain} {req : ℕ} {rc : ℤ}

lemma BlockInv.buffer_page (h : BlockInv s) : s.tempbuffer / size4KB = (s.tempbuffer + 512 - 1) / size4KB := by
  obtain ⟨k, hk⟩ := h.aligned
  rw [hk]
  change 512 * k / 4096 = (512 * k + 512 - 1) / 4096
  omega

lemma BlockInv.start_fails (h : BlockInv s) (hneg : s.q.allocDesc.2.allocDesc.2.allocDesc.1 < 0) (sector req : ℕ) :
    startRead s sector req = .error (.undefined "cleanup of a request that is not initialised") := by
  have hrc : ∃ s', enqueueBlockRequest s virtioBlkTIn sector s.tempbuffer req = .ok (-Err.noMem, s') := by
    rw [enqueueBlockRequest, kassert_of h.buffer_page, ok_bind]
    exact ⟨_, if_pos (Or.inr (Or.inr hneg))⟩
  obtain ⟨s', hs'⟩ := hrc
  rw [startRead, hs']
  rfl

lemma BlockInv.start (h : BlockInv s) (hidle : s.reader = .idle)
    (hok : 0 ≤ s.q.allocDesc.2.allocDesc.2.allocDesc.1) (sector req : ℕ) :
    ∃ s', startRead s sector req = .ok s' ∧ BlockInv s' := by
  have hr := h.reader
  rw [hidle] at hr
  obtain ⟨hquiet, l, hfree, hperm⟩ := hr
  rcases allocThree hfree with ⟨d, b, t, l, q₁, q₂, first, rfl, h₁, h₂, h₃, hrest⟩ | hfail
  · have hlt : ∀ i ∈ d :: b :: t :: l, i < s.q.size := fun i hi => List.mem_range.mp (hperm.subset hi)
    have hnodup := hperm.nodup_iff.mpr List.nodup_range
    have h16 : ∀ i ∈ d :: b :: t :: l, le16 i = i := fun i hi => le16_of_lt ((hlt i hi).trans_le h.size_le16)
    simp only [List.mem_cons, forall_eq_or_imp] at hlt h16
    obtain ⟨hd, hb, ht, -⟩ := hlt
    obtain ⟨hd16, hb16, ht16, -⟩ := h16
    simp only [List.nodup_cons, List.mem_cons, not_or] at hnodup
    obtain ⟨⟨-, -, hdl⟩, ⟨-, hbl⟩, htl, -⟩ := hnodup
    have hfree' : ((s.describe { s.q with firstFreeDescIdx := first } virtioBlkTIn s.tempbuffer req d b t).enqueueDesc
        d).FreeList l := (((hrest.setDesc hdl _).setDesc hbl _).setDesc htl _).enqueueDesc d
    have hok : startRead s sector req = .ok { s with
        q := (s.describe { s.q with firstFreeDescIdx := first } virtioBlkTIn s.tempbuffer req d b t).enqueueDesc d
        requests := s.requests.add req
        reqs := Function.update s.reqs req ⟨[le16 d, le16 b, le16 t], true, virtioBlkTIn, sector, s.tempbuffer, 0⟩
        given := s.given ++ [⟨d, b, t, req⟩]
        reader := .waiting req } := by
      have hneg : ¬ ((d : ℤ) < 0 ∨ (b : ℤ) < 0 ∨ (t : ℤ) < 0) := by omega
      rw [startRead, enqueueBlockRequest, kassert_of h.buffer_page, ok_bind]
      simp only [h₁, h₂, h₃]
      rw [if_neg hneg]
      rfl
    refine ⟨_, hok, h.size_dvd, h.size_le, h.used_lt, le16_lt _, h.aligned, ⟨d, b, t, req⟩, rfl, ?_, ?_,
      ⟨l, hfree', hperm⟩,
      Or.inl ⟨.pending ?_ hquiet.done hquiet.held ?_ ?_ hquiet.used, ⟨rfl, ?_, ?_⟩, ?_⟩⟩
    · simp only [Function.update_self, hd16, hb16, ht16]
      rfl
    · change Function.update s.requests.next req s.requests.head req = none
      rw [Function.update_self, hquiet.unlisted.head]
    · rw [hquiet.given]
      rfl
    · change le16 (s.q.availIdx + 1) = le16 (s.lastAvailIdx + 1)
      rw [hquiet.avail]
    · change Function.update s.q.availRing (s.q.availIdx % s.q.size) (le16 d) (s.lastAvailIdx % s.q.size) = d
      rw [hquiet.avail, Function.update_self, hd16]
    · change (if s.requests.tail = none then some req else s.requests.tail) = some req
      rw [if_pos hquiet.unlisted.tail]
    · simp only [IntrusiveLinkedList.add, hquiet.unlisted.head, Function.update_self]
    · simp only [Function.update_self]
  · rw [hfail] at hok
    exact absurd hok (by decide)

lemma BlockInv.take (h : BlockInv s) (hw : s.reader = .waiting req) (hc : (s.reqs req).completed = false) :
    BlockInv { s with
      reqs := Function.update s.reqs req { s.reqs req with completed := true }
      reader := .returning req (if (s.reqs req).status ≠ 0 then -Err.io else 0) } := by
  have hr := h.reader
  rw [hw] at hr
  obtain ⟨c, hs⟩ := hr
  refine { h with reader := ⟨c, hs.made, ?_, hs.next, hs.free, Or.inr ?_⟩ }
  · simp only [Function.update_self]
    exact hs.descs
  · rcases hs.progress with ⟨-, -, ht⟩ | ⟨hq, -⟩
    · rw [hc] at ht
      cases ht
    · exact ⟨{ hq with unlisted := ⟨hq.unlisted.head, hq.unlisted.tail⟩ }, trivial⟩

lemma BlockInv.timeOut (h : BlockInv s) (hw : s.reader = .waiting req) (hc : (s.reqs req).completed = true) :
    BlockInv { s with reader := .returning req (-Err.timedOut) } := by
  have hr := h.reader
  rw [hw] at hr
  obtain ⟨c, hs⟩ := hr
  refine { h with reader := ⟨c, hs.made, hs.descs, hs.next, hs.free, Or.inl ?_⟩ }
  rcases hs.progress with ⟨hstage, hl, -⟩ | ⟨-, hf⟩
  · refine ⟨?_, ⟨hl.head, hl.tail, hl.prev⟩, rfl⟩
    cases hstage with
    | pending hg hd hh ha hring hu => exact .pending hg hd hh ha hring hu
    | taken hg hd hh ha hu => exact .taken hg hd hh ha hu
    | completed w hg hd hh ha hu hl he => exact .completed w hg hd hh ha hu hl he
  · rw [hc] at hf
    cases hf

lemma foldl_free {ds l : List ℕ} {q : SplitVirtQueue} (hf : q.FreeList l) (hsize : q.size ≤ 2 ^ 16)
    (hlt : ∀ d ∈ ds, d < q.size) (hn : (ds ++ l).Nodup) :
    (ds.foldl freeUnlessSize q).FreeList (ds.reverse ++ l) ∧
      SplitVirtQueue.SameRings q (ds.foldl freeUnlessSize q) := by
  induction ds generalizing q l with
  | nil => exact ⟨hf, rfl, rfl, rfl, rfl⟩
  | cons d ds ih =>
    have hd : d < q.size := hlt d List.mem_cons_self
    have hsame := q.sameRings_freeDesc d
    rw [List.cons_append, List.nodup_cons, List.mem_append, not_or] at hn
    obtain ⟨⟨hds, hl⟩, hn⟩ := hn
    have hstep : freeUnlessSize q d = q.freeDesc d := if_neg hd.ne
    have hn' : (ds ++ d :: l).Nodup := by
      rw [List.nodup_middle, List.nodup_cons, List.mem_append, not_or]
      exact ⟨⟨hds, hl⟩, hn⟩
    obtain ⟨hfree, hrings⟩ := ih (hf.freeDesc hl hd hsize) (hsame.size.trans_le hsize)
      (fun e he => hsame.size ▸ hlt e (List.mem_cons_of_mem d he)) hn'
    rw [List.foldl_cons, hstep, List.reverse_cons, List.append_assoc, List.singleton_append]
    exact ⟨hfree, hrings.size.trans hsame.size, hrings.lastSeen.trans hsame.lastSeen,
      hrings.availIdx.trans hsame.availIdx, hrings.usedIdx.trans hsame.usedIdx⟩

lemma BlockInv.cleanup (h : BlockInv s) (hr : s.reader = .returning req rc) (htime : InTime s .cleanup) :
    BlockInv { cleanupBlockRequest s req with reader := .idle } := by
  have hreader := h.reader
  rw [hr] at hreader
  obtain ⟨c, hs⟩ := hreader
  have hquiet : Quiet s := by
    rcases hs.progress with ⟨hstage, -, rfl⟩ | ⟨hq, -⟩
    · obtain ⟨hgiven, hdone⟩ := htime req hr
      cases hstage with
      | pending hg => rw [hgiven] at hg; cases hg
      | taken hg => rw [hgiven] at hg; cases hg
      | completed _ _ hd => rw [hdone] at hd; cases hd
    · exact hq
  obtain ⟨l, hfree, hperm⟩ := hs.free
  obtain ⟨hfree', hrings⟩ := foldl_free hfree h.size_le16 (fun d hd => desc_lt hperm hd)
    (hperm.nodup_iff.mpr List.nodup_range)
  have hq : (cleanupBlockRequest s req).q = c.descs.foldl freeUnlessSize s.q := by rw [cleanupBlockRequest, hs.descs]
  have hreqs : (cleanupBlockRequest s req).requests = s.requests := by
    rw [cleanupBlockRequest, hs.next]
    rfl
  have hperm' : (c.descs.reverse ++ l).Perm (List.range s.q.size) :=
    ((List.reverse_perm c.descs).append_right l).trans hperm
  rw [← hq] at hfree' hrings
  refine ⟨hrings.size ▸ h.size_dvd, hrings.size.trans_le h.size_le, hrings.usedIdx.trans_lt h.used_lt,
    hrings.availIdx.trans_lt h.avail_lt, h.aligned,
      ⟨⟨?_, ?_⟩, hquiet.given, hquiet.done, hquiet.held, ?_, ?_⟩, _, hfree', ?_⟩
  · exact (congrArg head hreqs).trans hquiet.unlisted.head
  · exact (congrArg tail hreqs).trans hquiet.unlisted.tail
  · exact hquiet.avail.trans hrings.availIdx.symm
  · exact hrings.lastSeen.trans (hquiet.used.trans (by rw [hrings.usedIdx, hrings.size]))
  · rw [hrings.size]
    exact hperm'

end Read

section Device

variable {s s' : VirtioBlockDevice} {c : BlockChain} {req : ℕ} {P P' Q Q' : Prop}

lemma ReaderInv.fetch {r : Reader} (h : ReaderInv s r) (hmore : s.lastAvailIdx ≠ s.q.availIdx) :
    ReaderInv { s with
      held := s.q.availRing (s.lastAvailIdx % s.q.size) :: s.held
      lastAvailIdx := le16 (s.lastAvailIdx + 1) } r := by
  have hserving : ∀ {req P Q c}, Serving s req P Q c → Serving { s with
      held := s.q.availRing (s.lastAvailIdx % s.q.size) :: s.held
      lastAvailIdx := le16 (s.lastAvailIdx + 1) } req P Q c := by
    intro req P Q c h
    refine { h with progress := ?_ }
    rcases h.progress with ⟨hstage, hl, hp⟩ | ⟨hq, -⟩
    · refine Or.inl ⟨?_, ⟨hl.head, hl.tail, hl.prev⟩, hp⟩
      cases hstage with
      | pending hg hd hh ha hring hu => exact .taken hg hd (by rw [hring, hh]) ha.symm hu
      | taken hg hd hh ha hu => exact absurd ha hmore
      | completed w hg hd hh ha => exact absurd ha hmore
    · exact absurd hq.avail hmore
  cases r with
  | idle => exact absurd h.1.avail hmore
  | waiting req =>
    obtain ⟨c, h⟩ := h
    exact ⟨c, hserving h⟩
  | returning req rc =>
    obtain ⟨c, h⟩ := h
    exact ⟨c, hserving h⟩

lemma Serving.complete (h : Serving s req P Q c) {c' : BlockChain} (hg' : c' ∈ s.given) (hh' : c'.head ∈ s.held)
    (len status : ℕ) (hp : P → P') : Serving (complete s c' len status) req P' Q' c := by
  have htaken : c' = c ∧ P ∧ Listed s c ∧ ChainStage (Drivers.complete s c' len status) c := by
    rcases h.progress with ⟨hstage, hl, hp⟩ | ⟨hq, -⟩
    · cases hstage with
      | pending _ _ hh =>
        rw [hh] at hh'
        cases hh'
      | taken hg hd hh ha hu =>
        rw [hg, List.mem_singleton] at hg'
        subst hg'
        refine ⟨rfl, hp, hl, .completed s.q.usedIdx ?_ ?_ ?_ ha rfl hu ?_⟩
        · rw [Drivers.complete, hg, List.erase_cons_head]
        · rw [Drivers.complete, hd, List.nil_append]
        · rw [Drivers.complete, hh, List.erase_cons_head]
        · simp only [Drivers.complete, Function.update_self]
      | completed _ hg =>
        rw [hg] at hg'
        cases hg'
    · rw [hq.given] at hg'
      cases hg'
  obtain ⟨rfl, hP, hl, hstage⟩ := htaken
  obtain ⟨l, hfree, hperm⟩ := h.free
  refine ⟨h.made, ?_, h.next, ⟨l, hfree.congr rfl rfl rfl, hperm⟩, Or.inl ⟨hstage, ⟨hl.head, hl.tail, hl.prev⟩, hp hP⟩⟩
  have hd := h.descs
  rw [← h.made] at hd ⊢
  simp only [Drivers.complete, Function.update_self]
  exact hd

lemma ReaderInv.complete {r : Reader} (h : ReaderInv s r) {c' : BlockChain} (hg : c' ∈ s.given) (hh : c'.head ∈ s.held)
    (len status : ℕ) : ReaderInv (complete s c' len status) r := by
  cases r with
  | idle =>
    rw [h.1.given] at hg
    cases hg
  | waiting req =>
    obtain ⟨c, h⟩ := h
    refine ⟨c, h.complete hg hh len status fun hp => ?_⟩
    by_cases hreq : req = c'.req
    · subst hreq
      simp only [Drivers.complete, Function.update_self]
      exact hp
    · simp only [Drivers.complete, Function.update_of_ne hreq]
      exact hp
  | returning req rc =>
    obtain ⟨c, h⟩ := h
    exact ⟨c, h.complete hg hh len status id⟩

lemma handleIrq_nothing {irqStatus : ℕ} (hpos : 0 < s.q.size) (hu : s.q.lastSeenUsedIdx = s.q.usedIdx % s.q.size)
    (hd : s.done = []) : handleIrq s irqStatus = .ok s := by
  obtain ⟨n, hn⟩ : ∃ n, s.q.size = n + 1 := ⟨s.q.size - 1, by omega⟩
  unfold handleIrq
  split
  · rfl
  · have hloop : handleUsed (s.q.usedIdx % s.q.size) s.q.size s.q.lastSeenUsedIdx s = .ok s := by
      rw [hu]
      conv_lhs => rw [hn]
      exact if_pos rfl
    simp only [hloop, ok_bind]
    rw [← hu, ← hd]
    rfl

lemma Serving.find (h : Serving s req P Q c) (halive : s.reader.alive req) (hl : Listed s c) :
    s.requests.findFirst s.reader.alive (fun req => (s.reqs req).descriptorIdx[0]? = some c.head) 2 s.requests.head =
      .ok (some req) := by
  have hfilter : decide ((s.reqs req).descriptorIdx[0]? = some c.head) = true := by
    rw [h.descs]
    exact decide_eq_true rfl
  rw [hl.head, h.made, findFirst, panicIf, if_neg (not_not_intro halive), ok_bind, if_pos hfilter]
  rfl

/-- The state after the handler has passed on the completion of the chain of `req`. -/
def handled (s : VirtioBlockDevice) (req : ℕ) : VirtioBlockDevice :=
  { s with
    q := { s.q with lastSeenUsedIdx := s.q.usedIdx % s.q.size }
    reqs := Function.update s.reqs req { s.reqs req with completed := false }
    requests := s.requests.remove req
    done := [] }

lemma Serving.three_le (h : Serving s req P Q c) : 3 ≤ s.q.size := by
  obtain ⟨l, -, hperm⟩ := h.free
  have hlen := hperm.length_eq
  rw [List.length_append, List.length_range] at hlen
  have : c.descs.length = 3 := rfl
  omega

lemma Serving.handleIrq_completed (h : Serving s req P Q c) (halive : s.reader.alive req) (hdvd : s.q.size ∣ 2 ^ 16)
    {irqStatus w : ℕ} (hirq : irqStatus &&& 1 ≠ 0) (hl : Listed s c) (hused : s.q.usedIdx = le16 (w + 1))
    (hlast : s.q.lastSeenUsedIdx = w % s.q.size) (hentry : (s.q.usedRing (w % s.q.size)).id = c.head) :
    handleIrq s irqStatus = .ok (handled s req) := by
  have hthree := h.three_le
  obtain ⟨n, hn⟩ : ∃ n, s.q.size = n + 2 := ⟨s.q.size - 2, by omega⟩
  have hu : s.q.usedIdx % s.q.size = (w + 1) % s.q.size := by rw [hused, le16_mod hdvd]
  have hne : w % s.q.size ≠ (w + 1) % s.q.size := by
    have := add_mod_ne (n := s.q.size) (u := w) (j := 0) (k := 1) Nat.one_pos (by omega)
    rwa [add_zero] at this
  have hprocess : processUsedBuffer s (s.q.usedRing (w % s.q.size)).id = .ok { s with
      reqs := Function.update s.reqs req { s.reqs req with completed := false }
      requests := s.requests.remove req } := by
    rw [hentry, processUsedBuffer, h.find halive hl]
    rfl
  -- one round, after which the loop is where it has to end
  have hloop : handleUsed ((w + 1) % s.q.size) (n + 2) (w % s.q.size) s = .ok { s with
      reqs := Function.update s.reqs req { s.reqs req with completed := false }
      requests := s.requests.remove req } := by
    rw [handleUsed, if_neg hne, hprocess, ok_bind, Nat.mod_add_mod]
    exact if_pos rfl
  rw [← hn] at hloop
  rw [handleIrq, if_neg hirq]
  simp only [hu, hlast, hloop, ok_bind]
  rw [handled, hu]
  rfl

lemma Serving.settle (h : Serving s req P Q c) (hstage : ChainStage s c) (hl : Listed s c) (hd : s.done = [c])
    (hQ : Q') :
    Serving (handled s req) req P' Q' c := by
  obtain ⟨l, hfree, hperm⟩ := h.free
  have hrem : s.requests.remove req = { s.requests with head := none, tail := none } := by
    have hp := hl.prev
    rw [h.made] at hp
    rw [remove, hp, h.next]
  have hdescs : ((handled s req).reqs req).descriptorIdx = c.descs := by
    simp only [handled, Function.update_self]
    exact h.descs
  refine ⟨h.made, hdescs, ?_, ⟨l, hfree.congr rfl rfl rfl, hperm⟩, Or.inr ⟨⟨⟨?_, ?_⟩, ?_, rfl, ?_, ?_, rfl⟩, hQ⟩⟩
  · rw [handled, hrem]
    exact h.next
  · rw [handled, hrem]
  · rw [handled, hrem]
  all_goals
    cases hstage with
    | pending _ hd' => rw [hd'] at hd; cases hd
    | taken _ hd' => rw [hd'] at hd; cases hd
    | completed w hg _ hh ha => assumption

lemma Serving.irq (h : Serving s req P Q c) (halive : s.reader.alive req) (hdvd : s.q.size ∣ 2 ^ 16) (irqStatus : ℕ) :
    handleIrq s irqStatus = .ok s ∨
      handleIrq s irqStatus = .ok (handled s req) ∧ ∀ P' Q', Q' → Serving (handled s req) req P' Q' c := by
  have hpos : 0 < s.q.size := Nat.pos_of_dvd_of_pos hdvd (Nat.two_pow_pos 16)
  by_cases hirq : irqStatus &&& 1 = 0
  · exact Or.inl (if_pos hirq)
  · rcases h.progress with ⟨hstage, hl, -⟩ | ⟨hq, -⟩
    · cases hstage with
      | pending _ hd _ _ _ hu => exact Or.inl (handleIrq_nothing hpos hu hd)
      | taken _ hd _ _ hu => exact Or.inl (handleIrq_nothing hpos hu hd)
      | completed w hg hd hh ha hused hlast hentry =>
        exact Or.inr ⟨h.handleIrq_completed halive hdvd hirq hl hused hlast hentry,
          fun _ _ => h.settle (.completed w hg hd hh ha hused hlast hentry) hl hd⟩
    · exact Or.inl (handleIrq_nothing hpos hq.used hq.done)

lemma BlockInv.irq (h : BlockInv s) (irqStatus : ℕ) : ∃ s', handleIrq s irqStatus = .ok s' ∧ BlockInv s' := by
  have hr := h.reader
  cases hs : s.reader with
  | idle =>
    rw [hs] at hr
    exact ⟨s, handleIrq_nothing h.size_pos hr.1.used hr.1.done, h⟩
  | waiting req =>
    rw [hs] at hr
    obtain ⟨c, hr⟩ := hr
    rcases hr.irq (by rw [hs]; exact decide_eq_true rfl) h.size_dvd irqStatus with hok | ⟨hok, hserving⟩
    · exact ⟨s, hok, h⟩
    · refine ⟨_, hok, { h with reader := ?_ }⟩
      change ReaderInv (handled s req) s.reader
      rw [hs]
      exact ⟨c, hserving _ _ (by simp only [handled, Function.update_self])⟩
  | returning req rc =>
    rw [hs] at hr
    obtain ⟨c, hr⟩ := hr
    rcases hr.irq (by rw [hs]; exact decide_eq_true rfl) h.size_dvd irqStatus with hok | ⟨hok, hserving⟩
    · exact ⟨s, hok, h⟩
    · refine ⟨_, hok, { h with reader := ?_ }⟩
      change ReaderInv (handled s req) s.reader
      rw [hs]
      exact ⟨c, hserving _ _ trivial⟩

end Device

section Runs

variable {s s' : VirtioBlockDevice} {c : BlockChain} {req : ℕ} {P Q : Prop}

lemma blockInv_inductive : (virtioBlock.restrict InTime).Inductive BlockInv := by
  constructor
  · rintro s ⟨⟨q, size, hq, hle, hdvd⟩, hused, hzero, havail, hlast, hhead, htail, hidle, haligned, hheld,
      hgiven, hdone⟩
    have hsize : s.q.size = size := by rw [hq]; rfl
    have hseen : s.q.lastSeenUsedIdx = 0 := by rw [hq]; rfl
    refine ⟨hsize ▸ hdvd, hsize.trans_le hle, hused, havail, haligned, ?_⟩
    rw [hidle]
    refine ⟨⟨⟨hhead, htail⟩, hgiven, hdone, hheld, hlast, hseen.trans hzero.symm⟩, List.range size, ?_, hsize ▸ .refl _⟩
    rw [hq]
    exact SplitVirtQueue.virtqAlloc_freeList q (by omega)
  · rintro s act s' h ⟨hs, htime⟩
    cases hs with
    | start hidle hok =>
      obtain ⟨s'', hs'', h'⟩ := h.start hidle htime _ _
      rw [hok] at hs''
      cases hs''
      exact h'
    | take hw hc => exact h.take hw hc
    | timeOut hw hc => exact h.timeOut hw hc
    | cleanup hr => exact h.cleanup hr htime
    | fetch hmore => exact { h with reader := ReaderInv.fetch h.reader hmore }
    | complete hg hh => exact ⟨h.size_dvd, h.size_le, le16_lt _, h.avail_lt, h.aligned,
        ReaderInv.complete h.reader hg hh _ _⟩
    | irq hok =>
      obtain ⟨s'', hs'', h'⟩ := h.irq _
      rw [hok] at hs''
      cases hs''
      exact h'

lemma Serving.safe (h : Serving s req P Q c) (halive : s.reader.alive req) (hi : BlockInv s) : RequestsSafe s where
  listed := by
    rcases h.progress with ⟨-, hl, -⟩ | ⟨hq, -⟩
    · refine ⟨[req], ⟨h.made ▸ hl.head, h.next⟩, fun r hr => ?_⟩
      rw [List.mem_singleton.mp hr]
      exact halive
    · exact ⟨[], hq.unlisted.head, fun r hr => absurd hr List.not_mem_nil⟩
  free := by
    obtain ⟨l, hfree, hperm⟩ := h.free
    have hn := List.nodup_append.mp (hperm.nodup_iff.mpr List.nodup_range)
    refine ⟨l, hfree, hn.2.1, fun d hd c' hc' hdc => ?_⟩
    have hc : c' = c := by
      rcases h.progress with ⟨hstage, -⟩ | ⟨hq, -⟩
      · cases hstage with
        | pending hg => exact List.mem_singleton.mp (hg ▸ hc')
        | taken hg => exact List.mem_singleton.mp (hg ▸ hc')
        | completed _ hg => rw [hg] at hc'; cases hc'
      · rw [hq.given] at hc'
        cases hc'
    subst hc
    exact hn.2.2 d hdc d hd rfl
  attributed := by
    intro c' hc'
    rcases h.progress with ⟨hstage, hl, -⟩ | ⟨hq, -⟩
    · have hc : c' = c := by
        cases hstage with
        | pending _ hd => rw [hd] at hc'; cases hc'
        | taken _ hd => rw [hd] at hc'; cases hc'
        | completed _ _ hd => exact List.mem_singleton.mp (hd ▸ hc')
      subst hc
      rw [h.made]
      exact h.find halive hl
    · rw [hq.done] at hc'
      cases hc'
  irq irqStatus := (hi.irq irqStatus).imp fun _ h => h.1
  returned hidle := by
    rw [hidle] at halive
    cases halive

lemma BlockInv.safe (h : BlockInv s) : RequestsSafe s := by
  have hr := h.reader
  cases hs : s.reader with
  | idle =>
    rw [hs] at hr
    obtain ⟨hq, l, hfree, hperm⟩ := hr
    refine ⟨⟨[], hq.unlisted.head, fun r hr => absurd hr List.not_mem_nil⟩, ⟨l, hfree, ?_, ?_⟩, ?_,
      fun irqStatus => (h.irq irqStatus).imp fun _ h => h.1,
        fun _ => ⟨hq.unlisted.head, hq.unlisted.tail, l, hfree, hperm⟩⟩
    · exact hperm.nodup_iff.mpr List.nodup_range
    · rw [hq.given]
      exact fun _ _ c hc => absurd hc List.not_mem_nil
    · rw [hq.done]
      exact fun c hc => absurd hc List.not_mem_nil
  | waiting req =>
    rw [hs] at hr
    obtain ⟨c, hr⟩ := hr
    exact hr.safe (by rw [hs]; exact decide_eq_true rfl) h
  | returning req rc =>
    rw [hs] at hr
    obtain ⟨c, hr⟩ := hr
    exact hr.safe (by rw [hs]; exact decide_eq_true rfl) h

lemma BlockInv.cleanup_iff (h : BlockInv s) (hs : BlockStep s .cleanup s') : RequestsSafe s' ↔ InTime s .cleanup := by
  cases hs with
  | @cleanup req rc hr =>
    refine ⟨fun hsafe req' hr' => ?_, fun htime => (h.cleanup hr htime).safe⟩
    rw [hr] at hr'
    cases hr'
    have hreader := h.reader
    rw [hr] at hreader
    obtain ⟨c, hserving⟩ := hreader
    rcases hserving.progress with ⟨-, hl, -⟩ | ⟨hq, -⟩
    · have hhead := (hsafe.returned rfl).1
      simp only [cleanupBlockRequest, hserving.next, Option.isSome_none, Bool.false_eq_true, if_false, hl.head] at hhead
      cases hhead
    · exact ⟨hq.given, hq.done⟩

/-- Requests live as they should in the runs that are in time, and in no others: a step that is not
leaves a dead request listed or goes by one that is not initialised. -/
theorem requests_inTime (h : (virtioBlock.restrict InTime).Reachable s) : RequestsSafe s ∧
    (∀ s', BlockStep s .cleanup s' → (RequestsSafe s' ↔ InTime s .cleanup)) ∧
    (s.reader = .idle → ∀ sector req, (∃ s', startRead s sector req = .ok s') ↔ InTime s (.start sector req)) := by
  have hi := h.invariant blockInv_inductive
  refine ⟨hi.safe, fun s' hs => hi.cleanup_iff hs, fun hidle sector req => ⟨?_, fun hok => ?_⟩⟩
  · rintro ⟨s', hs'⟩
    by_contra hneg
    rw [hi.start_fails (Int.not_le.mp hneg)] at hs'
    cases hs'
  · obtain ⟨s', hs', -⟩ := hi.start hidle hok sector req
    exact ⟨s', hs'⟩

def pageQueue : SplitVirtQueue := ⟨0, 0, 0, fun _ => ⟨0, 0, 0, 0⟩, 0, fun _ => 0, 0, fun _ => ⟨0, 0⟩⟩

/-- The driver with a queue of four descriptors, as `block_device_init` leaves it. -/
def blockBoot : VirtioBlockDevice where
  q := pageQueue.virtqAlloc 4
  requests := ⟨none, none, fun _ => none, fun _ => none⟩
  reqs _ := ⟨[], false, 0, 0, 0, 0⟩
  reader := .idle
  tempbuffer := 0
  virt2phys := id
  lastAvailIdx := 0
  held := []
  given := []
  done := []

lemma blockBoot_init : virtioBlock.Init blockBoot :=
  ⟨⟨pageQueue, 4, rfl, by decide, ⟨2 ^ 14, rfl⟩⟩, Nat.two_pow_pos 16, rfl, Nat.two_pow_pos 16, rfl, rfl, rfl, rfl,
    ⟨0, rfl⟩, rfl, rfl, rfl⟩

theorem requests_inTime_start : ∃ s, BlockStep blockBoot (.start 7 0) s ∧ RequestsSafe s :=
  ⟨_, .start rfl rfl, (requests_inTime (.step (a := BlockAct.start 7 0) (.init blockBoot_init)
    ⟨.start rfl rfl, Int.natCast_nonneg 2⟩)).1⟩

/-- A read that times out before the device has done anything returns with its request listed, and
the completion that comes later goes by the dead request. -/
theorem timedOut_request_listed : ∃ s s', virtioBlock.Reachable s ∧ s.reader = .idle ∧ s.requests.head = some 0 ∧
    ¬ RequestsSafe s ∧ virtioBlock.Reachable s' ∧ handleIrq s' 1 = .error deadNode := by
  have h₀ : virtioBlock.Reachable blockBoot := .init blockBoot_init
  have h₁ := h₀.step (a := BlockAct.start 7 0) (.start rfl rfl)
  have h₂ := h₁.step (a := BlockAct.timeOut) (.timeOut rfl rfl)
  have h₃ := h₂.step (a := BlockAct.cleanup) (.cleanup rfl)
  have h₄ := h₃.step (a := BlockAct.fetch) (.fetch (by decide))
  have h₅ := h₄.step (a := BlockAct.complete ⟨0, 1, 2, 0⟩ 513 0) (.complete (by decide) (by decide))
  refine ⟨_, _, h₃, rfl, rfl, fun hsafe => ?_, h₅, rfl⟩
  have hhead := (hsafe.returned rfl).1
  cases hhead

end Runs

end Pi0Os.Drivers
