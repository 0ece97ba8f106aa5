import Pi0Os.Drivers.GpuHoldings
import Pi0Os.Drivers.VirtqRings

/-! The exchange of commands in `virtiogpu.cpp` over every run: each call gets the response to its own
command, and is woken by its own completion. -/

namespace Pi0Os.Drivers

open Kernel Library

/-- The device has read the command of `c`, and its response is where the call looks for it. -/
def Answered (s : VirtioGpu) (c : GpuCommand) : Prop :=
  ∃ w, s.answers c.cmdDescIdx = some (c.cmd, w) ∧ w.length ≤ c.respSize ∧ slice s.mem c.respPaAddr w.length = w

/-- The call was woken once, and has copied the response to its own command. -/
def Finished (c : GpuCommand) (resp : List UInt8) : Prop :=
  c.woken = 1 ∧ resp.length = c.respSize ∧ ∃ w, c.answer = some (c.cmd, w) ∧ w <+: resp

/-- The device completes no chain while the handler runs. -/
def Noticed (s : VirtioGpu) : GpuAct → Prop
  | .complete _ _ => s.handler = .idle
  | _ => True

/-- A call that succeeded has the response to its own command. The handler finds the request that a completion
belongs to, and wakes no other; what is pending are the requests that it has not woken. A call that is refused
keeps nothing, and nothing is left over when no call is in progress. -/
structure CommandsSafe (s : VirtioGpu) : Prop where
  succeeded : ∀ t c resp, s.callers t = .succeeded c resp → Finished c resp
  failed : ∀ t rc, s.callers t = .failed rc → rc = -Err.noMem
  refused : ∀ t cmd respSize page free, (s.callers t).isCalling = false →
    add32 (roundUp32 cmd.length 8) respSize < 4096 → s.q.FreeList free → free.length < 2 ∨ page = none →
    ∃ s', startCommand s t cmd respSize page = .ok s' ∧ s'.callers t = .failed (-Err.noMem) ∧ s'.pages = s.pages ∧
      ∃ free', s'.q.FreeList free' ∧ free'.Perm free
  woken : ∀ t c, s.callers t = .calling c .waiting →
    c.woken ≤ 1 ∧ (c.completed = false ↔ c.woken = 1) ∧ (c.woken = 1 → Answered s c)
  pending : ∃ nodes, s.pendingRequests.Holds nodes ∧ ∀ t, t ∈ nodes ↔ isPending (s.callers t)
  own : ∀ idx used, s.handler = .loop idx used → idx ≠ used → ∃ t c, s.callers t = .calling c .waiting ∧ c.woken = 0 ∧
    c.cmdDescIdx = (s.q.usedRing idx).id ∧ Answered s c ∧ handleUsedDescriptor s (s.q.usedRing idx).id =
      .ok (VirtioGpu.setCaller { s with pendingRequests := s.pendingRequests.remove t } t (s.callers t).release)
  quiet : (∀ t, (s.callers t).isCalling = false) →
    (∃ free, s.q.FreeList free ∧ free.Perm (List.range s.q.size)) ∧ s.pages = ∅ ∧ s.pendingRequests.head = none

/-- Every command that the device has answered has been woken, unless the handler is still to run. -/
def Delivered (s : VirtioGpu) : Prop :=
  s.handler = .idle → s.usedBuffer = false → ∀ t c, s.callers t = .calling c .waiting →
    s.answers c.cmdDescIdx ≠ none → c.woken = 1

/-- What the locals of a call say is in the descriptors and in the page. -/
structure Stored (s : VirtioGpu) (c : GpuCommand) : Prop where
  cmdDesc : s.q.descTable c.cmdDescIdx = ⟨c.cmdPaAddr, c.cmd.length, virtqDescFNext, c.respDescIdx⟩
  respDesc : s.q.descTable c.respDescIdx = ⟨c.respPaAddr, c.respSize, virtqDescFWrite, 0⟩
  apart : c.cmdPaAddr + c.cmd.length ≤ c.respPaAddr
  fits : c.respPaAddr + c.respSize < c.cmdPaAddr + size4KB
  cmd : slice s.mem c.cmdPaAddr c.cmd.length = c.cmd

def StageOk (s : VirtioGpu) (done : List ℕ) (c : GpuCommand) : CommandStage → Prop
  | .prepared => c.completed = true ∧ c.woken = 0
  | .listed => c.completed = true ∧ c.woken = 0
  | .waiting => (c.completed = false ∧ c.woken = 1 ∧ Answered s c) ∨ (c.completed = true ∧ c.woken = 0 ∧
      ((c.cmdDescIdx ∈ done ∧ Answered s c) ∨ (c.cmdDescIdx ∉ done ∧ s.answers c.cmdDescIdx = none)))
  | .copied resp => Finished c resp

def CallerOk (s : VirtioGpu) (done : List ℕ) : GpuCaller → Prop
  | .idle => True
  | .failed rc => rc = -Err.noMem
  | .succeeded c resp => Finished c resp
  | .calling c stage => Stored s c ∧ StageOk s done c stage

/-- `n` completions are left of those that were published when the handler read the used index. -/
def GpuHandler.At (size lastSeen u n len : ℕ) : GpuHandler → Prop
  | .idle => lastSeen = u % size
  | .loop idx used => idx = u % size ∧ used = (u + n) % size ∧ n ≤ len
  | .acking => lastSeen = u % size

/-- The handler sees the completions not handled, or will be called for them. -/
def GpuHandler.Seen (usedBuffer : Bool) (n len : ℕ) : GpuHandler → Prop
  | .idle => 0 < len → usedBuffer = true
  | .loop _ _ => n = len
  | .acking => len = 0

/-- `T`: the run is one in which the handler misses nothing. -/
structure CommandInv (T : Prop) (s : VirtioGpu) (free nodes avail done : List ℕ) (u n : ℕ) : Prop where
  freeList : s.q.FreeList free
  pending : s.pendingRequests.Holds nodes
  holdings : Holdings s.callers s.q.size s.pages free nodes (avail ++ s.held ++ done)
  rings : Rings s.q s.lastAvailIdx avail done u
  handler : s.handler.At s.q.size s.q.lastSeenUsedIdx u n done.length
  callers : ∀ t, CallerOk s done (s.callers t)
  seen : T → s.handler.Seen s.usedBuffer n done.length

section Frame

variable {s s' : VirtioGpu} {done done' : List ℕ} {c : GpuCommand} {caller : GpuCaller} {stage : CommandStage}

def SamePage (s s' : VirtioGpu) (p : ℕ) : Prop :=
  ∀ a, p * size4KB ≤ a → a < (p + 1) * size4KB → s'.mem a = s.mem a

lemma Stored.slice_eq (h : Stored s c) (hp : SamePage s s' c.storage) {a n : ℕ} (ha : c.cmdPaAddr ≤ a)
    (hn : a + n ≤ c.respPaAddr + c.respSize) : slice s'.mem a n = slice s.mem a n := by
  refine slice_congr fun i hi hlt => hp i ?_ ?_
  · exact le_trans ha hi
  · have hfits := h.fits
    rw [add_mul, one_mul]
    change i < c.cmdPaAddr + size4KB
    omega

lemma samePage_overwrite {p p' o : ℕ} {w : List UInt8} (hp : p' ≠ p) (ho : p * size4KB ≤ o)
    (hw : o + w.length ≤ p * size4KB + size4KB) (hm : s'.mem = overwrite s.mem o w) : SamePage s s' p' := by
  intro a ha ha'
  rw [hm]
  refine overwrite_of_notMem ?_
  simp only [size4KB] at ho hw ha ha'
  rcases Nat.lt_or_gt_of_ne hp with hlt | hgt <;> omega

lemma CallerOk.frame (h : CallerOk s done caller)
    (hdescs : ∀ d ∈ descsOf caller, s'.q.descTable d = s.q.descTable d ∧ s'.answers d = s.answers d ∧
      (d ∈ done' ↔ d ∈ done))
    (hpage : ∀ p ∈ storageOf caller, SamePage s s' p) : CallerOk s' done' caller := by
  cases caller with
  | idle => trivial
  | failed rc => exact h
  | succeeded c resp => exact h
  | calling c stage =>
    obtain ⟨hstored, hstage⟩ := h
    obtain ⟨hcmd, hans, hdone⟩ := hdescs c.cmdDescIdx List.mem_cons_self
    obtain ⟨hresp, -, -⟩ := hdescs c.respDescIdx (List.mem_cons_of_mem _ List.mem_cons_self)
    have hsame := hpage c.storage List.mem_cons_self
    have hanswered : Answered s c → Answered s' c := by
      rintro ⟨w, hw, hlen, hslice⟩
      refine ⟨w, hans.trans hw, hlen, (hstored.slice_eq hsame (Nat.le_add_right _ _)
        (Nat.add_le_add_left hlen _)).trans hslice⟩
    refine ⟨{ hstored with
      cmdDesc := hcmd.trans hstored.cmdDesc
      respDesc := hresp.trans hstored.respDesc
      cmd := ?_ }, ?_⟩
    · exact (hstored.slice_eq hsame le_rfl (hstored.apart.trans (Nat.le_add_right _ _))).trans hstored.cmd
    · cases stage with
      | prepared => exact hstage
      | listed => exact hstage
      | copied resp => exact hstage
      | waiting =>
        rw [StageOk, hdone, hans]
        exact hstage.imp (fun ⟨h₁, h₂, h₃⟩ => ⟨h₁, h₂, hanswered h₃⟩) fun ⟨h₁, h₂, h₃⟩ =>
          ⟨h₁, h₂, h₃.imp_left fun ⟨h₄, h₅⟩ => ⟨h₄, hanswered h₅⟩⟩

lemma CallerOk.keep (h : CallerOk s done caller) (hq : s'.q.descTable = s.q.descTable) (hm : s'.mem = s.mem)
    (ha : s'.answers = s.answers) : CallerOk s' done caller :=
  h.frame (fun _ _ => ⟨congrFun hq _, congrFun ha _, Iff.rfl⟩) fun _ _ a _ _ => congrFun hm a

end Frame

section Start

variable {s : VirtioGpu} {free : List ℕ} {t d b : ℕ} {cmd : List UInt8} {respSize : ℕ} {page : Option ℕ}

def VirtioGpu.withDescs (s : VirtioGpu) (descTable : ℕ → VirtqDesc) (first : ℕ) : VirtioGpu :=
  { s with q := { s.q with descTable := descTable, firstFreeDescIdx := first } }

lemma freeDesc_eq {q : SplitVirtQueue} {i : ℕ} (hi : i < q.size) :
    q.freeDesc i = { q with
      descTable := Function.update q.descTable i ⟨0, 0, 0, le16 q.firstFreeDescIdx⟩
      firstFreeDescIdx := le16 i } := by
  rw [SplitVirtQueue.freeDesc, if_neg (by omega)]
  rfl

lemma startCommand_refused (hfree : s.q.FreeList free) (hn : free.Nodup) (hsize : s.q.size ≤ 2 ^ 16)
    (hfits : add32 (roundUp32 cmd.length 8) respSize < 4096) (hfew : free.length < 2 ∨ page = none) :
    ∃ descTable first free', startCommand s t cmd respSize page =
        .ok ((s.withDescs descTable first).setCaller t (.failed (-Err.noMem))) ∧
      (s.withDescs descTable first).q.FreeList free' ∧ free.Perm free' ∧
      ∀ d ∉ free, descTable d = s.q.descTable d := by
  rw [startCommand, kassert_of hfits, ok_bind]
  cases free with
  | nil =>
    refine ⟨s.q.descTable, s.q.firstFreeDescIdx, [], ?_, hfree, .refl _, fun _ _ => rfl⟩
    simp only [hfree.allocDesc_nil]
    rfl
  | cons d free =>
    obtain ⟨hd, hrest⟩ := hfree.allocDesc_cons
    have hdlt := hfree.head_lt.1
    obtain ⟨hdfree, hn⟩ := List.nodup_cons.mp hn
    cases free with
    | nil =>
      have hfreed := hrest.freeDesc hdfree hdlt hsize
      rw [freeDesc_eq (by exact hdlt)] at hfreed
      refine ⟨_, _, [d], ?_, hfreed, .refl _, fun i hi => Function.update_of_ne (List.ne_of_not_mem_cons hi) ..⟩
      simp only [hd, hrest.allocDesc_nil]
      rw [if_pos (Or.inr (by decide)), cleanupCommand, if_pos (Int.natCast_nonneg d), if_neg (by decide)]
      dsimp only
      rw [freeDesc_eq (by exact hdlt)]
      rfl
    | cons b free =>
      obtain ⟨hb, hrest'⟩ := hrest.allocDesc_cons
      have hblt := hrest.head_lt.1
      obtain rfl : page = none := hfew.resolve_left (by simp)
      obtain ⟨hbfree, -⟩ := List.nodup_cons.mp hn
      have hdb : b ≠ d := fun he => hdfree (he ▸ List.mem_cons_self)
      have hfreed := hrest'.freeDesc (fun h => hdfree (List.mem_cons_of_mem b h)) hdlt hsize
      rw [freeDesc_eq (by exact hdlt)] at hfreed
      have hfreed := hfreed.freeDesc (List.not_mem_cons_of_ne_of_not_mem hdb hbfree) hblt hsize
      rw [freeDesc_eq (by exact hblt)] at hfreed
      refine ⟨_, _, b :: d :: free, ?_, hfreed, List.Perm.swap .., fun i hi => ?_⟩
      · simp only [hd, hb]
        rw [if_neg (by omega), cleanupCommand, if_pos (Int.natCast_nonneg d), if_pos (Int.natCast_nonneg b)]
        dsimp only
        rw [freeDesc_eq (i := d) (by exact hdlt), freeDesc_eq (i := b) (by exact hblt)]
        rfl
      · rw [List.mem_cons, List.mem_cons, not_or, not_or] at hi
        exact (Function.update_of_ne hi.2.1 ..).trans (Function.update_of_ne hi.1 ..)

lemma startCommand_prepared {p : ℕ} (hfree : s.q.FreeList (d :: b :: free))
    (hfits : add32 (roundUp32 cmd.length 8) respSize < 4096) :
    ∃ first, startCommand s t cmd respSize (some p) = .ok (VirtioGpu.setCaller { s with
        q := describeCommand { s.q with firstFreeDescIdx := first } ⟨cmd, respSize, d, b, p, true, 0, none⟩
        pages := insert p s.pages
        mem := overwrite s.mem (p * size4KB) cmd } t (.calling ⟨cmd, respSize, d, b, p, true, 0, none⟩ .prepared)) ∧
      SplitVirtQueue.FreeList { s.q with firstFreeDescIdx := first } free := by
  obtain ⟨hd, hrest⟩ := hfree.allocDesc_cons
  obtain ⟨hb, hrest'⟩ := hrest.allocDesc_cons
  refine ⟨_, ?_, hrest'⟩
  rw [startCommand, kassert_of hfits, ok_bind]
  simp only [hd, hb]
  rw [if_neg (by omega)]
  rfl

end Start

namespace CommandInv

variable {T : Prop} {s s' : VirtioGpu} {free free' nodes avail done done' : List ℕ} {t d b u n : ℕ}
variable {caller : GpuCaller} {c : GpuCommand}

lemma handler_at (h : CommandInv T s free nodes avail done u n) {handler : GpuHandler} (hs : s.handler = handler) :
    handler.At s.q.size s.q.lastSeenUsedIdx u n done.length :=
  hs ▸ h.handler

lemma handler_seen (h : CommandInv T s free nodes avail done u n) {handler : GpuHandler} (hT : T)
    (hs : s.handler = handler) : handler.Seen s.usedBuffer n done.length :=
  hs ▸ h.seen hT

lemma size_le16 (h : CommandInv T s free nodes avail done u n) : s.q.size ≤ 2 ^ 16 :=
  Nat.le_of_dvd (Nat.two_pow_pos 16) h.rings.size_dvd

/-- What is left to show of the callers when `t` becomes `caller`. -/
lemma update_callers (hcaller : CallerOk s' done' caller) (hother : ∀ t' ≠ t, CallerOk s' done' (s.callers t')) :
    ∀ t', CallerOk s' done' (Function.update s.callers t caller t') := by
  intro t'
  by_cases ht : t' = t
  · rw [ht, Function.update_self]
    exact hcaller
  · rw [Function.update_of_ne ht]
    exact hother t' ht

lemma refused (h : CommandInv T s free nodes avail done u n) (ht : (s.callers t).isCalling = false)
    {descTable : ℕ → VirtqDesc} {first : ℕ} (hfree : (s.withDescs descTable first).q.FreeList free')
    (hp : free.Perm free') (hd : ∀ d ∉ free, descTable d = s.q.descTable d) :
    CommandInv T ((s.withDescs descTable first).setCaller t (.failed (-Err.noMem))) free' nodes avail done u n := by
  obtain ⟨hdescs, hstorage, hpending, hflight⟩ := Holdings.not_calling ht
  refine ⟨hfree, h.pending, (h.holdings.perm hp).same hdescs.symm hstorage.symm hpending.symm hflight.symm,
    h.rings.congr rfl rfl rfl rfl rfl, h.handler, ?_, h.seen⟩
  refine update_callers rfl fun t' _ => (h.callers t').frame (fun e he => ⟨hd e ?_, rfl, Iff.rfl⟩) fun _ _ _ _ _ => rfl
  exact h.holdings.descs.not_free t' e he

lemma size_pos (h : CommandInv T s free nodes avail done u n) : 0 < s.q.size :=
  Nat.pos_of_dvd_of_pos h.rings.size_dvd (Nat.two_pow_pos 16)

lemma desc_ne (h : CommandInv T s free nodes avail done u n) {t' : ℕ} (ht : t' ≠ t) (hd : d ∈ descsOf (s.callers t)) :
    ∀ e ∈ descsOf (s.callers t'), e ≠ d := by
  rintro e he rfl
  exact ht (h.holdings.descs.holder t' t e he hd)

lemma calling (h : CommandInv T s free nodes avail done u n) {stage : CommandStage}
    (ht : s.callers t = .calling c stage) :
    Stored s c ∧ StageOk s done c stage := by
  have hok := h.callers t
  rwa [ht] at hok

lemma listed (h : CommandInv T s free nodes avail done u n) (ht : s.callers t = .calling c .prepared) :
    CommandInv T (VirtioGpu.setCaller { s with pendingRequests := s.pendingRequests.add t } t (.calling c .listed))
      free (t :: nodes) avail done u n := by
  obtain ⟨hstored, hcompleted, hwoken⟩ := h.calling ht
  obtain ⟨hnot, hholdings⟩ := h.holdings.list ht hwoken
  exact ⟨h.freeList, h.pending.add hnot, hholdings, h.rings, h.handler,
    update_callers ⟨{ hstored with }, hcompleted, hwoken⟩ fun t' _ => (h.callers t').keep rfl rfl rfl, h.seen⟩

lemma enqueued (h : CommandInv T s free nodes avail done u n) (ht : s.callers t = .calling c .listed) :
    CommandInv T (VirtioGpu.setCaller { s with
      q := s.q.enqueueDesc c.cmdDescIdx
      answers := Function.update s.answers c.cmdDescIdx none } t (.calling c .waiting))
      free nodes (avail ++ [c.cmdDescIdx]) done u n := by
  obtain ⟨hstored, hcompleted, hwoken⟩ := h.calling ht
  obtain ⟨hnot, hholdings⟩ := h.holdings.submit ht hwoken
  have hmem : c.cmdDescIdx ∈ descsOf (s.callers t) := by rw [ht]; exact List.mem_cons_self
  have hroom := h.holdings.room h.size_pos
  have hlt := h.holdings.desc_lt hmem
  rw [List.length_append, List.length_append] at hroom
  refine ⟨h.freeList.enqueueDesc _, h.pending, hholdings.perm_flight ?_,
    h.rings.enqueue (by omega) (hlt.trans_le h.size_le16), h.handler, ?_, h.seen⟩
  · have hsplit : avail ++ [c.cmdDescIdx] ++ s.held ++ done = avail ++ c.cmdDescIdx :: (s.held ++ done) := by simp
    change List.Perm _ (avail ++ [c.cmdDescIdx] ++ s.held ++ done)
    rw [hsplit, List.append_assoc]
    exact List.perm_middle.symm
  · refine update_callers ⟨{ hstored with }, Or.inr
      ⟨hcompleted, hwoken, Or.inr ⟨?_, Function.update_self ..⟩⟩⟩ fun t' ht' =>
      (h.callers t').frame (fun e he => ⟨rfl, Function.update_of_ne (h.desc_ne ht' hmem e he) ..,
        Iff.rfl⟩) fun _ _ _ _ _ => rfl
    exact fun hd => hnot (List.mem_append_right _ hd)

lemma taken (h : CommandInv T s free nodes avail done u n) (ht : s.callers t = .calling c .waiting)
    (hc : c.completed = false) :
    CommandInv T (s.setCaller t (.calling { c with completed := true, answer := s.answers c.cmdDescIdx }
      (.copied (slice s.mem c.respPaAddr c.respSize)))) free nodes avail done u n := by
  obtain ⟨hstored, ⟨-, hwoken, w, hans, hlen, hw⟩ | ⟨htrue, -⟩⟩ := h.calling ht
  · have hone : c.woken ≠ 0 := by omega
    refine ⟨h.freeList, h.pending, h.holdings.same (by rw [ht]; rfl) (by rw [ht]; rfl) ?_ ?_, h.rings,
      h.handler, ?_, h.seen⟩
    · rw [ht]
      exact (eq_false hone).symm
    · rw [ht]
      exact (if_neg hone).symm
    · refine update_callers ⟨{ hstored with }, hwoken, length_slice .., w, hans, ?_⟩ fun t' _ =>
        (h.callers t').keep rfl rfl rfl
      rw [← hw, ← slice_take hlen]
      exact List.take_prefix ..
  · rw [htrue] at hc
    cases hc

lemma cleaned (h : CommandInv T s free nodes avail done u n) {resp : List UInt8}
    (ht : s.callers t = .calling c (.copied resp)) :
    CommandInv T ((cleanupCommand s c.cmdDescIdx c.respDescIdx (some c.storage)).setCaller t (.succeeded c resp))
      (c.respDescIdx :: c.cmdDescIdx :: free) nodes avail done u n := by
  have hfinished : Finished c resp := (h.calling ht).2
  have hdescs : descsOf (s.callers t) = [c.cmdDescIdx, c.respDescIdx] := by rw [ht]; rfl
  have hcmd : c.cmdDescIdx ∈ descsOf (s.callers t) := by simp [hdescs]
  have hresp : c.respDescIdx ∈ descsOf (s.callers t) := by simp [hdescs]
  have hcmdlt := h.holdings.desc_lt hcmd
  have hresplt := h.holdings.desc_lt hresp
  have hne : c.respDescIdx ≠ c.cmdDescIdx := by
    have hn := h.holdings.descs.share_nodup t
    rw [Function.comp_apply, hdescs] at hn
    simp only [List.nodup_cons, List.mem_singleton] at hn
    exact Ne.symm hn.1
  have hfree := h.freeList.freeDesc (h.holdings.descs.not_free t _ hcmd) hcmdlt h.size_le16
  rw [freeDesc_eq hcmdlt] at hfree
  have hfree := hfree.freeDesc (List.not_mem_cons_of_ne_of_not_mem hne (h.holdings.descs.not_free t _ hresp)) hresplt
    h.size_le16
  rw [freeDesc_eq (by exact hresplt)] at hfree
  have hclean : cleanupCommand s c.cmdDescIdx c.respDescIdx (some c.storage) =
      { s.withDescs (Function.update (Function.update s.q.descTable c.cmdDescIdx ⟨0, 0, 0, le16 s.q.firstFreeDescIdx⟩)
          c.respDescIdx ⟨0, 0, 0, le16 (le16 c.cmdDescIdx)⟩) (le16 c.respDescIdx) with
        pages := s.pages.erase c.storage } := by
    rw [cleanupCommand, if_pos (Int.natCast_nonneg _), if_pos (Int.natCast_nonneg _)]
    dsimp only
    rw [freeDesc_eq (i := c.cmdDescIdx) hcmdlt, freeDesc_eq (i := c.respDescIdx) (by exact hresplt)]
    rfl
  rw [hclean]
  refine ⟨hfree, h.pending, h.holdings.finish ht, h.rings.congr rfl rfl rfl rfl rfl, h.handler, ?_, h.seen⟩
  refine update_callers hfinished fun t' ht' => (h.callers t').frame
    (fun e he => ⟨?_, rfl, Iff.rfl⟩) fun _ _ _ _ _ => rfl
  exact (Function.update_of_ne (h.desc_ne ht' hresp e he) ..).trans (Function.update_of_ne (h.desc_ne ht' hcmd e he) ..)

lemma fetched (h : CommandInv T s free nodes (d :: avail) done u n) :
    CommandInv T { s with
      held := s.q.availRing (s.lastAvailIdx % s.q.size) :: s.held
      lastAvailIdx := le16 (s.lastAvailIdx + 1) } free nodes avail done u n := by
  obtain ⟨hd, hrings⟩ := h.rings.fetch
  refine ⟨h.freeList, h.pending, h.holdings.perm_flight ?_, hrings, h.handler,
    fun t => (h.callers t).keep rfl rfl rfl, h.seen⟩
  rw [hd]
  simp only [List.cons_append, List.append_assoc]
  exact List.perm_middle.symm

lemma prepared (h : CommandInv T s (d :: b :: free) nodes avail done u n) (ht : (s.callers t).isCalling = false)
    {cmd : List UInt8} {respSize p first : ℕ} (hp : p ∉ s.pages) (hcmd : cmd.length < 2 ^ 31)
    (hresp : respSize < 2 ^ 31)
    (hfits : add32 (roundUp32 cmd.length 8) respSize < 4096)
    (hfree : SplitVirtQueue.FreeList { s.q with firstFreeDescIdx := first } free) :
    CommandInv T (VirtioGpu.setCaller { s with
        q := describeCommand { s.q with firstFreeDescIdx := first } ⟨cmd, respSize, d, b, p, true, 0, none⟩
        pages := insert p s.pages
        mem := overwrite s.mem (p * size4KB) cmd } t (.calling ⟨cmd, respSize, d, b, p, true, 0, none⟩ .prepared))
      free nodes avail done u n := by
  have hn := h.holdings.descs.free_nodup
  simp only [List.nodup_cons, List.mem_cons, not_or] at hn
  obtain ⟨⟨hdb, hdfree⟩, hbfree, -⟩ := hn
  have hlt : ∀ e ∈ d :: b :: free, e < s.q.size := fun e he => h.holdings.descs.mem_of_free he
  have hb16 : le16 b = b := le16_of_lt ((hlt b (by simp)).trans_le h.size_le16)
  have hround := le_roundUp32 (a := cmd.length) (b := 8) (by decide) (by omega)
  have hround' := roundUp32_lt (a := cmd.length) (b := 8) (by decide) (by omega)
  have hdvd := dvd_roundUp32 cmd.length 8
  rw [add32_of_lt (by omega)] at hfits
  refine ⟨(hfree.setDesc hdfree _).setDesc hbfree _, h.pending, h.holdings.start ht hp rfl rfl,
    h.rings.congr rfl rfl rfl rfl rfl, h.handler, update_callers ⟨⟨?_, ?_, ?_, ?_, ?_⟩, rfl, rfl⟩ ?_, h.seen⟩
  · refine (Function.update_of_ne hdb ..).trans ((Function.update_self ..).trans ?_)
    dsimp only
    rw [hb16]
  · exact Function.update_self ..
  · exact Nat.add_le_add_left hround _
  · change p * size4KB + roundUp32 cmd.length 8 + respSize < p * size4KB + 4096
    omega
  · exact slice_overwrite ..
  · intro t' _
    refine (h.callers t').frame (fun e he => ⟨?_, rfl, Iff.rfl⟩) fun p' hp' => ?_
    · have hfree' := h.holdings.descs.not_free t' e he
      simp only [List.mem_cons, not_or] at hfree'
      exact (Function.update_of_ne hfree'.2.1 ..).trans (Function.update_of_ne hfree'.1 ..)
    · have hne : p' ≠ p := by
        rintro rfl
        exact hp (h.holdings.storage.mem_of_share (i := t') hp')
      exact samePage_overwrite hne le_rfl (Nat.add_le_add_left (by change cmd.length ≤ 4096; omega) _) rfl

lemma completeCommand_eq (h : Stored s c) (resp : List UInt8) :
    completeCommand s c.cmdDescIdx resp = { s with
      q := { s.q with
        usedRing := Function.update s.q.usedRing (s.q.usedIdx % s.q.size) ⟨c.cmdDescIdx, resp.length⟩
        usedIdx := le16 (s.q.usedIdx + 1) }
      mem := overwrite s.mem c.respPaAddr resp
      usedBuffer := true
      held := s.held.erase c.cmdDescIdx
      answers := Function.update s.answers c.cmdDescIdx (some (c.cmd, resp)) } := by
  simp only [completeCommand, h.cmdDesc, h.respDesc, h.cmd]

lemma completed (h : CommandInv T s free nodes avail done u n) (hd : d ∈ s.held) {resp : List UInt8}
    (hlen : resp.length ≤ (s.q.descTable (s.q.descTable d).next).len) (hidle : T → s.handler = .idle) :
    CommandInv T (completeCommand s d resp) free nodes avail (done ++ [d]) u n := by
  have hflight : d ∈ avail ++ s.held ++ done := List.mem_append_left _ (List.mem_append_right _ hd)
  obtain ⟨t, c, ht, hwoken, rfl⟩ := h.holdings.owner hflight
  obtain ⟨hstored, hstage⟩ := h.calling ht
  have hmem : c.cmdDescIdx ∈ descsOf (s.callers t) := by rw [ht]; exact List.mem_cons_self
  rw [hstored.cmdDesc, hstored.respDesc] at hlen
  have hroom := h.holdings.room h.size_pos
  rw [List.length_append] at hroom
  rw [completeCommand_eq hstored]
  refine ⟨h.freeList.congr rfl rfl rfl, h.pending, h.holdings.perm_flight ?_, h.rings.complete (by omega) _,
    ?_, fun t' => ?_,
    fun hT => ?_⟩
  · have hperm := List.perm_cons_erase hd
    refine ((hperm.append_left avail).append_right done).trans ?_
    simp only [List.append_assoc, List.cons_append]
    refine List.Perm.append_left _ ?_
    rw [← List.append_assoc]
    exact (List.perm_append_singleton _ _).symm
  · rw [List.length_append, List.length_singleton]
    cases hs : s.handler with
    | loop idx used =>
      have hat := h.handler_at hs
      exact ⟨hat.1, hat.2.1, Nat.le_succ_of_le hat.2.2⟩
    | _ => exact h.handler_at hs
  · by_cases he : t' = t
    · subst he
      rw [ht]
      refine ⟨{ hstored with cmd := ?_ }, Or.inr ?_⟩
      · exact (slice_overwrite_of_disjoint (Or.inl hstored.apart)).trans hstored.cmd
      · rcases hstage with ⟨-, hone, -⟩ | ⟨htrue, -, -⟩
        · rw [hone] at hwoken
          cases hwoken
        · exact ⟨htrue, hwoken, Or.inl ⟨by simp, resp, Function.update_self .., hlen, slice_overwrite ..⟩⟩
    · refine (h.callers t').frame (fun e hmem' => ?_) fun p hp => ?_
      · have hne := h.desc_ne he hmem e hmem'
        exact ⟨rfl, Function.update_of_ne hne .., by simp [hne]⟩
      · have hne : p ≠ c.storage := by
          rintro rfl
          exact he (h.holdings.storage.holder t' t c.storage hp (by simp [ht, storageOf]))
        have hfits := hstored.fits
        refine samePage_overwrite (o := c.respPaAddr) (w := resp) hne (Nat.le_add_right _ _) ?_ rfl
        change c.respPaAddr + resp.length ≤ c.cmdPaAddr + size4KB
        dsimp only at hlen
        omega
  · rw [hidle hT]
    exact fun _ => rfl

lemma entered (h : CommandInv T s free nodes avail done u n) (hidle : s.handler = .idle) :
    CommandInv T { s with
      handler := if s.usedBuffer then .loop s.q.lastSeenUsedIdx (s.q.usedIdx % s.q.size) else .acking }
      free nodes avail done u done.length := by
  have hat := h.handler_at hidle
  refine ⟨h.freeList, h.pending, h.holdings, h.rings, ?_,
    fun t => (h.callers t).keep rfl rfl rfl, fun hT => ?_⟩
  · dsimp only
    split
    · refine ⟨hat, ?_, le_rfl⟩
      rw [h.rings.usedIdx, le16_mod h.rings.size_dvd]
    · exact hat
  · have hseen := h.handler_seen hT hidle
    dsimp only
    split
    · rfl
    · rename_i hclear
      exact Nat.eq_zero_of_not_pos fun hpos => hclear (hseen hpos)

lemma meet (h : CommandInv T s free nodes avail done u n) {idx used : ℕ} (hs : s.handler = .loop idx used) :
    idx = used ↔ n = 0 := by
  have hat := h.handler_at hs
  obtain ⟨hidx, hused, hle⟩ := hat
  have hroom := h.holdings.room h.size_pos
  rw [List.length_append] at hroom
  refine ⟨fun he => ?_, fun he => by rw [hidx, hused, he, add_zero]⟩
  have hinj : (u + 0) % s.q.size = (u + n) % s.q.size := by rw [add_zero, ← hidx, ← hused, he]
  exact (add_mod_inj hinj (Nat.zero_le n) (by omega)).symm

lemma left (h : CommandInv T s free nodes avail done u n) {idx used : ℕ} (hs : s.handler = .loop idx used)
    (he : idx = used) :
    CommandInv T
      { s with q := { s.q with lastSeenUsedIdx := used }, handler := .acking } free nodes avail done u n := by
  have hzero := (h.meet hs).mp he
  have hat := h.handler_at hs
  refine ⟨h.freeList.congr rfl rfl rfl, h.pending, h.holdings, h.rings.congr rfl rfl rfl rfl rfl, he.symm.trans hat.1,
    fun t => (h.callers t).keep rfl rfl rfl, fun hT => ?_⟩
  have hseen := h.handler_seen hT hs
  exact hseen.symm.trans hzero

lemma acked (h : CommandInv T s free nodes avail done u n) (hs : s.handler = .acking) :
    CommandInv T { s with usedBuffer := false, handler := .idle } free nodes avail done u n := by
  have hat := h.handler_at hs
  refine ⟨h.freeList, h.pending, h.holdings, h.rings, hat,
    fun t => (h.callers t).keep rfl rfl rfl, fun hT hpos => ?_⟩
  have hseen := h.handler_seen hT hs
  exact absurd hseen hpos.ne'

lemma found (h : CommandInv T s free nodes avail (d :: done) u n) :
    ∃ t c before after, s.callers t = .calling c .waiting ∧ c.woken = 0 ∧ c.cmdDescIdx = d ∧
      nodes = before ++ t :: after ∧ handleUsedDescriptor s d =
        .ok (VirtioGpu.setCaller { s with pendingRequests := s.pendingRequests.remove t } t (s.callers t).release) := by
  have hflight : d ∈ avail ++ s.held ++ d :: done := List.mem_append_right _ List.mem_cons_self
  obtain ⟨t, c, ht, hwoken, hd⟩ := h.holdings.owner hflight
  have hmem : t ∈ nodes := by
    rw [h.holdings.mem_nodes, Function.comp_apply, ht]
    exact hwoken
  obtain ⟨before, after, hnodes⟩ := List.append_of_mem hmem
  refine ⟨t, c, before, after, ht, hwoken, hd, hnodes, ?_⟩
  have hlive : ∀ t ∈ nodes, (s.callers t).isCalling = true := by
    intro t ht
    obtain ⟨-, hcalling, -⟩ := isCalling_of_isPending ((h.holdings.mem_nodes t).mp ht)
    exact hcalling
  have hhead : (s.callers t).hasHead d = true := by
    rw [ht]
    exact decide_eq_true hd
  have hfind : nodes.find? (fun t => (s.callers t).hasHead d) = some t := by
    cases hf : nodes.find? (fun t => (s.callers t).hasHead d) with
    | none => exact absurd hhead (List.find?_eq_none.mp hf t hmem)
    | some t' =>
      have hhead' := List.find?_some hf
      rw [h.holdings.descs.holder t' t d (mem_descsOf_of_hasHead hhead') (mem_descsOf_of_hasHead hhead)]
  have hfuel := h.holdings.length_nodes h.pending.nodup
  rw [handleUsedDescriptor]
  have hfirst : s.pendingRequests.findFirst (fun t => (s.callers t).isCalling) (fun t => (s.callers t).hasHead d)
      s.q.size s.pendingRequests.head = .ok (some t) := by
    rw [h.pending.findFirst hlive hfuel, hfind]
  simp only [hfirst, ok_bind]
  rfl

lemma woken (h : CommandInv T s free nodes avail done u n) {idx used : ℕ} (hs : s.handler = .loop idx used)
    (hne : idx ≠ used) (hok : handleUsedDescriptor s (s.q.usedRing idx).id = .ok s') :
    ∃ nodes done u n,
      CommandInv T { s' with handler := .loop ((idx + 1) % s.q.size) used } free nodes avail done u n := by
  have hn : n ≠ 0 := fun he => hne ((h.meet hs).mpr he)
  have hat := h.handler_at hs
  obtain ⟨hidx, hused, hle⟩ := hat
  cases done with
  | nil => exact absurd (Nat.le_zero.mp hle) hn
  | cons d done =>
    obtain ⟨hid, hrings⟩ := h.rings.consume
    obtain ⟨t, c, before, after, ht, hwoken, rfl, rfl, hfound⟩ := h.found
    rw [hidx, hid, hfound] at hok
    obtain rfl := Except.ok.inj hok
    obtain ⟨hstored, hstage⟩ := h.calling ht
    have hmem : c.cmdDescIdx ∈ descsOf (s.callers t) := by rw [ht]; exact List.mem_cons_self
    have hn' : u + 1 + (n - 1) = u + n := by omega
    refine ⟨before ++ after, done, u + 1, n - 1, h.freeList, h.pending.remove, ?_, hrings, ⟨?_, ?_, ?_⟩, ?_,
      fun hT => ?_⟩
    · exact (h.holdings.perm_flight List.perm_middle).wake h.pending.nodup ht hwoken
    · change (idx + 1) % s.q.size = (u + 1) % s.q.size
      rw [hidx, Nat.mod_add_mod]
    · rw [hn']
      exact hused
    · rw [List.length_cons] at hle
      omega
    · refine update_callers ?_ fun t' ht' => (h.callers t').frame (fun e he => ⟨rfl, rfl, ?_⟩) fun _ _ _ _ _ => rfl
      · rw [ht]
        refine ⟨{ hstored with }, Or.inl ⟨rfl, by rw [hwoken], ?_⟩⟩
        rcases hstage with ⟨-, hone, -⟩ | ⟨-, -, ⟨-, hanswered⟩ | ⟨hnot, -⟩⟩
        · rw [hone] at hwoken
          cases hwoken
        · exact hanswered
        · exact absurd List.mem_cons_self hnot
      · rw [List.mem_cons, or_iff_right (h.desc_ne ht' hmem e he)]
    · have hseen := h.seen hT
      rw [hs, List.length_cons] at hseen
      change n = done.length + 1 at hseen
      change n - 1 = done.length
      omega

lemma step (h : CommandInv T s free nodes avail done u n) {act : GpuAct} (hs : GpuStep s act s')
    (hT : T → Noticed s act) : ∃ free nodes avail done u n, CommandInv T s' free nodes avail done u n := by
  cases hs with
  | @start _ t cmd respSize page hidle ht hcmd hresp hpage hok =>
    have hfits : add32 (roundUp32 cmd.length 8) respSize < 4096 := (kassert_bind_eq_ok.mp hok).1
    by_cases hfew : free.length < 2 ∨ page = none
    · obtain ⟨descTable, first, free', hs', hfree, hp, hd⟩ :=
        startCommand_refused (t := t) h.freeList h.holdings.descs.free_nodup h.size_le16 hfits hfew
      rw [hs'] at hok
      obtain rfl := Except.ok.inj hok
      exact ⟨_, _, _, _, _, _, h.refused ht hfree hp hd⟩
    · rw [not_or, ← ne_eq, Option.ne_none_iff_exists'] at hfew
      obtain ⟨htwo, p, rfl⟩ := hfew
      obtain ⟨d, b, rest, rfl⟩ : ∃ d b rest, free = d :: b :: rest := by
        match free, htwo with
        | d :: b :: rest, _ => exact ⟨d, b, rest, rfl⟩
        | [], htwo => exact absurd (Nat.two_pos) htwo
        | [_], htwo => exact absurd (Nat.one_lt_two) htwo
      obtain ⟨first, hs', hfree⟩ := startCommand_prepared (t := t) h.freeList hfits
      rw [hs'] at hok
      obtain rfl := Except.ok.inj hok
      exact ⟨_, _, _, _, _, _, h.prepared ht (hpage p rfl) hcmd hresp hfits hfree⟩
  | add hidle ht => exact ⟨_, _, _, _, _, _, h.listed ht⟩
  | enqueue hidle ht => exact ⟨_, _, _, _, _, _, h.enqueued ht⟩
  | take hidle ht hc => exact ⟨_, _, _, _, _, _, h.taken ht hc⟩
  | cleanup hidle ht => exact ⟨_, _, _, _, _, _, h.cleaned ht⟩
  | fetch hmore =>
    obtain ⟨d, avail, rfl⟩ := List.exists_cons_of_ne_nil (h.rings.ne_nil hmore)
    exact ⟨_, _, _, _, _, _, h.fetched⟩
  | complete hd hlen => exact ⟨_, _, _, _, _, _, h.completed hd hlen hT⟩
  | enter hidle => exact ⟨_, _, _, _, _, _, h.entered hidle⟩
  | used hs hne hok =>
    obtain ⟨nodes, done, u, n, h⟩ := h.woken hs hne hok
    exact ⟨_, _, _, _, _, _, h⟩
  | leave hs he => exact ⟨_, _, _, _, _, _, h.left hs he⟩
  | ack hs => exact ⟨_, _, _, _, _, _, h.acked hs⟩

lemma init (hs : virtioGpu.Init s) : ∃ free u, CommandInv T s free [] [] [] u 0 := by
  obtain ⟨⟨q, size, hq, hle, hdvd⟩, hused, hzero, havail, hlast, hhead, htail, hcallers, hpages, hidle, hheld⟩ := hs
  have hsize : s.q.size = size := by rw [hq]; rfl
  have hseen : s.q.lastSeenUsedIdx = 0 := by rw [hq]; rfl
  refine ⟨List.range size, s.q.usedIdx, ?_, .empty hhead htail, ⟨?_, ?_, ?_, ?_, ?_⟩,
    ⟨hsize ▸ hdvd, hlast ▸ havail, ?_, ?_, ?_, ?_⟩, ?_, fun t => ?_, fun _ => ?_⟩
  · rw [hq]
    exact q.virtqAlloc_freeList (by omega)
  · exact .of_idle List.nodup_range (fun d => by rw [hsize]; simp) fun t => by rw [Function.comp_apply, hcallers]; rfl
  · exact .of_idle List.nodup_nil (fun p => by rw [hpages]; simp) fun t => by rw [Function.comp_apply, hcallers]; rfl
  · intro t
    rw [Function.comp_apply, hcallers]
    exact iff_of_false List.not_mem_nil id
  · rw [hheld]
    exact List.nodup_nil
  · rw [hheld]
    exact .of_idle List.nodup_nil (fun d => Iff.rfl) fun t => by rw [Function.comp_apply, hcallers]; rfl
  · rw [hlast]
    exact (le16_of_lt havail).symm
  · exact fun k d hk => nomatch hk
  · exact (le16_of_lt hused).symm
  · exact fun k d hk => nomatch hk
  · rw [hidle]
    exact hseen.trans hzero.symm
  · rw [hcallers]
    trivial
  · rw [hidle]
    exact fun hpos => absurd hpos (lt_irrefl 0)

lemma safe (h : CommandInv T s free nodes avail done u n) : CommandsSafe s where
  succeeded t c resp ht := by
    have hok := h.callers t
    rwa [ht] at hok
  failed t rc ht := by
    have hok := h.callers t
    rwa [ht] at hok
  refused t cmd respSize page free' ht hfits hfree hfew := by
    obtain rfl : free' = free := hfree.chain.unique h.freeList.chain
    obtain ⟨descTable, first, free'', hs', hfree', hp, -⟩ :=
      startCommand_refused (t := t) h.freeList h.holdings.descs.free_nodup h.size_le16 hfits hfew
    exact ⟨_, hs', Function.update_self .., rfl, free'', hfree', hp.symm⟩
  woken t c ht := by
    obtain ⟨-, ⟨hfalse, hone, hanswered⟩ | ⟨htrue, hzero, -⟩⟩ := h.calling ht
    · exact ⟨hone.le, iff_of_true hfalse hone, fun _ => hanswered⟩
    · have hne : c.woken ≠ 1 := by omega
      exact ⟨by omega, iff_of_false (by simp [htrue]) hne, fun he => absurd he hne⟩
  pending := ⟨nodes, h.pending, h.holdings.mem_nodes⟩
  own idx used hs hne := by
    have hn : n ≠ 0 := fun he => hne ((h.meet hs).mpr he)
    have hat := h.handler_at hs
    obtain ⟨hidx, -, hle⟩ := hat
    cases done with
    | nil => exact absurd (Nat.le_zero.mp hle) hn
    | cons d done =>
      obtain ⟨hid, -⟩ := h.rings.consume
      obtain ⟨t, c, before, after, ht, hwoken, hd, -, hfound⟩ := h.found
      obtain ⟨-, ⟨-, hone, -⟩ | ⟨-, -, ⟨-, hanswered⟩ | ⟨hnot, -⟩⟩⟩ := h.calling ht
      · rw [hone] at hwoken
        cases hwoken
      · rw [hidx, hid]
        exact ⟨t, c, ht, hwoken, hd, hanswered, hfound⟩
      · exact absurd (hd ▸ List.mem_cons_self) hnot
  quiet hidle := by
    have hnot : ∀ t, _ := fun t => Holdings.not_calling (hidle t)
    refine ⟨⟨free, h.freeList, h.holdings.descs.perm_of_idle
      (fun t => (hnot t).1) List.nodup_range fun d => ?_⟩, ?_, ?_⟩
    · rw [List.mem_range, Set.mem_Iio]
    · refine Finset.eq_empty_of_forall_notMem fun p hp => ?_
      rcases (h.holdings.storage.mem_all p).mp hp with hp | ⟨t, hp⟩
      · cases hp
      · rw [Function.comp_apply, (hnot t).2.1] at hp
        cases hp
    · rw [h.pending.head]
      refine List.head?_eq_none_iff.mpr (List.eq_nil_iff_forall_not_mem.mpr fun t ht => ?_)
      have hp := (h.holdings.mem_nodes t).mp ht
      rw [Function.comp_apply, (hnot t).2.2.1] at hp
      exact hp

lemma delivered (h : CommandInv True s free nodes avail done u n) : Delivered s := by
  intro hidle hclear t c ht hans
  obtain ⟨-, ⟨-, hone, -⟩ | ⟨-, -, ⟨hd, -⟩ | ⟨-, hnone⟩⟩⟩ := h.calling ht
  · exact hone
  · have hseen := h.handler_seen trivial hidle
    rw [hseen (List.length_pos_of_mem hd)] at hclear
    cases hclear
  · exact absurd hnone hans

end CommandInv

section Runs

variable {s : VirtioGpu}

lemma commandInv_inductive :
    virtioGpu.Inductive fun s => ∃ free nodes avail done u n, CommandInv False s free nodes avail done u n := by
  refine ⟨fun s hs => ?_, fun s act s' h hs => ?_⟩
  · obtain ⟨free, u, h⟩ := CommandInv.init hs
    exact ⟨_, _, _, _, _, _, h⟩
  · obtain ⟨free, nodes, avail, done, u, n, h⟩ := h
    exact h.step hs False.elim

lemma commandInv_noticed : (virtioGpu.restrict Noticed).Inductive
    fun s => ∃ free nodes avail done u n, CommandInv True s free nodes avail done u n := by
  refine ⟨fun s hs => ?_, fun s act s' h hs => ?_⟩
  · obtain ⟨free, u, h⟩ := CommandInv.init hs
    exact ⟨_, _, _, _, _, _, h⟩
  · obtain ⟨free, nodes, avail, done, u, n, h⟩ := h
    exact h.step hs.1 fun _ => hs.2

/-- Whenever the device completes its chains. -/
theorem commands_safe (h : virtioGpu.Reachable s) : CommandsSafe s := by
  obtain ⟨free, nodes, avail, done, u, n, hi⟩ := h.invariant commandInv_inductive
  exact hi.safe

/-- The driver as `init` leaves it, with a control queue of four descriptors. -/
def gpuBoot : VirtioGpu where
  q := SplitVirtQueue.virtqAlloc ⟨0, 0, 0, fun _ => ⟨0, 0, 0, 0⟩, 0, fun _ => 0, 0, fun _ => ⟨0, 0⟩⟩ 4
  pendingRequests := ⟨none, none, fun _ => none, fun _ => none⟩
  callers _ := .idle
  pages := ∅
  mem _ := 0
  usedBuffer := false
  handler := .idle
  lastAvailIdx := 0
  held := []
  answers _ := none

lemma gpuBoot_init : virtioGpu.Init gpuBoot :=
  ⟨⟨_, 4, rfl, le_rfl, ⟨2 ^ 14, rfl⟩⟩, Nat.two_pow_pos 16, rfl, Nat.two_pow_pos 16, rfl, rfl, rfl,
    fun _ => rfl, rfl, rfl,
    rfl⟩

end Runs

end Pi0Os.Drivers
