import Pi0Os.Library.CircularIndex
import Pi0Os.Library.TransitionSystem
import Pi0Os.Drivers.SplitVirtQueue

/-! `foreach_used_descriptor` in the interrupt handler of `virtioinput.cpp`, beside a device that
goes on completing buffers while the handler runs. -/

namespace Pi0Os.Drivers

open Library

/-- `mark_descriptor_as_available`; `eventsbuf` is the physical address of the events. -/
def markDescriptorAsAvailable (eventsbuf : ℕ) (q : SplitVirtQueue) (descIdx : ℕ) : SplitVirtQueue :=
  (q.setDesc descIdx ⟨eventsbuf + descIdx * 8, 8, virtqDescFWrite, 0⟩).enqueueDesc descIdx

/-- Where the handler is: outside, at the test of the loop, or about to call the callback with an
identifier. `seen` is a ghost: the completions published when the handler read the used index. -/
inductive UsedLoop where
  | idle
  | loop (idx used seen : ℕ)
  | call (idx used seen id : ℕ)

structure UsedRing where
  q : SplitVirtQueue
  handler : UsedLoop
  lastAvailIdx : ℕ -- the device's own index
  held : List ℕ -- taken by the device and not completed
  written : List ℕ -- completed, but the used index does not cover them yet
  available : ℕ -- ghost: the buffers made available so far
  completions : List ℕ -- ghost: the identifiers completed so far
  passed : List ℕ -- ghost: the identifiers that the callback got

inductive UsedRingAct where
  | submit (descIdx : ℕ)
  | fetch
  | write (id len : ℕ)
  | publish
  | start
  | read
  | callback
  | finish

def UsedRing.makeAvailable (s : UsedRing) (eventsbuf descIdx : ℕ) : UsedRing :=
  { s with q := markDescriptorAsAvailable eventsbuf s.q descIdx, available := s.available + 1 }

variable (eventsbuf : ℕ)

/-- The driver submits while fewer than `size - 1` buffers are outstanding. The device completes the
buffers it holds in any order, and covers one or more of them by one write of the used index. -/
inductive UsedRingStep : UsedRing → UsedRingAct → UsedRing → Prop
  | submit {s descIdx} : s.handler = .idle → s.available + 1 < s.passed.length + s.q.size →
      UsedRingStep s (.submit descIdx) (s.makeAvailable eventsbuf descIdx)
  | fetch {s} : s.lastAvailIdx ≠ s.q.availIdx →
      UsedRingStep s .fetch { s with
        held := s.q.availRing (s.lastAvailIdx % s.q.size) :: s.held
        lastAvailIdx := le16 (s.lastAvailIdx + 1) }
  | write {s id len} : id ∈ s.held →
      UsedRingStep s (.write id len) { s with
        q := { s.q with
          usedRing := Function.update s.q.usedRing (le16 (s.q.usedIdx + s.written.length) % s.q.size) ⟨id, len⟩ }
        held := s.held.erase id
        written := s.written ++ [id] }
  | publish {s} :
      UsedRingStep s .publish { s with
        q := { s.q with usedIdx := le16 (s.q.usedIdx + s.written.length) }
        completions := s.completions ++ s.written
        written := [] }
  | start {s} : s.handler = .idle →
      UsedRingStep s .start { s with
        handler := .loop s.q.lastSeenUsedIdx (s.q.usedIdx % s.q.size) s.completions.length }
  | read {s idx used seen} : s.handler = .loop idx used seen → idx ≠ used →
      UsedRingStep s .read { s with handler := .call idx used seen (s.q.usedRing idx).id }
  -- the parameter of the callback is a `uint16_t`
  | callback {s idx used seen id} : s.handler = .call idx used seen id →
      UsedRingStep s .callback { s.makeAvailable eventsbuf (le16 id) with
        handler := .loop ((idx + 1) % s.q.size) used seen
        passed := s.passed ++ [le16 id] }
  | finish {s idx used seen} : s.handler = .loop idx used seen → idx = used →
      UsedRingStep s .finish { s with q := { s.q with lastSeenUsedIdx := used }, handler := .idle }

/-- The driver and the device start with equal indices, and nothing has been made available. -/
def usedRing : TransitionSystem UsedRing UsedRingAct where
  Init s := s.q.size ∣ 2 ^ 16 ∧ s.q.usedIdx < 2 ^ 16 ∧ s.q.lastSeenUsedIdx = s.q.usedIdx % s.q.size ∧
    s.q.availIdx < 2 ^ 16 ∧ s.lastAvailIdx = s.q.availIdx ∧ (∀ i, s.q.availRing i < 2 ^ 16) ∧
    s.handler = .idle ∧ s.held = [] ∧ s.written = [] ∧ s.available = 0 ∧ s.completions = [] ∧ s.passed = []
  Step := UsedRingStep eventsbuf

/-- Every completion goes to the callback once and in order, with the identifier that the device
wrote; a handler that returns has passed on all that were published when it began. -/
structure ExactlyOnce (s : UsedRing) : Prop where
  passed : s.passed <+: s.completions
  calls : ∀ idx used seen id, s.handler = .call idx used seen id → s.completions[s.passed.length]? = some (le16 id)
  rounds : ∀ idx used seen, s.handler = .loop idx used seen →
    s.passed.length ≤ seen ∧ seen ≤ s.completions.length ∧ (idx = used ↔ s.passed.length = seen)

def UsedLoop.At (u size lastSeen : ℕ) (passed completions : List ℕ) : UsedLoop → Prop
  | .idle => lastSeen = (u + passed.length) % size
  | .loop idx used seen => idx = (u + passed.length) % size ∧ used = (u + seen) % size ∧
      passed.length ≤ seen ∧ seen ≤ completions.length
  | .call idx used seen id => idx = (u + passed.length) % size ∧ used = (u + seen) % size ∧
      passed.length < seen ∧ seen ≤ completions.length ∧ completions[passed.length]? = some id

/-- `u` and `a` are the indices that the used and the available ring started with. -/
structure UsedRingInv (u a : ℕ) (s : UsedRing) : Prop where
  size : s.q.size ∣ 2 ^ 16
  usedIdx : s.q.usedIdx = le16 (u + s.completions.length)
  availIdx : s.q.availIdx = le16 (a + s.available)
  lastAvail : s.lastAvailIdx = le16 (a + (s.held.length + s.written.length + s.completions.length))
  fetched : s.held.length + s.written.length + s.completions.length ≤ s.available
  outstanding : s.available < s.passed.length + s.q.size
  availRing : ∀ i, s.q.availRing i < 2 ^ 16
  held : ∀ d ∈ s.held, d < 2 ^ 16
  passed : s.passed <+: s.completions
  entries : ∀ k id, s.passed.length ≤ k → (s.completions ++ s.written)[k]? = some id →
    (s.q.usedRing ((u + k) % s.q.size)).id = id ∧ id < 2 ^ 16
  handler : s.handler.At u s.q.size s.q.lastSeenUsedIdx s.passed s.completions

section Indices

lemma le16_mod {n : ℕ} (hn : n ∣ 2 ^ 16) (m : ℕ) : le16 m % n = m % n := Nat.mod_mod_of_dvd m hn

lemma le16_add (m k : ℕ) : le16 (le16 m + k) = le16 (m + k) := Nat.mod_add_mod ..

lemma le16_of_lt {m : ℕ} (h : m < 2 ^ 16) : le16 m = m := Nat.mod_eq_of_lt h

lemma le16_lt (m : ℕ) : le16 m < 2 ^ 16 := Nat.mod_lt _ (Nat.two_pow_pos 16)

end Indices

section Steps

variable {eventsbuf} {s s' : UsedRing} {u a : ℕ}

lemma UsedRingInv.size_le (h : UsedRingInv u a s) : s.q.size ≤ 2 ^ 16 := Nat.le_of_dvd (Nat.two_pow_pos 16) h.size

lemma UsedRingInv.submit (h : UsedRingInv u a s) (hroom : s.available + 1 < s.passed.length + s.q.size) (descIdx : ℕ) :
    UsedRingInv u a (s.makeAvailable eventsbuf descIdx) :=
  { h with
    availIdx := by
      change le16 (s.q.availIdx + 1) = _
      rw [h.availIdx, le16_add]
      rfl
    fetched := Nat.le_succ_of_le h.fetched
    outstanding := hroom
    availRing := by
      intro i
      change Function.update s.q.availRing (s.q.availIdx % s.q.size) (le16 descIdx) i < _
      by_cases hi : i = s.q.availIdx % s.q.size
      · rw [hi, Function.update_self]
        exact le16_lt _
      · rw [Function.update_of_ne hi]
        exact h.availRing i }

lemma UsedRingInv.fetch (h : UsedRingInv u a s) (hmore : s.lastAvailIdx ≠ s.q.availIdx) :
    UsedRingInv u a { s with
      held := s.q.availRing (s.lastAvailIdx % s.q.size) :: s.held
      lastAvailIdx := le16 (s.lastAvailIdx + 1) } :=
  { h with
    lastAvail := by
      change le16 (s.lastAvailIdx + 1) = le16 (a + (s.held.length + 1 + s.written.length + s.completions.length))
      rw [h.lastAvail, le16_add]
      congr 1
      omega
    fetched := by
      -- the device stops where the two indices meet
      have hne : s.held.length + s.written.length + s.completions.length ≠ s.available := by
        intro he
        exact hmore (by rw [h.lastAvail, h.availIdx, he])
      have := h.fetched
      change (s.held.length + 1) + s.written.length + s.completions.length ≤ s.available
      omega
    held := by
      intro d hd
      rcases List.mem_cons.mp hd with rfl | hd
      · exact h.availRing _
      · exact h.held d hd }

lemma UsedRingInv.write (h : UsedRingInv u a s) {id : ℕ} (hid : id ∈ s.held) (len : ℕ) :
    UsedRingInv u a { s with
      q := { s.q with
        usedRing := Function.update s.q.usedRing (le16 (s.q.usedIdx + s.written.length) % s.q.size) ⟨id, len⟩ }
      held := s.held.erase id
      written := s.written ++ [id] } := by
  have hlen := List.length_erase_of_mem hid
  have hpos := List.length_pos_of_mem hid
  have hfetched := h.fetched
  have hout := h.outstanding
  have hsum : (s.held.erase id).length + (s.written ++ [id]).length + s.completions.length =
      s.held.length + s.written.length + s.completions.length := by
    rw [hlen, List.length_append, List.length_singleton]
    omega
  have hslot : le16 (s.q.usedIdx + s.written.length) % s.q.size =
      (u + (s.completions ++ s.written).length) % s.q.size := by
    rw [h.usedIdx, le16_add, le16_mod h.size, List.length_append, add_assoc]
  refine { h with lastAvail := ?_, fetched := ?_, held := ?_, entries := ?_ }
  · exact h.lastAvail.trans (congrArg (fun n => le16 (a + n)) hsum.symm)
  · exact hsum.trans_le hfetched
  · exact fun d hd => h.held d (List.mem_of_mem_erase hd)
  · intro k i hk hi
    change (Function.update s.q.usedRing (le16 (s.q.usedIdx + s.written.length) % s.q.size) ⟨id, len⟩ _).id = _ ∧ _
    change (s.completions ++ (s.written ++ [id]))[k]? = some i at hi
    rw [hslot]
    rw [← List.append_assoc] at hi
    rcases lt_trichotomy k (s.completions ++ s.written).length with hlt | rfl | hgt
    · rw [List.getElem?_append_left hlt] at hi
      -- the entries not passed on yet span less than the ring
      have hwin : (s.completions ++ s.written).length < k + s.q.size := by
        have : s.passed.length ≤ k := hk
        rw [List.length_append]
        omega
      rw [Function.update_of_ne (add_mod_ne hlt hwin)]
      exact h.entries k i hk hi
    · rw [List.getElem?_concat_length] at hi
      cases hi
      rw [Function.update_self]
      exact ⟨rfl, h.held id hid⟩
    · rw [List.getElem?_eq_none (by rw [List.length_append, List.length_singleton]; omega)] at hi
      cases hi

lemma UsedRingInv.publish (h : UsedRingInv u a s) :
    UsedRingInv u a { s with
      q := { s.q with usedIdx := le16 (s.q.usedIdx + s.written.length) }
      completions := s.completions ++ s.written
      written := [] } := by
  have hle : s.completions.length ≤ (s.completions ++ s.written).length := by
    rw [List.length_append]
    exact Nat.le_add_right _ _
  have hsum : s.held.length + ([] : List ℕ).length + (s.completions ++ s.written).length =
      s.held.length + s.written.length + s.completions.length := by
    rw [List.length_append, List.length_nil]
    omega
  refine { h with usedIdx := ?_, lastAvail := ?_, fetched := ?_, passed := ?_, entries := ?_, handler := ?_ }
  · change le16 (s.q.usedIdx + s.written.length) = le16 (u + (s.completions ++ s.written).length)
    rw [h.usedIdx, le16_add, List.length_append, add_assoc]
  · exact h.lastAvail.trans (congrArg (fun n => le16 (a + n)) hsum.symm)
  · exact hsum.trans_le h.fetched
  · exact h.passed.trans (List.prefix_append _ _)
  · intro k i hk hi
    change ((s.completions ++ s.written) ++ [])[k]? = some i at hi
    rw [List.append_nil] at hi
    exact h.entries k i hk hi
  · have hh := h.handler
    change s.handler.At u s.q.size s.q.lastSeenUsedIdx s.passed (s.completions ++ s.written)
    cases hs : s.handler with
    | idle =>
      rw [hs] at hh
      exact hh
    | loop idx used seen =>
      rw [hs] at hh
      exact ⟨hh.1, hh.2.1, hh.2.2.1, hh.2.2.2.trans hle⟩
    | call idx used seen id =>
      rw [hs] at hh
      obtain ⟨hidx, hused, hlt, hseen, hid⟩ := hh
      refine ⟨hidx, hused, hlt, hseen.trans hle, ?_⟩
      rw [List.getElem?_append_left (hlt.trans_le hseen)]
      exact hid

lemma UsedRingInv.start (h : UsedRingInv u a s) (hs : s.handler = .idle) :
    UsedRingInv u a { s with
      handler := .loop s.q.lastSeenUsedIdx (s.q.usedIdx % s.q.size) s.completions.length } := by
  have hh := h.handler
  rw [hs] at hh
  refine { h with handler := ⟨hh, ?_, h.passed.length_le, le_refl _⟩ }
  rw [h.usedIdx, le16_mod h.size]

lemma UsedRingInv.meet (h : UsedRingInv u a s) {idx used seen : ℕ} (hs : s.handler = .loop idx used seen) :
    s.passed.length ≤ seen ∧ seen ≤ s.completions.length ∧ (idx = used ↔ s.passed.length = seen) := by
  have hh := h.handler
  rw [hs] at hh
  obtain ⟨hidx, hused, hle, hseen⟩ := hh
  refine ⟨hle, hseen, fun he => ?_, fun he => by rw [hidx, hused, he]⟩
  have hfetched := h.fetched
  have hout := h.outstanding
  exact add_mod_inj (by rw [← hidx, ← hused, he]) hle (by omega)

lemma UsedRingInv.read (h : UsedRingInv u a s) {idx used seen : ℕ} (hs : s.handler = .loop idx used seen)
    (hne : idx ≠ used) : UsedRingInv u a { s with handler := .call idx used seen (s.q.usedRing idx).id } := by
  obtain ⟨hle, hseen, hmeet⟩ := h.meet hs
  have hlt : s.passed.length < seen := lt_of_le_of_ne hle fun he => hne (hmeet.mpr he)
  have hh := h.handler
  rw [hs] at hh
  obtain ⟨hidx, hused, -, -⟩ := hh
  obtain ⟨id, hk⟩ : ∃ id, s.completions[s.passed.length]? = some id :=
    ⟨_, List.getElem?_eq_getElem (hlt.trans_le hseen)⟩
  refine { h with handler := ⟨hidx, hused, hlt, hseen, ?_⟩ }
  have he := h.entries s.passed.length _ (le_refl _) (by rw [List.getElem?_append_left (hlt.trans_le hseen), hk])
  rw [hidx, he.1, hk]

lemma UsedRingInv.next (h : UsedRingInv u a s) {idx used seen id : ℕ} (hs : s.handler = .call idx used seen id) :
    s.completions[s.passed.length]? = some id ∧ id < 2 ^ 16 := by
  have hh := h.handler
  rw [hs] at hh
  obtain ⟨-, -, hlt, hseen, hid⟩ := hh
  refine ⟨hid, (h.entries s.passed.length id (le_refl _) ?_).2⟩
  rw [List.getElem?_append_left (hlt.trans_le hseen), hid]

lemma UsedRingInv.callback (h : UsedRingInv u a s) {idx used seen id : ℕ} (hs : s.handler = .call idx used seen id) :
    UsedRingInv u a { s.makeAvailable eventsbuf (le16 id) with
      handler := .loop ((idx + 1) % s.q.size) used seen
      passed := s.passed ++ [le16 id] } := by
  obtain ⟨hid, hid16⟩ := h.next hs
  have hh := h.handler
  rw [hs] at hh
  obtain ⟨hidx, hused, hlt, hseen, -⟩ := hh
  have hlen : (s.passed ++ [id]).length = s.passed.length + 1 := List.length_append
  have hpass : UsedRingInv u a { s with
      handler := .loop ((idx + 1) % s.q.size) used seen
      passed := s.passed ++ [id] } := by
    refine { h with outstanding := ?_, passed := ?_, entries := ?_, handler := ⟨?_, hused, ?_, hseen⟩ }
    · exact h.outstanding.trans_le (Nat.add_le_add_right (hlen ▸ Nat.le_succ _) _)
    · obtain ⟨rest, hrest⟩ := h.passed
      rw [← hrest, List.getElem?_append_right (le_refl _), Nat.sub_self] at hid
      cases rest with
      | nil => cases hid
      | cons x rest =>
        cases hid
        exact ⟨rest, by rw [List.append_assoc, List.singleton_append, hrest]⟩
    · exact fun k i hk => h.entries k i ((Nat.le_succ _).trans (hlen.ge.trans hk))
    · rw [hidx, Nat.mod_add_mod, hlen, add_assoc]
    · exact hlen.trans_le hlt
  have hroom : s.available + 1 < (s.passed ++ [id]).length + s.q.size := by
    have := h.outstanding
    omega
  rw [le16_of_lt hid16]
  exact hpass.submit hroom id

lemma UsedRingInv.finish (h : UsedRingInv u a s) {idx used seen : ℕ} (hs : s.handler = .loop idx used seen)
    (he : idx = used) : UsedRingInv u a { s with q := { s.q with lastSeenUsedIdx := used }, handler := .idle } := by
  have hh := h.handler
  rw [hs] at hh
  exact { h with handler := he.symm.trans hh.1 }

lemma usedRing_inductive : (usedRing eventsbuf).Inductive fun s => ∃ u a, UsedRingInv u a s := by
  constructor
  · rintro s ⟨hsize, hused, hlast, havail, hdev, hring, hidle, hheld, hwritten, hzero, hcomp, hpassed⟩
    have hpos : 0 < s.q.size := Nat.pos_of_dvd_of_pos hsize (Nat.two_pow_pos 16)
    refine ⟨s.q.usedIdx, s.q.availIdx, hsize, ?_, ?_, ?_, ?_, ?_, hring, ?_, ?_, ?_, ?_⟩
    · rw [hcomp, List.length_nil, add_zero, le16_of_lt hused]
    · rw [hzero, add_zero, le16_of_lt havail]
    · rw [hheld, hwritten, hcomp, hdev]
      exact (le16_of_lt havail).symm
    · rw [hheld, hwritten, hcomp]
      exact Nat.zero_le _
    · rw [hzero]
      exact Nat.add_pos_right _ hpos
    · rw [hheld]
      exact fun d hd => absurd hd List.not_mem_nil
    · rw [hpassed]
      exact List.nil_prefix
    · rw [hcomp, hwritten]
      intro k id _ hi
      cases hi
    · rw [hidle, hpassed]
      exact hlast
  · rintro s act s' ⟨u, a, h⟩ hs
    refine ⟨u, a, ?_⟩
    cases hs with
    | submit _ hroom => exact h.submit hroom _
    | fetch hmore => exact h.fetch hmore
    | write hid => exact h.write hid _
    | publish => exact h.publish
    | start hidle => exact h.start hidle
    | read hloop hne => exact h.read hloop hne
    | callback hcall => exact h.callback hcall
    | finish hloop he => exact h.finish hloop he

theorem usedRing_exactlyOnce (hs : (usedRing eventsbuf).Reachable s) : ExactlyOnce s := by
  obtain ⟨u, a, h⟩ := hs.invariant usedRing_inductive
  refine ⟨h.passed, ?_, fun idx used seen hloop => h.meet hloop⟩
  intro idx used seen id hcall
  obtain ⟨hid, hid16⟩ := h.next hcall
  rw [hid, le16_of_lt hid16]

def eventQueue : SplitVirtQueue := ⟨4, 0, 0, fun i => ⟨0, 0, 0, i + 1⟩, 0, fun _ => 0, 0, fun _ => ⟨0, 0⟩⟩

def eventRing : UsedRing := ⟨eventQueue, .idle, 0, [], [], 0, [], []⟩

theorem usedRing_exactlyOnce_event : ∃ s, (usedRing 0).Reachable s ∧ s.passed = [2] ∧ ExactlyOnce s := by
  have h₀ : (usedRing 0).Reachable eventRing :=
    .init ⟨⟨2 ^ 14, rfl⟩, Nat.two_pow_pos 16, rfl, Nat.two_pow_pos 16, rfl, fun _ => Nat.two_pow_pos 16, rfl, rfl, rfl,
      rfl, rfl, rfl⟩
  have h₁ := h₀.step (a := UsedRingAct.submit 2) (.submit rfl (by decide))
  have h₂ := h₁.step (a := UsedRingAct.fetch) (.fetch (by decide))
  have h₃ := h₂.step (a := UsedRingAct.write 2 8) (.write (by decide))
  have h₄ := h₃.step (a := UsedRingAct.publish) .publish
  have h₅ := h₄.step (a := UsedRingAct.start) (.start rfl)
  have h₆ := h₅.step (a := UsedRingAct.read) (.read rfl (by decide))
  have h₇ := h₆.step (a := UsedRingAct.callback) (.callback rfl)
  exact ⟨_, h₇, rfl, usedRing_exactlyOnce h₇⟩

end Steps

end Pi0Os.Drivers
