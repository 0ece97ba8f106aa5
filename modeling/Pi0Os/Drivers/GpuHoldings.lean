import Pi0Os.Library.Leases
import Pi0Os.Drivers.VirtioGpu

/-! What the calls of `cmd_send_receive` hold between them: descriptors, pages, pending requests and chains
in flight. -/

namespace Pi0Os.Drivers

open Kernel Library

def descsOf : GpuCaller → List ℕ
  | .calling c _ => [c.cmdDescIdx, c.respDescIdx]
  | _ => []

def storageOf : GpuCaller → List ℕ
  | .calling c _ => [c.storage]
  | _ => []

def isPending : GpuCaller → Prop
  | .calling c .listed => c.woken = 0
  | .calling c .waiting => c.woken = 0
  | _ => False

/-- The head of the chain that the device has or the handler has not seen. -/
def flightOf : GpuCaller → List ℕ
  | .calling c .waiting => if c.woken = 0 then [c.cmdDescIdx] else []
  | _ => []


/-- What the calls hold, which of them are pending and which have a chain in flight. -/
structure Holdings (callers : ℕ → GpuCaller) (size : ℕ) (pages : Finset ℕ) (free nodes flight : List ℕ) : Prop where
  descs : Lent (descsOf ∘ callers) (Set.Iio size) free
  storage : Lent (storageOf ∘ callers) pages []
  mem_nodes : ∀ t, t ∈ nodes ↔ (isPending ∘ callers) t
  flight_nodup : flight.Nodup
  chains : Lent (flightOf ∘ callers) {d | d ∈ flight} []

section Callers

variable {β : Type*} {f : GpuCaller → β} {callers : ℕ → GpuCaller} {caller : GpuCaller} {t d : ℕ}

lemma comp_update_same (h : f caller = f (callers t)) : f ∘ Function.update callers t caller = f ∘ callers := by
  rw [Function.comp_update, h]
  exact Function.update_eq_self t _

lemma mem_flightOf : d ∈ flightOf caller ↔ ∃ c, caller = .calling c .waiting ∧ c.woken = 0 ∧ c.cmdDescIdx = d := by
  cases caller with
  | calling c stage =>
    cases stage with
    | waiting =>
      simp only [flightOf]
      split <;> simp_all [eq_comm]
    | _ => simp [flightOf]
  | _ => simp [flightOf]

lemma mem_descsOf_of_hasHead (h : caller.hasHead d = true) : d ∈ descsOf caller := by
  cases caller with
  | calling c stage =>
    rw [← of_decide_eq_true h]
    exact List.mem_cons_self
  | _ => cases h

lemma isCalling_of_isPending (h : isPending caller) : ∃ d, caller.isCalling ∧ caller.hasHead d := by
  cases caller with
  | calling c stage => exact ⟨c.cmdDescIdx, rfl, decide_eq_true rfl⟩
  | _ => cases h

end Callers

namespace Holdings

variable {callers : ℕ → GpuCaller} {caller : GpuCaller} {c : GpuCommand} {size t d b p : ℕ} {pages : Finset ℕ}
variable {free free' nodes nodes' flight flight' : List ℕ}

lemma not_calling (h : caller.isCalling = false) :
    descsOf caller = [] ∧ storageOf caller = [] ∧ isPending caller = False ∧ flightOf caller = [] := by
  cases caller with
  | calling c stage => cases h
  | _ => exact ⟨rfl, rfl, rfl, rfl⟩

lemma desc_lt (h : Holdings callers size pages free nodes flight) (hd : d ∈ descsOf (callers t)) : d < size :=
  h.descs.mem_of_share (i := t) hd

lemma perm (h : Holdings callers size pages free nodes flight) (hp : free.Perm free') :
    Holdings callers size pages free' nodes flight := { h with descs := h.descs.perm hp }

lemma perm_flight (h : Holdings callers size pages free nodes flight) (hp : flight.Perm flight') :
    Holdings callers size pages free nodes flight' :=
  { h with
    flight_nodup := hp.nodup_iff.mp h.flight_nodup
    chains := by
      have hset : {d | d ∈ flight'} = {d | d ∈ flight} := Set.ext fun d => hp.mem_iff.symm
      rw [hset]
      exact h.chains }

lemma same (h : Holdings callers size pages free nodes flight) (hd : descsOf caller = descsOf (callers t))
    (hs : storageOf caller = storageOf (callers t)) (hp : isPending caller = isPending (callers t))
    (hf : flightOf caller = flightOf (callers t)) :
    Holdings (Function.update callers t caller) size pages free nodes flight := by
  constructor
  · rw [comp_update_same hd]
    exact h.descs
  · rw [comp_update_same hs]
    exact h.storage
  · rw [comp_update_same hp]
    exact h.mem_nodes
  · exact h.flight_nodup
  · rw [comp_update_same hf]
    exact h.chains

lemma start (h : Holdings callers size pages (d :: b :: free) nodes flight) (ht : (callers t).isCalling = false)
    (hp : p ∉ pages) (hdescs : descsOf (.calling c .prepared) = [d, b]) (hstorage : c.storage = p) :
    Holdings (Function.update callers t (.calling c .prepared)) size (insert p pages) free nodes flight := by
  obtain ⟨hd, hs, hpending, hflight⟩ := not_calling ht
  constructor
  · rw [Function.comp_update, hdescs]
    exact h.descs.take hd
  · rw [Function.comp_update, storageOf, hstorage, Finset.coe_insert]
    exact (h.storage.insert hp).take hs
  · rw [comp_update_same hpending.symm]
    exact h.mem_nodes
  · exact h.flight_nodup
  · rw [comp_update_same hflight.symm]
    exact h.chains

lemma finish (h : Holdings callers size pages free nodes flight) {resp : List UInt8}
    (ht : callers t = .calling c (.copied resp)) :
    Holdings (Function.update callers t (.succeeded c resp)) size (pages.erase c.storage)
      (c.respDescIdx :: c.cmdDescIdx :: free) nodes flight := by
  constructor
  · rw [Function.comp_update]
    refine h.descs.give (l := [c.respDescIdx, c.cmdDescIdx]) ?_
    rw [Function.comp_apply, ht]
    exact List.Perm.swap ..
  · rw [Function.comp_update, Finset.coe_erase]
    refine (h.storage.give (l := [c.storage]) ?_).remove
    rw [Function.comp_apply, ht]
    rfl
  · rw [comp_update_same (by rw [ht]; rfl)]
    exact h.mem_nodes
  · exact h.flight_nodup
  · rw [comp_update_same (by rw [ht]; rfl)]
    exact h.chains

lemma list (h : Holdings callers size pages free nodes flight) (ht : callers t = .calling c .prepared)
    (hw : c.woken = 0) :
    t ∉ nodes ∧ Holdings (Function.update callers t (.calling c .listed)) size pages free (t :: nodes) flight := by
  have hnot : t ∉ nodes := by
    rw [h.mem_nodes, Function.comp_apply, ht]
    exact id
  refine ⟨hnot, ?_, ?_, fun t' => ?_, h.flight_nodup, ?_⟩
  · rw [comp_update_same (by rw [ht]; rfl)]
    exact h.descs
  · rw [comp_update_same (by rw [ht]; rfl)]
    exact h.storage
  · rw [Function.comp_update, List.mem_cons, h.mem_nodes]
    by_cases he : t' = t
    · simp [he, isPending, hw]
    · simp [he]
  · rw [comp_update_same (by rw [ht]; rfl)]
    exact h.chains

lemma owner (h : Holdings callers size pages free nodes flight) (hd : d ∈ flight) :
    ∃ t c, callers t = .calling c .waiting ∧ c.woken = 0 ∧ c.cmdDescIdx = d := by
  obtain ⟨t, ht⟩ := ((h.chains.mem_all d).mp hd).resolve_left List.not_mem_nil
  obtain ⟨c, hc⟩ := mem_flightOf.mp ht
  exact ⟨t, c, hc⟩

lemma submit (h : Holdings callers size pages free nodes flight) (ht : callers t = .calling c .listed)
    (hw : c.woken = 0) :
    c.cmdDescIdx ∉ flight ∧
      Holdings (Function.update callers t (.calling c .waiting)) size pages free nodes (c.cmdDescIdx :: flight) := by
  have hnot : c.cmdDescIdx ∉ flight := by
    intro hmem
    obtain ⟨t', c', ht', -, hd⟩ := h.owner hmem
    have hsame : t' = t := h.descs.holder t' t c.cmdDescIdx (by simp [descsOf, ht', hd]) (by simp [descsOf, ht])
    subst hsame
    rw [ht] at ht'
    cases ht'
  refine ⟨hnot, ?_, ?_, ?_, List.nodup_cons.mpr ⟨hnot, h.flight_nodup⟩, ?_⟩
  · rw [comp_update_same (by rw [ht]; rfl)]
    exact h.descs
  · rw [comp_update_same (by rw [ht]; rfl)]
    exact h.storage
  · rw [comp_update_same (by rw [ht]; rfl)]
    exact h.mem_nodes
  · have hset : {d | d ∈ c.cmdDescIdx :: flight} = insert c.cmdDescIdx {d | d ∈ flight} :=
      Set.ext fun d => List.mem_cons
    rw [hset, Function.comp_update, flightOf, if_pos hw]
    refine (h.chains.insert hnot).take ?_
    rw [Function.comp_apply, ht]
    rfl

lemma wake (h : Holdings callers size pages free (nodes ++ t :: nodes') (c.cmdDescIdx :: flight))
    (hn : (nodes ++ t :: nodes').Nodup) (ht : callers t = .calling c .waiting) (hw : c.woken = 0) :
    Holdings (Function.update callers t (callers t).release) size pages free (nodes ++ nodes') flight := by
  have hnew : (callers t).release = .calling { c with completed := false, woken := c.woken + 1 } .waiting :=
    by rw [ht]; rfl
  rw [hnew]
  obtain ⟨hfirst, hrest, hapart⟩ := List.nodup_append.mp hn
  obtain ⟨hd, hflight⟩ := List.nodup_cons.mp h.flight_nodup
  refine ⟨?_, ?_, fun t' => ?_, hflight, ?_⟩
  · rw [comp_update_same (by rw [ht]; rfl)]
    exact h.descs
  · rw [comp_update_same (by rw [ht]; rfl)]
    exact h.storage
  · have hmem := h.mem_nodes t'
    rw [Function.comp_update]
    by_cases he : t' = t
    · subst he
      rw [Function.update_self, isPending]
      refine iff_of_false (fun hmem => ?_) (Nat.succ_ne_zero _)
      rcases List.mem_append.mp hmem with hmem | hmem
      · exact hapart t' hmem t' List.mem_cons_self rfl
      · exact (List.nodup_cons.mp hrest).1 hmem
    · rw [Function.update_of_ne he, ← hmem]
      simp [he]
  · have hset : {d | d ∈ flight} = {d | d ∈ c.cmdDescIdx :: flight} \ {c.cmdDescIdx} := by
      ext d
      simp only [Set.mem_ofPred_eq, Set.mem_sdiff, List.mem_cons, Set.mem_singleton_iff]
      constructor
      · exact fun hf => ⟨Or.inr hf, fun he => hd (he ▸ hf)⟩
      · exact fun ⟨hf, hne⟩ => hf.resolve_left hne
    rw [hset, Function.comp_update, flightOf, if_neg (by dsimp only; omega)]
    refine (h.chains.give (l := [c.cmdDescIdx]) ?_).remove
    rw [Function.comp_apply, ht, flightOf, if_pos hw]

lemma length_nodes (h : Holdings callers size pages free nodes flight) (hn : nodes.Nodup) : nodes.length ≤ size := by
  have hhead : ∀ t ∈ nodes, ∃ d, d ∈ descsOf (callers t) := by
    intro t ht
    obtain ⟨d, -, hd⟩ := isCalling_of_isPending ((h.mem_nodes t).mp ht)
    exact ⟨d, mem_descsOf_of_hasHead hd⟩
  choose! head hhead using hhead
  have hinj : ∀ t ∈ nodes, ∀ t' ∈ nodes, head t = head t' → t = t' := fun t ht t' ht' he =>
    h.descs.holder t t' (head t) (hhead t ht) (he ▸ hhead t' ht')
  have hsub : nodes.map head ⊆ List.range size := by
    intro d hd
    obtain ⟨t, ht, rfl⟩ := List.mem_map.mp hd
    exact List.mem_range.mpr (h.desc_lt (hhead t ht))
  have hlen := (List.subperm_of_subset (hn.map_on hinj) hsub).length_le
  rwa [List.length_map, List.length_range] at hlen

lemma room (h : Holdings callers size pages free nodes flight) (hpos : 0 < size) : flight.length < size := by
  cases flight with
  | nil => exact hpos
  | cons d flight =>
    obtain ⟨t, c, ht, -, hd⟩ := h.owner List.mem_cons_self
    have hdescs : descsOf (callers t) = [c.cmdDescIdx, c.respDescIdx] := by rw [ht]; rfl
    have hlt : ∀ t, ∀ e ∈ descsOf (callers t), e < size := fun t e he => h.desc_lt he
    have hresp : c.respDescIdx ∉ d :: flight := by
      intro hmem
      obtain ⟨t', c', ht', -, hd'⟩ := h.owner hmem
      have hsame : t' = t := h.descs.holder t' t c.respDescIdx (by simp [descsOf, ht', hd']) (by simp [hdescs])
      subst hsame
      obtain ⟨rfl, -⟩ := GpuCaller.calling.inj (ht'.symm.trans ht)
      have hn := h.descs.share_nodup t'
      rw [Function.comp_apply, hdescs, hd'] at hn
      simp at hn
    have hsub : c.respDescIdx :: d :: flight ⊆ List.range size := by
      intro e he
      rw [List.mem_range]
      rcases List.mem_cons.mp he with rfl | he
      · exact hlt t _ (by simp [hdescs])
      · obtain ⟨t', c', ht', -, rfl⟩ := h.owner he
        exact hlt t' _ (by simp [ht', descsOf])
    have hlen := (List.subperm_of_subset (List.nodup_cons.mpr ⟨hresp, h.flight_nodup⟩) hsub).length_le
    rwa [List.length_range] at hlen

end Holdings

end Pi0Os.Drivers
