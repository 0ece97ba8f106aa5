import Pi0Os.Drivers.UsedRing

/-! The rings of a split virtqueue between a driver that enqueues chains and a device that takes them and
completes them in any order. -/

namespace Pi0Os.Drivers

open Library

/-- The chains made available and not taken are those of `avail`, and the completions not handled, from
the index `u` on, those of `done`. -/
structure Rings (q : SplitVirtQueue) (last : ℕ) (avail done : List ℕ) (u : ℕ) : Prop where
  size_dvd : q.size ∣ 2 ^ 16
  last_lt : last < 2 ^ 16
  availIdx : q.availIdx = le16 (last + avail.length)
  availRing : ∀ k d, avail[k]? = some d → q.availRing ((last + k) % q.size) = d
  usedIdx : q.usedIdx = le16 (u + done.length)
  usedRing : ∀ k d, done[k]? = some d → (q.usedRing ((u + k) % q.size)).id = d

namespace Rings

variable {q q' : SplitVirtQueue} {last u d : ℕ} {avail done : List ℕ}

lemma congr (h : Rings q last avail done u) (hsize : q'.size = q.size) (hai : q'.availIdx = q.availIdx)
    (har : q'.availRing = q.availRing) (hui : q'.usedIdx = q.usedIdx) (hur : q'.usedRing = q.usedRing) :
    Rings q' last avail done u := by
  refine ⟨hsize ▸ h.size_dvd, h.last_lt, hai.trans h.availIdx, ?_, hui.trans h.usedIdx, ?_⟩
  · rw [hsize, har]
    exact h.availRing
  · rw [hsize, hur]
    exact h.usedRing

lemma enqueue (h : Rings q last avail done u) (hroom : avail.length < q.size) (hd : d < 2 ^ 16) :
    Rings (q.enqueueDesc d) last (avail ++ [d]) done u := by
  refine { h with availIdx := ?_, availRing := fun k e hk => ?_ }
  · change le16 (q.availIdx + 1) = _
    rw [h.availIdx, le16_add, List.length_append, List.length_singleton, add_assoc]
  · change Function.update q.availRing (q.availIdx % q.size) (le16 d) ((last + k) % q.size) = e
    rw [h.availIdx, le16_mod h.size_dvd, le16_of_lt hd]
    rcases lt_trichotomy k avail.length with hlt | rfl | hgt
    · rw [List.getElem?_append_left hlt] at hk
      rw [Function.update_of_ne (add_mod_ne hlt (by omega))]
      exact h.availRing k e hk
    · rw [List.getElem?_concat_length] at hk
      rw [Function.update_self]
      exact Option.some.inj hk
    · rw [List.getElem?_eq_none (by rw [List.length_append, List.length_singleton]; omega)] at hk
      cases hk

lemma ne_nil (h : Rings q last avail done u) (hmore : last ≠ q.availIdx) : avail ≠ [] := by
  rintro rfl
  exact hmore ((h.availIdx.trans (le16_of_lt h.last_lt)).symm)

lemma fetch (h : Rings q last (d :: avail) done u) :
    q.availRing (last % q.size) = d ∧ Rings q (le16 (last + 1)) avail done u := by
  refine ⟨h.availRing 0 d rfl, { h with last_lt := le16_lt _, availIdx := ?_, availRing := fun k e hk => ?_ }⟩
  · rw [h.availIdx, le16_add, List.length_cons]
    congr 1
    omega
  · have hslot : (le16 (last + 1) + k) % q.size = (last + (k + 1)) % q.size := by
      rw [Nat.add_mod, le16_mod h.size_dvd, ← Nat.add_mod]
      congr 1
      omega
    rw [hslot]
    exact h.availRing (k + 1) e hk

lemma complete (h : Rings q last avail done u) (hroom : done.length < q.size) (len : ℕ) :
    Rings { q with
      usedRing := Function.update q.usedRing (q.usedIdx % q.size) ⟨d, len⟩
      usedIdx := le16 (q.usedIdx + 1) } last avail (done ++ [d]) u := by
  refine { h with usedIdx := ?_, usedRing := fun k e hk => ?_ }
  · change le16 (q.usedIdx + 1) = _
    rw [h.usedIdx, le16_add, List.length_append, List.length_singleton, add_assoc]
  · change (Function.update q.usedRing (q.usedIdx % q.size) ⟨d, len⟩ ((u + k) % q.size)).id = e
    rw [h.usedIdx, le16_mod h.size_dvd]
    rcases lt_trichotomy k done.length with hlt | rfl | hgt
    · rw [List.getElem?_append_left hlt] at hk
      rw [Function.update_of_ne (add_mod_ne hlt (by omega))]
      exact h.usedRing k e hk
    · rw [List.getElem?_concat_length] at hk
      rw [Function.update_self]
      exact Option.some.inj hk
    · rw [List.getElem?_eq_none (by rw [List.length_append, List.length_singleton]; omega)] at hk
      cases hk

lemma consume (h : Rings q last avail (d :: done) u) :
    (q.usedRing (u % q.size)).id = d ∧ Rings q last avail done (u + 1) := by
  refine ⟨h.usedRing 0 d rfl, { h with usedIdx := ?_, usedRing := fun k e hk => ?_ }⟩
  · rw [h.usedIdx, List.length_cons]
    congr 1
    omega
  · rw [add_assoc, add_comm 1 k]
    exact h.usedRing (k + 1) e hk

end Rings

end Pi0Os.Drivers
