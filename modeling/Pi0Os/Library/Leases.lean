import Mathlib.Data.List.Nodup
import Mathlib.Data.List.Perm.Basic
import Mathlib.Data.Set.Insert

/-! Things that are lent: each of them is free or with one holder, and in one place only. -/

namespace Pi0Os.Library

variable {ι α : Type*}

structure Lent (share : ι → List α) (all : Set α) (free : List α) : Prop where
  free_nodup : free.Nodup
  share_nodup : ∀ i, (share i).Nodup
  mem_all : ∀ a, a ∈ all ↔ a ∈ free ∨ ∃ i, a ∈ share i
  not_free : ∀ i a, a ∈ share i → a ∉ free
  holder : ∀ i j a, a ∈ share i → a ∈ share j → i = j

namespace Lent

variable {share share' : ι → List α} {all : Set α} {free free' l : List α} {i j : ι} {a : α}

lemma of_idle (hn : free.Nodup) (hall : ∀ a, a ∈ all ↔ a ∈ free) (hidle : ∀ i, share i = []) : Lent share all free where
  free_nodup := hn
  share_nodup i := by rw [hidle]; exact List.nodup_nil
  mem_all a := by simp [hall, hidle]
  not_free i a ha := by rw [hidle] at ha; cases ha
  holder i j a ha := by rw [hidle] at ha; cases ha

lemma mem_of_free (h : Lent share all free) (ha : a ∈ free) : a ∈ all := (h.mem_all a).mpr (Or.inl ha)

lemma mem_of_share (h : Lent share all free) (ha : a ∈ share i) : a ∈ all := (h.mem_all a).mpr (Or.inr ⟨i, ha⟩)

lemma perm (h : Lent share all free) (hp : free.Perm free') : Lent share all free' where
  free_nodup := hp.nodup_iff.mp h.free_nodup
  share_nodup := h.share_nodup
  mem_all a := by rw [← hp.mem_iff]; exact h.mem_all a
  not_free i a ha := by rw [← hp.mem_iff]; exact h.not_free i a ha
  holder := h.holder

lemma perm_of_idle (h : Lent share all free) (hidle : ∀ i, share i = []) (hl : l.Nodup) (hall : ∀ a, a ∈ l ↔ a ∈ all) :
    free.Perm l := by
  refine (List.perm_ext_iff_of_nodup h.free_nodup hl).mpr fun a => ?_
  rw [hall, h.mem_all]
  simp only [hidle, List.not_mem_nil, exists_false, or_false]

lemma insert (h : Lent share all free) (ha : a ∉ all) : Lent share (Insert.insert a all) (a :: free) where
  free_nodup := List.nodup_cons.mpr ⟨fun hf => ha (h.mem_of_free hf), h.free_nodup⟩
  share_nodup := h.share_nodup
  mem_all b := by rw [Set.mem_insert_iff, h.mem_all, List.mem_cons, or_assoc]
  not_free i b hb := by
    rw [List.mem_cons, not_or]
    refine ⟨?_, h.not_free i b hb⟩
    rintro rfl
    exact ha (h.mem_of_share hb)
  holder := h.holder

lemma remove (h : Lent share all (a :: free)) : Lent share (all \ {a}) free where
  free_nodup := (List.nodup_cons.mp h.free_nodup).2
  share_nodup := h.share_nodup
  mem_all b := by
    obtain ⟨hafree, -⟩ := List.nodup_cons.mp h.free_nodup
    rw [Set.mem_sdiff, Set.mem_singleton_iff, h.mem_all, List.mem_cons]
    constructor
    · rintro ⟨(rfl | hb) | hb, hne⟩
      · exact absurd rfl hne
      · exact Or.inl hb
      · exact Or.inr hb
    · rintro (hb | ⟨i, hb⟩)
      · exact ⟨Or.inl (Or.inr hb), fun he => hafree (he ▸ hb)⟩
      · exact ⟨Or.inr ⟨i, hb⟩, fun he => h.not_free i b hb (he ▸ List.mem_cons_self)⟩
  not_free i b hb hf := h.not_free i b hb (List.mem_cons_of_mem a hf)
  holder := h.holder

variable [DecidableEq ι]

lemma mem_update_share : a ∈ Function.update share i l j ↔ j = i ∧ a ∈ l ∨ j ≠ i ∧ a ∈ share j := by
  by_cases h : j = i
  · subst h
    simp
  · simp [h]

lemma take (h : Lent share all (l ++ free)) (hi : share i = []) : Lent (Function.update share i l) all free := by
  obtain ⟨hl, hfree, hapart⟩ := List.nodup_append.mp h.free_nodup
  have hother : ∀ j a, a ∈ share j → a ∉ l ∧ a ∉ free := fun j a ha => by
    have hn := h.not_free j a ha
    rwa [List.mem_append, not_or] at hn
  constructor
  · exact hfree
  · intro j
    by_cases hj : j = i
    · rw [hj, Function.update_self]
      exact hl
    · rw [Function.update_of_ne hj]
      exact h.share_nodup j
  · intro a
    rw [h.mem_all, List.mem_append]
    constructor
    · rintro ((ha | ha) | ⟨j, ha⟩)
      · exact Or.inr ⟨i, mem_update_share.mpr (Or.inl ⟨rfl, ha⟩)⟩
      · exact Or.inl ha
      · refine Or.inr ⟨j, mem_update_share.mpr (Or.inr ⟨?_, ha⟩)⟩
        rintro rfl
        rw [hi] at ha
        cases ha
    · rintro (ha | ⟨j, ha⟩)
      · exact Or.inl (Or.inr ha)
      · rcases mem_update_share.mp ha with ⟨-, ha⟩ | ⟨-, ha⟩
        · exact Or.inl (Or.inl ha)
        · exact Or.inr ⟨j, ha⟩
  · intro j a ha
    rcases mem_update_share.mp ha with ⟨-, ha⟩ | ⟨-, ha⟩
    · exact fun hf => hapart a ha a hf rfl
    · exact (hother j a ha).2
  · intro j k a hj hk
    rcases mem_update_share.mp hj with ⟨hji, haj⟩ | ⟨-, haj⟩ <;> rcases mem_update_share.mp hk with
      ⟨hki, hak⟩ | ⟨-, hak⟩
    · rw [hji, hki]
    · exact absurd haj (hother k a hak).1
    · exact absurd hak (hother j a haj).1
    · exact h.holder j k a haj hak

lemma give (h : Lent share all free) (hl : l.Perm (share i)) : Lent (Function.update share i []) all (l ++ free) := by
  constructor
  · refine List.nodup_append.mpr ⟨hl.nodup_iff.mpr (h.share_nodup i), h.free_nodup, fun a ha b hb => ?_⟩
    rintro rfl
    exact h.not_free i a (hl.mem_iff.mp ha) hb
  · intro j
    by_cases hj : j = i
    · rw [hj, Function.update_self]
      exact List.nodup_nil
    · rw [Function.update_of_ne hj]
      exact h.share_nodup j
  · intro a
    rw [h.mem_all, List.mem_append]
    constructor
    · rintro (ha | ⟨j, ha⟩)
      · exact Or.inl (Or.inr ha)
      · by_cases hj : j = i
        · subst hj
          exact Or.inl (Or.inl (hl.mem_iff.mpr ha))
        · exact Or.inr ⟨j, mem_update_share.mpr (Or.inr ⟨hj, ha⟩)⟩
    · rintro ((ha | ha) | ⟨j, ha⟩)
      · exact Or.inr ⟨i, hl.mem_iff.mp ha⟩
      · exact Or.inl ha
      · rcases mem_update_share.mp ha with ⟨-, ha⟩ | ⟨-, ha⟩
        · cases ha
        · exact Or.inr ⟨j, ha⟩
  · intro j a ha
    rcases mem_update_share.mp ha with ⟨-, ha⟩ | ⟨hj, ha⟩
    · cases ha
    · rw [List.mem_append, not_or]
      exact ⟨fun hal => hj (h.holder j i a ha (hl.mem_iff.mp hal)), h.not_free j a ha⟩
  · intro j k a hj hk
    rcases mem_update_share.mp hj with ⟨-, hj⟩ | ⟨-, hj⟩
    · cases hj
    · rcases mem_update_share.mp hk with ⟨-, hk⟩ | ⟨-, hk⟩
      · cases hk
      · exact h.holder j k a hj hk

end Lent

end Pi0Os.Library
