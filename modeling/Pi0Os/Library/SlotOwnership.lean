import Mathlib.Logic.ExistsUnique
import Pi0Os.Library.PartialMap

/-! Tables of handles: every filled slot holds a live handle, and every live handle is in exactly
one slot. -/

namespace Pi0Os.Library

variable {κ α γ : Type*} {slots : κ → Option α} {live : α → Option γ} {k k' : κ} {a : α}

structure Owned (slots : κ → Option α) (live : α → Option γ) : Prop where
  filled : ∀ k a, slots k = some a → (live a).isSome
  unique : ∀ a, (live a).isSome → ∃! k, slots k = some a

namespace Owned

lemma slot_inj (h : Owned slots live) (hk : slots k = some a) (hk' : slots k' = some a) : k = k' :=
  (h.unique a (h.filled k a hk)).unique hk hk'

lemma not_mem (h : Owned slots live) (ha : live a = none) (k : κ) : slots k ≠ some a := by
  intro hk
  have hl := h.filled k a hk
  rw [ha] at hl
  cases hl

lemma congr {δ : Type*} {live' : α → Option δ} (h : Owned slots live) (hl : ∀ a, (live' a).isSome = (live a).isSome) :
    Owned slots live' :=
  ⟨fun k a hk => (hl a).trans (h.filled k a hk), fun a ha => h.unique a ((hl a).symm.trans ha)⟩

variable [DecidableEq κ]

lemma acquire [DecidableEq α] (h : Owned slots live) (hk : slots k = none) (ha : live a = none) (c : γ) :
    Owned (Function.update slots k (some a)) (Function.update live a (some c)) := by
  constructor
  · intro j b hj
    by_cases hb : b = a
    · subst hb
      rw [Function.update_self]
      rfl
    · rw [Function.update_of_ne hb]
      rcases update_some_eq_some.mp hj with ⟨-, he⟩ | ⟨-, hj⟩
      · exact absurd he.symm hb
      · exact h.filled j b hj
  · intro b hb
    by_cases hba : b = a
    · subst hba
      refine ⟨k, Function.update_self .., fun j hj => ?_⟩
      rcases update_some_eq_some.mp hj with ⟨hjk, -⟩ | ⟨-, hj⟩
      · exact hjk
      · exact absurd hj (h.not_mem ha j)
    · rw [Function.update_of_ne hba] at hb
      obtain ⟨j, hj, huniq⟩ := h.unique b hb
      refine ⟨j, (Function.update_of_ne (ne_of_eq_some hk hj) ..).trans hj, fun j' hj' => huniq j' ?_⟩
      rcases update_some_eq_some.mp hj' with ⟨-, he⟩ | ⟨-, hj'⟩
      · exact absurd he.symm hba
      · exact hj'

lemma release [DecidableEq α] (h : Owned slots live) (hk : slots k = some a) :
    Owned (Function.update slots k none) (Function.update live a none) := by
  have hsplit : ∀ j b, Function.update slots k none j = some b → slots j = some b ∧ b ≠ a := by
    intro j b hj
    obtain ⟨hjk, hj⟩ := update_none_eq_some.mp hj
    refine ⟨hj, ?_⟩
    rintro rfl
    exact hjk (h.slot_inj hj hk)
  constructor
  · intro j b hj
    obtain ⟨hj, hb⟩ := hsplit j b hj
    rw [Function.update_of_ne hb]
    exact h.filled j b hj
  · intro b hb
    have hba : b ≠ a := by
      rintro rfl
      rw [Function.update_self] at hb
      cases hb
    rw [Function.update_of_ne hba] at hb
    obtain ⟨j, hj, huniq⟩ := h.unique b hb
    have hjk : j ≠ k := by
      rintro rfl
      exact hba (Option.some.inj (hj.symm.trans hk))
    exact ⟨j, (Function.update_of_ne hjk ..).trans hj, fun j' hj' => huniq j' (hsplit j' b hj').1⟩

lemma move (h : Owned slots live) (hk : slots k = some a) (hk' : slots k' = none) :
    Owned (Function.update (Function.update slots k' (some a)) k none) live := by
  have hkk : k' ≠ k := (ne_of_eq_some hk' hk).symm
  have hsplit : ∀ j b, Function.update (Function.update slots k' (some a)) k none j = some b →
      j = k' ∧ b = a ∨ j ≠ k' ∧ slots j = some b ∧ b ≠ a := by
    intro j b hj
    obtain ⟨hjk, hj⟩ := update_none_eq_some.mp hj
    rcases update_some_eq_some.mp hj with ⟨hjk', he⟩ | ⟨hjk', hslot⟩
    · exact Or.inl ⟨hjk', he.symm⟩
    · refine Or.inr ⟨hjk', hslot, ?_⟩
      rintro rfl
      exact hjk (h.slot_inj hslot hk)
  constructor
  · intro j b hj
    rcases hsplit j b hj with ⟨-, rfl⟩ | ⟨-, hj, -⟩
    · exact h.filled k b hk
    · exact h.filled j b hj
  · intro b hb
    by_cases hba : b = a
    · subst hba
      refine ⟨k', (Function.update_of_ne hkk ..).trans (Function.update_self ..), fun j hj => ?_⟩
      rcases hsplit j b hj with ⟨hjk, -⟩ | ⟨-, -, hne⟩
      · exact hjk
      · exact absurd rfl hne
    · obtain ⟨j, hj, huniq⟩ := h.unique b hb
      have hjk : j ≠ k := by
        rintro rfl
        exact hba (Option.some.inj (hj.symm.trans hk))
      have hjk' : j ≠ k' := ne_of_eq_some hk' hj
      refine ⟨j, ?_, fun j' hj' => ?_⟩
      · dsimp only
        rwa [Function.update_of_ne hjk, Function.update_of_ne hjk']
      rcases hsplit j' b hj' with ⟨-, heq⟩ | ⟨-, hj', -⟩
      · exact absurd heq hba
      · exact huniq j' hj'

end Owned

end Pi0Os.Library
