import Pi0Os.Library.GridCount
import Pi0Os.Memory.SpaceRelease

/-! What a step does to the number of entries that map a page. -/

namespace Pi0Os.Memory

open Kernel Library

/-- No entry of `as` maps what it did not map before. -/
def KeepsFrames (s s' : Vm) (as : ℕ) : Prop :=
  ∀ i < kernelStartIdx, ∀ j < lvl2Entries, ∀ f, s'.frameOf as i j = some f → s.frameOf as i j = some f

/-- No page of `X` is mapped below the kernel area. -/
def Vm.MapsNone (s : Vm) (as : ℕ) (X : Set ℕ) : Prop :=
  ∀ q ∈ X, ∀ i < kernelStartIdx, ∀ j < lvl2Entries, s.frameOf as i j ≠ some (pageAddr s.pages.ramStart q)

section Counts

variable {s s' : Vm} {as q page i j : ℕ} {X : Set ℕ}

lemma userMappings_eq : s.userMappings as q =
    gridCount kernelStartIdx lvl2Entries fun i j => s.frameOf as i j = some (pageAddr s.pages.ramStart q) := rfl

lemma KeepsFrames.refl (s : Vm) (as : ℕ) : KeepsFrames s s as := fun _ _ _ _ _ hf => hf

lemma KeepsFrames.userMappings_le (h : KeepsFrames s s' as) (hr : s'.pages.ramStart = s.pages.ramStart) :
    s'.userMappings as q ≤ s.userMappings as q := by
  rw [userMappings_eq, userMappings_eq, hr]
  exact gridCount_mono fun i hi j hj hf => h i hi j hj _ hf

lemma userMappings_le_insert (hr : s'.pages.ramStart = s.pages.ramStart)
    (hnew : s'.frameOf as i j = some (pageAddr s.pages.ramStart page))
    (hold : ∀ i' < kernelStartIdx, ∀ j' < lvl2Entries, (i', j') ≠ (i, j) → ∀ f, s'.frameOf as i' j' = some f →
      s.frameOf as i' j' = some f) :
    s'.userMappings as q ≤ s.userMappings as q + if q = page then 1 else 0 := by
  rw [userMappings_eq, userMappings_eq, hr]
  split_ifs with hq
  · exact gridCount_le_succ fun i' hi' j' hj' hne hf => hold i' hi' j' hj' hne _ hf
  · rw [Nat.add_zero]
    refine gridCount_mono fun i' hi' j' hj' hf => hold i' hi' j' hj' (fun he => ?_) _ hf
    obtain ⟨rfl, rfl⟩ := Prod.mk.inj he
    rw [hnew] at hf
    exact hq (pageAddr_injective _ (Option.some.inj hf)).symm

lemma KeepsFrames.userMappings_lt (h : KeepsFrames s s' as) (hr : s'.pages.ramStart = s.pages.ramStart)
    (hi : i < kernelStartIdx) (hj : j < lvl2Entries) (hold : s.frameOf as i j = some (pageAddr s.pages.ramStart q))
    (hnew : s'.frameOf as i j = none) : s'.userMappings as q < s.userMappings as q := by
  rw [userMappings_eq, userMappings_eq, hr]
  refine gridCount_lt (fun i hi j hj hf => h i hi j hj _ hf) hi hj ?_ hold
  rw [hnew]
  exact nofun

lemma KeepsFrames.mapsNone (h : KeepsFrames s s' as) (hr : s'.pages.ramStart = s.pages.ramStart)
    (hnone : s.MapsNone as X) : s'.MapsNone as X := by
  intro q hq i hi j hj hf
  exact hnone q hq i hi j hj (hr ▸ h i hi j hj _ hf)

lemma Vm.MapsNone.userMappings (h : s.MapsNone as X) (hq : q ∈ X) : s.userMappings as q = 0 :=
  userMappings_eq_zero fun ⟨i, hi, j, hj, hf⟩ => h q hq i hi j hj hf

end Counts

end Pi0Os.Memory
