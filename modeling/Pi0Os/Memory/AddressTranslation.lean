import Pi0Os.Memory.PageTables

/-! The translation of a virtual address by the MMU, and when a write to memory leaves it as it was. -/

namespace Pi0Os.Memory

open Kernel Library

/-- A second-level entry: a fault, a large page or, with either value of its lowest bit, a small page. -/
def lvl2Translation (entry virt : ℕ) : Option (ℕ × PageAccessPermissions) :=
  if entry % 4 = 0 then none
  else if entry % 4 = 1 then some (entry / 2 ^ 16 % 2 ^ 16 * 2 ^ 16 + virt % 2 ^ 16, SmallPageEntry.permissions entry)
  else some (SmallPageEntry.baseAddress entry + virt % 2 ^ 12, SmallPageEntry.permissions entry)

/-- The walk from the first-level table at `root`. -/
def armWalk (m : ℕ → ℕ) (root virt : ℕ) : Option (ℕ × PageAccessPermissions) :=
  let entry := m (root + 4 * lvl1Index virt)
  if isSection entry then some (SectionEntry.baseAddress entry + virt % 2 ^ 20, SectionEntry.permissions entry)
  else if isCoarsePage entry then
    lvl2Translation (m (CoarsePageTableEntry.baseAddress entry + 4 * lvl2Index virt)) virt
  else none

/-- The second-level table that a first-level entry names. -/
def tableAt (m : ℕ → ℕ) (root i : ℕ) : Option ℕ :=
  if isCoarsePage (m (root + 4 * i)) then some (CoarsePageTableEntry.baseAddress (m (root + 4 * i))) else none

@[simp] lemma lvl2Translation_zero (virt : ℕ) : lvl2Translation 0 virt = none := rfl

lemma lvl2Translation_makeEntry {address virt : ℕ} (p : PageAccessPermissions) (hd : size4KB ∣ address)
    (hlt : address < 2 ^ 32) :
    lvl2Translation (SmallPageEntry.makeEntry address p) virt = some (address + virt % 2 ^ 12, p) := by
  have hid : SmallPageEntry.makeEntry address p % 4 = 2 := by
    simp only [SmallPageEntry.makeEntry, smallPageEntryId]
    omega
  rw [lvl2Translation, hid, if_neg (by decide), if_neg (by decide), SmallPageEntry.baseAddress_makeEntry p hd hlt,
    SmallPageEntry.permissions_makeEntry]

section Walk

variable {m m' : ℕ → ℕ} {root root' virt virt' t i : ℕ}

lemma tableAt_eq_some : tableAt m root i = some t ↔
    isCoarsePage (m (root + 4 * i)) ∧ CoarsePageTableEntry.baseAddress (m (root + 4 * i)) = t := by
  rw [tableAt]
  split
  · simp [*]
  · simp [*]

lemma not_isSection_of_isCoarsePage {raw : ℕ} (h : isCoarsePage raw) : ¬ isSection raw := by
  rw [isCoarsePage] at h
  rw [isSection, h]
  decide

lemma ne_zero_of_isCoarsePage {raw : ℕ} (h : isCoarsePage raw) : raw ≠ 0 := by
  rintro rfl
  exact absurd h (by decide)

lemma armWalk_table (h : tableAt m root (lvl1Index virt) = some t) :
    armWalk m root virt = lvl2Translation (m (t + 4 * lvl2Index virt)) virt := by
  obtain ⟨hc, rfl⟩ := tableAt_eq_some.mp h
  rw [armWalk, if_neg (not_isSection_of_isCoarsePage hc), if_pos hc]

lemma armWalk_empty (h : m (root + 4 * lvl1Index virt) = 0) : armWalk m root virt = none := by
  rw [armWalk, h]
  rfl

lemma armWalk_section {a : ℕ} {p : PageAccessPermissions} (ha : a < 2 ^ 32) (hoff : virt % 2 ^ 20 = a % 2 ^ 20)
    (h : m (root + 4 * lvl1Index virt) = SectionEntry.makeEntry a p) : armWalk m root virt = some (a, p) := by
  rw [armWalk, h, if_pos (SectionEntry.isSection_makeEntry a p), SectionEntry.baseAddress_makeEntry p ha,
    SectionEntry.permissions_makeEntry, hoff, Nat.div_add_mod']

/-- Two walks of an address meet the same entries. -/
lemma armWalk_congr (hlvl1 : m' (root' + 4 * lvl1Index virt) = m (root + 4 * lvl1Index virt))
    (hlvl2 : ∀ t, tableAt m root (lvl1Index virt) = some t →
      m' (t + 4 * lvl2Index virt) = m (t + 4 * lvl2Index virt)) :
    armWalk m' root' virt = armWalk m root virt := by
  by_cases hc : isCoarsePage (m (root + 4 * lvl1Index virt))
  · have ht : tableAt m root (lvl1Index virt) = some _ := if_pos hc
    have ht' : tableAt m' root' (lvl1Index virt) = tableAt m root (lvl1Index virt) := by rw [tableAt, hlvl1, tableAt]
    rw [armWalk_table ht, armWalk_table (ht'.trans ht), hlvl2 _ ht]
  · rw [armWalk, armWalk, hlvl1]
    rw [if_neg hc, if_neg hc]

end Walk

end Pi0Os.Memory
