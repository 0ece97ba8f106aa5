import Mathlib.Data.Multiset.Count
import Pi0Os.Vfs.InodeCache

/-! The reference counts of the inodes: every reference that a mount, a custody or a running
traversal holds is counted, and what is cached is held and live. -/

namespace Pi0Os.Vfs

open Kernel

namespace VfsState

variable (s : VfsState)

def Cached (a : ℕ) : Prop := ∃ fs, ∃ entry ∈ (s.filesystems fs).icache, entry.2 = a

/-- The mounts and the custodies that hold an inode. -/
def holders (a : ℕ) : ℕ := s.roots.count a + (s.custodies.map FileCustody.inode).count a

@[simp] lemma setInode_self (a : ℕ) (inode : Inode) : (s.setInode a inode).inodes a = inode :=
  Function.update_self ..

@[simp] lemma setInode_of_ne {a b : ℕ} (h : b ≠ a) (inode : Inode) :
    (s.setInode a inode).inodes b = s.inodes b := Function.update_of_ne h ..

@[simp] lemma holders_setInode (a b : ℕ) (inode : Inode) :
    (s.setInode a inode).holders b = s.holders b := rfl

@[simp] lemma holders_newInode (a : ℕ) (temp : Inode) : (s.newInode temp).holders a = s.holders a := rfl

@[simp] lemma newInode_self (temp : Inode) :
    (s.newInode temp).inodes s.nextInode = { temp with refcount := 0, live := false } :=
  Function.update_self ..

@[simp] lemma newInode_of_ne {a : ℕ} (h : a ≠ s.nextInode) (temp : Inode) :
    (s.newInode temp).inodes a = s.inodes a := Function.update_of_ne h ..

end VfsState

open VfsState

/-- The references `T` are those of the traversal that is running. -/
structure ReferenceInv (s : VfsState) (T : Multiset ℕ) : Prop where
  held : ∀ a, s.Cached a → 0 < s.holders a + T.count a
  opened : ∀ a, 0 < s.holders a + T.count a → (s.inodes a).live
  unheld : ∀ a, s.nextInode ≤ a → s.holders a + T.count a = 0
  counted : ∀ a, s.holders a + T.count a ≤ (s.inodes a).refcount
  unique : ∀ fs, ((s.filesystems fs).icache.map Prod.fst).Nodup
  returned : ∀ r ∈ s.returned, r.2

structure SameHolders (s s' : VfsState) : Prop where
  roots : s'.roots = s.roots
  custodies : s'.custodies = s.custodies

/-- Only reference counts differ. -/
structure SameTable (s s' : VfsState) : Prop extends SameHolders s s' where
  filesystems : s'.filesystems = s.filesystems
  type : ∀ a, (s'.inodes a).type = (s.inodes a).type
  filesystem : ∀ a, (s'.inodes a).filesystem = (s.inodes a).filesystem

section Frames

variable {s s' s'' : VfsState}

lemma SameHolders.refl (s : VfsState) : SameHolders s s := ⟨rfl, rfl⟩

lemma SameHolders.trans (h : SameHolders s s') (h' : SameHolders s' s'') : SameHolders s s'' :=
  ⟨h'.roots.trans h.roots, h'.custodies.trans h.custodies⟩

lemma SameHolders.holders (h : SameHolders s s') (a : ℕ) : s'.holders a = s.holders a := by
  rw [VfsState.holders, VfsState.holders, h.roots, h.custodies]

lemma SameTable.trans (h : SameTable s s') (h' : SameTable s' s'') : SameTable s s'' where
  toSameHolders := h.toSameHolders.trans h'.toSameHolders
  filesystems := h'.filesystems.trans h.filesystems
  type a := (h'.type a).trans (h.type a)
  filesystem a := (h'.filesystem a).trans (h.filesystem a)

lemma SameTable.cached (h : SameTable s s') (a : ℕ) : s'.Cached a ↔ s.Cached a := by
  rw [VfsState.Cached, VfsState.Cached, h.filesystems]

lemma sameTable_setInode (a : ℕ) {inode : Inode} (ht : inode.type = (s.inodes a).type)
    (hf : inode.filesystem = (s.inodes a).filesystem) : SameTable s (s.setInode a inode) where
  roots := rfl
  custodies := rfl
  filesystems := rfl
  type b := by
    by_cases hb : b = a
    · subst hb
      simpa using ht
    · simp [hb]
  filesystem b := by
    by_cases hb : b = a
    · subst hb
      simpa using hf
    · simp [hb]

lemma icacheLookup_mem {icache : List (ℕ × ℕ)} {identifier a : ℕ}
    (h : icacheLookup icache identifier = some a) : (identifier, a) ∈ icache := by
  obtain ⟨⟨i, b⟩, hf, rfl⟩ := Option.map_eq_some_iff.mp h
  have hi := List.find?_some hf
  simp only [decide_eq_true_eq] at hi
  subst hi
  exact List.mem_of_find?_eq_some hf

lemma icacheLookup_none {icache : List (ℕ × ℕ)} {identifier : ℕ}
    (h : icacheLookup icache identifier = none) : identifier ∉ icache.map Prod.fst := by
  intro hm
  obtain ⟨entry, he, rfl⟩ := List.mem_map.mp hm
  have hn := List.find?_eq_none.mp (Option.map_eq_none_iff.mp h) entry he
  simp at hn

lemma cached_of_lookup {fs identifier a : ℕ}
    (h : icacheLookup (s.filesystems fs).icache identifier = some a) : s.Cached a :=
  ⟨fs, _, icacheLookup_mem h, rfl⟩

end Frames

namespace ReferenceInv

variable {s s' : VfsState} {T T' : Multiset ℕ} {a : ℕ}

lemma live (h : ReferenceInv s T) (ha : s.Cached a) : (s.inodes a).live := h.opened a (h.held a ha)

lemma live_of_mem (h : ReferenceInv s T) (ha : a ∈ T) : (s.inodes a).live :=
  h.opened a (Nat.add_pos_right _ (Multiset.count_pos.mpr ha))

lemma allocated_of_pos (h : ReferenceInv s T) (ha : 0 < s.holders a + T.count a) : a < s.nextInode := by
  by_contra hlt
  exact absurd (h.unheld a (Nat.not_lt.mp hlt)) ha.ne'

lemma allocated (h : ReferenceInv s T) (ha : s.Cached a) : a < s.nextInode :=
  h.allocated_of_pos (h.held a ha)

lemma refcount_pos (h : ReferenceInv s T) (ha : s.Cached a) : 0 < (s.inodes a).refcount :=
  (h.held a ha).trans_le (h.counted a)

lemma recount (h : ReferenceInv s T) {n : ℕ} (ha : 0 < s.holders a + T.count a)
    (hT : ∀ b, b ≠ a → T'.count b = T.count b) (hn : s.holders a + T'.count a ≤ n)
    (hheld : 0 < s.holders a + T'.count a) :
    ReferenceInv (s.setInode a { s.inodes a with refcount := n }) T' where
  held b hb := by
    by_cases hab : b = a
    · subst hab
      exact hheld
    · rw [hT b hab]
      exact h.held b hb
  opened b hb := by
    by_cases hab : b = a
    · subst hab
      simpa using h.opened b ha
    · rw [hT b hab] at hb
      simpa [hab] using h.opened b hb
  unheld b hb := by
    have hab : b ≠ a := fun hab => absurd (h.allocated_of_pos ha) (Nat.not_lt.mpr (hab ▸ hb))
    rw [hT b hab]
    exact h.unheld b hb
  counted b := by
    by_cases hab : b = a
    · subst hab
      simpa using hn
    · rw [hT b hab]
      simpa [hab] using h.counted b
  unique := h.unique
  returned := h.returned

lemma openInode_cached (h : ReferenceInv s T) (ha : s.Cached a) (rc : ℤ) :
    ∃ s', openInode s a rc = (0, s') ∧ ReferenceInv s' (a ::ₘ T) ∧ SameTable s s' := by
  refine ⟨_, if_pos (h.refcount_pos ha), h.recount (h.held a ha) ?_ ?_ ?_, sameTable_setInode a rfl rfl⟩
  · exact fun b hb => Multiset.count_cons_of_ne hb T
  · rw [Multiset.count_cons_self, ← add_assoc]
    exact Nat.succ_le_succ (h.counted a)
  · rw [Multiset.count_cons_self]
    omega

lemma closeInode_held (h : ReferenceInv s (a ::ₘ T)) (ha : 0 < s.holders a + T.count a) :
    ∃ s', closeInode s (some a) = .ok s' ∧ ReferenceInv s' T ∧ SameTable s s' := by
  have hc := h.counted a
  rw [Multiset.count_cons_self] at hc
  refine ⟨s.setInode a { s.inodes a with refcount := (s.inodes a).refcount - 1 }, ?_,
    h.recount ?_ ?_ ?_ ha, sameTable_setInode a rfl rfl⟩
  · have hpos : (s.inodes a).refcount > 0 := by omega
    have hone : (s.inodes a).refcount > 1 := by omega
    simp only [closeInode, kassert_of hpos, ok_bind, if_pos hone, pure_eq_ok]
  · rw [Multiset.count_cons_self]
    omega
  · exact fun b hb => (Multiset.count_cons_of_ne hb T).symm
  · omega

lemma leak (h : ReferenceInv s (a ::ₘ T)) (ha : 0 < s.holders a + T.count a) : ReferenceInv s T := by
  have hle : ∀ b, T.count b ≤ (a ::ₘ T).count b := fun b => Multiset.count_le_count_cons b a T
  refine { h with held := ?_, opened := ?_, unheld := ?_, counted := ?_ }
  · intro b hb
    by_cases hab : b = a
    · subst hab
      exact ha
    · simpa [Multiset.count_cons_of_ne hab] using h.held b hb
  · exact fun b hb => h.opened b (hb.trans_le (Nat.add_le_add_left (hle b) _))
  · intro b hb
    have hu := h.unheld b hb
    have := hle b
    omega
  · exact fun b => (Nat.add_le_add_left (hle b) _).trans (h.counted b)

lemma newInode (h : ReferenceInv s T) (temp : Inode) : ReferenceInv (s.newInode temp) T := by
  refine { h with opened := ?_, unheld := ?_, counted := ?_ }
  · intro b hb
    rw [newInode_of_ne s (h.allocated_of_pos hb).ne]
    exact h.opened b hb
  · exact fun b hb => h.unheld b (Nat.le_of_succ_le hb)
  · intro b
    by_cases hb : b = s.nextInode
    · subst hb
      exact (h.unheld _ le_rfl).le.trans (Nat.zero_le _)
    · simpa [hb] using h.counted b

lemma openInode_closed (h : ReferenceInv s T) (ha : a < s.nextInode) (hz : (s.inodes a).refcount = 0) :
    openInode s a 0 = (0, s.setInode a { s.inodes a with refcount := 1, live := true }) ∧
      ReferenceInv (s.setInode a { s.inodes a with refcount := 1, live := true }) (a ::ₘ T) := by
  have hc := h.counted a
  rw [hz] at hc
  refine ⟨?_, ?_⟩
  · simp [openInode, hz]
  · refine { h with held := ?_, opened := ?_, unheld := ?_, counted := ?_ }
    · intro b hb
      exact (h.held b hb).trans_le (Nat.add_le_add_left (Multiset.count_le_count_cons b a T) _)
    · intro b hb
      by_cases hab : b = a
      · subst hab
        simp
      · rw [Multiset.count_cons_of_ne hab] at hb
        simpa [hab] using h.opened b hb
    · intro b hb
      have hab : b ≠ a := fun hab => absurd ha (Nat.not_lt.mpr (hab ▸ hb))
      rw [Multiset.count_cons_of_ne hab]
      exact h.unheld b hb
    · intro b
      by_cases hab : b = a
      · subst hab
        rw [holders_setInode, Multiset.count_cons_self, setInode_self]
        change s.holders b + (T.count b + 1) ≤ 1
        omega
      · simpa [hab] using h.counted b

lemma closeInode_last (h : ReferenceInv s (a ::ₘ T)) (hc : ¬ s.Cached a) (hone : (s.inodes a).refcount = 1) :
    closeInode s (some a) = .ok (s.setInode a { s.inodes a with live := false }) ∧
      ReferenceInv (s.setInode a { s.inodes a with live := false }) T := by
  have hcount := h.counted a
  rw [hone, Multiset.count_cons_self] at hcount
  have hle : ∀ b, T.count b ≤ (a ::ₘ T).count b := fun b => Multiset.count_le_count_cons b a T
  refine ⟨?_, ?_⟩
  · simp [closeInode, hone]
  · refine { h with held := ?_, opened := ?_, unheld := ?_, counted := ?_ }
    · intro b hb
      have hab : b ≠ a := fun hab => hc (hab ▸ hb)
      have hh := h.held b hb
      rwa [Multiset.count_cons_of_ne hab] at hh
    · intro b hb
      rw [holders_setInode] at hb
      have hab : b ≠ a := by
        rintro rfl
        omega
      rw [setInode_of_ne s hab]
      exact h.opened b (hb.trans_le (Nat.add_le_add_left (hle b) _))
    · intro b hb
      have hu := h.unheld b hb
      have := hle b
      rw [holders_setInode]
      omega
    · intro b
      by_cases hab : b = a
      · subst hab
        rw [holders_setInode, setInode_self]
        omega
      · rw [holders_setInode, setInode_of_ne s hab]
        exact (Nat.add_le_add_left (hle b) _).trans (h.counted b)

lemma addEntry (h : ReferenceInv s T) (ha : a ∈ T) {fs identifier : ℕ}
    (hfree : icacheLookup (s.filesystems fs).icache identifier = none) :
    ReferenceInv (s.addEntry fs identifier a) T := by
  refine { h with held := ?_, unique := ?_ }
  · rintro b ⟨fs', entry, he, rfl⟩
    by_cases hfs : fs' = fs
    · subst hfs
      simp only [VfsState.addEntry, Function.update_self] at he
      rcases List.mem_cons.mp he with rfl | he
      · exact Nat.add_pos_right _ (Multiset.count_pos.mpr ha)
      · exact h.held _ ⟨_, entry, he, rfl⟩
    · simp only [VfsState.addEntry, Function.update_of_ne hfs] at he
      exact h.held _ ⟨_, entry, he, rfl⟩
  · intro fs'
    by_cases hfs : fs' = fs
    · subst hfs
      simp only [VfsState.addEntry, Function.update_self, List.map_cons]
      exact List.nodup_cons.mpr ⟨icacheLookup_none hfree, h.unique fs'⟩
    · simp only [VfsState.addEntry, Function.update_of_ne hfs]
      exact h.unique fs'

lemma handOver (h : ReferenceInv s T) {custodies : List FileCustody} {roots : List ℕ}
    (hh : ∀ b, roots.count b + (custodies.map FileCustody.inode).count b + T'.count b =
      s.holders b + T.count b) :
    ReferenceInv { s with custodies := custodies, roots := roots } T' where
  held b hb := (h.held b hb).trans_eq (hh b).symm
  opened b hb := h.opened b (hb.trans_eq (hh b))
  unheld b hb := (hh b).trans (h.unheld b hb)
  counted b := (hh b).le.trans (h.counted b)
  unique := h.unique
  returned := h.returned

lemma toCustody {c : FileCustody} (h : ReferenceInv s (c.inode ::ₘ T)) :
    ReferenceInv { s with custodies := s.custodies ++ [c] } T := by
  refine h.handOver (fun b => ?_)
  rw [List.map_append, List.count_append, List.map_singleton, holders]
  by_cases hb : b = c.inode
  · subst hb
    rw [Multiset.count_cons_self, List.count_singleton_self]
    omega
  · rw [Multiset.count_cons_of_ne hb, List.count_eq_zero.mpr (fun hm => hb (List.mem_singleton.mp hm))]
    omega

lemma toRoot (h : ReferenceInv s (a ::ₘ T)) : ReferenceInv { s with roots := a :: s.roots } T := by
  refine h.handOver (fun b => ?_)
  rw [holders]
  by_cases hb : b = a
  · subst hb
    rw [Multiset.count_cons_self, List.count_cons_self]
    omega
  · rw [Multiset.count_cons_of_ne hb, List.count_cons_of_ne (Ne.symm hb)]

lemma logReturn (h : ReferenceInv s T) (ha : (s.inodes a).live) : ReferenceInv (s.logReturn a) T := by
  refine { h with returned := ?_ }
  intro r hr
  rcases List.mem_cons.mp hr with rfl | hr
  · exact ha
  · exact h.returned r hr

end ReferenceInv

end Pi0Os.Vfs
