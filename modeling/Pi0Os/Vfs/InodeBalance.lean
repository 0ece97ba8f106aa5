import Pi0Os.Vfs.InodeCacheRuns

/-! The reference counts compared with the custodies and the mounts: a count is exact as long as
what is opened is the root of a filesystem, since `vfs_open` keeps its reference to the parent. -/

namespace Pi0Os.Vfs

open Kernel Library VfsState

/-- The counts are exact, and only the roots of the mounted filesystems are cached and open. -/
structure BalanceInv (s : VfsState) (T : Multiset ℕ) : Prop extends ReferenceInv s T where
  exact : ∀ a, 0 < s.holders a + T.count a → (s.inodes a).refcount = s.holders a + T.count a
  cachedRoots : ∀ a, s.Cached a → a ∈ s.roots
  openRoots : ∀ c ∈ s.custodies, c.inode ∈ s.roots
  nodup : s.roots.Nodup

section Counts

variable {s s' : VfsState} {T T' : Multiset ℕ} {a : ℕ}

lemma holders_pos_of_root (ha : a ∈ s.roots) : 0 < s.holders a :=
  Nat.add_pos_left (List.count_pos_iff.mpr ha) _

lemma BalanceInv.recount (h : BalanceInv s T) (ha : a ∈ s.roots)
    (hT : ∀ b, b ≠ a → T'.count b = T.count b) :
    BalanceInv (s.setInode a { s.inodes a with refcount := s.holders a + T'.count a }) T' where
  toReferenceInv := h.toReferenceInv.recount (Nat.add_pos_left (holders_pos_of_root ha) _) hT le_rfl
    (Nat.add_pos_left (holders_pos_of_root ha) _)
  exact b hb := by
    by_cases hab : b = a
    · subst hab
      rw [setInode_self, holders_setInode]
    · rw [setInode_of_ne s hab, holders_setInode, hT b hab]
      rw [holders_setInode, hT b hab] at hb
      exact h.exact b hb
  cachedRoots := h.cachedRoots
  openRoots := h.openRoots
  nodup := h.nodup

lemma BalanceInv.openInode (h : BalanceInv s T) (ha : a ∈ s.roots) (rc : ℤ) :
    ∃ s', Vfs.openInode s a rc = (0, s') ∧ BalanceInv s' (a ::ₘ T) ∧ SameTable s s' := by
  have hpos : 0 < s.holders a + T.count a := Nat.add_pos_left (holders_pos_of_root ha) _
  have hcount : (s.inodes a).refcount + 1 = s.holders a + (a ::ₘ T).count a := by
    rw [h.exact a hpos, Multiset.count_cons_self, add_assoc]
  refine ⟨_, if_pos (h.exact a hpos ▸ hpos), ?_, sameTable_setInode a rfl rfl⟩
  rw [hcount]
  exact h.recount ha (fun b hb => Multiset.count_cons_of_ne hb T)

lemma closeInode_shared (h : 1 < (s.inodes a).refcount) :
    closeInode s (some a) = .ok (s.setInode a { s.inodes a with refcount := (s.inodes a).refcount - 1 }) := by
  simp only [Vfs.closeInode, kassert_of (Nat.zero_lt_of_lt h), ok_bind, if_pos h, pure_eq_ok]

lemma cached_addEntry {fs identifier : ℕ} {b : ℕ} (h : (s.addEntry fs identifier a).Cached b) :
    s.Cached b ∨ b = a := by
  obtain ⟨fs', entry, he, rfl⟩ := h
  by_cases hfs : fs' = fs
  · subst hfs
    simp only [addEntry, Function.update_self] at he
    rcases List.mem_cons.mp he with rfl | he
    · exact Or.inr rfl
    · exact Or.inl ⟨fs', entry, he, rfl⟩
  · simp only [addEntry, Function.update_of_ne hfs] at he
    exact Or.inl ⟨fs', entry, he, rfl⟩

lemma BalanceInv.closeInode (h : BalanceInv s (a ::ₘ T)) (ha : a ∈ s.roots) :
    ∃ s', Vfs.closeInode s (some a) = .ok s' ∧ BalanceInv s' T ∧ SameTable s s' := by
  have hroot : 0 < s.holders a := holders_pos_of_root ha
  have hcount : (s.inodes a).refcount = s.holders a + T.count a + 1 := by
    rw [h.exact a (Nat.add_pos_left hroot _), Multiset.count_cons_self, add_assoc]
  refine ⟨_, closeInode_shared (by omega), ?_, sameTable_setInode a rfl rfl⟩
  rw [hcount, Nat.add_sub_cancel]
  exact h.recount ha (fun b hb => (Multiset.count_cons_of_ne hb T).symm)

lemma BalanceInv.closeOptional {inode : Option ℕ} (h : BalanceInv s (T + optRefs inode))
    (ha : ∀ a ∈ inode, a ∈ s.roots) :
    ∃ s', Vfs.closeInode s inode = .ok s' ∧ BalanceInv s' T ∧ SameTable s s' := by
  cases inode with
  | none => exact ⟨s, rfl, by simpa [optRefs] using h, .refl s, rfl, fun _ => rfl, fun _ => rfl⟩
  | some a =>
    rw [optRefs, add_comm, Multiset.singleton_add] at h
    exact h.closeInode (ha a rfl)

lemma BalanceInv.logReturn (h : BalanceInv s T) (ha : (s.inodes a).live) : BalanceInv (s.logReturn a) T :=
  { h with toReferenceInv := h.toReferenceInv.logReturn ha }

lemma BalanceInv.handOver (h : BalanceInv s T) {custodies : List FileCustody}
    (hh : ∀ b, (custodies.map FileCustody.inode).count b + T'.count b =
      (s.custodies.map FileCustody.inode).count b + T.count b)
    (hc : ∀ c ∈ custodies, c.inode ∈ s.roots) : BalanceInv { s with custodies := custodies } T' := by
  have hsum : ∀ b, VfsState.holders { s with custodies := custodies } b + T'.count b = s.holders b + T.count b := by
    intro b
    rw [holders, holders, add_assoc, hh b, add_assoc]
  refine ⟨h.toReferenceInv.handOver hsum, ?_, h.cachedRoots, hc, h.nodup⟩
  intro b hb
  rw [hsum] at hb ⊢
  exact h.exact b hb

lemma BalanceInv.toCustody {c : FileCustody} (h : BalanceInv s (c.inode ::ₘ T)) (ha : c.inode ∈ s.roots) :
    BalanceInv { s with custodies := s.custodies ++ [c] } T := by
  refine h.handOver (fun b => ?_) ?_
  · rw [List.map_append, List.count_append, List.map_singleton, List.count_singleton, Multiset.count_cons]
    by_cases hb : b = c.inode
    · subst hb
      simp only [beq_self_eq_true, if_true]
      omega
    · simp only [hb, Ne.symm hb, beq_iff_eq, if_false]
      omega
  · intro c' hc'
    rcases List.mem_append.mp hc' with hc' | hc'
    · exact h.openRoots c' hc'
    · rw [List.mem_singleton.mp hc']
      exact ha

lemma cacheNewInode_frame {env : NewInodeEnv} {fs : ℕ} {temp : Inode} {rc : ℤ}
    (h : cacheNewInode s env fs temp = .ok (.error rc, s')) :
    s'.filesystems = s.filesystems ∧ ∀ b, b ≠ s.nextInode → s'.inodes b = s.inodes b := by
  obtain ⟨inodeMem, openRc, entryMem⟩ := env
  cases inodeMem with
  | false =>
    cases h
    exact ⟨rfl, fun _ _ => rfl⟩
  | true =>
    have hz : ((s.newInode temp).inodes s.nextInode).refcount = 0 := by rw [newInode_self]
    by_cases hrc : openRc = 0
    · subst hrc
      rw [cacheNewInode] at h
      simp only [openInode, hz, gt_iff_lt, lt_irrefl, if_false, ne_eq, not_true_eq_false] at h
      obtain ⟨⟨rc', s₂⟩, hins, h⟩ := bind_eq_ok.mp h
      obtain ⟨-, hins⟩ := kassert_bind_eq_ok.mp hins
      cases entryMem with
      | true =>
        cases hins
        cases h
      | false =>
        cases hins
        obtain ⟨s₃, hcl, h⟩ := bind_eq_ok.mp h
        cases h
        simp only [closeInode, setInode_self] at hcl
        cases hcl
        exact ⟨rfl, fun b hb => by simp [hb]⟩
    · simp only [cacheNewInode, openInode_error hrc hz] at h
      simp only [hrc, ne_eq, not_false_eq_true, if_true, not_true_eq_false, if_false] at h
      cases h
      exact ⟨rfl, fun b hb => newInode_of_ne s hb temp⟩

lemma BalanceInv.cacheNewInode (h : BalanceInv s T) {env : NewInodeEnv} {fs : ℕ} {temp : Inode}
    (hfree : icacheLookup (s.filesystems fs).icache temp.identifier = none) (hfail : ¬ env.Succeeds) :
    ∃ rc s', Vfs.cacheNewInode s env fs temp = .ok (.error rc, s') ∧ SameHolders s s' ∧ BalanceInv s' T := by
  rcases cacheNewInode_spec h.toReferenceInv env hfree with ⟨hsucc, -⟩ | ⟨-, rc, s', hn, hs, hi⟩
  · exact absurd hsucc hfail
  · obtain ⟨hfs, hinodes⟩ := cacheNewInode_frame hn
    refine ⟨rc, s', hn, hs, hi, ?_, ?_, ?_, hs.roots ▸ h.nodup⟩
    · intro a ha
      rw [hs.holders] at ha ⊢
      rw [hinodes a (h.allocated_of_pos ha).ne]
      exact h.exact a ha
    · rintro a ⟨fs', entry, he, rfl⟩
      rw [hs.roots]
      exact h.cachedRoots _ ⟨fs', entry, hfs ▸ he, rfl⟩
    · rw [hs.custodies, hs.roots]
      exact h.openRoots

end Counts

section Walk

variable {s s' : VfsState} {T : Multiset ℕ} {creates : Prop}

/-- The inode at the end of the path, if the whole walk stays in the cache. -/
def walkEnd (s : VfsState) (env : ℕ → LookupEnv) (inode i : ℕ) : List CString → Option ℕ
  | [] => some inode
  | name :: path =>
    if (s.inodes inode).type ≠ .directory then none
    else
      match (env i).answer name with
      | .error _ => none
      | .ok temp =>
        match icacheLookup (s.filesystems (s.inodes inode).filesystem).icache temp.identifier with
        | some next => walkEnd s env next (i + 1) path
        | none => none

lemma walkEnd_congr (hs : SameTable s s') (env : ℕ → LookupEnv) (path : List CString) :
    ∀ inode i, walkEnd s' env inode i path = walkEnd s env inode i path := by
  induction path with
  | nil => exact fun _ _ => rfl
  | cons name path ih =>
    intro inode i
    simp only [walkEnd, hs.type, hs.filesystem, hs.filesystems, ih]

structure WalkBalance (s : VfsState) (target : Option ℕ) (creates : Prop) (t : Traversal) : Prop where
  inv : BalanceInv t.state (refs t.result + optRefs t.parent)
  same : SameHolders s t.state
  parent : ∀ p ∈ t.parent, p ∈ s.roots
  target : ∀ a, t.result = .ok a → target = some a ∧ a ∈ s.roots ∧ SameTable s t.state
  missing : ∀ rc, t.result = .error rc → t.parent ≠ none → creates

lemma WalkBalance.of_sameTable (hs : SameTable s s') {target : Option ℕ} {t : Traversal}
    (h : WalkBalance s' target creates t) : WalkBalance s target creates t where
  inv := h.inv
  same := hs.toSameHolders.trans h.same
  parent p hp := hs.roots ▸ h.parent p hp
  target a ha := ⟨(h.target a ha).1, hs.roots ▸ (h.target a ha).2.1, hs.trans (h.target a ha).2.2⟩
  missing := h.missing

lemma BalanceInv.abandon {inode : ℕ} {target : Option ℕ} (h : BalanceInv s {inode}) (ha : inode ∈ s.roots)
    (rc : ℤ) : ∃ s', Vfs.closeInode s (some inode) = .ok s' ∧
      WalkBalance s target creates ⟨.error rc, none, s'⟩ := by
  obtain ⟨s', hcl, hi, hs⟩ := BalanceInv.closeInode (T := 0) h ha
  exact ⟨s', hcl, hi, hs.toSameHolders, (fun _ hp => by cases hp), (fun _ ha => by cases ha),
    fun _ _ hn => absurd rfl hn⟩

lemma BalanceInv.miss {inode : ℕ} {path : List CString} (h : BalanceInv s {inode}) (target : Option ℕ)
    (ha : inode ∈ s.roots) (hcr : path = [] → creates) : ∃ t,
      (if path = [] then .ok ⟨.error (-Err.noEnt), some inode, s⟩
        else Vfs.closeInode s (some inode) >>= fun s => .ok ⟨.error (-Err.noEnt), none, s⟩) =
        (.ok t : Except Panic Traversal) ∧ WalkBalance s target creates t := by
  by_cases hpath : path = []
  · refine ⟨_, if_pos hpath, by simpa [refs, optRefs] using h, .refl s, ?_, (fun _ ha => by cases ha),
      fun _ _ _ => hcr hpath⟩
    rintro p ⟨⟩
    exact ha
  · obtain ⟨s', hcl, ht⟩ := h.abandon ha (-Err.noEnt)
    exact ⟨_, by rw [if_neg hpath, hcl]; rfl, ht⟩

lemma traverseLoop_balance (env : ℕ → LookupEnv) (path : List CString) :
    ∀ s parent inode i, BalanceInv s ({inode} + optRefs parent) → s.Cached inode →
      (∀ p ∈ parent, p ∈ s.roots) → WalkSafe s env (fun _ => False) creates inode i path →
      ∃ t, traverseLoop env s parent inode i path = .ok t ∧
        WalkBalance s (walkEnd s env inode i path) creates t ∧ (path = [] → t.parent = parent) := by
  induction path with
  | nil =>
    intro s parent inode i h hc hp _
    refine ⟨⟨.ok inode, parent, s⟩, rfl, ⟨h, .refl s, hp, ?_, fun rc hrc => by cases hrc⟩, fun _ => rfl⟩
    rintro a ⟨⟩
    exact ⟨rfl, h.cachedRoots _ hc, .refl s, rfl, fun _ => rfl, fun _ => rfl⟩
  | cons name path ih =>
    intro s parent inode i h hc hp hw
    have hroot := h.cachedRoots inode hc
    obtain ⟨s₁, hclose, h₁, hs₁⟩ := h.closeOptional hp
    have hroot₁ : inode ∈ s₁.roots := hs₁.roots ▸ hroot
    suffices hloop : ∃ t, traverseLoop env s parent inode i (name :: path) = .ok t ∧
        WalkBalance s₁ (walkEnd s₁ env inode i (name :: path)) creates t by
      obtain ⟨t, ht, hb⟩ := hloop
      rw [walkEnd_congr hs₁] at hb
      exact ⟨t, ht, hb.of_sameTable hs₁, fun hn => by cases hn⟩
    rw [← walkSafe_congr hs₁] at hw
    simp only [traverseLoop, hclose, ok_bind, pure_eq_ok]
    by_cases hdir : (s₁.inodes inode).type = .directory
    · rw [if_neg (not_not_intro hdir), walkEnd, if_neg (not_not_intro hdir)]
      have hwalk := hw hdir
      cases hans : (env i).answer name with
      | error rc =>
        simp only [hans] at hwalk
        have hl : lookupInode s₁ (env i) inode name = .ok (.error rc, s₁) := by
          simp only [lookupInode, hans, pure_eq_ok]
        rw [hl]
        exact h₁.miss none hroot₁ hwalk
      | ok temp =>
        simp only [hans] at hwalk
        dsimp only
        cases hcache : icacheLookup (s₁.filesystems (s₁.inodes inode).filesystem).icache temp.identifier with
        | some next =>
          simp only [hcache] at hwalk
          have hnext := cached_of_lookup hcache
          obtain ⟨s₂, ho, h₂, hs₂⟩ := h₁.openInode (h₁.cachedRoots next hnext) (env i).openRc
          have hl : lookupInode s₁ (env i) inode name = .ok (.ok next, s₂.logReturn next) := by
            simp only [lookupInode, hans, hcache, ho, ne_eq, not_true_eq_false, if_false, pure_eq_ok]
          have hs₃ : SameTable s₁ (s₂.logReturn next) := { hs₂ with }
          have hc₃ : (s₂.logReturn next).Cached next := (hs₃.cached next).mpr hnext
          rw [hl]
          obtain ⟨t, ht, hb, -⟩ := ih (s₂.logReturn next) (some inode) next (i + 1)
            (h₂.logReturn (h₂.live_of_mem (Multiset.mem_cons_self _ _))) hc₃
            (fun p hp => by cases hp; exact hs₃.roots ▸ hroot₁)
            ((walkSafe_congr hs₃ env path next (i + 1)).mpr hwalk)
          rw [walkEnd_congr hs₃] at hb
          exact ⟨t, ht, hb.of_sameTable hs₃⟩
        | none =>
          simp only [hcache] at hwalk
          have hfail : ¬ (env i).Succeeds := fun hsucc => (hwalk.1 hsucc).2
          obtain ⟨rc, s₂, hn, hs₂, h₂⟩ := h₁.cacheNewInode hcache hfail
          have hl : lookupInode s₁ (env i) inode name = .ok (.error rc, s₂) := by
            simp only [lookupInode, hans, hcache, hn, ok_bind, pure_eq_ok]
          rw [hl]
          obtain ⟨t, ht, hb⟩ := h₂.miss none (hs₂.roots ▸ hroot₁) (hwalk.2 hfail)
          refine ⟨t, ht, hb.inv, hs₂.trans hb.same, fun p hp => hs₂.roots ▸ hb.parent p hp, ?_, hb.missing⟩
          intro a ha
          cases (hb.target a ha).1
    · obtain ⟨s₃, hcl, ht⟩ := h₁.abandon hroot₁ (-Err.notDir)
      exact ⟨_, by rw [if_pos hdir, hcl]; rfl, ht⟩

end Walk

section Open

variable {s s' : VfsState} {env : OpenEnv} {path : CString} {flags : ℕ} {rc : ℤ}

/-- No new inode enters the cache, and the only inode that can be opened is the root of the
filesystem itself. -/
def OpenBalanced (s : VfsState) (env : OpenEnv) (path : CString) (flags : ℕ) : Prop :=
  ∀ mp rest, mountOf env.malloc s.mounts path = .ok (.ok (mp, rest)) → ∀ root,
    icacheLookup (s.filesystems mp.fs).icache (s.filesystems mp.fs).root = some root →
    WalkSafe s env.walk (fun _ => False)
      (flags &&& ofCreate ≠ 0 → ∀ temp, env.create.answer (filename path) = .ok temp → ¬ env.create.Succeeds)
      root 0 (components rest) ∧
    (components rest ≠ [] → ∀ a, walkEnd s env.walk root 0 (components rest) = some a →
      ¬ env.Kept flags (s.inodes a).type)

/-- What `traverse` and the creation of a missing file leave behind. -/
structure OpenBalance (s : VfsState) (env : OpenEnv) (flags : ℕ) (parent : Option ℕ) (r : Except ℤ ℕ)
    (s' : VfsState) : Prop where
  inv : BalanceInv s' (refs r + optRefs parent)
  same : SameHolders s s'
  held : ∀ p ∈ parent, p ∈ s.roots
  target : ∀ a, r = .ok a → a ∈ s.roots ∧ (parent ≠ none → ¬ env.Kept flags (s'.inodes a).type)

lemma traverse_balance (h : BalanceInv s 0) (hb : OpenBalanced s env path flags) {t : Traversal}
    (ht : traverse s env path = .ok t) : OpenBalance s env flags t.parent t.result t.state ∧
      ∀ rc, t.result = .error rc → t.parent ≠ none → flags &&& ofCreate ≠ 0 →
        ∀ temp, env.create.answer (filename path) = .ok temp → ¬ env.create.Succeeds := by
  have hnone : ∀ rc, OpenBalance s env flags none (.error rc) s :=
    fun rc => ⟨h, .refl s, (fun _ hp => by cases hp), fun _ ha => by cases ha⟩
  obtain ⟨rc | ⟨mp, rest⟩, hm, ht⟩ := bind_eq_ok.mp ht
  · cases ht
    exact ⟨hnone rc, fun _ _ hn => absurd rfl hn⟩
  · change traverseInFs s env mp.fs rest = .ok t at ht
    rw [traverseInFs] at ht
    cases hroot : icacheLookup (s.filesystems mp.fs).icache (s.filesystems mp.fs).root with
    | none =>
      rw [hroot] at ht
      cases ht
      exact ⟨hnone _, fun _ _ hn => absurd rfl hn⟩
    | some root =>
      obtain ⟨hwalk, hend⟩ := hb mp rest hm root hroot
      have hc := cached_of_lookup hroot
      obtain ⟨s₁, ho, h₁, hs₁⟩ := h.openInode (h.cachedRoots root hc) env.rootOpenRc
      simp only [hroot, ho, ne_eq, not_true_eq_false, if_false] at ht
      obtain ⟨t', ht', hw, hp⟩ := traverseLoop_balance env.walk (components rest) s₁ none root 0 h₁
        ((hs₁.cached root).mpr hc) (fun p hp => by cases hp) ((walkSafe_congr hs₁ env.walk _ root 0).mpr hwalk)
      rw [ht'] at ht
      cases ht
      rw [walkEnd_congr hs₁] at hw
      have hw := hw.of_sameTable hs₁
      refine ⟨⟨hw.inv, hw.same, hw.parent, fun a ha => ?_⟩, hw.missing⟩
      obtain ⟨hta, har, hsame⟩ := hw.target a ha
      refine ⟨har, fun hpar => ?_⟩
      rw [hsame.type]
      exact hend (fun hn => hpar (hp hn)) a hta

lemma createMissing_balance {t : Traversal} {r : Except ℤ ℕ}
    (ht : OpenBalance s env flags t.parent t.result t.state)
    (hcr : ∀ rc, t.result = .error rc → t.parent ≠ none → flags &&& ofCreate ≠ 0 →
      ∀ temp, env.create.answer (filename path) = .ok temp → ¬ env.create.Succeeds)
    (h : createMissing env path flags t = .ok (r, s')) : OpenBalance s env flags t.parent r s' := by
  have hsame : createMissing env path flags t = .ok (t.result, t.state) →
      OpenBalance s env flags t.parent r s' := by
    intro h'
    rw [h] at h'
    cases h'
    exact ht
  obtain ⟨result, parent, s₁⟩ := t
  cases result with
  | ok a => exact hsame rfl
  | error rc =>
    cases parent with
    | none => exact hsame rfl
    | some parent =>
      by_cases hf : flags &&& ofCreate ≠ 0
      · simp only [createMissing, if_pos hf, kassert_bind_eq_ok] at h
        obtain ⟨-, -, h⟩ := h
        have hi : BalanceInv s₁ (optRefs (some parent)) := by simpa [refs] using ht.inv
        rw [createInode] at h
        cases hans : env.create.answer (filename path) with
        | error rc =>
          rw [hans] at h
          cases h
          exact ⟨ht.inv, ht.same, ht.held, fun a ha => by cases ha⟩
        | ok temp =>
          simp only [hans, kassert_bind_eq_ok] at h
          obtain ⟨hfree, h⟩ := h
          obtain ⟨rc, s₂, hn, hs₂, h₂⟩ := hi.cacheNewInode hfree (hcr _ rfl (by simp) hf temp hans)
          rw [hn] at h
          cases h
          exact ⟨by simpa [refs] using h₂, ht.same.trans hs₂, ht.held, fun a ha => by cases ha⟩
      · exact hsame (by simp only [createMissing, if_neg hf])

lemma failOpen_balance {parent : Option ℕ} (inode : Option ℕ) (h : BalanceInv s (optRefs inode + optRefs parent))
    (hp : ∀ p ∈ parent, p ∈ s.roots) (ha : ∀ a ∈ inode, a ∈ s.roots)
    (hf : failOpen s parent inode rc = .ok (rc', s')) : BalanceInv s' 0 ∧ s'.roots = s.roots := by
  obtain ⟨s₁, hc₁, h₁, hs₁⟩ := h.closeOptional hp
  obtain ⟨s₂, hc₂, h₂, hs₂⟩ := BalanceInv.closeOptional (T := 0) (by simpa using h₁)
    (fun a hm => by rw [hs₁.roots]; exact ha a hm)
  simp only [failOpen, hc₁, hc₂, ok_bind, pure_eq_ok] at hf
  cases hf
  exact ⟨h₂, hs₂.roots.trans hs₁.roots⟩

lemma vfsOpen_balance (h : BalanceInv s 0) (hb : OpenBalanced s env path flags)
    (ho : vfsOpen s env path flags = .ok (rc, s')) : BalanceInv s' 0 ∧ s'.roots = s.roots := by
  obtain ⟨t, htr, ho⟩ := bind_eq_ok.mp ho
  obtain ⟨ht, hcr⟩ := traverse_balance h hb htr
  obtain ⟨⟨r, s₁⟩, hcm, ho⟩ := bind_eq_ok.mp ho
  obtain ⟨h₁, hs₁, hp, htarget⟩ := createMissing_balance ht hcr hcm
  have hp₁ : ∀ p ∈ t.parent, p ∈ s₁.roots := fun p hpar => hs₁.roots ▸ hp p hpar
  cases r with
  | error rc =>
    obtain ⟨hi, hr⟩ := failOpen_balance none h₁ hp₁ (fun a ha => by cases ha) ho
    exact ⟨hi, hr.trans hs₁.roots⟩
  | ok a =>
    obtain ⟨har, hkept⟩ := htarget a rfl
    have hfail : ∀ rc', failOpen s₁ t.parent (some a) rc' = .ok (rc, s') →
        BalanceInv s' 0 ∧ s'.roots = s.roots := by
      intro rc' hf
      obtain ⟨hi, hr⟩ := failOpen_balance (some a) h₁ hp₁ (by rintro b ⟨⟩; exact hs₁.roots ▸ har) hf
      exact ⟨hi, hr.trans hs₁.roots⟩
    dsimp only at ho
    split at ho
    · exact hfail _ ho
    · rename_i hdir
      split at ho
      · exact hfail _ ho
      · rename_i hmem
        have hpar : t.parent = none := by
          by_contra hne
          exact hkept hne ⟨fun hd hz => hdir ⟨hd, hz⟩, not_not.mp hmem⟩
        have hi : BalanceInv s₁ (a ::ₘ 0) := by simpa [hpar, refs, optRefs] using h₁
        have hl := hi.logReturn (hi.live_of_mem (Multiset.mem_cons_self a 0))
        cases ho
        exact ⟨BalanceInv.toCustody (c := ⟨a, flags, 0⟩) hl (hs₁.roots ▸ har), hs₁.roots⟩

end Open

def VfsCall.Opens : VfsCall → Prop
  | .openFile .. | .openAt .. => True
  | _ => False

def CallBalanced (s : VfsState) : VfsCall → Prop
  | .openFile env path flags => OpenBalanced s env path flags
  | .openAt env workdir path flags =>
    if path.head? = some Byte.slash then OpenBalanced s env path flags
    else ∀ joined, pathjoin env.malloc workdir path = some joined → OpenBalanced s env joined flags
  | _ => True

/-- Every count is the number of open custodies, plus one for the root of a mounted filesystem. -/
def VfsState.Balanced (s : VfsState) : Prop :=
  ∀ a, s.Cached a ∨ 0 < s.holders a →
    (s.inodes a).refcount = (s.custodies.map FileCustody.inode).count a + if a ∈ s.roots then 1 else 0

section Runs

variable {s s' : VfsState} {rc : ℤ}

lemma openCall_balance (h : BalanceInv s 0) {call : VfsCall} (hb : CallBalanced s call)
    (hopens : call.Opens) (hs : vfsCall s call = .ok (rc, s')) : BalanceInv s' 0 ∧ s'.roots = s.roots := by
  cases call with
  | openFile env path flags => exact vfsOpen_balance h hb hs
  | openAt env workdir path flags =>
    simp only [vfsCall, vfsOpenAt] at hs
    simp only [CallBalanced] at hb
    by_cases habs : path.head? = some Byte.slash
    · rw [if_pos habs] at hs hb
      exact vfsOpen_balance h hb hs
    · rw [if_neg habs] at hs hb
      cases hj : pathjoin env.malloc workdir path with
      | none =>
        rw [hj] at hs
        cases hs
        exact ⟨h, rfl⟩
      | some joined =>
        rw [hj] at hs
        exact vfsOpen_balance h (hb joined hj) hs
  | mount | duplicate | close => exact hopens.elim

lemma mountRoot_balance (h : BalanceInv s 0) {env : MountEnv} {fs : ℕ}
    (hm : mountRoot s env fs = .ok (rc, s')) : BalanceInv s' 0 := by
  have hi := mountRoot_spec h.toReferenceInv hm
  have hnew : s.nextInode ∉ s.roots := fun hr =>
    absurd (h.allocated_of_pos (Nat.add_pos_left (holders_pos_of_root hr) _)) (lt_irrefl _)
  have hz : ((s.newInode env.root).inodes s.nextInode).refcount = 0 := by rw [newInode_self]
  by_cases hrc : env.openRc = 0
  · obtain ⟨ho, -⟩ := (h.newInode env.root).openInode_closed (Nat.lt_succ_self s.nextInode) hz
    rw [mountRoot, hrc, ho] at hm
    obtain ⟨-, hm⟩ := kassert_bind_eq_ok.mp hm
    obtain ⟨⟨rc', s₂⟩, hins, hm⟩ := bind_eq_ok.mp hm
    obtain ⟨hfree, -⟩ := kassert_bind_eq_ok.mp hins
    rw [icacheInsert_free _ hfree] at hins
    have hframe : s₂.inodes = Function.update (s.newInode env.root).inodes s.nextInode
        { (s.newInode env.root).inodes s.nextInode with refcount := 1, live := true } ∧
        s₂.roots = s.roots ∧ s₂.custodies = s.custodies ∧ ∀ a, s₂.Cached a → s.Cached a ∨ a = s.nextInode := by
      cases hmem : env.entryMem with
      | false =>
        rw [hmem] at hins
        cases hins
        exact ⟨rfl, rfl, rfl, fun a ha => Or.inl ha⟩
      | true =>
        rw [hmem] at hins
        cases hins
        exact ⟨rfl, rfl, rfl, fun a ha => cached_addEntry ha⟩
    obtain ⟨hinodes, hroots, hcust, hcached⟩ := hframe
    cases hm
    refine ⟨hi, fun a ha => ?_, fun a ha => ?_, fun c hc => ?_, ?_⟩
    · rw [Multiset.count_zero, add_zero] at ha ⊢
      simp only [holders, hroots, hcust, hinodes] at ha ⊢
      by_cases hab : a = s.nextInode
      · subst hab
        have hu := h.unheld s.nextInode le_rfl
        rw [Multiset.count_zero, add_zero, holders] at hu
        rw [Function.update_self, List.count_cons_self]
        change 1 = _
        omega
      · rw [List.count_cons_of_ne (Ne.symm hab)] at ha ⊢
        rw [Function.update_of_ne hab, newInode_of_ne s hab]
        exact h.exact a ha
    · dsimp only
      rw [hroots]
      rcases hcached a ha with hc | rfl
      · exact List.mem_cons_of_mem _ (h.cachedRoots a hc)
      · exact List.mem_cons_self
    · dsimp only at hc ⊢
      rw [hcust] at hc
      rw [hroots]
      exact List.mem_cons_of_mem _ (h.openRoots c hc)
    · dsimp only
      rw [hroots]
      exact List.nodup_cons.mpr ⟨hnew, h.nodup⟩
  · rw [mountRoot, openInode_error hrc hz] at hm
    exact absurd (kassert_bind_eq_ok.mp hm).1 hrc

lemma vfsMount_balance (h : BalanceInv s 0) {env : MountEnv} {path : CString} {fs : ℕ}
    (hm : vfsMount s env path fs = .ok (rc, s')) : BalanceInv s' 0 := by
  obtain ⟨_ | cpath, -, hm⟩ := bind_eq_ok.mp hm
  · cases hm
    exact h
  dsimp only at hm
  split at hm
  · cases hm
    exact h
  · obtain ⟨mp, -, hm⟩ := bind_eq_ok.mp hm
    obtain ⟨mounts, -, hm⟩ := bind_eq_ok.mp hm
    exact mountRoot_balance (s := { s with mounts := mounts }) { h with } hm

lemma vfsDuplicate_balance (h : BalanceInv s 0) {c : FileCustody} (hc : c ∈ s.custodies) (mem : Bool) :
    BalanceInv (vfsDuplicate s c mem) 0 := by
  cases mem with
  | false => exact h
  | true =>
    have hr := h.openRoots c hc
    have hcount := h.exact c.inode (Nat.add_pos_left (holders_pos_of_root hr) _)
    rw [Multiset.count_zero, add_zero] at hcount
    have hi : BalanceInv _ (c.inode ::ₘ 0) := h.recount hr (fun b hb => Multiset.count_cons_of_ne hb 0)
    rw [Multiset.count_cons_self, Multiset.count_zero, zero_add, ← hcount] at hi
    exact hi.toCustody hr

lemma vfsClose_balance (h : BalanceInv s 0) {i : ℕ} {c : FileCustody} (hc : s.custodies[i]? = some c) :
    ∃ s', vfsClose s i c = .ok s' ∧ BalanceInv s' 0 ∧ s'.roots = s.roots ∧
      s'.custodies = s.custodies.eraseIdx i := by
  have hr := h.openRoots c (List.mem_of_getElem? hc)
  have hperm : List.Perm (c.inode :: (s.custodies.eraseIdx i).map FileCustody.inode)
      (s.custodies.map FileCustody.inode) := by
    obtain ⟨hi, rfl⟩ := List.getElem?_eq_some_iff.mp hc
    exact (List.getElem_cons_eraseIdx_perm hi).map FileCustody.inode
  have he : BalanceInv { s with custodies := s.custodies.eraseIdx i } (c.inode ::ₘ 0) := by
    refine h.handOver (fun b => ?_) (fun c' hc' => h.openRoots c' (List.mem_of_mem_eraseIdx hc'))
    rw [← hperm.count_eq b, List.count_cons, Multiset.count_cons]
    by_cases hb : b = c.inode
    · subst hb
      simp only [beq_self_eq_true, if_true]
      omega
    · simp only [hb, Ne.symm hb, beq_iff_eq, if_false]
      omega
  have hshared : 1 < (s.inodes c.inode).refcount := by
    have hcount := h.exact c.inode (Nat.add_pos_left (holders_pos_of_root hr) _)
    have hroot : 0 < s.roots.count c.inode := List.count_pos_iff.mpr hr
    have hopen : 0 < (s.custodies.map FileCustody.inode).count c.inode :=
      List.count_pos_iff.mpr (List.mem_map_of_mem (List.mem_of_getElem? hc))
    rw [holders, Multiset.count_zero] at hcount
    omega
  obtain ⟨s', hcl, hi, -⟩ := he.closeInode hr
  rw [closeInode_shared (s := { s with custodies := s.custodies.eraseIdx i }) hshared] at hcl
  cases hcl
  exact ⟨_, by rw [vfsClose, closeInode_shared hshared]; rfl, hi, rfl, rfl⟩

lemma step_balance (h : BalanceInv s 0) {call : VfsCall} (hb : CallBalanced s call)
    (hs : vfs.Step s call s') : BalanceInv s' 0 := by
  obtain ⟨rc, hs⟩ := hs
  cases call with
  | mount env path fs => exact vfsMount_balance h hs
  | openFile env path flags => exact (openCall_balance h hb trivial hs).1
  | openAt env workdir path flags => exact (openCall_balance h hb trivial hs).1
  | duplicate i mem =>
    cases hc : s.custodies[i]? with
    | none =>
      simp only [vfsCall, hc] at hs
      cases hs
    | some c =>
      simp only [vfsCall, hc] at hs
      cases hs
      exact vfsDuplicate_balance h (List.mem_of_getElem? hc) mem
  | close i =>
    cases hc : s.custodies[i]? with
    | none =>
      simp only [vfsCall, hc] at hs
      cases hs
    | some c =>
      obtain ⟨s₁, hcl, hi, -⟩ := vfsClose_balance h hc
      simp only [vfsCall, hc, hcl] at hs
      cases hs
      exact hi

lemma fresh_balance (h : s.Fresh) : BalanceInv s 0 where
  toReferenceInv := fresh_inv h
  exact a ha := by simp [holders, h.roots, h.custodies] at ha
  cachedRoots := by
    rintro a ⟨fs, entry, he, -⟩
    rw [h.icache] at he
    exact absurd he List.not_mem_nil
  openRoots c hc := by
    rw [h.custodies] at hc
    exact absurd hc List.not_mem_nil
  nodup := by
    rw [h.roots]
    exact List.nodup_nil

lemma BalanceInv.balanced (h : BalanceInv s 0) : s.Balanced := by
  intro a ha
  have hr : 0 < s.holders a := ha.elim (fun hc => holders_pos_of_root (h.cachedRoots a hc)) id
  have hcount := h.exact a (by rwa [Multiset.count_zero, add_zero])
  rw [Multiset.count_zero, add_zero, holders, h.nodup.count] at hcount
  rw [hcount, add_comm]

/-- In every run that opens nothing but roots the counts are exact, and `vfs_close` puts the counts
back to what they were before the `vfs_open` that returned the custody. -/
theorem inodeReferences_balanced (h : (vfs.restrict CallBalanced).Reachable s) :
    s.Balanced ∧ ∀ call rc s₁ c, call.Opens → CallBalanced s call → vfsCall s call = .ok (rc, s₁) →
      s₁.custodies = s.custodies ++ [c] → ∃ s₂, vfsCall s₁ (.close s.custodies.length) = .ok (0, s₂) ∧
        ∀ a, s.Cached a ∨ 0 < s.holders a → (s₂.inodes a).refcount = (s.inodes a).refcount := by
  have hind : (vfs.restrict CallBalanced).Inductive fun s => BalanceInv s 0 :=
    ⟨fun _ hs => fresh_balance hs, fun _ _ _ hi hs => step_balance hi hs.2 hs.1⟩
  have hi := h.invariant hind
  refine ⟨hi.balanced, fun call rc s₁ c hopens hb hcall hc => ?_⟩
  obtain ⟨h₁, hroots₁⟩ := openCall_balance hi hb hopens hcall
  have hget : s₁.custodies[s.custodies.length]? = some c := by rw [hc, List.getElem?_concat_length]
  obtain ⟨s₂, hcl, h₂, hroots₂, hcust₂⟩ := vfsClose_balance h₁ hget
  refine ⟨s₂, by simp only [vfsCall, hget, hcl]; rfl, fun a ha => ?_⟩
  have hsame : s₂.custodies = s.custodies := by
    rw [hcust₂, hc, List.eraseIdx_append_of_length_le le_rfl, Nat.sub_self]
    exact List.append_nil _
  have hroots : s₂.roots = s.roots := hroots₂.trans hroots₁
  have hh : ∀ b, s₂.holders b = s.holders b := fun b => by rw [holders, holders, hroots, hsame]
  have hpos : 0 < s.holders a := ha.elim (fun hc => holders_pos_of_root (hi.cachedRoots a hc)) id
  rw [h₂.balanced a (Or.inr ((hh a).symm ▸ hpos)), hi.balanced a ha, hroots, hsame]

def openSlash : VfsCall :=
  .openFile ⟨fun _ => true, 0, fun _ => findFile, findFile, true⟩ [Byte.slash] ofDirectory

theorem inodeReferences_balanced_root : ∃ s₁ s₂, vfs.Step emptyVfs mountSlash s₁ ∧ vfs.Step s₁ openSlash s₂ ∧
    s₂.Balanced ∧ s₂.custodies.length = 1 := by
  refine ⟨_, _, ⟨_, rfl⟩, ⟨_, rfl⟩, (inodeReferences_balanced (.step (a := openSlash)
    (.step (a := mountSlash) (.init emptyVfs_fresh) ⟨⟨_, rfl⟩, trivial⟩) ⟨⟨_, rfl⟩, ?_⟩)).1, rfl⟩
  rintro mp rest h root hroot
  cases h
  exact ⟨trivial, fun hne => absurd rfl hne⟩

/-- Opening `/f` and closing it again leaves a second reference on the root directory. -/
theorem open_close_leaks_parent : ∃ s₁ s₂ s₃, vfs.Init emptyVfs ∧ vfs.Step emptyVfs mountSlash s₁ ∧
    vfsCall s₁ openSlashF = .ok (0, s₂) ∧ vfsCall s₂ (.close 0) = .ok (0, s₃) ∧ ¬ s₂.Balanced ∧
    ¬ s₃.Balanced ∧ (s₁.inodes 0).refcount = 1 ∧ (s₃.inodes 0).refcount = 2 := by
  refine ⟨_, _, _, emptyVfs_fresh, ⟨_, rfl⟩, rfl, rfl, fun h => ?_, fun h => ?_, rfl, rfl⟩
  · exact absurd (h 0 (Or.inr (by decide))) (by decide)
  · exact absurd (h 0 (Or.inr (by decide))) (by decide)

end Runs

end Pi0Os.Vfs
