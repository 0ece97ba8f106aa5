import Pi0Os.Vfs.TraversalContract

/-! The caches stay open: what the calls of `vfs.cpp` make of a state whose cached inodes are open, and that every
state they reach is one. -/

namespace Pi0Os.Vfs

open Kernel Library VfsState

section Calls

variable {s s' : VfsState} {env : OpenEnv} {path : CString} {flags : ℕ} {rc : ℤ}

lemma closeInode_grows {a : Option ℕ} (h : closeInode s a = .ok s') :
    Grows s s' ∧ s'.filesystems = s.filesystems := by
  cases a with
  | none =>
    cases h
    exact ⟨.refl s, rfl⟩
  | some a =>
    obtain ⟨hpos, h⟩ := kassert_bind_eq_ok.mp h
    split_ifs at h with hone
    · cases h
      exact ⟨grows_setInode rfl rfl fun _ => Nat.sub_pos_of_lt hone, rfl⟩
    · cases h
      exact ⟨grows_setInode rfl rfl fun h => h, rfl⟩

lemma createInode_grows {env : LookupEnv} {parent : ℕ} {name : CString} {r : Except ℤ ℕ} (hc : CacheOpen s)
    (h : createInode s env parent name = .ok (r, s')) : Grows s s' ∧ CacheOpen s' := by
  rw [createInode] at h
  cases hans : env.answer name with
  | error rc =>
    rw [hans] at h
    cases h
    exact ⟨.refl s, hc⟩
  | ok temp =>
    rw [hans] at h
    obtain ⟨hfree, h⟩ := kassert_bind_eq_ok.mp h
    obtain ⟨r', s₁, l, hn, hg, hc₁, -, -⟩ := cacheNewInodeLogged_spec hc env.toNewInodeEnv hfree
    rw [← cacheNewInodeLogged_fst, hn] at h
    cases h
    exact ⟨hg, hc₁⟩

lemma createInode_spec {env : LookupEnv} {parent a : ℕ} {name : CString} (hc : CacheOpen s)
    (hp : parent < s.nextInode) (h : createInode s env parent name = .ok (.ok a, s')) :
    Referenced s' a ∧ ∃ temp, env.answer name = .ok temp ∧ (s'.inodes a).type = temp.type ∧
      icacheLookup (s'.filesystems (s'.inodes parent).filesystem).icache temp.identifier = some a := by
  rw [createInode] at h
  cases hans : env.answer name with
  | error rc =>
    rw [hans] at h
    cases h
  | ok temp =>
    rw [hans] at h
    obtain ⟨hfree, h⟩ := kassert_bind_eq_ok.mp h
    obtain ⟨r, s₁, l, hn, hg, -, -, hcases⟩ := cacheNewInodeLogged_spec hc env.toNewInodeEnv hfree
    rw [← cacheNewInodeLogged_fst, hn] at h
    obtain ⟨hr, rfl⟩ := Prod.mk.inj (Except.ok.inj h)
    subst hr
    rcases hcases with ⟨ha, href, htype, hentry⟩ | ⟨rc, hrc, -⟩
    · obtain rfl := Except.ok.inj ha
      refine ⟨href, temp, rfl, htype, ?_⟩
      rw [hg.filesystem parent hp]
      exact hentry
    · cases hrc

lemma failOpen_grows {parent inode : Option ℕ} {rc rc' : ℤ} (hc : CacheOpen s)
    (h : failOpen s parent inode rc = .ok (rc', s')) : Grows s s' ∧ CacheOpen s' := by
  obtain ⟨s₁, h₁, h⟩ := bind_eq_ok.mp h
  obtain ⟨s₂, h₂, h⟩ := bind_eq_ok.mp h
  cases h
  obtain ⟨hg₁, hf₁⟩ := closeInode_grows h₁
  obtain ⟨hg₂, hf₂⟩ := closeInode_grows h₂
  exact ⟨hg₁.trans hg₂, (hc.grows hg₁ hf₁).grows hg₂ hf₂⟩

/-- The end of `vfs_open`, with the inode that was found or created. -/
lemma openEnd_grows {parent : Option ℕ} {a : ℕ} (hc : CacheOpen s)
    (h : (if (s.inodes a).type = .directory ∧ flags &&& ofDirectory = 0 then
        failOpen s parent (some a) (-Err.isDir)
      else if ¬ env.custodyMem then failOpen s parent (some a) (-Err.noMem)
      else return (0, { s.logReturn a with custodies := s.custodies ++ [⟨a, flags, 0⟩] })) = .ok (rc, s')) :
    Grows s s' ∧ CacheOpen s' := by
  split_ifs at h
  all_goals try exact failOpen_grows hc h
  cases h
  have hg : Grows s { s.logReturn a with custodies := s.custodies ++ [⟨a, flags, 0⟩] } :=
    ⟨le_rfl, rfl, fun _ => rfl, fun _ _ _ h => h, fun _ _ => rfl, fun _ _ => rfl, fun _ _ h => h⟩
  exact ⟨hg, hc.grows hg rfl⟩

lemma mountOf_error {malloc : ℕ → Bool} {mounts : List (MountPoint ℕ)}
    (h : mountOf malloc mounts path = .ok (.error rc)) : rc ≠ 0 := by
  obtain ⟨cpath, -, h⟩ := bind_eq_ok.mp h
  cases cpath with
  | none =>
    cases h
    decide
  | some cpath =>
    obtain ⟨found, -, h⟩ := bind_eq_ok.mp h
    cases found with
    | none =>
      cases h
      decide
    | some found => cases h

/-- What a traversal hands back, also one of a path that is not absolute. -/
structure TraversalOpen (s : VfsState) (t : Traversal) : Prop where
  grows : Grows s t.state
  cacheOpen : CacheOpen t.state
  parent : ∀ p ∈ t.parent, Referenced t.state p
  result : ∀ a, t.result = .ok a → Referenced t.state a
  error : ∀ rc, t.result = .error rc → rc ≠ 0

lemma traverse_open {t : Traversal} (hc : CacheOpen s) (h : traverse s env path = .ok t) : TraversalOpen s t := by
  have hfail : ∀ rc, rc ≠ 0 → t = ⟨.error rc, none, s⟩ → TraversalOpen s t := by
    rintro rc hrc rfl
    refine ⟨.refl s, hc, nofun, nofun, ?_⟩
    rintro rc' ⟨⟩
    exact hrc
  obtain ⟨rc | ⟨mp, rest⟩, hm, h⟩ := bind_eq_ok.mp h
  · exact hfail rc (mountOf_error hm) (Except.ok.inj h).symm
  · change traverseInFs s env mp.fs rest = .ok t at h
    cases hroot : icacheLookup (s.filesystems mp.fs).icache (s.filesystems mp.fs).root with
    | none =>
      rw [traverseInFs, hroot] at h
      exact hfail _ (by decide) (Except.ok.inj h).symm
    | some root =>
      obtain ⟨t', l, hl, hg, hct, hend, hpar, hres, -⟩ := traverseInFsLogged_spec hc env rest hroot
      rw [← traverseInFsLogged_fst, hl] at h
      obtain rfl : t' = t := Except.ok.inj h
      exact ⟨hg, hct, hpar, hres, fun rc hrc => hend.error_ne hrc⟩

lemma createMissing_grows {t : Traversal} {r : Except ℤ ℕ} (hc : CacheOpen t.state)
    (h : createMissing env path flags t = .ok (r, s')) : Grows t.state s' ∧ CacheOpen s' := by
  unfold createMissing at h
  split at h
  · split_ifs at h
    · obtain ⟨-, h⟩ := kassert_bind_eq_ok.mp h
      obtain ⟨-, h⟩ := kassert_bind_eq_ok.mp h
      exact createInode_grows hc h
    · cases h
      exact ⟨.refl _, hc⟩
  · cases h
    exact ⟨.refl _, hc⟩

lemma vfsOpen_grows (hc : CacheOpen s) (h : vfsOpen s env path flags = .ok (rc, s')) : Grows s s' ∧ CacheOpen s' := by
  obtain ⟨t, ht, h⟩ := bind_eq_ok.mp h
  have hopen := traverse_open hc ht
  have hg := hopen.grows
  obtain ⟨⟨r, s₁⟩, hcreate, h⟩ := bind_eq_ok.mp h
  obtain ⟨hg₁, hc₁⟩ := createMissing_grows hopen.cacheOpen hcreate
  cases r with
  | error rc' =>
    obtain ⟨hg₂, hc₂⟩ := failOpen_grows hc₁ h
    exact ⟨(hg.trans hg₁).trans hg₂, hc₂⟩
  | ok a =>
    obtain ⟨hg₂, hc₂⟩ := openEnd_grows hc₁ h
    exact ⟨(hg.trans hg₁).trans hg₂, hc₂⟩

lemma vfsOpenAt_grows {workdir : CString} (hc : CacheOpen s) (h : vfsOpenAt s env workdir path flags = .ok (rc, s')) :
    Grows s s' ∧ CacheOpen s' := by
  unfold vfsOpenAt at h
  split_ifs at h
  · exact vfsOpen_grows hc h
  · split at h
    · cases h
      exact ⟨.refl s, hc⟩
    · exact vfsOpen_grows hc h

lemma vfsDuplicate_grows (hc : CacheOpen s) (custody : FileCustody) (mem : Bool) :
    Grows s (vfsDuplicate s custody mem) ∧ CacheOpen (vfsDuplicate s custody mem) := by
  cases mem with
  | false => exact ⟨.refl s, hc⟩
  | true =>
    have hg : Grows s (s.setInode custody.inode
        { s.inodes custody.inode with refcount := (s.inodes custody.inode).refcount + 1 }) :=
      grows_setInode rfl rfl fun _ => Nat.succ_pos _
    exact ⟨{ hg with }, hc.grows { hg with } rfl⟩

lemma vfsClose_grows {i : ℕ} {custody : FileCustody} (hc : CacheOpen s) (h : vfsClose s i custody = .ok s') :
    Grows s s' ∧ CacheOpen s' := by
  obtain ⟨s₁, hclose, h⟩ := bind_eq_ok.mp h
  cases h
  obtain ⟨hg, hf⟩ := closeInode_grows hclose
  exact ⟨{ hg with }, hc.grows { hg with } hf⟩

lemma mountRoot_open {env : MountEnv} {fs : ℕ} (hc : CacheOpen s) (h : mountRoot s env fs = .ok (rc, s')) :
    CacheOpen s' := by
  have hg := grows_newInode s env.root
  have ha : s.nextInode < (s.newInode env.root).nextInode := Nat.lt_succ_self _
  unfold mountRoot at h
  rcases openInode_spec (s.newInode env.root) ha env.openRc with ⟨s₁, ho, hg₁, hr₁, hf₁⟩ | ⟨ho, hrc, -⟩
  · have hc₁ : CacheOpen s₁ := (hc.grows hg rfl).grows hg₁ hf₁
    simp only [ho] at h
    obtain ⟨-, h⟩ := kassert_bind_eq_ok.mp h
    obtain ⟨⟨rc', s₂⟩, hinsert, h⟩ := bind_eq_ok.mp h
    cases h
    obtain ⟨hfree, hinsert⟩ := kassert_bind_eq_ok.mp hinsert
    have hc₂ : CacheOpen s₂ := by
      split_ifs at hinsert
      · cases hinsert
        exact hc₁.addEntry hr₁
      · cases hinsert
        exact hc₁
    exact fun fs identifier a ha => ⟨(hc₂ fs identifier a ha).allocated, (hc₂ fs identifier a ha).counted⟩
  · simp only [ho] at h
    exact absurd (kassert_bind_eq_ok.mp h).1 hrc

lemma vfsMount_open {env : MountEnv} {fs : ℕ} (hc : CacheOpen s) (h : vfsMount s env path fs = .ok (rc, s')) :
    CacheOpen s' := by
  obtain ⟨found, -, h⟩ := bind_eq_ok.mp h
  cases found with
  | none =>
    cases h
    exact hc
  | some cpath =>
    dsimp only at h
    split_ifs at h
    · cases h
      exact hc
    · obtain ⟨mp, -, h⟩ := bind_eq_ok.mp h
      obtain ⟨mounts, -, h⟩ := bind_eq_ok.mp h
      have hm : CacheOpen { s with mounts := mounts } := fun fs identifier a ha =>
        ⟨(hc fs identifier a ha).allocated, (hc fs identifier a ha).counted⟩
      exact mountRoot_open hm h

end Calls

/-- In every state that the calls of `vfs.cpp` reach the cached inodes are open. -/
lemma cacheOpen_reachable {s : VfsState} (h : vfs.Reachable s) : CacheOpen s := by
  refine h.invariant ⟨fun s hs fs identifier a ha => ?_, fun s call s' hc hstep => ?_⟩
  · rw [hs.icache] at ha
    cases ha
  · obtain ⟨rc, hstep⟩ := hstep
    cases call with
    | mount env path fs => exact vfsMount_open hc hstep
    | openFile env path flags => exact (vfsOpen_grows hc hstep).2
    | openAt env workdir path flags => exact (vfsOpenAt_grows hc hstep).2
    | duplicate i mem =>
      cases hi : s.custodies[i]? with
      | none =>
        simp only [vfsCall, hi] at hstep
        cases hstep
      | some custody =>
        simp only [vfsCall, hi] at hstep
        cases hstep
        exact (vfsDuplicate_grows hc custody mem).2
    | close i =>
      cases hi : s.custodies[i]? with
      | none =>
        simp only [vfsCall, hi] at hstep
        cases hstep
      | some custody =>
        simp only [vfsCall, hi] at hstep
        obtain ⟨s₁, hclose, hstep⟩ := bind_eq_ok.mp hstep
        cases hstep
        exact (vfsClose_grows hc hclose).2

end Pi0Os.Vfs
