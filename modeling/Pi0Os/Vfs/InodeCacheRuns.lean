import Mathlib.Data.List.Perm.Basic
import Pi0Os.Library.TransitionSystem
import Pi0Os.Vfs.InodeReferences

/-! Runs of `vfs_mount`, `vfs_open`, `vfs_duplicate` and `vfs_close`, and the contract that the
header comment of `vfs.cpp` states for the inode cache. -/

namespace Pi0Os.Vfs

open Kernel Library VfsState

/-- What an allocation and the filesystem must answer for a new inode to enter the cache. -/
structure NewInodeEnv.Succeeds (env : NewInodeEnv) : Prop where
  inodeMem : env.inodeMem
  openRc : env.openRc = 0
  entryMem : env.entryMem

section Lookup

variable {s s' : VfsState} {T : Multiset ℕ} {a : ℕ}

/-- The references a traversal holds on its result. -/
def refs : Except ℤ ℕ → Multiset ℕ
  | .ok a => {a}
  | .error _ => 0

lemma openInode_error {rc : ℤ} (hrc : rc ≠ 0) (hz : (s.inodes a).refcount = 0) :
    openInode s a rc = (rc, s) := by
  simp [openInode, hz, hrc]

lemma icacheInsert_free {fs identifier : ℕ} (mem : Bool)
    (hfree : icacheLookup (s.filesystems fs).icache identifier = none) :
    icacheInsert s fs identifier a mem =
      .ok (if mem then (0, s.addEntry fs identifier a) else (-Err.noMem, s)) := by
  rw [icacheInsert, kassert_of hfree]
  cases mem <;> rfl

lemma cacheNewInode_spec (h : ReferenceInv s T) (env : NewInodeEnv) {fs : ℕ} {temp : Inode}
    (hfree : icacheLookup (s.filesystems fs).icache temp.identifier = none) :
    (env.Succeeds ∧ ∃ s', cacheNewInode s env fs temp = .ok (.ok s.nextInode, s') ∧ SameHolders s s' ∧
      ReferenceInv s' (s.nextInode ::ₘ T) ∧ (s'.inodes s.nextInode).type = temp.type) ∨
    (¬ env.Succeeds ∧ ∃ rc s', cacheNewInode s env fs temp = .ok (.error rc, s') ∧ SameHolders s s' ∧
      ReferenceInv s' T) := by
  obtain ⟨inodeMem, openRc, entryMem⟩ := env
  cases inodeMem with
  | false => exact Or.inr ⟨fun hs => absurd hs.inodeMem (by simp), -Err.noMem, s, rfl, .refl s, h⟩
  | true =>
    have hn := h.newInode temp
    by_cases hrc : openRc = 0
    · subst hrc
      obtain ⟨ho, hi⟩ := hn.openInode_closed (Nat.lt_succ_self s.nextInode) (by rw [newInode_self])
      set s₂ := (s.newInode temp).setInode s.nextInode
        { (s.newInode temp).inodes s.nextInode with refcount := 1, live := true } with hs₂
      have htype : (s₂.inodes s.nextInode).type = temp.type := by
        rw [hs₂, setInode_self, newInode_self]
      cases entryMem with
      | true =>
        refine Or.inl ⟨⟨rfl, rfl, rfl⟩, s₂.addEntry fs temp.identifier s.nextInode, ?_, ⟨rfl, rfl⟩,
          hi.addEntry (Multiset.mem_cons_self _ _) hfree, htype⟩
        have hins : icacheInsert s₂ fs temp.identifier s.nextInode true = _ := icacheInsert_free true hfree
        simp only [cacheNewInode, ho, hins]
        rfl
      | false =>
        have hc : ¬ s₂.Cached s.nextInode := fun hc => absurd (h.allocated hc) (lt_irrefl _)
        obtain ⟨hl, hil⟩ := hi.closeInode_last hc (by rw [hs₂, setInode_self])
        have hins : icacheInsert s₂ fs temp.identifier s.nextInode false = .ok (-Err.noMem, s₂) :=
          icacheInsert_free false hfree
        refine Or.inr ⟨fun hs => absurd hs.entryMem (by simp), -Err.noMem,
          s₂.setInode s.nextInode { s₂.inodes s.nextInode with live := false }, ?_, ⟨rfl, rfl⟩, hil⟩
        simp [cacheNewInode, ho, hins, hl]
    · refine Or.inr ⟨fun hs => hrc hs.openRc, openRc, s.newInode temp, ?_, ⟨rfl, rfl⟩, hn⟩
      have ho := openInode_error hrc (s := s.newInode temp) (a := s.nextInode) (by rw [newInode_self])
      simp only [cacheNewInode, ho]
      simp [hrc]

lemma lookupInode_cached (h : ReferenceInv s T) {env : LookupEnv} {parent : ℕ} {name : CString} {temp : Inode}
    (ht : env.answer name = .ok temp)
    (ha : icacheLookup (s.filesystems (s.inodes parent).filesystem).icache temp.identifier = some a) :
    ∃ s', lookupInode s env parent name = .ok (.ok a, s') ∧ ReferenceInv s' (a ::ₘ T) ∧ SameTable s s' := by
  have hc := cached_of_lookup ha
  obtain ⟨s₁, ho, hi, hs⟩ := h.openInode_cached hc env.openRc
  refine ⟨s₁.logReturn a, ?_, hi.logReturn (hi.live ((hs.cached a).mpr hc)), { hs with }⟩
  simp only [lookupInode, ht, ha, ho, ne_eq, not_true_eq_false, if_false, pure_eq_ok]

end Lookup

section Walk

variable {s s' : VfsState} {T : Multiset ℕ} {kept : InodeType → Prop} {creates : Prop}

/-- The walk over the path only steps into inodes that are cached already. An inode that is new to
the cache is the last one, and then it is `kept`; where the walk misses the last one, `creates`. -/
def WalkSafe (s : VfsState) (env : ℕ → LookupEnv) (kept : InodeType → Prop) (creates : Prop)
    (inode i : ℕ) : List CString → Prop
  | [] => True
  | name :: path => (s.inodes inode).type = .directory →
    match (env i).answer name with
    | .error _ => path = [] → creates
    | .ok temp =>
      match icacheLookup (s.filesystems (s.inodes inode).filesystem).icache temp.identifier with
      | some next => WalkSafe s env kept creates next (i + 1) path
      | none => ((env i).Succeeds → path = [] ∧ kept temp.type) ∧ (¬ (env i).Succeeds → path = [] → creates)

lemma walkSafe_congr (hs : SameTable s s') (env : ℕ → LookupEnv) (path : List CString) :
    ∀ inode i, WalkSafe s' env kept creates inode i path ↔ WalkSafe s env kept creates inode i path := by
  induction path with
  | nil => exact fun _ _ => Iff.rfl
  | cons name path ih =>
    intro inode i
    simp only [WalkSafe, hs.type, hs.filesystem, hs.filesystems, ih]

def optRefs : Option ℕ → Multiset ℕ
  | none => 0
  | some p => {p}

/-- What a traversal of a safe path leaves behind. -/
structure TraversalInv (s : VfsState) (kept : InodeType → Prop) (creates : Prop) (t : Traversal) : Prop where
  inv : ReferenceInv t.state (refs t.result + optRefs t.parent)
  same : SameHolders s t.state
  parent : ∀ p ∈ t.parent, 0 < s.holders p
  target : ∀ a, t.result = .ok a → 0 < s.holders a ∨ kept (t.state.inodes a).type
  missing : ∀ rc, t.result = .error rc → t.parent ≠ none → creates

lemma closeParent {parent : Option ℕ} (h : ReferenceInv s (T + optRefs parent))
    (hp : ∀ p ∈ parent, 0 < s.holders p) :
    ∃ s', closeInode s parent = .ok s' ∧ ReferenceInv s' T ∧ SameTable s s' := by
  cases parent with
  | none => exact ⟨s, rfl, by simpa [optRefs] using h, .refl s, rfl, fun _ => rfl, fun _ => rfl⟩
  | some p =>
    rw [optRefs, add_comm, Multiset.singleton_add] at h
    exact h.closeInode_held (Nat.add_pos_left (hp p rfl) _)

lemma traverseLoop_spec (env : ℕ → LookupEnv) (path : List CString) :
    ∀ s parent inode i, ReferenceInv s ({inode} + optRefs parent) → (∀ a, s.Cached a → 0 < s.holders a) →
      s.Cached inode → (∀ p ∈ parent, 0 < s.holders p) → WalkSafe s env kept creates inode i path →
      ∃ t, traverseLoop env s parent inode i path = .ok t ∧ TraversalInv s kept creates t := by
  induction path with
  | nil =>
    intro s parent inode i h hheld hc hp _
    exact ⟨⟨.ok inode, parent, s⟩, rfl, h, .refl s, hp, fun a ha => Or.inl (by cases ha; exact hheld _ hc),
      fun rc hrc => by cases hrc⟩
  | cons name path ih =>
    intro s parent inode i h hheld hc hp hw
    obtain ⟨s₁, hclose, h₁, hs₁⟩ := closeParent h hp
    have hinode : 0 < s.holders inode := hheld inode hc
    have hinode₁ : 0 < s₁.holders inode := by rwa [hs₁.holders]
    -- every exit but the last one closes the inode that the walk stands on
    have hexit : ∀ s₂ rc, ReferenceInv s₂ {inode} → SameHolders s s₂ →
        ∃ s₃, closeInode s₂ (some inode) = .ok s₃ ∧ TraversalInv s kept creates ⟨.error rc, none, s₃⟩ := by
      intro s₂ rc h₂ hs₂
      obtain ⟨s₃, hcl, h₃, hs₃⟩ := ReferenceInv.closeInode_held (T := 0) h₂
        (Nat.add_pos_left (by rwa [hs₂.holders]) _)
      exact ⟨s₃, hcl, h₃, hs₂.trans hs₃.toSameHolders, (fun p hp => by cases hp), (fun a ha => by cases ha),
        fun rc _ hn => absurd rfl hn⟩
    have hmiss : ∀ s₂, ReferenceInv s₂ {inode} → SameHolders s s₂ → (path = [] → creates) → ∃ t,
        (if path = [] then .ok ⟨.error (-Err.noEnt), some inode, s₂⟩
          else closeInode s₂ (some inode) >>= fun s => .ok ⟨.error (-Err.noEnt), none, s⟩) =
          (.ok t : Except Panic Traversal) ∧ TraversalInv s kept creates t := by
      intro s₂ h₂ hs₂ hcr
      by_cases hpath : path = []
      · refine ⟨_, if_pos hpath, by simpa [refs, optRefs] using h₂, hs₂, ?_, (fun a ha => by cases ha),
          fun _ _ _ => hcr hpath⟩
        rintro p ⟨⟩
        exact hinode
      · obtain ⟨s₃, hcl, ht⟩ := hexit s₂ (-Err.noEnt) h₂ hs₂
        exact ⟨_, by rw [if_neg hpath, hcl]; rfl, ht⟩
    simp only [traverseLoop, hclose, ok_bind, pure_eq_ok]
    by_cases hdir : (s₁.inodes inode).type = .directory
    · rw [if_neg (not_not_intro hdir)]
      have hwalk := hw (by rwa [← hs₁.type])
      rw [← hs₁.filesystem, ← hs₁.filesystems] at hwalk
      cases hans : (env i).answer name with
      | error rc =>
        simp only [hans] at hwalk
        have hl : lookupInode s₁ (env i) inode name = .ok (.error rc, s₁) := by
          simp only [lookupInode, hans, pure_eq_ok]
        rw [hl]
        exact hmiss s₁ h₁ hs₁.toSameHolders hwalk
      | ok temp =>
        simp only [hans] at hwalk
        cases hcache : icacheLookup (s₁.filesystems (s₁.inodes inode).filesystem).icache temp.identifier with
        | some next =>
          simp only [hcache] at hwalk
          obtain ⟨s₂, hl, h₂, hs₂⟩ := lookupInode_cached h₁ hans hcache
          have hs := hs₁.trans hs₂
          rw [hl]
          obtain ⟨t, ht, hti⟩ := ih s₂ (some inode) next (i + 1) h₂
            (fun a ha => by rw [hs.holders]; exact hheld a ((hs.cached a).mp ha))
            ((hs₂.cached next).mpr (cached_of_lookup hcache))
            (fun p hp => by cases hp; rwa [hs.holders])
            ((walkSafe_congr hs env path next (i + 1)).mpr hwalk)
          exact ⟨t, ht, hti.inv, hs.toSameHolders.trans hti.same,
            fun p hp => by rw [← hs.holders]; exact hti.parent p hp,
            fun a ha => by rw [← hs.holders]; exact hti.target a ha, hti.missing⟩
        | none =>
          simp only [hcache] at hwalk
          rcases cacheNewInode_spec h₁ (env i).toNewInodeEnv hcache with
            ⟨hsucc, s₂, hn, hs₂, h₂, htype⟩ | ⟨hfail, rc, s₂, hn, hs₂, h₂⟩
          · obtain ⟨rfl, hkept⟩ := hwalk.1 hsucc
            have hl : lookupInode s₁ (env i) inode name = .ok (.ok s₁.nextInode, s₂.logReturn s₁.nextInode) := by
              simp only [lookupInode, hans, hcache, hn, ok_bind, pure_eq_ok]
            rw [hl]
            refine ⟨_, rfl, h₂.logReturn (h₂.live_of_mem (Multiset.mem_cons_self _ _)),
              hs₁.toSameHolders.trans ⟨hs₂.roots, hs₂.custodies⟩, ?_, ?_, fun rc hrc => by cases hrc⟩
            · rintro p ⟨⟩
              exact hinode
            · rintro a ⟨⟩
              exact Or.inr (htype ▸ hkept)
          · have hl : lookupInode s₁ (env i) inode name = .ok (.error rc, s₂) := by
              simp only [lookupInode, hans, hcache, hn, ok_bind, pure_eq_ok]
            rw [hl]
            exact hmiss s₂ h₂ (hs₁.toSameHolders.trans hs₂) (hwalk.2 hfail)
    · obtain ⟨s₃, hcl, ht⟩ := hexit s₁ (-Err.notDir) h₁ hs₁.toSameHolders
      exact ⟨_, by rw [if_pos hdir, hcl]; rfl, ht⟩

end Walk

section Open

variable {s s' : VfsState} {env : OpenEnv} {path : CString} {flags : ℕ} {rc : ℤ}

/-- The checks of `vfs_open` that an inode of this type passes. -/
def OpenEnv.Kept (env : OpenEnv) (flags : ℕ) (type : InodeType) : Prop :=
  (type = .directory → flags &&& ofDirectory ≠ 0) ∧ env.custodyMem

def OpenEnv.Creates (env : OpenEnv) (path : CString) (flags : ℕ) : Prop :=
  flags &&& ofCreate ≠ 0 → ∀ temp, env.create.answer (filename path) = .ok temp → env.create.Succeeds →
    env.Kept flags temp.type

/-- Every directory that the path passes through is cached already, and an inode that the call
brings into the cache is one that it returns. -/
def OpenSafe (s : VfsState) (env : OpenEnv) (path : CString) (flags : ℕ) : Prop :=
  ∀ mp rest, mountOf env.malloc s.mounts path = .ok (.ok (mp, rest)) → ∀ root,
    icacheLookup (s.filesystems mp.fs).icache (s.filesystems mp.fs).root = some root →
    WalkSafe s env.walk (env.Kept flags) (env.Creates path flags) root 0 (components rest)

lemma traverse_spec (h : ReferenceInv s 0) (hsafe : OpenSafe s env path flags) {t : Traversal}
    (ht : traverse s env path = .ok t) :
    TraversalInv s (env.Kept flags) (env.Creates path flags) t := by
  have hnone : ∀ rc, TraversalInv s (env.Kept flags) (env.Creates path flags) ⟨.error rc, none, s⟩ :=
    fun rc => ⟨h, .refl s, (fun p hp => by cases hp), (fun a ha => by cases ha), fun _ _ hn => absurd rfl hn⟩
  obtain ⟨rc | ⟨mp, rest⟩, hm, ht⟩ := bind_eq_ok.mp ht
  · cases ht
    exact hnone rc
  · change traverseInFs s env mp.fs rest = .ok t at ht
    have hwalk := hsafe mp rest hm
    rw [traverseInFs] at ht
    cases hroot : icacheLookup (s.filesystems mp.fs).icache (s.filesystems mp.fs).root with
    | none =>
      rw [hroot] at ht
      cases ht
      exact hnone _
    | some root =>
      have hc := cached_of_lookup hroot
      obtain ⟨s₁, ho, h₁, hs₁⟩ := h.openInode_cached hc env.rootOpenRc
      simp only [hroot, ho, ne_eq, not_true_eq_false, if_false] at ht
      have hheld : ∀ a, s.Cached a → 0 < s.holders a := fun a ha => by simpa using h.held a ha
      obtain ⟨t', ht', hti⟩ := traverseLoop_spec env.walk (components rest) s₁ none root 0 h₁
        (fun a ha => by rw [hs₁.holders]; exact hheld a ((hs₁.cached a).mp ha)) ((hs₁.cached root).mpr hc)
        (fun p hp => by cases hp) ((walkSafe_congr hs₁ env.walk _ root 0).mpr (hwalk root hroot))
      rw [ht'] at ht
      cases ht
      exact ⟨hti.inv, hs₁.toSameHolders.trans hti.same,
        fun p hp => by rw [← hs₁.holders]; exact hti.parent p hp,
        fun a ha => by rw [← hs₁.holders]; exact hti.target a ha, hti.missing⟩

lemma createMissing_spec {t : Traversal} {r : Except ℤ ℕ}
    (ht : TraversalInv s (env.Kept flags) (env.Creates path flags) t)
    (h : createMissing env path flags t = .ok (r, s')) :
    ReferenceInv s' (refs r + optRefs t.parent) ∧ SameHolders s s' ∧
      ∀ a, r = .ok a → 0 < s.holders a ∨ env.Kept flags (s'.inodes a).type := by
  have hsame : createMissing env path flags t = .ok (t.result, t.state) →
      ReferenceInv s' (refs r + optRefs t.parent) ∧ SameHolders s s' ∧
        ∀ a, r = .ok a → 0 < s.holders a ∨ env.Kept flags (s'.inodes a).type := by
    intro h'
    rw [h] at h'
    cases h'
    exact ⟨ht.inv, ht.same, ht.target⟩
  obtain ⟨result, parent, s₁⟩ := t
  cases result with
  | ok a => exact hsame rfl
  | error rc =>
    cases parent with
    | none => exact hsame rfl
    | some parent =>
      by_cases hf : flags &&& ofCreate ≠ 0
      · simp only [createMissing, if_pos hf, kassert_bind_eq_ok] at h
        obtain ⟨-, -, h⟩ := h
        have hi : ReferenceInv s₁ (optRefs (some parent)) := by simpa [refs] using ht.inv
        rw [createInode] at h
        cases hans : env.create.answer (filename path) with
        | error rc =>
          rw [hans] at h
          cases h
          exact ⟨ht.inv, ht.same, fun a ha => by cases ha⟩
        | ok temp =>
          simp only [hans, kassert_bind_eq_ok] at h
          obtain ⟨hfree, h⟩ := h
          rcases cacheNewInode_spec hi env.create.toNewInodeEnv hfree with
            ⟨hsucc, s₂, hn, hs₂, h₂, htype⟩ | ⟨-, rc, s₂, hn, hs₂, h₂⟩
          · rw [hn] at h
            cases h
            refine ⟨h₂, ht.same.trans hs₂, ?_⟩
            rintro a ⟨⟩
            exact Or.inr (htype ▸ ht.missing rc rfl (by simp) hf temp hans hsucc)
          · rw [hn] at h
            cases h
            exact ⟨by simpa [refs] using h₂, ht.same.trans hs₂, fun a ha => by cases ha⟩
      · exact hsame (by simp only [createMissing, if_neg hf])

lemma failOpen_spec {parent : Option ℕ} (inode : Option ℕ) (h : ReferenceInv s (optRefs inode + optRefs parent))
    (hp : ∀ p ∈ parent, 0 < s.holders p) (hi : ∀ a ∈ inode, 0 < s.holders a)
    (hf : failOpen s parent inode rc = .ok (rc', s')) : ReferenceInv s' 0 := by
  obtain ⟨s₁, hc₁, h₁, hs₁⟩ := closeParent h hp
  obtain ⟨s₂, hc₂, h₂, -⟩ := closeParent (T := 0) (by simpa using h₁)
    (fun a ha => by rw [hs₁.holders]; exact hi a ha)
  simp only [failOpen, hc₁, hc₂, ok_bind, pure_eq_ok] at hf
  cases hf
  exact h₂

lemma vfsOpen_spec (h : ReferenceInv s 0) (hsafe : OpenSafe s env path flags)
    (ho : vfsOpen s env path flags = .ok (rc, s')) : ReferenceInv s' 0 := by
  obtain ⟨t, htr, ho⟩ := bind_eq_ok.mp ho
  have ht := traverse_spec h hsafe htr
  obtain ⟨⟨r, s₁⟩, hcr, ho⟩ := bind_eq_ok.mp ho
  obtain ⟨h₁, hs₁, htarget⟩ := createMissing_spec ht hcr
  have hp : ∀ p ∈ t.parent, 0 < s₁.holders p := fun p hp => by
    rw [hs₁.holders]
    exact ht.parent p hp
  cases r with
  | error rc => exact failOpen_spec none h₁ hp (fun a ha => by cases ha) ho
  | ok a =>
    have hfail : ∀ rc', ¬ env.Kept flags (s₁.inodes a).type →
        failOpen s₁ t.parent (some a) rc' = .ok (rc, s') → ReferenceInv s' 0 := by
      intro rc' hk hf
      refine failOpen_spec (some a) h₁ hp ?_ hf
      rintro b ⟨⟩
      rw [hs₁.holders]
      exact (htarget a rfl).resolve_right hk
    dsimp only at ho
    split at ho
    · rename_i hdir
      exact hfail _ (fun hk => hk.1 hdir.1 hdir.2) ho
    · split at ho
      · rename_i hmem
        exact hfail _ (fun hk => hmem hk.2) ho
      · have hl : (s₁.inodes a).live :=
          h₁.live_of_mem (Multiset.mem_add.mpr (Or.inl (Multiset.mem_singleton_self a)))
        have h₂ : ReferenceInv s₁ (a ::ₘ 0) := by
          cases hpar : t.parent with
          | none => simpa [hpar, optRefs, refs] using h₁
          | some p =>
            rw [hpar, optRefs, refs, add_comm, Multiset.singleton_add] at h₁
            exact h₁.leak (Nat.add_pos_left (hp p (by rw [hpar]; rfl)) _)
        cases ho
        exact ReferenceInv.toCustody (c := ⟨a, flags, 0⟩) (h₂.logReturn hl)

end Open

/-- The calls of a run. A custody is named by its place in the list of open custodies. -/
inductive VfsCall where
  | mount (env : MountEnv) (path : CString) (fs : ℕ)
  | openFile (env : OpenEnv) (path : CString) (flags : ℕ)
  | openAt (env : OpenEnv) (workdir path : CString) (flags : ℕ)
  | duplicate (i : ℕ) (mem : Bool)
  | close (i : ℕ)

def vfsCall (s : VfsState) : VfsCall → Except Panic (ℤ × VfsState)
  | .mount env path fs => vfsMount s env path fs
  | .openFile env path flags => vfsOpen s env path flags
  | .openAt env workdir path flags => vfsOpenAt s env workdir path flags
  | .duplicate i mem =>
    match s.custodies[i]? with
    | none => .error (.undefined "not an open custody")
    | some custody => .ok (0, vfsDuplicate s custody mem)
  | .close i =>
    match s.custodies[i]? with
    | none => .error (.undefined "not an open custody")
    | some custody => do return (0, ← vfsClose s i custody)

/-- Nothing mounted, nothing cached and nothing open. -/
structure VfsState.Fresh (s : VfsState) : Prop where
  mounts : s.mounts = []
  icache : ∀ fs, (s.filesystems fs).icache = []
  custodies : s.custodies = []
  roots : s.roots = []
  returned : s.returned = []

def vfs : TransitionSystem VfsState VfsCall where
  Init := VfsState.Fresh
  Step s call s' := ∃ rc, vfsCall s call = .ok (rc, s')

/-- The contract of the inode cache: what `lookup_inode` and `vfs_open` returned was live, every
open custody still is, what is cached is held, and identifiers are unique. -/
structure InodeCacheContract (s : VfsState) : Prop where
  returned : ∀ r ∈ s.returned, r.2
  usable : ∀ c ∈ s.custodies, (s.inodes c.inode).live
  held : ∀ a, s.Cached a → a ∈ s.roots ∨ ∃ c ∈ s.custodies, c.inode = a
  unique : ∀ fs, ((s.filesystems fs).icache.map Prod.fst).Nodup

def CallSafe (s : VfsState) : VfsCall → Prop
  | .mount .. => True
  | .openFile env path flags => OpenSafe s env path flags
  | .openAt env workdir path flags =>
    if path.head? = some Byte.slash then OpenSafe s env path flags
    else ∀ joined, pathjoin env.malloc workdir path = some joined → OpenSafe s env joined flags
  | .duplicate .. => True
  | .close i => ∀ c, s.custodies[i]? = some c → 1 < s.holders c.inode

section Runs

variable {s s' : VfsState} {rc : ℤ}

lemma mountRoot_spec (h : ReferenceInv s 0) {env : MountEnv} {fs : ℕ}
    (hm : mountRoot s env fs = .ok (rc, s')) : ReferenceInv s' 0 := by
  have hn := h.newInode env.root
  by_cases hrc : env.openRc = 0
  · obtain ⟨ho, hi⟩ := hn.openInode_closed (Nat.lt_succ_self s.nextInode) (by rw [newInode_self])
    rw [mountRoot, hrc, ho] at hm
    obtain ⟨-, hm⟩ := kassert_bind_eq_ok.mp hm
    obtain ⟨⟨rc', s₂⟩, hins, hm⟩ := bind_eq_ok.mp hm
    obtain ⟨hfree, -⟩ := kassert_bind_eq_ok.mp hins
    rw [icacheInsert_free _ hfree] at hins
    cases hm
    cases hmem : env.entryMem with
    | true =>
      rw [hmem] at hins
      cases hins
      exact (hi.addEntry (Multiset.mem_cons_self _ _) hfree).toRoot
    | false =>
      rw [hmem] at hins
      cases hins
      exact hi.toRoot
  · rw [mountRoot, openInode_error hrc (by rw [newInode_self])] at hm
    exact absurd (kassert_bind_eq_ok.mp hm).1 hrc

lemma vfsMount_spec (h : ReferenceInv s 0) {env : MountEnv} {path : CString} {fs : ℕ}
    (hm : vfsMount s env path fs = .ok (rc, s')) : ReferenceInv s' 0 := by
  obtain ⟨_ | cpath, -, hm⟩ := bind_eq_ok.mp hm
  · cases hm
    exact h
  dsimp only at hm
  split at hm
  · cases hm
    exact h
  · obtain ⟨mp, -, hm⟩ := bind_eq_ok.mp hm
    obtain ⟨mounts, -, hm⟩ := bind_eq_ok.mp hm
    exact mountRoot_spec (s := { s with mounts := mounts }) { h with } hm

lemma holders_pos {i : ℕ} {c : FileCustody} (hc : s.custodies[i]? = some c) : 0 < s.holders c.inode :=
  Nat.add_pos_right _ (List.count_pos_iff.mpr (List.mem_map_of_mem (List.mem_of_getElem? hc)))

lemma vfsDuplicate_spec (h : ReferenceInv s 0) {i : ℕ} {c : FileCustody} (hc : s.custodies[i]? = some c)
    (mem : Bool) : ReferenceInv (vfsDuplicate s c mem) 0 := by
  cases mem with
  | false => exact h
  | true =>
    have hp := holders_pos hc
    have hcount := h.counted c.inode
    rw [Multiset.count_zero] at hcount
    refine ReferenceInv.toCustody (h.recount hp ?_ ?_ ?_)
    · exact fun b hb => Multiset.count_cons_of_ne hb 0
    · rw [Multiset.count_cons_self, Multiset.count_zero]
      omega
    · exact Nat.add_pos_left hp _

lemma vfsClose_spec (h : ReferenceInv s 0) {i : ℕ} {c : FileCustody} (hc : s.custodies[i]? = some c)
    (hsafe : 1 < s.holders c.inode) (hcl : vfsClose s i c = .ok s') : ReferenceInv s' 0 := by
  have hcount := h.counted c.inode
  rw [Multiset.count_zero] at hcount
  have hperm : List.Perm (c.inode :: (s.custodies.eraseIdx i).map FileCustody.inode)
      (s.custodies.map FileCustody.inode) := by
    obtain ⟨hi, rfl⟩ := List.getElem?_eq_some_iff.mp hc
    exact (List.getElem_cons_eraseIdx_perm hi).map FileCustody.inode
  have he : ReferenceInv { s with custodies := s.custodies.eraseIdx i } (c.inode ::ₘ 0) := by
    refine h.handOver (fun b => ?_)
    rw [holders, ← hperm.count_eq b]
    by_cases hb : b = c.inode
    · subst hb
      rw [Multiset.count_cons_self, List.count_cons_self, Multiset.count_zero]
      omega
    · rw [Multiset.count_cons_of_ne hb, List.count_cons_of_ne (Ne.symm hb)]
  have hmore :
      0 < VfsState.holders { s with custodies := s.custodies.eraseIdx i } c.inode + Multiset.count c.inode 0 := by
    have hh := he.counted c.inode
    rw [holders, ← hperm.count_eq c.inode, List.count_cons_self] at hsafe
    rw [holders, Multiset.count_zero]
    simp only
    omega
  simp only [vfsClose, closeInode, kassert_of (show (s.inodes c.inode).refcount > 0 by omega), ok_bind,
    if_pos (show (s.inodes c.inode).refcount > 1 by omega), pure_eq_ok] at hcl
  cases hcl
  refine he.recount ?_ ?_ ?_ hmore
  · exact Nat.add_pos_right _ (Multiset.count_pos.mpr (Multiset.mem_cons_self _ _))
  · exact fun b hb => (Multiset.count_cons_of_ne hb 0).symm
  · have hh := he.counted c.inode
    rw [Multiset.count_cons_self] at hh
    rw [Multiset.count_zero]
    change _ ≤ (s.inodes c.inode).refcount - 1
    change _ + (0 + 1) ≤ (s.inodes c.inode).refcount at hh
    omega

lemma step_inv (h : ReferenceInv s 0) {call : VfsCall} (hsafe : CallSafe s call)
    (hs : vfs.Step s call s') : ReferenceInv s' 0 := by
  obtain ⟨rc, hs⟩ := hs
  cases call with
  | mount env path fs => exact vfsMount_spec h hs
  | openFile env path flags => exact vfsOpen_spec h hsafe hs
  | openAt env workdir path flags =>
    simp only [vfsCall, vfsOpenAt] at hs
    simp only [CallSafe] at hsafe
    split at hs
    · rename_i habs
      rw [if_pos habs] at hsafe
      exact vfsOpen_spec h hsafe hs
    · rename_i hrel
      rw [if_neg hrel] at hsafe
      cases hj : pathjoin env.malloc workdir path with
      | none =>
        rw [hj] at hs
        cases hs
        exact h
      | some joined =>
        rw [hj] at hs
        exact vfsOpen_spec h (hsafe joined hj) hs
  | duplicate i mem =>
    cases hc : s.custodies[i]? with
    | none =>
      simp only [vfsCall, hc] at hs
      cases hs
    | some c =>
      simp only [vfsCall, hc] at hs
      cases hs
      exact vfsDuplicate_spec h hc mem
  | close i =>
    cases hc : s.custodies[i]? with
    | none =>
      simp only [vfsCall, hc] at hs
      cases hs
    | some c =>
      simp only [vfsCall, hc] at hs
      obtain ⟨s₁, hcl, hs⟩ := bind_eq_ok.mp hs
      cases hs
      exact vfsClose_spec h hc (hsafe c hc) hcl

lemma fresh_inv (h : s.Fresh) : ReferenceInv s 0 := by
  have hz : ∀ a, s.holders a + Multiset.count a 0 = 0 := fun a => by
    simp [holders, h.roots, h.custodies]
  have hc : ∀ a, ¬ s.Cached a := by
    rintro a ⟨fs, entry, he, -⟩
    rw [h.icache] at he
    exact absurd he List.not_mem_nil
  exact ⟨fun a ha => absurd ha (hc a), fun a ha => absurd (hz a) ha.ne', fun a _ => hz a,
    fun a => (hz a).le.trans (Nat.zero_le _), fun fs => by simp [h.icache], fun r hr => by simp [h.returned] at hr⟩

lemma ReferenceInv.contract (h : ReferenceInv s 0) : InodeCacheContract s where
  returned := h.returned
  usable c hc := h.opened c.inode (Nat.add_pos_left
    (Nat.add_pos_right _ (List.count_pos_iff.mpr (List.mem_map_of_mem hc))) _)
  held a ha := by
    have hh := h.held a ha
    rw [Multiset.count_zero, add_zero, holders] at hh
    by_cases hr : a ∈ s.roots
    · exact Or.inl hr
    · rw [List.count_eq_zero.mpr hr, zero_add] at hh
      exact Or.inr (List.mem_map.mp (List.count_pos_iff.mp hh))
  unique := h.unique

theorem inodeCache_contract (h : (vfs.restrict CallSafe).Reachable s) : InodeCacheContract s := by
  have hind : (vfs.restrict CallSafe).Inductive fun s => ReferenceInv s 0 :=
    ⟨fun _ hs => fresh_inv hs, fun _ _ _ hi hs => step_inv hi hs.2 hs.1⟩
  exact (h.invariant hind).contract

-- A filesystem whose root directory contains one file, and the file `/f` opened on it.
def emptyVfs : VfsState := ⟨fun _ => ⟨0, .fifo, 0, 0, false⟩, 0, fun _ => ⟨[], 0⟩, [], [], [], []⟩

lemma emptyVfs_fresh : emptyVfs.Fresh := ⟨rfl, fun _ => rfl, rfl, rfl, rfl⟩

def mountSlash : VfsCall :=
  .mount ⟨⟨true, 0, true⟩, fun _ => true, true, ⟨0, .directory, 0, 0, false⟩⟩ [Byte.slash] 0

def findFile : LookupEnv := ⟨⟨true, 0, true⟩, fun _ => .ok ⟨0, .regularFile, 5, 0, false⟩⟩

def openSlashF : VfsCall := .openFile ⟨fun _ => true, 0, fun _ => findFile, findFile, true⟩ [Byte.slash, 0x66] 0

theorem inodeCache_contract_open : ∃ s₁ s₂, vfs.Step emptyVfs mountSlash s₁ ∧ vfs.Step s₁ openSlashF s₂ ∧
    InodeCacheContract s₂ := by
  refine ⟨_, _, ⟨_, rfl⟩, ⟨_, rfl⟩, inodeCache_contract (.step (a := openSlashF)
    (.step (a := mountSlash) (.init emptyVfs_fresh) ⟨⟨_, rfl⟩, trivial⟩) ⟨⟨_, rfl⟩, ?_⟩)⟩
  rintro mp rest h root hroot
  cases h
  cases hroot
  exact fun _ => ⟨fun _ => ⟨rfl, (fun hd => by cases hd), rfl⟩, fun hf => absurd ⟨rfl, rfl, rfl⟩ hf⟩

/-- Opening, closing and opening `/f` again: the second `vfs_open` returns an inode that the
filesystem has closed. -/
theorem reopen_returns_closed : ∃ s₁ s₂ s₃ s₄, vfs.Init emptyVfs ∧ vfs.Step emptyVfs mountSlash s₁ ∧
    vfs.Step s₁ openSlashF s₂ ∧ vfs.Step s₂ (.close 0) s₃ ∧ vfs.Step s₃ openSlashF s₄ ∧
    ¬ InodeCacheContract s₄ := by
  refine ⟨_, _, _, _, emptyVfs_fresh, ⟨_, rfl⟩, ⟨_, rfl⟩, ⟨_, rfl⟩, ⟨_, rfl⟩, fun h => ?_⟩
  have hlast := h.returned (1, false) List.mem_cons_self
  exact absurd hlast (by decide)

end Runs

end Pi0Os.Vfs
