import Pi0Os.Vfs.InodeCacheRuns

/-! Walks over the inode caches: how the state of the filesystems grows while paths are traversed, and where a walk
along the components of a path ends. -/

namespace Pi0Os.Vfs

open Kernel VfsState

/-- The block of the inode is allocated and its count is not 0. -/
structure Referenced (s : VfsState) (a : ℕ) : Prop where
  allocated : a < s.nextInode
  counted : 0 < (s.inodes a).refcount

/-- The inodes of the caches are open. -/
def CacheOpen (s : VfsState) : Prop :=
  ∀ fs identifier a, icacheLookup (s.filesystems fs).icache identifier = some a → Referenced s a

/-- What the later states of the filesystems have kept. -/
structure Grows (s s' : VfsState) : Prop where
  nextInode : s.nextInode ≤ s'.nextInode
  mounts : s'.mounts = s.mounts
  root : ∀ fs, (s'.filesystems fs).root = (s.filesystems fs).root
  cached : ∀ fs identifier a, icacheLookup (s.filesystems fs).icache identifier = some a →
    icacheLookup (s'.filesystems fs).icache identifier = some a
  type : ∀ a < s.nextInode, (s'.inodes a).type = (s.inodes a).type
  filesystem : ∀ a < s.nextInode, (s'.inodes a).filesystem = (s.inodes a).filesystem
  counted : ∀ a < s.nextInode, 0 < (s.inodes a).refcount → 0 < (s'.inodes a).refcount

section Growth

variable {s s' s'' : VfsState} {a : ℕ} {rc : ℤ} {inode temp : Inode} {fs identifier : ℕ}

lemma Grows.refl (s : VfsState) : Grows s s :=
  ⟨le_rfl, rfl, fun _ => rfl, fun _ _ _ h => h, fun _ _ => rfl, fun _ _ => rfl, fun _ _ h => h⟩

lemma Grows.trans (h : Grows s s') (h' : Grows s' s'') : Grows s s'' where
  nextInode := h.nextInode.trans h'.nextInode
  mounts := h'.mounts.trans h.mounts
  root fs := (h'.root fs).trans (h.root fs)
  cached fs identifier a ha := h'.cached fs identifier a (h.cached fs identifier a ha)
  type a ha := (h'.type a (ha.trans_le h.nextInode)).trans (h.type a ha)
  filesystem a ha := (h'.filesystem a (ha.trans_le h.nextInode)).trans (h.filesystem a ha)
  counted a ha hc := h'.counted a (ha.trans_le h.nextInode) (h.counted a ha hc)

lemma Referenced.grows (h : Referenced s a) (hg : Grows s s') : Referenced s' a :=
  ⟨h.allocated.trans_le hg.nextInode, hg.counted a h.allocated h.counted⟩

/-- Nothing is new in the caches. -/
lemma CacheOpen.grows (h : CacheOpen s) (hg : Grows s s') (hf : s'.filesystems = s.filesystems) : CacheOpen s' :=
  fun fs identifier a ha => (h fs identifier a (hf ▸ ha)).grows hg

lemma grows_setInode (ht : inode.type = (s.inodes a).type) (hf : inode.filesystem = (s.inodes a).filesystem)
    (hc : 0 < (s.inodes a).refcount → 0 < inode.refcount) : Grows s (s.setInode a inode) where
  nextInode := le_rfl
  mounts := rfl
  root _ := rfl
  cached _ _ _ h := h
  type b _ := by
    by_cases hb : b = a
    · rw [hb, setInode_self, ht]
    · rw [setInode_of_ne s hb]
  filesystem b _ := by
    by_cases hb : b = a
    · rw [hb, setInode_self, hf]
    · rw [setInode_of_ne s hb]
  counted b _ hb := by
    by_cases hba : b = a
    · subst hba
      rw [setInode_self]
      exact hc hb
    · rwa [setInode_of_ne s hba]

lemma grows_newInode (s : VfsState) (temp : Inode) : Grows s (s.newInode temp) where
  nextInode := Nat.le_succ _
  mounts := rfl
  root _ := rfl
  cached _ _ _ h := h
  type b hb := by rw [newInode_of_ne s hb.ne]
  filesystem b hb := by rw [newInode_of_ne s hb.ne]
  counted b hb h := by rwa [newInode_of_ne s hb.ne]

lemma grows_logReturn (s : VfsState) (a : ℕ) : Grows s (s.logReturn a) :=
  ⟨le_rfl, rfl, fun _ => rfl, fun _ _ _ h => h, fun _ _ => rfl, fun _ _ => rfl, fun _ _ h => h⟩

lemma addEntry_self (s : VfsState) (fs identifier a : ℕ) : (s.addEntry fs identifier a).filesystems fs =
    { s.filesystems fs with icache := (identifier, a) :: (s.filesystems fs).icache } := Function.update_self ..

lemma addEntry_of_ne {fs fs' : ℕ} (h : fs' ≠ fs) (s : VfsState) (identifier a : ℕ) :
    (s.addEntry fs identifier a).filesystems fs' = s.filesystems fs' := Function.update_of_ne h ..

lemma icacheLookup_addEntry (s : VfsState) (fs identifier a fs' identifier' : ℕ) :
    icacheLookup ((s.addEntry fs identifier a).filesystems fs').icache identifier' =
      if fs' = fs ∧ identifier = identifier' then some a else icacheLookup (s.filesystems fs').icache identifier' := by
  by_cases hfs : fs' = fs
  · subst hfs
    rw [addEntry_self]
    by_cases hi : identifier = identifier' <;> simp [icacheLookup, hi]
  · rw [addEntry_of_ne hfs, if_neg fun h => hfs h.1]

lemma grows_addEntry (hfree : icacheLookup (s.filesystems fs).icache identifier = none) :
    Grows s (s.addEntry fs identifier a) where
  nextInode := le_rfl
  mounts := rfl
  root fs' := by
    by_cases hfs : fs' = fs
    · subst hfs
      rw [addEntry_self]
    · rw [addEntry_of_ne hfs]
  cached fs' identifier' b hb := by
    rw [icacheLookup_addEntry, if_neg, hb]
    rintro ⟨rfl, rfl⟩
    rw [hfree] at hb
    cases hb
  type _ _ := rfl
  filesystem _ _ := rfl
  counted _ _ h := h

lemma CacheOpen.addEntry (h : CacheOpen s) (ha : Referenced s a) : CacheOpen (s.addEntry fs identifier a) := by
  intro fs' identifier' b hb
  rw [icacheLookup_addEntry] at hb
  split_ifs at hb
  · cases hb
    exact ⟨ha.allocated, ha.counted⟩
  · have hb' := h fs' identifier' b hb
    exact ⟨hb'.allocated, hb'.counted⟩

lemma openInode_spec (s : VfsState) (ha : a < s.nextInode) (rc : ℤ) :
    (∃ s', openInode s a rc = (0, s') ∧ Grows s s' ∧ Referenced s' a ∧ s'.filesystems = s.filesystems) ∨
      (openInode s a rc = (rc, s) ∧ rc ≠ 0 ∧ (s.inodes a).refcount = 0) := by
  unfold openInode
  dsimp only
  split_ifs with hpos hrc
  · refine .inl ⟨_, rfl, grows_setInode rfl rfl fun _ => Nat.succ_pos _, ⟨ha, ?_⟩, rfl⟩
    rw [setInode_self]
    exact Nat.succ_pos _
  · exact .inr ⟨rfl, hrc, by omega⟩
  · refine .inl ⟨_, rfl, grows_setInode rfl rfl fun _ => one_pos, ⟨ha, ?_⟩, rfl⟩
    rw [setInode_self]
    exact one_pos

lemma closeInode_referenced (h : Referenced s a) :
    ∃ s', closeInode s (some a) = .ok s' ∧ Grows s s' ∧ s'.filesystems = s.filesystems := by
  by_cases hone : (s.inodes a).refcount > 1
  · refine ⟨s.setInode a { s.inodes a with refcount := (s.inodes a).refcount - 1 }, ?_,
      grows_setInode rfl rfl fun _ => Nat.sub_pos_of_lt hone, rfl⟩
    rw [closeInode, kassert_of h.counted, ok_bind, if_pos hone]
    rfl
  · refine ⟨s.setInode a { s.inodes a with live := false }, ?_, grows_setInode rfl rfl fun h => h, rfl⟩
    rw [closeInode, kassert_of h.counted, ok_bind, if_neg hone]
    rfl

lemma closeInode_optional {parent : Option ℕ} (h : ∀ p ∈ parent, Referenced s p) :
    ∃ s', closeInode s parent = .ok s' ∧ Grows s s' ∧ s'.filesystems = s.filesystems := by
  cases parent with
  | none => exact ⟨s, rfl, .refl s, rfl⟩
  | some p => exact closeInode_referenced (h p rfl)

end Growth

/-- The calls of `open_inode` that succeeded and the calls of `close_inode`, by inode. -/
structure Ledger where
  opened : Multiset ℕ
  closed : Multiset ℕ

def Ledger.add (l l' : Ledger) : Ledger := ⟨l.opened + l'.opened, l.closed + l'.closed⟩

def Ledger.none : Ledger := ⟨0, 0⟩

section Logged

variable (s : VfsState)

def openInodeLogged (a : ℕ) (rc : ℤ) : (ℤ × VfsState) × Ledger :=
  let r := openInode s a rc
  (r, if r.1 = 0 then ⟨{a}, 0⟩ else .none)

def closeInodeLogged (a : Option ℕ) : Except Panic (VfsState × Ledger) := do
  return (← closeInode s a, ⟨0, optRefs a⟩)

def cacheNewInodeLogged (env : NewInodeEnv) (fs : ℕ) (temp : Inode) :
    Except Panic ((Except ℤ ℕ × VfsState) × Ledger) := do
  if ¬ env.inodeMem then return ((.error (-Err.noMem), s), .none)
  let a := s.nextInode
  let ((rc, s), l) := openInodeLogged (s.newInode temp) a env.openRc
  if rc ≠ 0 then return ((.error rc, s), l)
  let (rc, s) ← icacheInsert s fs temp.identifier a env.entryMem
  if rc ≠ 0 then
    let (s, l') ← closeInodeLogged s (some a)
    return ((.error rc, s), l.add l')
  return ((.ok a, s), l)

def lookupInodeLogged (env : LookupEnv) (parent : ℕ) (name : CString) :
    Except Panic ((Except ℤ ℕ × VfsState) × Ledger) := do
  match env.answer name with
  | .error rc => return ((.error rc, s), .none)
  | .ok temp =>
    let fs := (s.inodes parent).filesystem
    match icacheLookup (s.filesystems fs).icache temp.identifier with
    | some a =>
      let ((rc, s), l) := openInodeLogged s a env.openRc
      if rc ≠ 0 then return ((.error rc, s), l)
      else return ((.ok a, s.logReturn a), l)
    | none =>
      match ← cacheNewInodeLogged s env.toNewInodeEnv fs temp with
      | ((.ok a, s), l) => return ((.ok a, s.logReturn a), l)
      | ((.error rc, s), l) => return ((.error rc, s), l)

/-- `traverseLoop` with the calls it makes. -/
def traverseLoopLogged (env : ℕ → LookupEnv) (s : VfsState) (parent : Option ℕ) (inode i : ℕ) :
    List CString → Except Panic (Traversal × Ledger)
  | [] => .ok (⟨.ok inode, parent, s⟩, .none)
  | name :: path => do
    let (s, l) ← closeInodeLogged s parent
    if (s.inodes inode).type ≠ .directory then
      let (s, l') ← closeInodeLogged s (some inode)
      return (⟨.error (-Err.notDir), none, s⟩, l.add l')
    match ← lookupInodeLogged s (env i) inode name with
    | ((.ok next, s), l') =>
      let (t, l'') ← traverseLoopLogged env s (some inode) next (i + 1) path
      return (t, (l.add l').add l'')
    | ((.error _, s), l') =>
      if path = [] then return (⟨.error (-Err.noEnt), some inode, s⟩, l.add l')
      else
        let (s, l'') ← closeInodeLogged s (some inode)
        return (⟨.error (-Err.noEnt), none, s⟩, (l.add l').add l'')

def traverseInFsLogged (env : OpenEnv) (fs : ℕ) (path : Buffer) : Except Panic (Traversal × Ledger) :=
  match icacheLookup (s.filesystems fs).icache (s.filesystems fs).root with
  | none => .ok (⟨.error (-Err.noEnt), none, s⟩, .none)
  | some root => do
    let ((rc, s), l) := openInodeLogged s root env.rootOpenRc
    if rc ≠ 0 then return (⟨.error rc, none, s⟩, l)
    let (t, l') ← traverseLoopLogged env.walk s none root 0 (components path)
    return (t, l.add l')

end Logged

section Erasure

variable (s : VfsState)

lemma cacheNewInodeLogged_fst (env : NewInodeEnv) (fs : ℕ) (temp : Inode) :
    (cacheNewInodeLogged s env fs temp).map Prod.fst = cacheNewInode s env fs temp := by
  unfold cacheNewInodeLogged cacheNewInode openInodeLogged closeInodeLogged
  by_cases hmem : ¬ env.inodeMem
  · rw [if_pos hmem, if_pos hmem]
    rfl
  · rw [if_neg hmem, if_neg hmem]
    dsimp only
    obtain ⟨rc, s₁⟩ := openInode (s.newInode temp) s.nextInode env.openRc
    by_cases hrc : rc ≠ 0
    · simp only [if_pos hrc]
      rfl
    · simp only [if_neg hrc]
      obtain _ | ⟨rc', s₂⟩ := icacheInsert s₁ fs temp.identifier s.nextInode env.entryMem
      · rfl
      · by_cases hrc' : rc' ≠ 0
        · simp only [ok_bind, if_pos hrc']
          cases closeInode s₂ (some s.nextInode) <;> rfl
        · simp only [ok_bind, if_neg hrc']
          rfl

lemma lookupInodeLogged_fst (env : LookupEnv) (parent : ℕ) (name : CString) :
    (lookupInodeLogged s env parent name).map Prod.fst = lookupInode s env parent name := by
  unfold lookupInodeLogged lookupInode
  cases env.answer name with
  | error rc => rfl
  | ok temp =>
    dsimp only
    cases icacheLookup (s.filesystems (s.inodes parent).filesystem).icache temp.identifier with
    | some a =>
      unfold openInodeLogged
      dsimp only
      obtain ⟨rc, s₁⟩ := openInode s a env.openRc
      by_cases hrc : rc ≠ 0
      · simp only [if_pos hrc]
        rfl
      · simp only [if_neg hrc]
        rfl
    | none =>
      rw [← cacheNewInodeLogged_fst]
      obtain _ | ⟨⟨r, s₁⟩, l⟩ := cacheNewInodeLogged s env.toNewInodeEnv (s.inodes parent).filesystem temp
      · rfl
      · cases r <;> rfl

lemma traverseLoopLogged_fst (env : ℕ → LookupEnv) (path : List CString) (s : VfsState) (parent : Option ℕ)
    (inode i : ℕ) : (traverseLoopLogged env s parent inode i path).map Prod.fst =
      traverseLoop env s parent inode i path := by
  induction path generalizing s parent inode i with
  | nil => rfl
  | cons name path ih =>
    unfold traverseLoopLogged traverseLoop closeInodeLogged
    cases closeInode s parent with
    | error e => rfl
    | ok s₁ =>
      simp only [ok_bind, pure_eq_ok]
      by_cases hdir : (s₁.inodes inode).type ≠ .directory
      · simp only [if_pos hdir]
        cases closeInode s₁ (some inode) <;> rfl
      · simp only [if_neg hdir]
        rw [← lookupInodeLogged_fst]
        obtain _ | ⟨⟨r, s₂⟩, l⟩ := lookupInodeLogged s₁ (env i) inode name
        · rfl
        · cases r with
          | ok next =>
            simp only [ok_bind, Except.map, ← ih]
            cases traverseLoopLogged env s₂ (some inode) next (i + 1) path <;> rfl
          | error rc =>
            simp only [ok_bind, Except.map]
            by_cases hpath : path = []
            · simp only [if_pos hpath]
            · simp only [if_neg hpath]
              cases closeInode s₂ (some inode) <;> rfl

lemma traverseInFsLogged_fst (env : OpenEnv) (fs : ℕ) (path : Buffer) :
    (traverseInFsLogged s env fs path).map Prod.fst = traverseInFs s env fs path := by
  unfold traverseInFsLogged traverseInFs openInodeLogged
  cases icacheLookup (s.filesystems fs).icache (s.filesystems fs).root with
  | none => rfl
  | some root =>
    dsimp only
    obtain ⟨rc, s₁⟩ := openInode s root env.rootOpenRc
    by_cases hrc : rc ≠ 0
    · simp only [if_pos hrc]
      rfl
    · simp only [if_neg hrc, ← traverseLoopLogged_fst]
      cases traverseLoopLogged env.walk s₁ none root 0 (components path) <;> rfl

end Erasure

/-- The directory's answer to the name is an inode of the cache. -/
def Entry (env : LookupEnv) (s : VfsState) (dir : ℕ) (name : CString) (a : ℕ) : Prop :=
  ∃ temp, env.answer name = .ok temp ∧
    icacheLookup (s.filesystems (s.inodes dir).filesystem).icache temp.identifier = some a

/-- Where a walk from an inode ends, told by the entries that the directories have in the end. -/
inductive WalkEnd (env : ℕ → LookupEnv) (s : VfsState) :
    Option ℕ → ℕ → ℕ → List CString → Except ℤ ℕ → Option ℕ → Prop
  | here {parent inode i} : WalkEnd env s parent inode i [] (.ok inode) parent
  | next {parent inode i name path next result out} : (s.inodes inode).type = .directory →
      Entry (env i) s inode name next → WalkEnd env s (some inode) next (i + 1) path result out →
      WalkEnd env s parent inode i (name :: path) result out
  | notDir {parent inode i name path} : (s.inodes inode).type ≠ .directory →
      WalkEnd env s parent inode i (name :: path) (.error (-Err.notDir)) none
  | missing {parent inode i name} : (s.inodes inode).type = .directory → (∀ a, ¬ Entry (env i) s inode name a) →
      WalkEnd env s parent inode i [name] (.error (-Err.noEnt)) (some inode)
  | lost {parent inode i name path} : (s.inodes inode).type = .directory → (∀ a, ¬ Entry (env i) s inode name a) →
      path ≠ [] → WalkEnd env s parent inode i (name :: path) (.error (-Err.noEnt)) none

section Steps

variable {s s' : VfsState} {a dir : ℕ} {name : CString} {temp : Inode} {fs : ℕ}

lemma Entry.grows {env : LookupEnv} (h : Entry env s dir name a) (hd : dir < s.nextInode) (hg : Grows s s') :
    Entry env s' dir name a := by
  obtain ⟨temp, ht, ha⟩ := h
  exact ⟨temp, ht, by rw [hg.filesystem dir hd]; exact hg.cached _ _ _ ha⟩

lemma not_entry_grows {env : LookupEnv} (h : ∀ a, ¬ Entry env s dir name a) (hd : dir < s.nextInode) (hg : Grows s s')
    (hf : s'.filesystems = s.filesystems) : ∀ a, ¬ Entry env s' dir name a := by
  rintro a ⟨temp, ht, ha⟩
  rw [hg.filesystem dir hd, hf] at ha
  exact h a ⟨temp, ht, ha⟩

lemma openInodeLogged_spec (s : VfsState) (ha : a < s.nextInode) (rc : ℤ) :
    (∃ s', openInodeLogged s a rc = ((0, s'), ⟨{a}, 0⟩) ∧ Grows s s' ∧ Referenced s' a ∧
      s'.filesystems = s.filesystems) ∨
      (openInodeLogged s a rc = ((rc, s), .none) ∧ rc ≠ 0 ∧ (s.inodes a).refcount = 0) := by
  rcases openInode_spec s ha rc with ⟨s', ho, hspec⟩ | ⟨ho, hrc, hz⟩
  · exact .inl ⟨s', by rw [openInodeLogged, ho]; rfl, hspec⟩
  · exact .inr ⟨by rw [openInodeLogged, ho]; simp only [if_neg hrc], hrc, hz⟩

lemma cacheNewInodeLogged_spec (hc : CacheOpen s) (env : NewInodeEnv)
    (hfree : icacheLookup (s.filesystems fs).icache temp.identifier = none) :
    ∃ r s' l, cacheNewInodeLogged s env fs temp = .ok ((r, s'), l) ∧ Grows s s' ∧ CacheOpen s' ∧
      l.opened = l.closed + refs r ∧
      ((r = .ok s.nextInode ∧ Referenced s' s.nextInode ∧ (s'.inodes s.nextInode).type = temp.type ∧
          icacheLookup (s'.filesystems fs).icache temp.identifier = some s.nextInode) ∨
        ∃ rc, r = .error rc ∧ s'.filesystems = s.filesystems) := by
  unfold cacheNewInodeLogged
  by_cases hmem : ¬ env.inodeMem
  · rw [if_pos hmem]
    exact ⟨_, s, .none, rfl, .refl s, hc, rfl, .inr ⟨_, rfl, rfl⟩⟩
  · rw [if_neg hmem]
    have hg := grows_newInode s temp
    have ha : s.nextInode < (s.newInode temp).nextInode := Nat.lt_succ_self _
    have htype : ((s.newInode temp).inodes s.nextInode).type = temp.type := by rw [newInode_self]
    rcases openInodeLogged_spec (s.newInode temp) ha env.openRc with ⟨s₁, ho, hg₁, hr₁, hf₁⟩ | ⟨ho, hrc, -⟩
    · have hc₁ : CacheOpen s₁ := (hc.grows hg rfl).grows hg₁ hf₁
      have hfree₁ : icacheLookup (s₁.filesystems fs).icache temp.identifier = none := by rw [hf₁]; exact hfree
      simp only [ho, icacheInsert_free env.entryMem hfree₁, ok_bind]
      by_cases hentry : env.entryMem
      · refine ⟨.ok s.nextInode, s₁.addEntry fs temp.identifier s.nextInode, ⟨{s.nextInode}, 0⟩, ?_,
          (hg.trans hg₁).trans (grows_addEntry hfree₁), hc₁.addEntry hr₁, ?_,
            .inl ⟨rfl, ⟨hr₁.allocated, hr₁.counted⟩, ?_, ?_⟩⟩
        · simp [hentry]
        · simp [refs]
        · exact (hg₁.type _ ha).trans htype
        · rw [icacheLookup_addEntry, if_pos ⟨rfl, rfl⟩]
      · obtain ⟨s₂, hclose, hg₂, hf₂⟩ := closeInode_referenced hr₁
        refine ⟨.error (-Err.noMem), s₂, ⟨{s.nextInode}, {s.nextInode}⟩, ?_, (hg.trans hg₁).trans hg₂,
          hc₁.grows hg₂ hf₂, by simp [refs], .inr ⟨_, rfl, hf₂.trans hf₁⟩⟩
        simp [hentry, closeInodeLogged, hclose, Ledger.add, optRefs]
    · simp only [ho, if_pos hrc]
      exact ⟨_, _, _, rfl, hg, hc.grows hg rfl, rfl, .inr ⟨_, rfl, rfl⟩⟩

lemma lookupInodeLogged_spec (hc : CacheOpen s) (hd : dir < s.nextInode) (env : LookupEnv) (name : CString) :
    ∃ r s' l, lookupInodeLogged s env dir name = .ok ((r, s'), l) ∧ Grows s s' ∧ CacheOpen s' ∧
      l.opened = l.closed + refs r ∧ (∀ a, r = .ok a → Referenced s' a ∧ Entry env s' dir name a) ∧
      ∀ rc, r = .error rc → ∀ a, ¬ Entry env s' dir name a := by
  unfold lookupInodeLogged
  cases hans : env.answer name with
  | error rc =>
    refine ⟨_, s, .none, rfl, .refl s, hc, rfl, ?_, ?_⟩
    · rintro a ⟨⟩
    · rintro rc' - a ⟨temp, ht, -⟩
      rw [hans] at ht
      cases ht
  | ok temp =>
    dsimp only
    cases hcache : icacheLookup (s.filesystems (s.inodes dir).filesystem).icache temp.identifier with
    | some a =>
      have ha := hc _ _ _ hcache
      rcases openInodeLogged_spec s ha.allocated env.openRc with ⟨s₁, ho, hg₁, hr₁, hf₁⟩ | ⟨-, -, hz⟩
      · have hg := hg₁.trans (grows_logReturn s₁ a)
        refine ⟨.ok a, s₁.logReturn a, ⟨{a}, 0⟩, by simp only [ho]; rfl, hg, hc.grows hg hf₁, by simp [refs], ?_, ?_⟩
        · rintro b ⟨⟩
          exact ⟨hr₁.grows (grows_logReturn s₁ a), Entry.grows ⟨temp, hans, hcache⟩ hd hg⟩
        · rintro rc ⟨⟩
      · exact absurd ha.counted (by omega)
    | none =>
      obtain ⟨r, s₁, l, hn, hg₁, hc₁, hl, hcases⟩ := cacheNewInodeLogged_spec hc env.toNewInodeEnv hcache
      rcases hcases with ⟨rfl, hr₁, -, hentry⟩ | ⟨rc, rfl, hf₁⟩
      · have hg := hg₁.trans (grows_logReturn s₁ s.nextInode)
        refine ⟨.ok s.nextInode, s₁.logReturn s.nextInode, l, by simp only [hn, ok_bind]; rfl, hg,
          hc₁.grows (grows_logReturn s₁ _) rfl, hl, ?_, ?_⟩
        · rintro b ⟨⟩
          refine ⟨hr₁.grows (grows_logReturn s₁ _), Entry.grows ⟨temp, hans, ?_⟩ (hd.trans_le hg₁.nextInode)
            (grows_logReturn s₁ _)⟩
          rw [hg₁.filesystem dir hd]
          exact hentry
        · rintro rc ⟨⟩
      · refine ⟨.error rc, s₁, l, by simp only [hn, ok_bind]; rfl, hg₁, hc₁, hl, ?_, ?_⟩
        · rintro a ⟨⟩
        · rintro rc' -
          refine not_entry_grows ?_ hd hg₁ hf₁
          rintro a ⟨temp', ht, ha⟩
          obtain rfl := Except.ok.inj (hans.symm.trans ht)
          rw [hcache] at ha
          cases ha

/-- A walk returns, its end is told by the entries, and the references that it has taken and not given back are those
on what it returns. -/
lemma traverseLoopLogged_spec (env : ℕ → LookupEnv) (path : List CString) {s : VfsState} {parent : Option ℕ}
    {inode : ℕ} (i : ℕ) (hc : CacheOpen s) (hp : ∀ p ∈ parent, Referenced s p) (hi : Referenced s inode) :
    ∃ t l, traverseLoopLogged env s parent inode i path = .ok (t, l) ∧ Grows s t.state ∧ CacheOpen t.state ∧
      WalkEnd env t.state parent inode i path t.result t.parent ∧ (∀ p ∈ t.parent, Referenced t.state p) ∧
      (∀ a, t.result = .ok a → Referenced t.state a) ∧
      l.opened + {inode} + optRefs parent = l.closed + refs t.result + optRefs t.parent := by
  induction path generalizing s parent inode i with
  | nil =>
    refine ⟨⟨.ok inode, parent, s⟩, .none, rfl, .refl s, hc, .here, hp, ?_, by simp [Ledger.none, refs]⟩
    rintro a ⟨⟩
    exact hi
  | cons name path ih =>
    obtain ⟨s₁, hclose, hg₁, hf₁⟩ := closeInode_optional hp
    have hi₁ := hi.grows hg₁
    have hc₁ := hc.grows hg₁ hf₁
    unfold traverseLoopLogged
    simp only [closeInodeLogged, hclose, ok_bind, pure_eq_ok]
    by_cases hdir : (s₁.inodes inode).type = .directory
    · rw [if_neg (not_not_intro hdir)]
      obtain ⟨r, s₂, l, hlook, hg₂, hc₂, hl, hok, herr⟩ := lookupInodeLogged_spec hc₁ hi₁.allocated (env i) name
      have hi₂ := hi₁.grows hg₂
      rw [hlook]
      cases r with
      | ok next =>
        obtain ⟨hnext, hentry⟩ := hok next rfl
        obtain ⟨t, l', ht, hg, hct, hend, hpar, hres, hbal⟩ := @ih s₂ (some inode) next (i + 1) hc₂
          (fun p hp => by cases hp; exact hi₂) hnext
        simp only [ok_bind, ht]
        refine ⟨t, _, rfl, (hg₁.trans hg₂).trans hg, hct, .next ?_ (hentry.grows hi₂.allocated hg) hend, hpar, hres, ?_⟩
        · rw [hg.type inode hi₂.allocated, hg₂.type inode hi₁.allocated]
          exact hdir
        · replace hl : l.opened = l.closed + {next} := hl
          replace hbal : l'.opened + {next} + {inode} = l'.closed + refs t.result + optRefs t.parent := hbal
          calc _ = l'.opened + {next} + {inode} + (l.closed + optRefs parent) := by
                simp only [Ledger.add, hl]
                abel
            _ = _ := by
                simp only [Ledger.add, hbal]
                abel
      | error rc =>
        have hnone := herr rc rfl
        simp only [ok_bind]
        by_cases hpath : path = []
        · subst hpath
          rw [if_pos rfl]
          refine ⟨_, _, rfl, hg₁.trans hg₂, hc₂, .missing ?_ hnone, ?_, ?_, ?_⟩
          · rw [hg₂.type inode hi₁.allocated]
            exact hdir
          · rintro p ⟨⟩
            exact hi₂
          · rintro a ⟨⟩
          · simp only [Ledger.add, refs, optRefs, hl]
            abel
        · rw [if_neg hpath]
          obtain ⟨s₃, hclose₃, hg₃, hf₃⟩ := closeInode_referenced hi₂
          rw [hclose₃]
          refine ⟨_, _, rfl, (hg₁.trans hg₂).trans hg₃, hc₂.grows hg₃ hf₃,
            .lost ?_ (not_entry_grows hnone hi₂.allocated hg₃ hf₃) hpath, ?_, ?_, ?_⟩
          · rw [hg₃.type inode hi₂.allocated, hg₂.type inode hi₁.allocated]
            exact hdir
          · rintro p ⟨⟩
          · rintro a ⟨⟩
          · simp only [Ledger.add, refs, optRefs, hl]
            abel
    · rw [if_pos hdir]
      obtain ⟨s₂, hclose₂, hg₂, hf₂⟩ := closeInode_referenced hi₁
      rw [hclose₂]
      refine ⟨_, _, rfl, hg₁.trans hg₂, hc₁.grows hg₂ hf₂, .notDir ?_, ?_, ?_, ?_⟩
      · rw [hg₂.type inode hi₁.allocated]
        exact hdir
      · rintro p ⟨⟩
      · rintro a ⟨⟩
      · simp only [Ledger.add, refs, optRefs]
        abel

end Steps

end Pi0Os.Vfs
