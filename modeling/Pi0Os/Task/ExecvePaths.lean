import Pi0Os.Task.WorkingDirectory
import Pi0Os.Vfs.PathForms

/-! The files that `sys$open` and `sys$execve` find under one path: the first joins a relative path to the working
directory, the second hands it to `vfs_open` as it is. -/

namespace Pi0Os.Task

open Kernel Byte Buffer Vfs VfsState

variable (s : VfsState) (env : OpenEnv)

/-- The call of `vfs_open` in `sys$open`, with `OF_RDONLY`. -/
def sysOpenFile (p : Process) (path : CString) : Except Panic (ℤ × VfsState) :=
  vfsOpenAt s env p.workingDirectory path 0

/-- The call of `vfs_open` in `elf_load_into_address_space`. -/
def elfLoadOpen (path : CString) : Except Panic (ℤ × VfsState) := vfsOpen s env path 0

/-- The filesystem and the identifier of the inode behind the last custody. -/
def openedFile : Option (ℕ × ℕ) :=
  s.custodies.getLast?.map fun c => ((s.inodes c.inode).filesystem, (s.inodes c.inode).identifier)

/-- The mount points have absolute paths, and the roots of the filesystems are directories. -/
structure MountState : Prop where
  absolute : ∀ mp ∈ s.mounts, ∃ cs, Encodes mp.path cs
  root : ∀ fs a, icacheLookup (s.filesystems fs).icache (s.filesystems fs).root = some a →
    (s.inodes a).type = .directory

/-- A file that `sys$execve` reads is the one that `sys$open` opens, and where `sys$open` fails so does `sys$execve`. -/
structure OpensAgree (p : Process) (path : CString) : Prop where
  same : ∀ s₁, elfLoadOpen s env path = .ok (0, s₁) →
    ∃ s₂, sysOpenFile s env p path = .ok (0, s₂) ∧ openedFile s₁ = openedFile s₂
  fails : ∀ rc s₂, sysOpenFile s env p path = .ok (rc, s₂) → rc ≠ 0 →
    ∃ rc' s₁, elfLoadOpen s env path = .ok (rc', s₁) ∧ rc' ≠ 0

/-- The path is absolute, or `canonicalize_path` leaves nothing of it but its first byte, or it makes the same of the
path alone as of the path behind the working directory. -/
def PathsAgree (workdir path : CString) : Prop :=
  path.head? = some slash ∨ canonicalComponents path = [] ∨
    (pathjoin (fun _ => true) workdir path).map canonicalForm = some (canonicalForm path)

variable {s env}

section Root

variable {path : CString}

lemma openInode_opened {a : ℕ} {rc : ℤ} (h : (openInode s a rc).1 = 0) :
    ((openInode s a rc).2.inodes a).type = (s.inodes a).type ∧ 0 < ((openInode s a rc).2.inodes a).refcount := by
  unfold openInode at h ⊢
  dsimp only at h ⊢
  split_ifs at h ⊢ with hpos hrc
  · simp
  · exact absurd h hrc
  · simp

/-- A walk that looks up no component ends in the root directory. -/
lemma traverseInFs_root (hs : MountState s) {fs : ℕ} {rest : Buffer} (hrest : components rest = []) :
    ∃ t, traverseInFs s env fs rest = .ok t ∧ t.parent = none ∧
      ((∃ rc, t.result = .error rc ∧ rc ≠ 0) ∨
        ∃ a, t.result = .ok a ∧ (t.state.inodes a).type = .directory ∧ 0 < (t.state.inodes a).refcount) := by
  cases hroot : icacheLookup (s.filesystems fs).icache (s.filesystems fs).root with
  | none => exact ⟨_, by rw [traverseInFs, hroot], rfl, .inl ⟨_, rfl, by decide⟩⟩
  | some root =>
    rw [traverseInFs, hroot]
    dsimp only
    by_cases hrc : (openInode s root env.rootOpenRc).1 = 0
    · obtain ⟨htype, hcount⟩ := openInode_opened hrc
      rw [if_neg (not_not_intro hrc), hrest]
      exact ⟨_, rfl, rfl, .inr ⟨root, rfl, htype.trans (hs.root fs root hroot), hcount⟩⟩
    · rw [if_pos hrc]
      exact ⟨_, rfl, rfl, .inl ⟨_, rfl, hrc⟩⟩

/-- A relative path of which only the first byte is left meets no mount point but that of `/`. -/
lemma components_drop_root (hs : MountState s) {cpath : Buffer} {n : ℕ} (hlen : canonicalizedPathStrlen cpath = .ok n)
    (hnil : encodedComponents cpath = []) {mp : MountPoint ℕ} (hmp : mp ∈ s.mounts)
    (hskip : mp.pathSkip ≤ n + 1 ∧ cpath.take (mp.pathSkip - 1) = mp.path.take (mp.pathSkip - 1)) :
    components (cpath.drop mp.pathSkip) = [] := by
  obtain ⟨cs, he⟩ := hs.absolute mp hmp
  have hpos := mp.pathSkip_pos
  have hl : mp.pathSkip - 1 = (encode cs).length := Except.ok.inj (mp.strlen_path.symm.trans he.strlen)
  obtain ⟨left, hlayout⟩ := he.layout
  cases cs with
  | nil =>
    have hone : mp.pathSkip = 1 := by
      rw [encode_nil, List.length_nil] at hl
      omega
    rw [hone]
    exact hnil
  | cons c cs =>
    obtain ⟨hne, hnul⟩ := he.valid c List.mem_cons_self
    obtain ⟨b, c, rfl⟩ := List.exists_cons_of_ne_nil hne
    have htake := hskip.2
    rw [hl, hlayout, List.take_left] at htake
    rw [← List.take_append_drop (encode ((b :: c) :: cs)).length cpath, htake, encode_cons, List.cons_append]
      at hlen hnil
    have hhead := (encodedComponents_eq_nil hlen).mp hnil
    exact absurd (Option.some.inj hhead).symm fun hb => hnul (hb ▸ List.mem_cons_self)

lemma elfLoadOpen_root (hs : MountState s) (hm : ∀ n, env.malloc n = true) (hn : nul ∉ path)
    (hnil : canonicalComponents path = []) : ∃ rc s', elfLoadOpen s env path = .ok (rc, s') ∧ rc ≠ 0 := by
  obtain ⟨form, left, hc, hlen, -⟩ := canonicalForm_spec hn
  rw [canonicalComponents, hc] at hnil
  have hwalk : ∃ t, traverse s env path = .ok t ∧ t.parent = none ∧
      ((∃ rc, t.result = .error rc ∧ rc ≠ 0) ∨
        ∃ a, t.result = .ok a ∧ (t.state.inodes a).type = .directory ∧ 0 < (t.state.inodes a).refcount) := by
    rw [traverse_of_block hm hc]
    rcases findFirst_spec (fun mp _ => mp.startswith hlen) (l := s.mounts) with
      ⟨hnone, -⟩ | ⟨x, mp, y, hl, hsome, -, hmp⟩
    · rw [hnone]
      exact ⟨_, rfl, rfl, .inl ⟨_, rfl, by decide⟩⟩
    · rw [hsome]
      exact traverseInFs_root hs (components_drop_root hs hlen hnil (by simp [hl]) (of_decide_eq_true hmp))
  obtain ⟨t, ht, hparent, ⟨rc, hres, hrc⟩ | ⟨a, hres, hdir, hcount⟩⟩ := hwalk
  · refine ⟨rc, t.state, ?_, hrc⟩
    simp only [elfLoadOpen, vfsOpen, ht, ok_bind, createMissing_zero, hres, hparent]
    rfl
  · obtain ⟨s', hclose⟩ : ∃ s', closeInode t.state (some a) = .ok s' := by
      rw [closeInode, kassert_of hcount, ok_bind]
      split_ifs <;> exact ⟨_, rfl⟩
    refine ⟨-Err.isDir, s', ?_, by decide⟩
    simp only [elfLoadOpen, vfsOpen, ht, ok_bind, createMissing_zero, hres, hparent]
    rw [if_pos ⟨hdir, rfl⟩, failOpen, closeInode, ok_bind, hclose]
    rfl

/-- Where the paths agree, so do the calls. -/
lemma opensAgree_of_pathsAgree {p : Process} {cs : List CString} (hw : WorkingAt p.workingDirectory cs)
    (hn : nul ∉ path) (hs : MountState s) (hm : ∀ n, env.malloc n = true) (h : PathsAgree p.workingDirectory path) :
    OpensAgree s env p path := by
  have hagree : elfLoadOpen s env path = sysOpenFile s env p path → OpensAgree s env p path := fun heq =>
    ⟨fun s₁ h₁ => ⟨s₁, heq ▸ h₁, rfl⟩, fun rc s₂ h₂ hrc => ⟨rc, s₂, heq ▸ h₂, hrc⟩⟩
  by_cases habs : path.head? = some slash
  · exact hagree (by rw [sysOpenFile, vfsOpenAt, if_pos habs, elfLoadOpen])
  · rcases h with h | hnil | hjoint
    · exact absurd h habs
    · obtain ⟨rc, s', hcall, hrc⟩ := elfLoadOpen_root hs hm hn hnil
      refine ⟨fun s₁ h₁ => ?_, fun _ _ _ _ => ⟨rc, s', hcall, hrc⟩⟩
      rw [hcall] at h₁
      exact absurd (Prod.mk.inj (Except.ok.inj h₁)).1 hrc
    · obtain ⟨joint, hj, hform⟩ := Option.map_eq_some_iff.mp hjoint
      have hjn := (pathjoin_absolute hw.head hw.nul hn hj).1.terminated
      refine hagree ?_
      rw [sysOpenFile, vfsOpenAt, if_neg habs, malloc_eq hm, hj, elfLoadOpen]
      exact vfsOpen_sameForm hm hn hjn hform.symm

end Root

section Ladder

variable {t names : List CString} {name : CString} {parent : Option ℕ} {inode i : ℕ}

/-- A filesystem with one directory below the other, and a file at the end: `t` has their names. -/
def ladder (t : List CString) : OpenEnv where
  malloc _ := true
  rootOpenRc := 0
  walk i := ⟨⟨true, 0, true⟩, fun name =>
    if t[i]? = some name then .ok ⟨0, if i + 1 = t.length then .regularFile else .directory, i + 1, 0, false⟩
    else .error (-Err.noEnt)⟩
  create := ⟨⟨true, 0, true⟩, fun _ => .error (-Err.noEnt)⟩
  custodyMem := true

/-- The walk is at the directory `i` of the ladder, and none below it is in the cache. -/
structure OnLadder (s : VfsState) (inode i : ℕ) : Prop where
  referenced : Referenced s inode
  directory : (s.inodes inode).type = .directory
  filesystem : (s.inodes inode).filesystem = 0
  fresh : ∀ k, i < k → icacheLookup (s.filesystems 0).icache k = none

lemma OnLadder.grows {s' : VfsState} (h : OnLadder s inode i) (hg : Grows s s')
    (hf : s'.filesystems = s.filesystems) : OnLadder s' inode i where
  referenced := h.referenced.grows hg
  directory := (hg.type _ h.referenced.allocated).trans h.directory
  filesystem := (hg.filesystem _ h.referenced.allocated).trans h.filesystem
  fresh := hf ▸ h.fresh

/-- The inode below is new. -/
lemma lookupInode_ladder (h : OnLadder s inode i) (hname : t[i]? = some name) :
    ∃ s', lookupInode s ((ladder t).walk i) inode name = .ok (.ok s.nextInode, s') ∧ Referenced s' inode ∧
      Referenced s' s.nextInode ∧ (s'.inodes s.nextInode).filesystem = 0 ∧
      (s'.inodes s.nextInode).type = (if i + 1 = t.length then .regularFile else .directory) ∧
      ∀ k, i + 1 < k → icacheLookup (s'.filesystems 0).icache k = none := by
  have hfree := h.fresh (i + 1) (Nat.lt_succ_self i)
  let temp : Inode := ⟨0, if i + 1 = t.length then .regularFile else .directory, i + 1, 0, false⟩
  have hanswer : ((ladder t).walk i).answer name = .ok temp := if_pos hname
  have hg := grows_newInode s temp
  have hnew : s.nextInode < (s.newInode temp).nextInode := Nat.lt_succ_self _
  have hopen : openInode (s.newInode temp) s.nextInode 0 = (0, (s.newInode temp).setInode s.nextInode
      { (s.newInode temp).inodes s.nextInode with refcount := 1, live := true }) := by
    rw [openInode]
    simp
  set s₁ := (s.newInode temp).setInode s.nextInode
    { (s.newInode temp).inodes s.nextInode with refcount := 1, live := true } with hs₁
  have hg₁ : Grows (s.newInode temp) s₁ := grows_setInode rfl rfl fun _ => one_pos
  have hself : s₁.inodes s.nextInode = { temp with refcount := 1, live := true } := by
    rw [hs₁, setInode_self, newInode_self]
  have hcache : cacheNewInode s ((ladder t).walk i).toNewInodeEnv 0 temp =
      .ok (.ok s.nextInode, s₁.addEntry 0 (i + 1) s.nextInode) := by
    have hins : icacheInsert s₁ 0 (i + 1) s.nextInode true = .ok (0, s₁.addEntry 0 (i + 1) s.nextInode) :=
      icacheInsert_free true hfree
    simp only [cacheNewInode, ladder, hopen, hins, temp]
    rfl
  refine ⟨(s₁.addEntry 0 (i + 1) s.nextInode).logReturn s.nextInode, ?_, ?_, ⟨hnew, ?_⟩, ?_, ?_, fun k hk => ?_⟩
  · simp only [lookupInode, hanswer, h.filesystem, temp, hfree, hcache, ok_bind]
    rfl
  · have hr := (h.referenced.grows hg).grows hg₁
    exact ⟨hr.allocated, hr.counted⟩
  · exact lt_of_lt_of_eq Nat.one_pos (congrArg Inode.refcount hself).symm
  · exact congrArg Inode.filesystem hself
  · exact congrArg Inode.type hself
  · change icacheLookup ((s₁.addEntry 0 (i + 1) s.nextInode).filesystems 0).icache k = none
    rw [icacheLookup_addEntry, if_neg (by omega)]
    exact h.fresh k (by omega)

/-- Where the walk along `names` from the directory `i` ends: at the file, or at nothing that can be read. -/
structure LadderEnd (t names : List CString) (i : ℕ) (tr : Traversal) : Prop where
  file : names ≠ [] → names = t.drop i → ∃ a, tr.result = .ok a ∧ (tr.state.inodes a).type = .regularFile
  error : ¬ (names ≠ [] ∧ names = t.drop i) → ∀ rc, tr.result = .error rc → rc ≠ 0
  directory : ¬ (names ≠ [] ∧ names = t.drop i) → ∀ a, tr.result = .ok a → (tr.state.inodes a).type = .directory

lemma ladderEnd_error {tr : Traversal} {rc : ℤ} (hne : names ≠ t.drop i) (hres : tr.result = .error rc) (hrc : rc ≠ 0) :
    LadderEnd t names i tr where
  file _ heq := absurd heq hne
  error _ rc' h := by
    rw [hres] at h
    exact Except.error.inj h ▸ hrc
  directory _ a h := by
    rw [hres] at h
    cases h

lemma traverseLoop_ladder (names : List CString) (h : OnLadder s inode i) (hp : ∀ p ∈ parent, Referenced s p) :
    ∃ tr, traverseLoop (ladder t).walk s parent inode i names = .ok tr ∧ LadderEnd t names i tr := by
  induction names generalizing s parent inode i with
  | nil =>
    refine ⟨_, rfl, fun hne => absurd rfl hne, ?_, ?_⟩
    · rintro - rc ⟨⟩
    · rintro - a ⟨⟩
      exact h.directory
  | cons name path ih =>
    obtain ⟨s₁, hclose, hg, hf⟩ := closeInode_optional hp
    have h₁ := h.grows hg hf
    rw [traverseLoop, hclose, ok_bind, if_neg (not_not_intro h₁.directory)]
    by_cases hname : t[i]? = some name
    · obtain ⟨s₂, hlook, hr, hr', hfs, htype, hfresh⟩ := lookupInode_ladder h₁ hname
      have hdrop : t.drop i = name :: t.drop (i + 1) := by
        obtain ⟨hi, hget⟩ := List.getElem?_eq_some_iff.mp hname
        rw [List.drop_eq_getElem_cons hi, hget]
      rw [hlook, ok_bind]
      dsimp only
      by_cases hlast : i + 1 = t.length
      · -- the file: nothing is below it
        have hnil : t.drop (i + 1) = [] := List.drop_eq_nil_iff.mpr hlast.ge
        rw [if_pos hlast] at htype
        obtain _ | ⟨next, path⟩ := path
        · refine ⟨_, rfl, fun _ _ => ⟨_, rfl, htype⟩, fun hne => ?_, fun hne => ?_⟩
          · exact absurd ⟨by simp, by rw [hdrop, hnil]⟩ hne
          · exact absurd ⟨by simp, by rw [hdrop, hnil]⟩ hne
        · obtain ⟨s₃, hclose₃, hg₃, -⟩ := closeInode_referenced hr
          obtain ⟨s₄, hclose₄, -, -⟩ := closeInode_referenced (hr'.grows hg₃)
          have hfile : (s₃.inodes s₁.nextInode).type ≠ .directory := by
            rw [hg₃.type _ hr'.allocated, htype]
            exact InodeType.noConfusion
          refine ⟨⟨.error (-Err.notDir), none, s₄⟩, ?_, ladderEnd_error ?_ rfl (by decide)⟩
          · rw [traverseLoop, hclose₃, ok_bind, if_pos hfile, hclose₄]
            rfl
          · rw [hdrop, hnil]
            simp
      · rw [if_neg hlast] at htype
        obtain ⟨tr, hrun, hend⟩ := @ih s₂ (some inode) s₁.nextInode (i + 1) ⟨hr', htype, hfs, hfresh⟩
          (by rintro p ⟨⟩; exact hr)
        have hlt : i + 1 < t.length := by
          have := (List.getElem?_eq_some_iff.mp hname).1
          omega
        have hiff : path ≠ [] ∧ path = t.drop (i + 1) ↔ name :: path ≠ [] ∧ name :: path = t.drop i := by
          rw [hdrop, List.cons_inj_right]
          refine ⟨fun h => ⟨by simp, h.2⟩, fun h => ⟨?_, h.2⟩⟩
          rw [h.2]
          simpa using hlt
        exact ⟨tr, hrun, fun hne heq => hend.file (hiff.mpr ⟨hne, heq⟩).1 (hiff.mpr ⟨hne, heq⟩).2,
          fun hnot => hend.error fun hh => hnot (hiff.mp hh), fun hnot => hend.directory fun hh => hnot (hiff.mp hh)⟩
    · have hanswer : ((ladder t).walk i).answer name = .error (-Err.noEnt) := if_neg hname
      have hlook : lookupInode s₁ ((ladder t).walk i) inode name = .ok (.error (-Err.noEnt), s₁) := by
        rw [lookupInode, hanswer]
        rfl
      have hne : name :: path ≠ t.drop i := by
        intro heq
        refine hname ?_
        rw [← List.head?_drop, ← heq]
        rfl
      rw [hlook, ok_bind]
      dsimp only
      by_cases hpath : path = []
      · exact ⟨_, by rw [if_pos hpath]; rfl, ladderEnd_error hne rfl (by decide)⟩
      · obtain ⟨s₂, hclose₂, -, -⟩ := closeInode_referenced h₁.referenced
        exact ⟨_, by rw [if_neg hpath, hclose₂]; rfl, ladderEnd_error hne rfl (by decide)⟩

lemma canonicalizedPathStrlen_root : canonicalizedPathStrlen [nul, nul, nul] = .ok 0 := rfl

/-- The mount point of `/`. -/
def rootMount : MountPoint ℕ := ⟨0, [nul, nul, nul], 1, canonicalizedPathStrlen_root, Nat.one_pos⟩

/-- A mount point of the same filesystem under one name. -/
def nameMount (name : CString) (he : Encodes (encode [name] ++ [nul, nul]) [name]) : MountPoint ℕ :=
  ⟨0, encode [name] ++ [nul, nul], (encode [name]).length + 1, he.strlen, Nat.succ_pos _⟩

def ladderMounts (mounts : List (MountPoint ℕ)) : VfsState := { rootOnly with mounts := mounts }

lemma mountState_ladder {mounts : List (MountPoint ℕ)} (h : ∀ mp ∈ mounts, ∃ cs, Encodes mp.path cs) :
    MountState (ladderMounts mounts) := ⟨h, fun _ _ _ => rfl⟩

lemma rootMount_encodes : Encodes rootMount.path [] := ⟨by simp, [nul], rfl⟩

lemma rootMount_startswith {cpath : Buffer} {n : ℕ} (hlen : canonicalizedPathStrlen cpath = .ok n) :
    canonicalizedPathStartswith cpath rootMount.path = .ok true := by
  rw [rootMount.startswith hlen]
  simp [rootMount]

lemma findFirst_root {cpath : Buffer} {n : ℕ} (hlen : canonicalizedPathStrlen cpath = .ok n) :
    findFirst (fun mp : MountPoint ℕ => canonicalizedPathStartswith cpath mp.path) [rootMount] =
      .ok (some ([], rootMount, [])) := by
  rw [findFirst, rootMount_startswith hlen]
  rfl

lemma traverseInFs_ladder (mounts : List (MountPoint ℕ)) (rest : Buffer) :
    ∃ tr, traverseInFs (ladderMounts mounts) (ladder t) 0 rest = .ok tr ∧ LadderEnd t (components rest) 0 tr := by
  have hstart : OnLadder (ladderMounts mounts) 0 0 := by
    refine ⟨⟨Nat.one_pos, Nat.one_pos⟩, rfl, rfl, fun k hk => ?_⟩
    have hzero : ¬ 0 = k := by omega
    simp [ladderMounts, rootOnly, icacheLookup, hzero]
  rcases openInode_spec (ladderMounts mounts) (a := 0) Nat.one_pos 0 with ⟨s', hopen, hg, -, hf⟩ | ⟨-, hrc, -⟩
  · obtain ⟨tr, hrun, hend⟩ := @traverseLoop_ladder s' t none 0 0 (components rest) (hstart.grows hg hf)
      (by rintro p ⟨⟩)
    refine ⟨tr, ?_, hend⟩
    have hroot : icacheLookup ((ladderMounts mounts).filesystems 0).icache ((ladderMounts mounts).filesystems 0).root =
        some 0 := rfl
    have hrc : (ladder t).rootOpenRc = 0 := rfl
    rw [traverseInFs, hroot]
    dsimp only
    rw [hrc, hopen]
    exact hrun
  · exact absurd rfl hrc

lemma traverse_ladder {mounts x y : List (MountPoint ℕ)} {mp : MountPoint ℕ} {path : CString} {cpath : Buffer}
    (hc : canonicalizePath (fun _ => true) path = .ok (some cpath)) (hfs : mp.fs = 0)
    (hmp : findFirst (fun mp : MountPoint ℕ => canonicalizedPathStartswith cpath mp.path) mounts =
      .ok (some (x, mp, y))) :
    ∃ tr, traverse (ladderMounts mounts) (ladder t) path = .ok tr ∧
      LadderEnd t (components (cpath.drop mp.pathSkip)) 0 tr := by
  obtain ⟨tr, hrun, hend⟩ := @traverseInFs_ladder t mounts (cpath.drop mp.pathSkip)
  refine ⟨tr, ?_, hend⟩
  have hmp' : findFirst (fun mp : MountPoint ℕ => canonicalizedPathStartswith cpath mp.path)
      (ladderMounts mounts).mounts = .ok (some (x, mp, y)) := hmp
  rw [traverse_of_block (fun _ => rfl) hc, hmp', ok_bind]
  dsimp only
  rw [hfs]
  exact hrun

/-- `sys$execve` reads the file at the end of the ladder, and `sys$open` reads nothing: the calls do not agree. -/
lemma not_opensAgree_ladder {mounts x y : List (MountPoint ℕ)} {p : Process} {path : CString} {cpath : Buffer}
    (hc : canonicalizePath (fun _ => true) path = .ok (some cpath)) (hne : encodedComponents cpath ≠ [])
    (hmp : findFirst (fun mp : MountPoint ℕ => canonicalizedPathStartswith cpath mp.path) mounts =
      .ok (some (x, rootMount, y)))
    (hopen : ∀ rc s₂, sysOpenFile (ladderMounts mounts) (ladder (encodedComponents cpath)) p path = .ok (rc, s₂) →
      rc ≠ 0) :
    ¬ OpensAgree (ladderMounts mounts) (ladder (encodedComponents cpath)) p path := by
  intro h
  obtain ⟨tr, ht, hend⟩ := @traverse_ladder (encodedComponents cpath) _ _ _ _ _ _ hc rfl hmp
  obtain ⟨a, hres, htype⟩ := hend.file hne rfl
  obtain ⟨s₁, hcall, -⟩ := @vfsOpen_found (ladderMounts mounts) (ladder (encodedComponents cpath)) path 0 tr a ht hres
    htype rfl
  obtain ⟨s₂, hcall₂, -⟩ := h.same s₁ hcall
  exact hopen 0 s₂ hcall₂ rfl

/-- `sys$open` of a path that leads elsewhere finds nothing to read. -/
lemma sysOpenFile_ladder {mounts x y : List (MountPoint ℕ)} {mp : MountPoint ℕ} {p : Process} {path joint : CString}
    {cpath : Buffer} {rc : ℤ} {s₂ : VfsState} (hrel : path.head? ≠ some slash)
    (hj : pathjoin (fun _ => true) p.workingDirectory path = some joint)
    (hc : canonicalizePath (fun _ => true) joint = .ok (some cpath)) (hfs : mp.fs = 0)
    (hmp : findFirst (fun mp : MountPoint ℕ => canonicalizedPathStartswith cpath mp.path) mounts =
      .ok (some (x, mp, y)))
    (hne : components (cpath.drop mp.pathSkip) ≠ t)
    (h : sysOpenFile (ladderMounts mounts) (ladder t) p path = .ok (rc, s₂)) : rc ≠ 0 := by
  obtain ⟨tr, ht, hend⟩ := @traverse_ladder t _ _ _ _ _ _ hc hfs hmp
  rw [sysOpenFile, vfsOpenAt, if_neg hrel, show (ladder t).malloc = fun _ => true from rfl, hj] at h
  exact vfsOpen_not_opened ht (hend.error fun hh => hne hh.2) (hend.directory fun hh => hne hh.2) h

end Ladder

section Agreement

variable {p : Process} {path : CString}

/-- Where the calls agree in every state, so do the paths. -/
lemma pathsAgree_of_opensAgree {cs : List CString} (hw : WorkingAt p.workingDirectory cs) (hn : nul ∉ path)
    (h : ∀ s env, MountState s → (∀ n, env.malloc n = true) → OpensAgree s env p path) :
    PathsAgree p.workingDirectory path := by
  by_contra hnot
  obtain ⟨hrel, hne, hform⟩ : path.head? ≠ some slash ∧ canonicalComponents path ≠ [] ∧
      (pathjoin (fun _ => true) p.workingDirectory path).map canonicalForm ≠ some (canonicalForm path) :=
    ⟨fun h => hnot (.inl h), fun h => hnot (.inr (.inl h)), fun h => hnot (.inr (.inr h))⟩
  obtain ⟨form, left, hc, hlen, -⟩ := canonicalForm_spec hn
  set cpath := form ++ nul :: nul :: left with hcpath
  have hcs : canonicalComponents path = encodedComponents cpath := by rw [canonicalComponents, hc]
  rw [hcs] at hne
  have hroots : ∀ mp ∈ [rootMount], ∃ cs, Encodes mp.path cs := fun mp hmp =>
    ⟨[], List.mem_singleton.mp hmp ▸ rootMount_encodes⟩
  cases hj : pathjoin (fun _ => true) p.workingDirectory path with
  | none =>
    -- too long for `pathjoin`
    refine not_opensAgree_ladder hc hne (findFirst_root hlen) (fun rc s₂ h₂ => ?_)
      (h _ _ (mountState_ladder hroots) fun _ => rfl)
    rw [sysOpenFile, vfsOpenAt, if_neg hrel, show (ladder (encodedComponents cpath)).malloc = fun _ => true from rfl,
      hj] at h₂
    rw [← (Prod.mk.inj (Except.ok.inj h₂)).1]
    decide
  | some joint =>
    obtain ⟨habs, -⟩ := pathjoin_absolute hw.head hw.nul hn hj
    obtain ⟨cpath', hc', he', hnames⟩ := @canonicalizePath_components joint (fun _ => true) habs rfl
    rw [hj, Option.map_some, canonicalForm_of_encodes hc' he'] at hform
    by_cases heq : canonicalComponents joint = encodedComponents cpath
    · -- the same names, behind a byte that is no separator
      obtain ⟨a, r, har⟩ : ∃ a r, cpath = a :: r := List.exists_cons_of_ne_nil (by simp [hcpath])
      have ha : a ≠ nul := by
        rintro rfl
        have he := encodes_of_nul (har ▸ hlen) (har ▸ hne)
        rw [← har, ← heq] at he
        exact hform (congrArg some (canonicalForm_of_encodes hc he).symm)
      obtain ⟨c, cs, hsplit⟩ := List.exists_cons_of_ne_nil hne
      rw [heq, hsplit] at he'
      have hce : Encodes (encode [c] ++ [nul, nul]) [c] :=
        ⟨fun d hd => List.mem_singleton.mp hd ▸ he'.valid c List.mem_cons_self, [], rfl⟩
      have hother : canonicalizedPathStartswith cpath (nameMount c hce).path = .ok false := by
        rw [(nameMount c hce).startswith hlen]
        refine congrArg Except.ok (decide_eq_false fun hh => ha ?_)
        have hhead := congrArg List.head? hh.2
        rw [har] at hhead
        simpa [nameMount] using hhead
      have hmine : canonicalizedPathStartswith cpath' (nameMount c hce).path = .ok true := by
        refine (he'.startswith hce).trans (congrArg Except.ok (decide_eq_true ⟨encode cs, ?_⟩))
        simp
      have hmounts : ∀ mp ∈ [nameMount c hce, rootMount], ∃ cs, Encodes mp.path cs := by
        intro mp hmp
        rcases List.mem_pair.mp hmp with rfl | rfl
        · exact ⟨[c], hce⟩
        · exact ⟨[], rootMount_encodes⟩
      refine @not_opensAgree_ladder [nameMount c hce, rootMount] [nameMount c hce] [] _ _ _ hc hne ?_
        (fun rc s₂ h₂ => ?_) (h _ _ (mountState_ladder hmounts) fun _ => rfl)
      · rw [findFirst, hother, ok_bind, findFirst_root hlen]
        rfl
      · refine @sysOpenFile_ladder _ _ [] [rootMount] (nameMount c hce) _ _ _ _ _ _ hrel hj hc' rfl ?_ ?_ h₂
        · rw [findFirst, hmine]
          rfl
        · rw [show (nameMount c hce).pathSkip = (encode [c]).length + 1 from rfl,
            @components_drop [c] _ cs he', hsplit]
          exact fun hcc => absurd (congrArg List.length hcc) (by simp)
    · refine not_opensAgree_ladder hc hne (findFirst_root hlen) (fun rc s₂ h₂ => ?_)
        (h _ _ (mountState_ladder hroots) fun _ => rfl)
      refine sysOpenFile_ladder hrel hj hc' rfl (findFirst_root he'.strlen) ?_ h₂
      rw [show rootMount.pathSkip = (encode []).length + 1 from rfl, @components_drop [] _ _ he']
      exact heq

/-- The two calls resolve a path to the same file in every state exactly when the paths agree. -/
theorem opensAgree_iff (hr : cwdCalls.Reachable p) (hn : nul ∉ path) :
    (∀ s env, MountState s → (∀ n, env.malloc n = true) → OpensAgree s env p path) ↔
      PathsAgree p.workingDirectory path := by
  obtain ⟨cs, hw⟩ := workingAt_reachable hr
  exact ⟨pathsAgree_of_opensAgree hw hn, fun h s env hs hm => opensAgree_of_pathsAgree hw hn hs hm h⟩

/-- `../ls` in `/`. -/
theorem opensAgree_iff_parent : ∃ p, cwdCalls.Reachable p ∧ p.workingDirectory = [slash] ∧
    ∀ s env, MountState s → (∀ n, env.malloc n = true) → OpensAgree s env p [dot, dot, slash, 0x6c, 0x73] :=
  have h : cwdCalls.Reachable (cwdProcess [slash]) := .init rfl
  ⟨_, h, rfl, (opensAgree_iff h (by decide)).mpr (.inr (.inr (by decide)))⟩

/-- A root directory with the files `s` and `ls`. -/
def twoFiles : OpenEnv := { ladder [] with walk := fun _ => ⟨⟨true, 0, true⟩, fun name =>
  if name = [0x73] then .ok ⟨0, .regularFile, 1, 0, false⟩
  else if name = [0x6c, 0x73] then .ok ⟨0, .regularFile, 2, 0, false⟩
  else .error (-Err.noEnt)⟩ }

/-- `ls` in `/`: `sys$open` opens `/ls`, and `sys$execve` reads `/s`. -/
theorem opensAgree_firstByte : ∃ (s : VfsState) (env : OpenEnv) (p : Process) (path : CString),
    cwdCalls.Reachable p ∧ nul ∉ path ∧ MountState s ∧ (∀ n, env.malloc n = true) ∧ ¬ OpensAgree s env p path := by
  refine ⟨ladderMounts [rootMount], twoFiles, cwdProcess [slash], [0x6c, 0x73],
    .init (s := cwdProcess [slash]) rfl, by decide,
    mountState_ladder fun mp hmp => ⟨[], List.mem_singleton.mp hmp ▸ rootMount_encodes⟩, fun _ => rfl, fun h => ?_⟩
  have hrun : ∃ s₁ s₂, elfLoadOpen (ladderMounts [rootMount]) twoFiles [0x6c, 0x73] = .ok (0, s₁) ∧
      sysOpenFile (ladderMounts [rootMount]) twoFiles (cwdProcess [slash]) [0x6c, 0x73] = .ok (0, s₂) ∧
      openedFile s₁ = some (0, 1) ∧ openedFile s₂ = some (0, 2) := ⟨_, _, rfl, rfl, rfl, rfl⟩
  obtain ⟨s₁, s₂, hload, hopen, h₁, h₂⟩ := hrun
  obtain ⟨s₂', hopen', hsame⟩ := h.same s₁ hload
  obtain rfl : s₂ = s₂' := (Prod.mk.inj (Except.ok.inj (hopen.symm.trans hopen'))).2
  rw [h₁, h₂] at hsame
  exact absurd hsame (by decide)

end Agreement

end Pi0Os.Task
