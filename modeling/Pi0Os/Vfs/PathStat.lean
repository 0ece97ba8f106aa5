import Pi0Os.Vfs.CreatedFiles

/-! `vfs_stat` and `vfs_fstat`: what is stored for a path and for an open file. -/

namespace Pi0Os.Vfs

open Kernel VfsState

structure TimeSpec where
  seconds : ℕ
  nanoseconds : ℕ

/-- The fields of an inode that only `inode_stat` reads. -/
structure InodeAttributes where
  devmajor : ℕ
  devminor : ℕ
  uid : ℕ
  gid : ℕ
  size : ℕ
  accessTime : TimeSpec
  creationTime : TimeSpec
  modificationTime : TimeSpec
  blksize : ℕ

structure Stat where
  dev : ℕ
  ino : ℕ
  mode : ℕ
  nlink : ℕ
  uid : ℕ
  gid : ℕ
  rdev : ℕ
  size : ℕ
  atim : TimeSpec
  mtim : TimeSpec
  ctim : TimeSpec
  blksize : ℕ
  blocks : ℕ

def InodeType.mode : InodeType → ℕ
  | .regularFile => 0o100000
  | .directory => 0o040000
  | .pipe => 0o010000
  | .characterDevice => 0o020000
  | .blockDevice => 0o060000
  | .socket => 0o140000
  | .fifo => 0o010000
  | .symbolicLink => 0o120000

/-- `round_up(size, blksize) / blksize`: the argument of `round_up` is a `size_t`. -/
def statBlocks (size blksize : ℕ) : Except Panic ℕ := do
  let b := blksize % 2 ^ 32
  panicIf (.undefined "division by zero") (b = 0)
  return (size + b - 1) % 2 ^ 64 / b * b % 2 ^ 64 / blksize

/-- `attributes` are those of the inode at each address. -/
def inodeStat (attributes : ℕ → InodeAttributes) (s : VfsState) : Option ℕ → Except Panic Stat
  | none => .error (.undefined "null inode")
  | some a => do
    let inode := s.inodes a
    let attr := attributes a
    return { dev := attr.devmajor <<< 8 ||| attr.devminor, ino := inode.identifier, mode := 0o666 ||| inode.type.mode,
             nlink := inode.refcount % 2 ^ 32, uid := attr.uid, gid := attr.gid, rdev := 0, size := attr.size,
             atim := attr.accessTime, mtim := attr.modificationTime, ctim := attr.creationTime, blksize := attr.blksize,
             blocks := ← statBlocks attr.size attr.blksize }

def Traversal.rc (t : Traversal) : ℤ :=
  match t.result with
  | .ok _ => 0
  | .error rc => rc

/-- The result and what is stored in `*stat`, if anything is. -/
def vfsStat (attributes : ℕ → InodeAttributes) (s : VfsState) (env : OpenEnv) (path : CString) :
    Except Panic (ℤ × Option Stat × VfsState) := do
  let t ← traverse s env path
  let stat ← if t.rc ≠ 0 then some <$> inodeStat attributes t.state t.parent else .ok none
  let s ← closeInode t.state t.parent
  let s ← closeInode s t.result.toOption
  return (t.rc, stat, s)

def vfsFstat (attributes : ℕ → InodeAttributes) (s : VfsState) (custody : FileCustody) : Except Panic (ℤ × Stat) := do
  return (0, ← inodeStat attributes s (some custody.inode))

/-- Only the counts of references differ. -/
def Stat.Same (st st' : Stat) : Prop := { st with nlink := 0 } = { st' with nlink := 0 }

/-- `vfs_stat` of a path succeeds and stores what `vfs_fstat` stores for the file, when `vfs_open` would open it, and
returns an error and stores nothing otherwise. -/
structure StatAgrees (attributes : ℕ → InodeAttributes) (s : VfsState) (env : OpenEnv) (path : CString) : Prop where
  success : ∀ s₁, vfsOpen s env path ofDirectory = .ok (0, s₁) → ∃ st st' custody s₂,
    vfsStat attributes s env path = .ok (0, some st, s₂) ∧ s₁.custodies.getLast? = some custody ∧
      vfsFstat attributes s₁ custody = .ok (0, st') ∧ st.Same st'
  failure : ∀ rc s₁, vfsOpen s env path ofDirectory = .ok (rc, s₁) → rc ≠ 0 →
    ∃ s₂, vfsStat attributes s env path = .ok (rc, none, s₂)

section Paths

variable {s : VfsState} {env : OpenEnv} {path : CString} {attributes : ℕ → InodeAttributes}

lemma traverse_returns (hc : CacheOpen s) (hp : AbsolutePath path) : ∃ t, traverse s env path = .ok t := by
  rcases @canonicalizePath_cases _ env.malloc hp with hpath | ⟨cpath, hpath, he⟩
  · exact ⟨⟨.error (-Err.noMem), none, s⟩, by rw [traverse, mountOf, hpath]; rfl⟩
  · rcases findFirst_spec (fun m _ => startswith_mount he m) (l := s.mounts) with ⟨hnone, -⟩ |
      ⟨x, mp, y, -, hsome, -, -⟩
    · exact ⟨⟨.error (-Err.noEnt), none, s⟩, by simp only [traverse, mountOf, hpath, ok_bind, hnone]; rfl⟩
    · have ht : traverse s env path = traverseInFs s env mp.fs (cpath.drop mp.pathSkip) := by
        simp only [traverse, mountOf, hpath, ok_bind, hsome]
        rfl
      rw [ht]
      cases hroot : icacheLookup (s.filesystems mp.fs).icache (s.filesystems mp.fs).root with
      | none => exact ⟨⟨.error (-Err.noEnt), none, s⟩, by simp only [traverseInFs, hroot]⟩
      | some root =>
        obtain ⟨t, l, hl, -⟩ := traverseInFsLogged_spec hc env (cpath.drop mp.pathSkip) hroot
        exact ⟨t, by rw [← traverseInFsLogged_fst, hl]; rfl⟩

lemma failOpen_returns {parent inode : Option ℕ} (hp : ∀ p ∈ parent, Referenced s p) (hi : ∀ a ∈ inode, Referenced s a)
    (rc : ℤ) : ∃ s', failOpen s parent inode rc = .ok (rc, s') := by
  obtain ⟨s₁, h₁, hg₁, -⟩ := closeInode_optional hp
  obtain ⟨s₂, h₂, -, -⟩ := closeInode_optional (s := s₁) fun a ha => (hi a ha).grows hg₁
  exact ⟨s₂, by rw [failOpen, h₁, ok_bind, h₂]; rfl⟩

/-- Where the walk finds an inode, nothing is stored. -/
lemma vfsStat_found {t : Traversal} {a : ℕ} {rc : ℤ} {st : Option Stat} {s' : VfsState}
    (ht : traverse s env path = .ok t)
    (ha : t.result = .ok a) (h : vfsStat attributes s env path = .ok (rc, st, s')) : rc = 0 ∧ st = none := by
  have hrc : t.rc = 0 := by rw [Traversal.rc, ha]
  simp only [vfsStat, ht, ok_bind, hrc, ne_eq, not_true_eq_false, if_false] at h
  obtain ⟨s₁, -, h⟩ := bind_eq_ok.mp h
  obtain ⟨s₂, -, h⟩ := bind_eq_ok.mp h
  cases h
  exact ⟨rfl, rfl⟩

/-- Where it does not, the stat of the directory is, or a null pointer is followed. -/
lemma vfsStat_missing {t : Traversal} {rc rc' : ℤ} {st : Option Stat} {s' : VfsState} (ht : traverse s env path = .ok t)
    (hres : t.result = .error rc) (hrc : rc ≠ 0) (h : vfsStat attributes s env path = .ok (rc', st, s')) :
    ∃ p stat, t.parent = some p ∧ inodeStat attributes t.state (some p) = .ok stat ∧ st = some stat := by
  have hrc' : t.rc ≠ 0 := by rwa [Traversal.rc, hres]
  simp only [vfsStat, ht, ok_bind, if_pos hrc'] at h
  obtain ⟨stat, hstat, h⟩ := bind_eq_ok.mp h
  obtain ⟨s₁, -, h⟩ := bind_eq_ok.mp h
  obtain ⟨s₂, -, h⟩ := bind_eq_ok.mp h
  cases h
  cases hpar : t.parent with
  | none =>
    rw [hpar] at hstat
    cases hstat
  | some p =>
    rw [hpar] at hstat
    cases hp : inodeStat attributes t.state (some p) with
    | error e =>
      rw [hp] at hstat
      cases hstat
    | ok stat =>
      rw [hp] at hstat
      cases hstat
      exact ⟨p, stat, rfl, hp, rfl⟩

/-- `vfs_stat` agrees with `vfs_open` and `vfs_fstat` for no path. -/
theorem vfsStat_disagrees (attributes : ℕ → InodeAttributes) (hc : CacheOpen s) (hp : AbsolutePath path)
    (env : OpenEnv) :
    ¬ StatAgrees attributes s env path := by
  intro hs
  obtain ⟨t, ht⟩ := @traverse_returns _ env _ hc hp
  have htrav := traverse_open hc ht
  have hcreate : createMissing env path ofDirectory t = .ok (t.result, t.state) := by
    unfold createMissing
    cases t.result <;> cases t.parent <;> rfl
  cases hresult : t.result with
  | ok a =>
    have ha : ∀ b ∈ some a, Referenced t.state b := by
      rintro b ⟨⟩
      exact htrav.result a hresult
    have hdir : ¬ ((t.state.inodes a).type = .directory ∧ ofDirectory &&& ofDirectory = 0) := by simp
    by_cases hm : env.custodyMem
    · obtain ⟨st, st', c, s₂, hstat, -⟩ := hs.success _ (by
        simp only [vfsOpen, ht, ok_bind, hcreate, hresult, if_neg hdir, hm, not_true_eq_false, if_false]
        rfl)
      exact absurd (vfsStat_found ht hresult hstat).2 (Option.some_ne_none st)
    · obtain ⟨s₁, hopen⟩ := failOpen_returns htrav.parent ha (-Err.noMem)
      obtain ⟨s₂, hstat⟩ := hs.failure (-Err.noMem) s₁ (by
        simp only [vfsOpen, ht, ok_bind, hcreate, hresult, if_neg hdir, if_pos hm, hopen]) (by decide)
      exact absurd (vfsStat_found ht hresult hstat).1 (by decide)
  | error rc =>
    have hrc := htrav.error rc hresult
    have hnone : ∀ a ∈ (none : Option ℕ), Referenced t.state a := by
      rintro a ⟨⟩
    obtain ⟨s₁, hopen⟩ := failOpen_returns htrav.parent hnone rc
    obtain ⟨s₂, hstat⟩ := hs.failure rc s₁ (by simp only [vfsOpen, ht, ok_bind, hcreate, hresult, hopen]) hrc
    obtain ⟨p, stat, -, -, hst⟩ := vfsStat_missing ht hresult hrc hstat
    cases hst

def noAttributes (_ : ℕ) : InodeAttributes := ⟨0, 0, 0, 0, 0, ⟨0, 0⟩, ⟨0, 0⟩, ⟨0, 0⟩, 512⟩

/-- A file that is not there. -/
theorem vfsStat_disagrees_missing : ¬ StatAgrees noAttributes emptyRoot createEnv [Byte.slash, 0x66] :=
  vfsStat_disagrees noAttributes emptyRoot_open ⟨rfl, by decide⟩ createEnv

/-- `vfs_stat("/")` returns 0 and stores nothing. -/
theorem vfsStat_root : ¬ StatAgrees noAttributes emptyRoot createEnv [Byte.slash] := by
  intro hs
  obtain ⟨st, st', custody, s₂, hstat, -⟩ := hs.success _ rfl
  have hrun : (vfsStat noAttributes emptyRoot createEnv [Byte.slash]).map (fun r => r.2.1.isSome) = .ok false := rfl
  rw [hstat] at hrun
  cases hrun

end Paths

end Pi0Os.Vfs
