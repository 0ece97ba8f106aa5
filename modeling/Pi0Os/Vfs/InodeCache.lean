import Pi0Os.Vfs.MountTable

/-! Inodes, the inode caches of the mounted filesystems and the open files of `vfs.cpp`.
What a filesystem, `malloc` and `canonicalize_path`'s allocation answer during one call is
read from the environment of that call, so that any filesystem is covered. -/

namespace Pi0Os.Vfs

open Kernel Byte

inductive InodeType where
  | fifo
  | characterDevice
  | blockDevice
  | directory
  | regularFile
  | symbolicLink
  | socket
  | pipe
deriving DecidableEq

structure Inode where
  refcount : ℕ
  type : InodeType
  identifier : ℕ
  filesystem : ℕ
  -- ghost: the filesystem's `open_inode` succeeded on it after its last `close_inode`
  live : Bool

structure Filesystem where
  icache : List (ℕ × ℕ)
  root : ℕ

structure FileCustody where
  inode : ℕ
  flags : ℕ
  offset : ℕ

/-- Inodes are named by their addresses; a freed address is not used again. -/
structure VfsState where
  inodes : ℕ → Inode
  nextInode : ℕ
  filesystems : ℕ → Filesystem
  mounts : List (MountPoint ℕ)
  custodies : List FileCustody
  -- ghost: the root inodes opened by `vfs_mount`
  roots : List ℕ
  -- ghost: the inodes returned by `lookup_inode` and `vfs_open`, and whether they were live
  returned : List (ℕ × Bool)

abbrev ofCreate : ℕ := 0x200
abbrev ofDirectory : ℕ := 0x200000

variable (s : VfsState)

def VfsState.setInode (a : ℕ) (inode : Inode) : VfsState :=
  { s with inodes := Function.update s.inodes a inode }

/-- A freshly allocated inode that is a closed copy of `temp`. -/
def VfsState.newInode (temp : Inode) : VfsState :=
  { s.setInode s.nextInode { temp with refcount := 0, live := false } with nextInode := s.nextInode + 1 }

def VfsState.logReturn (a : ℕ) : VfsState :=
  { s with returned := (a, (s.inodes a).live) :: s.returned }

/-- `rc` is the answer of the filesystem's `open_inode`, when it is asked. -/
def openInode (a : ℕ) (rc : ℤ) : ℤ × VfsState :=
  let inode := s.inodes a
  if inode.refcount > 0 then (0, s.setInode a { inode with refcount := inode.refcount + 1 })
  else if rc ≠ 0 then (rc, s)
  else (0, s.setInode a { inode with refcount := 1, live := true })

/-- The last reference calls the filesystem's `close_inode` and leaves `refcount` alone. -/
def closeInode : Option ℕ → Except Panic VfsState
  | none => .ok s
  | some a => do
    let inode := s.inodes a
    kassert "inode->refcount > 0" (inode.refcount > 0)
    if inode.refcount > 1 then return s.setInode a { inode with refcount := inode.refcount - 1 }
    else return s.setInode a { inode with live := false }

def icacheLookup (icache : List (ℕ × ℕ)) (identifier : ℕ) : Option ℕ :=
  (icache.find? fun entry => entry.1 = identifier).map Prod.snd

def VfsState.addEntry (fs identifier a : ℕ) : VfsState :=
  let f := s.filesystems fs
  { s with filesystems := Function.update s.filesystems fs { f with icache := (identifier, a) :: f.icache } }

def icacheInsert (fs identifier a : ℕ) (mem : Bool) : Except Panic (ℤ × VfsState) := do
  kassert "icache_lookup(icache, identifier) == nullptr"
    (icacheLookup (s.filesystems fs).icache identifier = none)
  if ¬ mem then return (-Err.noMem, s)
  else return (0, s.addEntry fs identifier a)

structure NewInodeEnv where
  inodeMem : Bool
  openRc : ℤ
  entryMem : Bool

/-- The common end of `lookup_inode` and `create_inode`: a new inode, opened and cached. -/
def cacheNewInode (env : NewInodeEnv) (fs : ℕ) (temp : Inode) :
    Except Panic (Except ℤ ℕ × VfsState) := do
  if ¬ env.inodeMem then return (.error (-Err.noMem), s)
  let a := s.nextInode
  let (rc, s) := openInode (s.newInode temp) a env.openRc
  if rc ≠ 0 then return (.error rc, s)
  let (rc, s) ← icacheInsert s fs temp.identifier a env.entryMem
  if rc ≠ 0 then
    let s ← closeInode s (some a)
    return (.error rc, s)
  return (.ok a, s)

/-- `answer` is what the parent's `dir_ops->lookup` or `dir_ops->create` says to the name. -/
structure LookupEnv extends NewInodeEnv where
  answer : CString → Except ℤ Inode

def lookupInode (env : LookupEnv) (parent : ℕ) (name : CString) :
    Except Panic (Except ℤ ℕ × VfsState) := do
  match env.answer name with
  | .error rc => return (.error rc, s)
  | .ok temp =>
    let fs := (s.inodes parent).filesystem
    match icacheLookup (s.filesystems fs).icache temp.identifier with
    | some a =>
      let (rc, s) := openInode s a env.openRc
      if rc ≠ 0 then return (.error rc, s)
      else return (.ok a, s.logReturn a)
    | none =>
      match ← cacheNewInode s env.toNewInodeEnv fs temp with
      | (.ok a, s) => return (.ok a, s.logReturn a)
      | (.error rc, s) => return (.error rc, s)

/-- What a traversal hands back: the inode found or the error code, and `*out_parent`. -/
structure Traversal where
  result : Except ℤ ℕ
  parent : Option ℕ
  state : VfsState

/-- The loop of `traverse_in_fs` over the components of the path, with its exits. -/
def traverseLoop (env : ℕ → LookupEnv) (s : VfsState) (parent : Option ℕ) (inode i : ℕ) :
    List CString → Except Panic Traversal
  | [] => .ok ⟨.ok inode, parent, s⟩
  | name :: path => do
    let s ← closeInode s parent
    if (s.inodes inode).type ≠ .directory then
      return ⟨.error (-Err.notDir), none, ← closeInode s (some inode)⟩
    match ← lookupInode s (env i) inode name with
    | (.ok next, s) => traverseLoop env s (some inode) next (i + 1) path
    | (.error _, s) =>
      if path = [] then return ⟨.error (-Err.noEnt), some inode, s⟩
      else return ⟨.error (-Err.noEnt), none, ← closeInode s (some inode)⟩

/-- The answers to one `vfs_open`: the allocations of the path and of the custody, the root
inode's `open_inode`, and what the filesystem says to each `lookup` and to `create`. -/
structure OpenEnv where
  malloc : ℕ → Bool
  rootOpenRc : ℤ
  walk : ℕ → LookupEnv
  create : LookupEnv
  custodyMem : Bool

def traverseInFs (env : OpenEnv) (fs : ℕ) (path : Buffer) : Except Panic Traversal :=
  match icacheLookup (s.filesystems fs).icache (s.filesystems fs).root with
  | none => .ok ⟨.error (-Err.noEnt), none, s⟩
  | some root =>
    let (rc, s) := openInode s root env.rootOpenRc
    if rc ≠ 0 then .ok ⟨.error rc, none, s⟩
    else traverseLoop env.walk s none root 0 (components path)

def traverse (env : OpenEnv) (path : CString) : Except Panic Traversal := do
  match ← mountOf env.malloc s.mounts path with
  | .error rc => return ⟨.error rc, none, s⟩
  | .ok (mp, rest) => traverseInFs s env mp.fs rest

/-- `strrchr(path, '/') + 1`. -/
def filename (path : CString) : CString := (path.reverse.takeWhile (· ≠ slash)).reverse

def createInode (env : LookupEnv) (parent : ℕ) (name : CString) :
    Except Panic (Except ℤ ℕ × VfsState) := do
  match env.answer name with
  | .error rc => return (.error rc, s)
  | .ok temp =>
    let fs := (s.inodes parent).filesystem
    kassert "*out_inode == nullptr" (icacheLookup (s.filesystems fs).icache temp.identifier = none)
    cacheNewInode s env.toNewInodeEnv fs temp

/-- The part of `vfs_open` between the traversal and the checks on the inode. -/
def createMissing (env : OpenEnv) (path : CString) (flags : ℕ) (t : Traversal) :
    Except Panic (Except ℤ ℕ × VfsState) :=
  match t.result, t.parent with
  | .error _, some parent =>
    if flags &&& ofCreate ≠ 0 then do
      kassert "parent->type == InodeType::Directory" ((t.state.inodes parent).type = .directory)
      kassert "filename != nullptr" (slash ∈ path)
      createInode t.state env.create parent (filename path)
    else .ok (t.result, t.state)
  | _, _ => .ok (t.result, t.state)

def failOpen (parent inode : Option ℕ) (rc : ℤ) : Except Panic (ℤ × VfsState) := do
  let s ← closeInode s parent
  let s ← closeInode s inode
  return (rc, s)

def vfsOpen (env : OpenEnv) (path : CString) (flags : ℕ) : Except Panic (ℤ × VfsState) := do
  let t ← traverse s env path
  match ← createMissing env path flags t with
  | (.error rc, s) => failOpen s t.parent none rc
  | (.ok a, s) =>
    if (s.inodes a).type = .directory ∧ flags &&& ofDirectory = 0 then
      failOpen s t.parent (some a) (-Err.isDir)
    else if ¬ env.custodyMem then failOpen s t.parent (some a) (-Err.noMem)
    -- the reference to the parent stays behind
    else return (0, { s.logReturn a with custodies := s.custodies ++ [⟨a, flags, 0⟩] })

abbrev maxPathLen : ℕ := 256

def pathjoin (malloc : ℕ → Bool) (path1 path2 : CString) : Option CString :=
  let len1 := min path1.length maxPathLen
  let len2 := min path2.length maxPathLen
  if len1 + len2 + 2 > maxPathLen then none
  else if ¬ malloc (len1 + len2 + 2) then none
  else if path1 ≠ [] ∧ path1.getLast? ≠ some slash then some (path1 ++ slash :: path2)
  else some (path1 ++ path2)

/-- The overload of `vfs_open` with a working directory. -/
def vfsOpenAt (env : OpenEnv) (workdir path : CString) (flags : ℕ) : Except Panic (ℤ × VfsState) :=
  if path.head? = some slash then vfsOpen s env path flags
  else
    match pathjoin env.malloc workdir path with
    | none => .ok (-Err.noMem, s)
    | some path => vfsOpen s env path flags

structure MountEnv extends NewInodeEnv where
  malloc : ℕ → Bool
  mountMem : Bool
  root : Inode

/-- The end of `vfs_mount`: `on_mount` returns the root inode, closed. -/
def mountRoot (env : MountEnv) (fs : ℕ) : Except Panic (ℤ × VfsState) := do
  let a := s.nextInode
  let (rc, s) := openInode (s.newInode env.root) a env.openRc
  kassert "rc == 0" (rc = 0)
  let (_, s) ← icacheInsert s fs env.root.identifier a env.entryMem
  return (rc, { s with roots := a :: s.roots })

def vfsMount (env : MountEnv) (path : CString) (fs : ℕ) : Except Panic (ℤ × VfsState) := do
  match ← canonicalizePath env.malloc path with
  | none => return (-Err.noMem, s)
  | some cpath =>
    if ¬ env.inodeMem ∨ ¬ env.mountMem then return (-Err.noMem, s)
    let mounts ← linkMountPoint s.mounts (← newMountPoint fs cpath)
    mountRoot { s with mounts := mounts } env fs

def vfsDuplicate (custody : FileCustody) (mem : Bool) : VfsState :=
  if ¬ mem then s
  else
    let inode := s.inodes custody.inode
    { s.setInode custody.inode { inode with refcount := inode.refcount + 1 } with
      custodies := s.custodies ++ [custody] }

/-- `free_custody` of the `i`-th open custody. -/
def vfsClose (i : ℕ) (custody : FileCustody) : Except Panic VfsState := do
  let s ← closeInode s (some custody.inode)
  return { s with custodies := s.custodies.eraseIdx i }

end Pi0Os.Vfs
