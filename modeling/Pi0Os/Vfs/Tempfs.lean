import Pi0Os.Kernel.CString
import Pi0Os.Library.PartialMap
import Pi0Os.Vfs.SequentialReads

/-! `tempfs.cpp`: files and directories in the kernel heap, named by their addresses. The answers of
`malloc` and `realloc` are arguments, and what is freed must not be touched. -/

namespace Pi0Os.Vfs.Tempfs

open Kernel Library

abbrev blockSize : ℕ := 512
abbrev maxNameLen : ℕ := 63
abbrev maxChildren : ℕ := 16

/-- `round_up` at `uint64_t`. -/
def roundUp64 (a b : ℕ) : ℕ := (a + b - 1) % 2 ^ 64 / b * b

structure TempFile where
  allocated : ℕ
  size : ℕ
  data : List UInt8

structure Child where
  name : CString
  inode : Option ℕ

inductive TempInode where
  | regularFile (file : TempFile)
  | directory (children : List Child)

def TempInode.type : TempInode → InodeType
  | regularFile _ => .regularFile
  | directory _ => .directory

/-- The `Inode` of the VFS, with its `size`. -/
structure SizedInode extends Inode where
  size : ℕ

structure TempfsCtx where
  capacity : ℕ
  used : ℕ
  root : ℕ
  inodes : ℕ → Option TempInode

namespace TempfsCtx

variable (ctx : TempfsCtx)

def tempInode (a : ℕ) : Except Panic TempInode :=
  match ctx.inodes a with
  | some inode => .ok inode
  | none => .error (.undefined "a TempInode that is gone")

/-- `inode->file`, which is a member of a union. -/
def file (a : ℕ) : Except Panic TempFile := do
  match ← ctx.tempInode a with
  | .regularFile file => return file
  | .directory _ => .error (.undefined "the inactive member of a union")

/-- `inode->directory.children`. -/
def children (a : ℕ) : Except Panic (List Child) := do
  match ← ctx.tempInode a with
  | .directory children => return children
  | .regularFile _ => .error (.undefined "the inactive member of a union")

def setInode (a : ℕ) (inode : Option TempInode) : TempfsCtx :=
  { ctx with inodes := Function.update ctx.inodes a inode }

end TempfsCtx

def emptyDirectory : TempInode := .directory (List.replicate maxChildren ⟨[], none⟩)

/-- `tempfs_create`. -/
def create (capacity root : ℕ) : TempfsCtx := ⟨capacity, 0, root,
    Function.update (fun _ => none) root (some emptyDirectory)⟩

/-- `tempfs_fs_on_mount`. -/
def onMount (fs : ℕ) (ctx : TempfsCtx) : SizedInode := ⟨⟨0, .directory, ctx.root, fs, false⟩, 0⟩

section Files

/-- A block of `n` bytes with the old bytes that fit, and `garbage` after them. -/
def realloc (data : List UInt8) (n : ℕ) (garbage : ℕ → UInt8) : List UInt8 :=
  data.take n ++ (List.range' data.length (n - data.length)).map garbage

variable (mem : Option (ℕ → UInt8)) (ctx : TempfsCtx) (self : SizedInode)

/-- `mem` is the answer of `realloc`: what it leaves in a larger block. -/
def fileInodeFtruncate (size : ℕ) : Except Panic (ℤ × TempfsCtx × SizedInode) := do
  match ← ctx.tempInode self.identifier with
  | .directory _ => .error (.assertion "inode->type == InodeType::RegularFile")
  | .regularFile file =>
    let required := roundUp64 size blockSize
    let resize (ctx : TempfsCtx) (data : List UInt8) : ℤ × TempfsCtx × SizedInode :=
      (0, ctx.setInode self.identifier (some (.regularFile ⟨required % 2 ^ 32, size % 2 ^ 32, data⟩)),
        { self with size := size })
    if required > file.allocated then
      let extra := required - file.allocated
      if (ctx.used + extra) % 2 ^ 64 > ctx.capacity then return (-Err.noMem, ctx, self)
      match mem with
      | none => return (-Err.noMem, ctx, self)
      | some garbage =>
        let data ← Buffer.memset (realloc file.data (required % 2 ^ 32) garbage) file.allocated 0 (extra % 2 ^ 32)
        return resize { ctx with used := (ctx.used + extra) % 2 ^ 64 } data
    else if required < file.allocated then
      match mem with
      | none => return (-Err.noMem, ctx, self)
      | some garbage =>
        return resize { ctx with used := (ctx.used + 2 ^ 64 - (file.allocated - required)) % 2 ^ 64 }
          (realloc file.data (required % 2 ^ 32) garbage)
    else return resize ctx file.data

def fileInodeRead (offset size : ℕ) : Except Panic (ℤ × List UInt8) := do
  kassert "self->type == InodeType::RegularFile" (self.type = .regularFile)
  let size := if (offset + size) % 2 ^ 64 > self.size then (self.size + 2 ^ 64 - offset) % 2 ^ 64 % 2 ^ 32 else size
  let file ← ctx.file self.identifier
  panicIf (.undefined "memcpy outside the block") (file.data.length < offset + size)
  return (size, (file.data.drop offset).take size)

def fileInodeWrite (offset : ℕ) (buffer : List UInt8) : Except Panic (ℤ × TempfsCtx × SizedInode) := do
  kassert "self->type == InodeType::RegularFile" (self.type = .regularFile)
  let (rc, ctx, self) ←
    if (offset + buffer.length) % 2 ^ 64 > self.size then
      fileInodeFtruncate mem ctx self ((offset + buffer.length) % 2 ^ 64)
    else pure (0, ctx, self)
  if rc < 0 then return (rc, ctx, self)
  let file ← ctx.file self.identifier
  let data ← Buffer.memcpy file.data offset buffer
  return (buffer.length, ctx.setInode self.identifier (some (.regularFile { file with data := data })), self)

def fileInodeOps : FileOps (TempfsCtx × SizedInode) where
  read s offset size := do
    let (rc, out) ← fileInodeRead s.1 s.2 offset size
    return (rc, out, s)
  write s offset buffer := fileInodeWrite mem s.1 s.2 offset buffer
  seekCur s current offset := defaultCheckedSeek s.2.size current .cur offset
  poll _ events := pollAlwaysReady events

end Files

section Directories

abbrev exist : ℤ := 17
abbrev noSpace : ℤ := 28
abbrev notEmpty : ℤ := 90
abbrev nameTooLong : ℤ := 91

/-- `sizeof(struct dirent)`. -/
abbrev direntSize : ℕ := 272

def fillInode (fs a : ℕ) (inode : TempInode) : SizedInode :=
  ⟨⟨0, inode.type, a, fs, false⟩, match inode with | .regularFile file => file.size | .directory _ => 0⟩

variable (ctx : TempfsCtx) (self : SizedInode)

def findChild (name : CString) (children : List Child) : Option Child :=
  children.find? fun child => child.inode.isSome ∧ child.name = name

def dirInodeLookup (name : CString) : Except Panic (Except ℤ SizedInode) := do
  match ← ctx.tempInode self.identifier with
  | .regularFile _ => .error (.assertion "inode->type == InodeType::Directory")
  | .directory children =>
    match (findChild name children).bind Child.inode with
    | none => return .error (-Err.noEnt)
    | some a => return .ok (fillInode self.filesystem a (← ctx.tempInode a))

/-- The loop of `tempfs_dir_create`: the last free slot, when no child has the name. -/
def findFree (name : CString) : List Child → ℕ → ℕ → Except ℤ ℕ
  | [], _, freeIdx => .ok freeIdx
  | child :: children, i, freeIdx =>
    if child.inode = none then findFree name children (i + 1) i
    else if child.name = name then .error (-exist)
    else findFree name children (i + 1) freeIdx

def newInode (type : InodeType) : TempInode :=
  if type = .regularFile then .regularFile ⟨0, 0, []⟩ else emptyDirectory

/-- `mem` is the answer of `malloc`. -/
def dirCreate (mem : Option ℕ) (name : CString) (type : InodeType) :
    Except Panic (Except ℤ SizedInode × TempfsCtx × SizedInode) := do
  kassert "self->type == InodeType::Directory" (self.type = .directory)
  if name.length > maxNameLen then return (.error (-nameTooLong), ctx, self)
  if type ≠ .regularFile ∧ type ≠ .directory then return (.error (-Err.inval), ctx, self)
  let children ← ctx.children self.identifier
  match findFree name children 0 maxChildren with
  | .error rc => return (.error rc, ctx, self)
  | .ok freeIdx =>
    if freeIdx = maxChildren then return (.error (-noSpace), ctx, self)
    match mem with
    | none => return (.error (-Err.noMem), ctx, self)
    | some a =>
      let ctx := ctx.setInode a (some (newInode type))
      let children := children.set freeIdx ⟨name.take maxNameLen, some a⟩
      let ctx := ctx.setInode self.identifier (some (.directory children))
      return (.ok (fillInode self.filesystem a (newInode type)), ctx,
        { self with size := (self.size + direntSize) % 2 ^ 64 })

def dirUnlink (name : CString) : Except Panic (ℤ × TempfsCtx) := do
  kassert "self->type == InodeType::Directory" (self.type = .directory)
  if ctx.root = self.identifier then return (-Err.inval, ctx)
  let children ← ctx.children self.identifier
  match (findChild name children).bind Child.inode with
  | none => return (-Err.noEnt, ctx)
  | some a =>
    -- the slot of the child is left as it is
    match ← ctx.tempInode a with
    | .directory grandchildren =>
      if grandchildren.any fun child => child.inode.isSome then return (-notEmpty, ctx)
      return (0, ctx.setInode a none)
    | .regularFile file =>
      return (0, { ctx.setInode a none with used := (ctx.used + 2 ^ 64 - file.allocated) % 2 ^ 64 })

structure Dirent where
  ino : ℕ
  type : InodeType -- `DT_DIR` or `DT_REG`
  name : CString

def getdentsLoop : List Child → ℤ → ℕ → Except Panic (List Dirent)
  | [], _, _ => .ok []
  | child :: children, offset, count =>
    if count = 0 then .ok []
    else
      match child.inode with
      | none => getdentsLoop children offset count
      | some a =>
        if offset > 0 then getdentsLoop children (offset - direntSize) count
        else do
          let inode ← ctx.tempInode a
          let entries ← getdentsLoop children offset (count - 1)
          return ⟨a, inode.type, child.name.take 255⟩ :: entries

/-- The return value is the size of the entries. -/
def dirGetdents (offset : ℤ) (count : ℕ) : Except Panic (List Dirent) := do
  getdentsLoop ctx (← ctx.children self.identifier) offset count

end Directories

/-- `cached` says whether the VFS finds the memory to keep the inode that it is given. -/
def keepInode (icache : ℕ → Option SizedInode) (cached : Bool) (inode : SizedInode) : ℕ → Option SizedInode :=
  if cached ∧ icache inode.identifier = none then Function.update icache inode.identifier (some inode) else icache

section Inversion

variable {ctx ctx' : TempfsCtx} {self self' : SizedInode} {a : ℕ}

lemma tempInode_of {inode : TempInode} (h : ctx.inodes a = some inode) : ctx.tempInode a = .ok inode := by
  simp [TempfsCtx.tempInode, h]

lemma tempInode_eq_ok {inode : TempInode} (h : ctx.tempInode a = .ok inode) : ctx.inodes a = some inode := by
  rw [TempfsCtx.tempInode] at h
  split at h
  · rename_i hinode
    rw [hinode, Except.ok.inj h]
  · cases h

lemma file_of {file : TempFile} (h : ctx.inodes a = some (.regularFile file)) : ctx.file a = .ok file := by
  rw [TempfsCtx.file, tempInode_of h]
  rfl

lemma children_of {children : List Child} (h : ctx.inodes a = some (.directory children)) :
    ctx.children a = .ok children := by
  rw [TempfsCtx.children, tempInode_of h]
  rfl

lemma children_eq_ok {children : List Child} (h : ctx.children a = .ok children) :
    ctx.inodes a = some (.directory children) := by
  obtain ⟨inode, hinode, h⟩ := bind_eq_ok.mp h
  cases inode with
  | regularFile file => cases h
  | directory cs =>
    obtain rfl := Except.ok.inj h
    exact tempInode_eq_ok hinode

/-- The inode of `self` is a directory, and the child at `freeIdx` becomes the new inode at `a`. -/
def TempfsCtx.addChild (ctx : TempfsCtx) (dir : ℕ) (children : List Child) (freeIdx : ℕ) (name : CString) (a : ℕ)
    (type : InodeType) : TempfsCtx :=
  (ctx.setInode a (some (newInode type))).setInode dir
    (some (.directory (children.set freeIdx ⟨name.take maxNameLen, some a⟩)))

section AddChild

variable {dir b freeIdx : ℕ} {children : List Child} {name : CString} {type : InodeType} {inode : TempInode}

/-- Only the directory and the new inode are others. -/
lemma addChild_kept (hnew : ctx.inodes a = none) (hbd : b ≠ dir) (hb : ctx.inodes b = some inode) :
    (ctx.addChild dir children freeIdx name a type).inodes b = some inode :=
  (Function.update_of_ne hbd ..).trans ((Function.update_of_ne (ne_of_eq_some hnew hb) ..).trans hb)

lemma addChild_new (hne : dir ≠ a) :
    (ctx.addChild dir children freeIdx name a type).inodes a = some (newInode type) :=
  (Function.update_of_ne hne.symm ..).trans (Function.update_self ..)

lemma addChild_inodes (hb : (ctx.addChild dir children freeIdx name a type).inodes b = some inode) :
    b = dir ∧ inode = .directory (children.set freeIdx ⟨name.take maxNameLen, some a⟩) ∨
      b ≠ dir ∧ b = a ∧ inode = newInode type ∨ b ≠ dir ∧ b ≠ a ∧ ctx.inodes b = some inode := by
  obtain ⟨rfl, rfl⟩ | ⟨hbd, hb'⟩ := update_some_eq_some.mp hb
  · exact .inl ⟨rfl, rfl⟩
  · obtain ⟨rfl, rfl⟩ | ⟨hba, hb''⟩ := update_some_eq_some.mp hb'
    · exact .inr (.inl ⟨hbd, rfl, rfl⟩)
    · exact .inr (.inr ⟨hbd, hba, hb''⟩)

end AddChild

lemma dirCreate_cases {mem : Option ℕ} {name : CString} {type : InodeType} {result : Except ℤ SizedInode}
    (h : dirCreate ctx self mem name type = .ok (result, ctx', self')) :
    (∃ rc, result = .error rc ∧ ctx' = ctx ∧ self' = self) ∨
      ∃ a children freeIdx, mem = some a ∧ (type = .regularFile ∨ type = .directory) ∧ name.length ≤ maxNameLen ∧
        ctx.inodes self.identifier = some (.directory children) ∧ findFree name children 0 maxChildren = .ok freeIdx ∧
        freeIdx ≠ maxChildren ∧ result = .ok (fillInode self.filesystem a (newInode type)) ∧
        ctx' = ctx.addChild self.identifier children freeIdx name a type ∧
        self' = { self with size := (self.size + direntSize) % 2 ^ 64 } := by
  have hfail : ∀ rc : ℤ, (Except.error rc, ctx, self) = (result, ctx', self') →
      ∃ rc, result = .error rc ∧ ctx' = ctx ∧ self' = self := by
    rintro rc ⟨⟩
    exact ⟨rc, rfl, rfl, rfl⟩
  obtain ⟨-, h⟩ := kassert_bind_eq_ok.mp h
  split at h
  · exact Or.inl (hfail _ (Except.ok.inj h))
  rename_i hname
  split at h
  · exact Or.inl (hfail _ (Except.ok.inj h))
  rename_i htype
  obtain ⟨children, hchildren, h⟩ := bind_eq_ok.mp h
  split at h
  · exact Or.inl (hfail _ (Except.ok.inj h))
  · rename_i freeIdx hfree
    split at h
    · exact Or.inl (hfail _ (Except.ok.inj h))
    · rename_i hfull
      cases mem with
      | none => exact Or.inl (hfail _ (Except.ok.inj h))
      | some a =>
        cases h
        have hsupported : type = .regularFile ∨ type = .directory := by
          by_contra hno
          exact htype (not_or.mp hno)
        exact Or.inr ⟨a, children, freeIdx, rfl, hsupported, not_lt.mp hname, children_eq_ok hchildren, hfree, hfull,
          rfl, rfl, rfl⟩

lemma dirInodeLookup_ok {name : CString} {inode : SizedInode} (h : dirInodeLookup ctx self name = .ok (.ok inode)) :
    ∃ children a found, ctx.inodes self.identifier = some (.directory children) ∧
      (findChild name children).bind Child.inode = some a ∧ ctx.inodes a = some found ∧
      inode = fillInode self.filesystem a found := by
  obtain ⟨dir, hdir, h⟩ := bind_eq_ok.mp h
  cases dir with
  | regularFile file => cases h
  | directory children =>
    dsimp only at h
    split at h
    · cases h
    · rename_i a ha
      obtain ⟨found, hfound, h⟩ := bind_eq_ok.mp h
      cases h
      exact ⟨children, a, found, tempInode_eq_ok hdir, ha, tempInode_eq_ok hfound, rfl⟩

end Inversion

end Pi0Os.Vfs.Tempfs
