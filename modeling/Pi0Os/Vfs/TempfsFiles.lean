import Mathlib.Algebra.BigOperators.Group.Finset.Basic
import Pi0Os.Library.PartialMap
import Pi0Os.Library.TransitionSystem
import Pi0Os.Vfs.Tempfs

/-! The files of `tempfs.cpp` as arrays of bytes within the capacity. -/

namespace Pi0Os.Vfs.Tempfs

open Kernel Library

/-- The bytes of a write at the end of the contents, or over a part of them. -/
def splice (contents : List UInt8) (offset : ℕ) (buffer : List UInt8) : List UInt8 :=
  contents.take offset ++ buffer ++ contents.drop (offset + buffer.length)

lemma length_splice {contents buffer : List UInt8} {offset : ℕ} (h : offset ≤ contents.length) :
    (splice contents offset buffer).length = max contents.length (offset + buffer.length) := by
  simp only [splice, List.length_append, List.length_take, List.length_drop]
  omega

def TempFile.contents (file : TempFile) : List UInt8 := file.data.take file.size

structure TempFile.WellFormed (file : TempFile) : Prop where
  length_data : file.data.length = file.allocated
  allocated : file.allocated = roundUp64 file.size blockSize
  size_lt : file.size < 2 ^ 32

section Sizes

variable {n m : ℕ}

lemma roundUp64_eq (h : n < 2 ^ 33) : roundUp64 n blockSize = (n + 511) / 512 * 512 := by
  have hsub : n + blockSize - 1 = n + 511 := rfl
  rw [roundUp64, hsub, Nat.mod_eq_of_lt (by omega)]

lemma le_roundUp64 (h : n < 2 ^ 33) : n ≤ roundUp64 n blockSize := by
  rw [roundUp64_eq h]
  omega

lemma roundUp64_mono (h : n ≤ m) (hm : m < 2 ^ 33) : roundUp64 n blockSize ≤ roundUp64 m blockSize := by
  rw [roundUp64_eq (h.trans_lt hm), roundUp64_eq hm]
  omega

end Sizes

section Realloc

variable {data : List UInt8} {n : ℕ}

lemma length_realloc (garbage : ℕ → UInt8) (h : data.length ≤ n) : (realloc data n garbage).length = n := by
  simp only [realloc, List.length_append, List.length_take, List.length_map, List.length_range']
  omega

lemma take_realloc (garbage : ℕ → UInt8) (h : data.length ≤ n) : (realloc data n garbage).take data.length = data := by
  rw [realloc, List.take_of_length_le h, List.take_left]

end Realloc

section Writes

variable {ctx : TempfsCtx} {self : SizedInode} {file : TempFile} {offset size : ℕ}
  {buffer : List UInt8}

lemma TempFile.WellFormed.size_le (h : file.WellFormed) : file.size ≤ file.data.length := by
  have hlt := h.size_lt
  rw [h.length_data, h.allocated]
  exact le_roundUp64 (by omega)

lemma TempFile.WellFormed.length_contents (h : file.WellFormed) : file.contents.length = file.size := by
  rw [TempFile.contents, List.length_take, min_eq_left h.size_le]

/-- The file system with the file of `a` replaced by `file'`. -/
def TempfsCtx.refill (ctx : TempfsCtx) (a : ℕ) (file file' : TempFile) : TempfsCtx :=
  { ctx.setInode a (some (.regularFile file')) with used := ctx.used + (file'.allocated - file.allocated) }

lemma fileInodeFtruncate_spec (mem : Option (ℕ → UInt8))
    (hfile : ctx.inodes self.identifier = some (.regularFile file)) (hw : file.WellFormed)
    (hsize : file.size ≤ size) (hlt : size < 2 ^ 33) (hcap : ctx.capacity < 2 ^ 32)
    (hused : file.allocated ≤ ctx.used) (hle : ctx.used ≤ ctx.capacity) :
    fileInodeFtruncate mem ctx self size = .ok (-Err.noMem, ctx, self) ∨
      ∃ data, data.length = roundUp64 size blockSize ∧ data.take file.allocated = file.data ∧ size < 2 ^ 32 ∧
        ctx.used + (roundUp64 size blockSize - file.allocated) ≤ ctx.capacity ∧
        fileInodeFtruncate mem ctx self size =
          .ok (0, ctx.refill self.identifier file ⟨roundUp64 size blockSize, size, data⟩,
            { self with size := size }) := by
  have hrequired := le_roundUp64 hlt
  have hmono : file.allocated ≤ roundUp64 size blockSize := by
    rw [hw.allocated]
    exact roundUp64_mono hsize hlt
  rw [fileInodeFtruncate, tempInode_of hfile, ok_bind]
  dsimp only
  by_cases hgrow : roundUp64 size blockSize > file.allocated
  · rw [if_pos hgrow]
    have hbound : roundUp64 size blockSize < 2 ^ 34 := by
      rw [roundUp64_eq hlt]
      omega
    rw [Nat.mod_eq_of_lt (show ctx.used + (roundUp64 size blockSize - file.allocated) < 2 ^ 64 by omega)]
    by_cases hover : ctx.used + (roundUp64 size blockSize - file.allocated) > ctx.capacity
    · rw [if_pos hover]
      exact Or.inl rfl
    · rw [if_neg hover]
      cases mem with
      | none => exact Or.inl rfl
      | some garbage =>
        right
        have hmod : roundUp64 size blockSize % 2 ^ 32 = roundUp64 size blockSize := Nat.mod_eq_of_lt (by omega)
        have hextra :
          (roundUp64 size blockSize - file.allocated) % 2 ^ 32 = roundUp64 size blockSize - file.allocated :=
          Nat.mod_eq_of_lt (by omega)
        have hdata : file.data.length ≤ roundUp64 size blockSize := hw.length_data.trans_le hmono
        have hlength := length_realloc garbage hdata
        have htake := take_realloc garbage hdata
        rw [hw.length_data] at htake
        have hmemset : Buffer.memset (realloc file.data (roundUp64 size blockSize) garbage) file.allocated 0
            (roundUp64 size blockSize - file.allocated) = .ok (file.data ++
              List.replicate (roundUp64 size blockSize - file.allocated) 0) := by
          rw [Buffer.memset, if_pos (by omega), htake, List.drop_of_length_le (by omega), List.append_nil]
        refine ⟨file.data ++ List.replicate (roundUp64 size blockSize - file.allocated) 0, ?_, ?_, by omega,
          by omega, ?_⟩
        · rw [List.length_append, List.length_replicate, hw.length_data]
          omega
        · rw [← hw.length_data, List.take_left]
        · dsimp only
          rw [hmod, hextra, hmemset, ok_bind, Nat.mod_eq_of_lt (show size < 2 ^ 32 by omega)]
          rfl
  · -- the blocks that the file has are enough
    have heq : roundUp64 size blockSize = file.allocated := by omega
    right
    refine ⟨file.data, by rw [hw.length_data, heq], by rw [← hw.length_data, List.take_length], by omega, by omega, ?_⟩
    rw [if_neg hgrow, if_neg (by omega), heq, Nat.mod_eq_of_lt (show size < 2 ^ 32 by omega),
      Nat.mod_eq_of_lt (show file.allocated < 2 ^ 32 by omega)]
    simp [TempfsCtx.refill, TempfsCtx.setInode]

lemma fileInodeWrite_spec (mem : Option (ℕ → UInt8))
    (hfile : ctx.inodes self.identifier = some (.regularFile file)) (hw : file.WellFormed)
    (htype : self.type = .regularFile) (hself : self.size = file.size) (hoffset : offset ≤ file.size)
    (hbuffer : buffer.length < 2 ^ 32) (hcap : ctx.capacity < 2 ^ 32) (hused : file.allocated ≤ ctx.used)
    (hle : ctx.used ≤ ctx.capacity) :
    fileInodeWrite mem ctx self offset buffer = .ok (-Err.noMem, ctx, self) ∨
      ∃ file' : TempFile, file'.WellFormed ∧ file'.contents = splice file.contents offset buffer ∧
        file.allocated ≤ file'.allocated ∧ ctx.used + (file'.allocated - file.allocated) ≤ ctx.capacity ∧
        fileInodeWrite mem ctx self offset buffer =
          .ok (buffer.length, ctx.refill self.identifier file file', { self with size := file'.size }) := by
  have hsize := hw.size_le
  have hlt := hw.size_lt
  have hold : file.contents.take offset = file.data.take offset := by
    rw [TempFile.contents, List.take_take, min_eq_left hoffset]
  rw [fileInodeWrite, kassert_of htype, ok_bind, Nat.mod_eq_of_lt
    (show offset + buffer.length < 2 ^ 64 by omega), hself]
  by_cases hgrow : offset + buffer.length > file.size
  · rw [if_pos hgrow]
    rcases fileInodeFtruncate_spec mem hfile hw hgrow.le (by omega) hcap hused hle with
      he | ⟨data, hlength, htake, hsize', hcapacity, he⟩
    · left
      rw [he, ok_bind]
      rfl
    · right
      have hroom : offset + buffer.length ≤ data.length := hlength ▸ le_roundUp64 (by omega)
      have hkept : data.take offset = file.data.take offset := by
        rw [← htake, List.take_take, min_eq_left (by rw [← hw.length_data]; omega)]
      refine ⟨⟨roundUp64 (offset + buffer.length) blockSize, offset + buffer.length,
        data.take offset ++ buffer ++ data.drop (offset + buffer.length)⟩, ⟨?_, rfl, hsize'⟩, ?_, ?_, hcapacity, ?_⟩
      · simp only [List.length_append, List.length_take, List.length_drop]
        omega
      · have hend : file.contents.drop (offset + buffer.length) = [] :=
          List.drop_of_length_le (by rw [hw.length_contents]; exact hgrow.le)
        have hlen : (data.take offset ++ buffer).length = offset + buffer.length := by
          rw [List.length_append, List.length_take, min_eq_left (by omega)]
        rw [splice, hend, hold, ← hkept, List.append_nil, TempFile.contents]
        dsimp only
        rw [← hlen, List.take_left]
      · dsimp only
        rw [hw.allocated]
        exact roundUp64_mono hgrow.le (by omega)
      · rw [he, ok_bind]
        dsimp only
        rw [if_neg (lt_irrefl 0), file_of (Function.update_self ..), ok_bind, Buffer.memcpy, if_pos hroom, ok_bind]
        simp [TempfsCtx.refill, TempfsCtx.setInode]
  · rw [if_neg hgrow, pure_eq_ok, ok_bind]
    right
    have hroom : offset + buffer.length ≤ file.data.length := by omega
    refine ⟨{ file with data := file.data.take offset ++ buffer ++ file.data.drop (offset + buffer.length) },
      ⟨?_, hw.allocated, hlt⟩, ?_, le_refl _, by simpa using hle, ?_⟩
    · simp only [List.length_append, List.length_take, List.length_drop, ← hw.length_data]
      omega
    · have hlen : (file.data.take offset ++ buffer).length = offset + buffer.length := by
        rw [List.length_append, List.length_take, min_eq_left (by omega)]
      rw [splice, hold, TempFile.contents, TempFile.contents]
      dsimp only
      rw [List.take_append, hlen, List.take_of_length_le (by omega), List.drop_take]
    · dsimp only
      rw [if_neg (lt_irrefl 0), file_of hfile, ok_bind, Buffer.memcpy, if_pos hroom, ok_bind, ← hself]
      simp [TempfsCtx.refill, TempfsCtx.setInode]

lemma fileInodeRead_spec (hfile : ctx.inodes self.identifier = some (.regularFile file)) (hw : file.WellFormed)
    (htype : self.type = .regularFile) (hself : self.size = file.size) (hoffset : offset ≤ file.size)
    (hsize : size < 2 ^ 32) :
    fileInodeRead ctx self offset size =
      .ok (((file.contents.drop offset).take size).length, (file.contents.drop offset).take size) := by
  have hle := hw.size_le
  have hlt := hw.size_lt
  have hlength := hw.length_contents
  rw [fileInodeRead, kassert_of htype, ok_bind, Nat.mod_eq_of_lt (show offset + size < 2 ^ 64 by omega), hself]
  dsimp only
  rw [file_of hfile, ok_bind]
  by_cases hover : offset + size > file.size
  · have hmod : (file.size + 2 ^ 64 - offset) % 2 ^ 64 % 2 ^ 32 = file.size - offset := by omega
    rw [if_pos hover, hmod, panicIf, if_neg (by omega), ok_bind]
    have hslice : (file.contents.drop offset).take size = (file.data.drop offset).take (file.size - offset) := by
      rw [List.take_of_length_le (by rw [List.length_drop, hlength]; omega), TempFile.contents, List.drop_take]
    have hlen : ((file.data.drop offset).take (file.size - offset)).length = file.size - offset := by
      rw [List.length_take, List.length_drop, min_eq_left (by omega)]
    rw [hslice, hlen]
    rfl
  · rw [if_neg hover, panicIf, if_neg (by omega), ok_bind]
    have hslice : (file.contents.drop offset).take size = (file.data.drop offset).take size := by
      rw [TempFile.contents, List.drop_take, List.take_take, min_eq_left (by omega)]
    have hlen : ((file.data.drop offset).take size).length = size := by
      rw [List.length_take, List.length_drop, min_eq_left (by omega)]
    rw [hslice, hlen]
    rfl

end Writes

structure Files where
  ctx : TempfsCtx
  icache : ℕ → Option SizedInode
  -- ghost: the bytes of each file after the writes that were accepted
  files : ℕ → Option (List UInt8)

/-- The return values of a write that fails, for want of memory or for the flags of the custody. -/
def Failed (rc : ℤ) : Prop := rc = -Err.noMem ∨ rc = -Err.perm

instance (rc : ℤ) : Decidable (Failed rc) := inferInstanceAs (Decidable (_ ∨ _))

inductive Act where
  | create (dir : ℕ) (name : CString) (type : InodeType) (mem : Option ℕ) (cached : Bool)
  | lookup (dir : ℕ) (name : CString) (cached : Bool)
  | write (custody : FileCustody) (buffer : List UInt8) (mem : Option (ℕ → UInt8))
  | read (custody : FileCustody) (size : ℕ)

/-- Calls on inodes that the VFS has cached, at offsets inside the files. -/
inductive Step : Files → Act → Files → Prop
  | create {s dir name type mem cached self inode ctx' self'} : s.icache dir = some self → self.type = .directory →
      (∀ a ∈ mem, s.ctx.inodes a = none) → dirCreate s.ctx self mem name type = .ok (.ok inode, ctx', self') →
      Step s (.create dir name type mem cached) {
        ctx := ctx'
        icache := keepInode (Function.update s.icache dir (some self')) cached inode
        files := if type = .regularFile then Function.update s.files inode.identifier (some []) else s.files }
  | notCreated {s dir name type mem cached self rc ctx' self'} : s.icache dir = some self → self.type = .directory →
      dirCreate s.ctx self mem name type = .ok (.error rc, ctx', self') →
      Step s (.create dir name type mem cached)
        { s with ctx := ctx', icache := Function.update s.icache dir (some self') }
  | lookup {s dir name cached self inode} : s.icache dir = some self → self.type = .directory →
      dirInodeLookup s.ctx self name = .ok (.ok inode) →
      Step s (.lookup dir name cached) { s with icache := keepInode s.icache cached inode }
  | write {s custody buffer mem self rc custody' ctx' self'} : s.icache custody.inode = some self →
      self.type = .regularFile → custody.offset ≤ self.size → buffer.length < 2 ^ 32 →
      vfsWrite (fileInodeOps mem) (s.ctx, self) custody buffer = .ok (some (rc, custody', ctx', self')) →
      Step s (.write custody buffer mem) {
        ctx := ctx'
        icache := Function.update s.icache custody.inode (some self')
        files := if Failed rc then s.files else Function.update s.files custody.inode
          ((s.files custody.inode).map fun contents => splice contents custody.offset buffer) }
  | read {s custody size self rc out custody' ctx' self'} : s.icache custody.inode = some self →
      self.type = .regularFile → custody.offset ≤ self.size → size < 2 ^ 32 →
      vfsRead (fileInodeOps none) (s.ctx, self) custody size = .ok (some (rc, out, custody', ctx', self')) →
      Step s (.read custody size) { s with ctx := ctx', icache := Function.update s.icache custody.inode (some self') }

def files (fs : ℕ) : TransitionSystem Files Act where
  Init s := ∃ capacity root, capacity < 2 ^ 32 ∧ s = ⟨create capacity root,
    Function.update (fun _ => none) root (some (onMount fs (create capacity root))), fun _ => none⟩
  Step := Step

def TempfsCtx.allocated (ctx : TempfsCtx) (a : ℕ) : ℕ :=
  match ctx.inodes a with
  | some (.regularFile file) => file.allocated
  | _ => 0

structure Inv (s : Files) : Prop where
  file : ∀ a file, s.ctx.inodes a = some (.regularFile file) → file.WellFormed ∧ s.files a = some file.contents
  regular : ∀ a, (s.files a).isSome → ∃ file, s.ctx.inodes a = some (.regularFile file)
  used : ∃ addresses : Finset ℕ, (∀ a, a ∈ addresses ↔ (s.files a).isSome) ∧ s.ctx.used = ∑ a ∈ addresses,
    s.ctx.allocated a
  capacity_lt : s.ctx.capacity < 2 ^ 32
  used_le : s.ctx.used ≤ s.ctx.capacity
  cached : ∀ a self, s.icache a = some self → self.identifier = a ∧ ∃ inode, s.ctx.inodes a = some inode ∧
    self.type = inode.type ∧ ∀ file, inode = .regularFile file → self.size = file.size

section Steps

variable {s : Files} {a dir freeIdx : ℕ} {self inode : SizedInode} {ctx : TempfsCtx} {file file' : TempFile}
  {children : List Child} {name : CString} {type : InodeType}

lemma allocated_file (h : ctx.inodes a = some (.regularFile file)) : ctx.allocated a = file.allocated := by
  rw [TempfsCtx.allocated, h]

lemma allocated_refill : (ctx.refill a file file').allocated = Function.update ctx.allocated a file'.allocated := by
  funext b
  by_cases hb : b = a
  · subst hb
    rw [Function.update_self]
    exact allocated_file (Function.update_self ..)
  · rw [Function.update_of_ne hb, TempfsCtx.allocated, TempfsCtx.allocated]
    simp only [TempfsCtx.refill, TempfsCtx.setInode, Function.update_of_ne hb]

lemma allocated_addChild (hnew : ctx.inodes a = none) (hdir : ctx.inodes dir = some (.directory children)) :
    (ctx.addChild dir children freeIdx name a type).allocated = ctx.allocated := by
  funext b
  rw [TempfsCtx.allocated, TempfsCtx.allocated]
  simp only [TempfsCtx.addChild, TempfsCtx.setInode]
  by_cases hb : b = dir
  · rw [hb, Function.update_self, hdir]
  · rw [Function.update_of_ne hb]
    by_cases hba : b = a
    · rw [hba, Function.update_self, hnew, newInode]
      by_cases htype : type = .regularFile
      · rw [if_pos htype]
      · rw [if_neg htype, emptyDirectory]
    · rw [Function.update_of_ne hba]

lemma Inv.allocated_le (h : Inv s) (hfile : s.ctx.inodes a = some (.regularFile file)) :
    file.allocated ≤ s.ctx.used := by
  obtain ⟨addresses, hmem, hused⟩ := h.used
  have ha : a ∈ addresses := (hmem a).mpr (by rw [(h.file a file hfile).2]; rfl)
  rw [hused, ← allocated_file hfile]
  exact Finset.single_le_sum (f := s.ctx.allocated) (fun _ _ => Nat.zero_le _) ha

lemma Inv.cached_file (h : Inv s) (hself : s.icache a = some self) (htype : self.type = .regularFile) :
    self.identifier = a ∧ ∃ file, s.ctx.inodes a = some (.regularFile file) ∧ self.size = file.size := by
  obtain ⟨hid, inode, hinode, htype', hsize⟩ := h.cached a self hself
  cases inode with
  | directory cs => cases htype.symm.trans htype'
  | regularFile file => exact ⟨hid, file, hinode, hsize file rfl⟩

lemma inv_initial {fs capacity root : ℕ} (hcap : capacity < 2 ^ 32) : Inv ⟨create capacity root,
    Function.update (fun _ => none) root (some (onMount fs (create capacity root))), fun _ => none⟩ := by
  refine ⟨?_, fun a ha => (nomatch ha), ⟨∅, by simp, rfl⟩, hcap, Nat.zero_le _, ?_⟩
  · intro a file ha
    dsimp only [create] at ha
    obtain ⟨-, he⟩ | ⟨-, he⟩ := update_some_eq_some.mp ha <;> cases he
  · intro a self ha
    dsimp only at ha
    obtain ⟨rfl, rfl⟩ | ⟨-, he⟩ := update_some_eq_some.mp ha
    · exact ⟨rfl, emptyDirectory, by simp [create], rfl, fun file hf => nomatch hf⟩
    · cases he

lemma Inv.keep (h : Inv s) {fs : ℕ} {inode : TempInode} (hinode : s.ctx.inodes a = some inode) (cached : Bool) :
    Inv { s with icache := keepInode s.icache cached (fillInode fs a inode) } := by
  refine ⟨h.file, h.regular, h.used, h.capacity_lt, h.used_le, fun b self hb => ?_⟩
  dsimp only at hb
  rw [keepInode] at hb
  split at hb
  · obtain ⟨rfl, rfl⟩ | ⟨-, hb'⟩ := update_some_eq_some.mp hb
    · refine ⟨rfl, inode, hinode, rfl, ?_⟩
      rintro file rfl
      rfl
    · exact h.cached b self hb'
  · exact h.cached b self hb

lemma Inv.refill (h : Inv s) (hself : s.icache a = some self) (hfile : s.ctx.inodes a = some (.regularFile file))
    (hw : file'.WellFormed) (hle : file.allocated ≤ file'.allocated)
    (hcap : s.ctx.used + (file'.allocated - file.allocated) ≤ s.ctx.capacity) :
    Inv { ctx := s.ctx.refill a file file'
          icache := Function.update s.icache a (some { self with size := file'.size })
          files := Function.update s.files a (some file'.contents) } := by
  obtain ⟨hid, inode, hinode, htype, -⟩ := h.cached a self hself
  obtain rfl := Option.some.inj (hfile.symm.trans hinode)
  constructor
  · intro b f hb
    obtain ⟨rfl, he⟩ | ⟨hba, hb'⟩ := update_some_eq_some.mp hb
    · cases he
      exact ⟨hw, Function.update_self ..⟩
    · obtain ⟨hw', hfiles⟩ := h.file b f hb'
      exact ⟨hw', (Function.update_of_ne hba ..).trans hfiles⟩
  · intro b hb
    obtain ⟨contents, hb⟩ := Option.isSome_iff_exists.mp hb
    obtain ⟨rfl, -⟩ | ⟨hba, hb'⟩ := update_some_eq_some.mp hb
    · exact ⟨file', Function.update_self ..⟩
    · obtain ⟨f, hf⟩ := h.regular b (by rw [hb']; rfl)
      exact ⟨f, (Function.update_of_ne hba ..).trans hf⟩
  · obtain ⟨addresses, hmem, hused⟩ := h.used
    have ha : a ∈ addresses := (hmem a).mpr (by rw [(h.file a file hfile).2]; rfl)
    refine ⟨addresses, fun b => ?_, ?_⟩
    · by_cases hba : b = a
      · subst hba
        simp [ha]
      · simp only [Function.update_of_ne hba]
        exact hmem b
    · have hold := Finset.sum_eq_add_sum_sdiff_singleton_of_mem ha s.ctx.allocated
      rw [allocated_file hfile] at hold
      dsimp only
      rw [allocated_refill, Finset.sum_update_of_mem ha]
      have hnew : (s.ctx.refill a file file').used = s.ctx.used + (file'.allocated - file.allocated) := rfl
      omega
  · exact h.capacity_lt
  · exact hcap
  · intro b self' hb
    obtain ⟨rfl, rfl⟩ | ⟨hba, hb'⟩ := update_some_eq_some.mp hb
    · refine ⟨hid, .regularFile file', Function.update_self .., htype, ?_⟩
      rintro f ⟨⟩
      rfl
    · obtain ⟨hid', inode', hinode', hrest⟩ := h.cached b self' hb'
      exact ⟨hid', inode', (Function.update_of_ne hba ..).trans hinode', hrest⟩

lemma wellFormed_empty : TempFile.WellFormed ⟨0, 0, []⟩ := ⟨rfl, by decide, by decide⟩

lemma Inv.addChild (h : Inv s) (freeIdx : ℕ) (name : CString) (type : InodeType)
    (hself : s.icache dir = some self) (hdir : s.ctx.inodes dir = some (.directory children))
    (hnew : s.ctx.inodes a = none) (size : ℕ) :
    Inv { ctx := s.ctx.addChild dir children freeIdx name a type
          icache := Function.update s.icache dir (some { self with size := size })
          files := if type = .regularFile then Function.update s.files a (some []) else s.files } := by
  have hnofile : s.files a = none := by
    by_contra hsome
    obtain ⟨f, hf⟩ := h.regular a (Option.isSome_iff_ne_none.mpr hsome)
    cases hnew.symm.trans hf
  have hne : dir ≠ a := ne_of_eq_some hnew hdir
  have hfiles : ∀ b, b ≠ a →
      (if type = .regularFile then Function.update s.files a (some []) else s.files) b = s.files b := by
    intro b hba
    split
    · exact Function.update_of_ne hba ..
    · rfl
  constructor
  · intro b f hb
    rcases addChild_inodes hb with ⟨-, hf⟩ | ⟨-, rfl, hf⟩ | ⟨-, hba, hb'⟩
    · cases hf
    · by_cases htype : type = .regularFile
      · rw [newInode, if_pos htype] at hf
        cases hf
        exact ⟨wellFormed_empty, by rw [if_pos htype]; exact Function.update_self ..⟩
      · rw [newInode, if_neg htype] at hf
        cases hf
    · obtain ⟨hw, hf⟩ := h.file b f hb'
      exact ⟨hw, (hfiles b hba).trans hf⟩
  · intro b hb
    by_cases hba : b = a
    · subst hba
      by_cases htype : type = .regularFile
      · refine ⟨⟨0, 0, []⟩, (addChild_new hne).trans ?_⟩
        rw [newInode, if_pos htype]
      · dsimp only at hb
        rw [if_neg htype, hnofile] at hb
        cases hb
    · obtain ⟨f, hf⟩ := h.regular b ((congrArg Option.isSome (hfiles b hba)).symm.trans hb)
      refine ⟨f, addChild_kept hnew ?_ hf⟩
      rintro rfl
      cases hdir.symm.trans hf
  · obtain ⟨addresses, hmem, hused⟩ := h.used
    have ha : a ∉ addresses := fun hm => by
      have hsome := (hmem a).mp hm
      rw [hnofile] at hsome
      cases hsome
    have hzero : s.ctx.allocated a = 0 := by rw [TempfsCtx.allocated, hnew]
    dsimp only
    rw [allocated_addChild hnew hdir]
    by_cases htype : type = .regularFile
    · refine ⟨insert a addresses, fun b => ?_, ?_⟩
      · by_cases hba : b = a
        · subst hba
          simp [htype]
        · rw [Finset.mem_insert, or_iff_right hba, hfiles b hba]
          exact hmem b
      · rw [Finset.sum_insert ha, hzero, zero_add]
        exact hused
    · rw [if_neg htype]
      exact ⟨addresses, hmem, hused⟩
  · exact h.capacity_lt
  · exact h.used_le
  · intro b self' hb
    obtain ⟨rfl, rfl⟩ | ⟨hbd, hb'⟩ := update_some_eq_some.mp hb
    · obtain ⟨hid, inode, hinode, htype, -⟩ := h.cached b self hself
      obtain rfl := Option.some.inj (hdir.symm.trans hinode)
      exact ⟨hid, _, Function.update_self .., htype, fun f hf => nomatch hf⟩
    · obtain ⟨hid, inode, hinode, hrest⟩ := h.cached b self' hb'
      exact ⟨hid, inode, addChild_kept hnew hbd hinode, hrest⟩

lemma Inv.create (h : Inv s) {mem : Option ℕ} {cached : Bool} {inode self' : SizedInode} {ctx' : TempfsCtx}
    (hself : s.icache dir = some self) (hfresh : ∀ a ∈ mem, s.ctx.inodes a = none)
    (hcreate : dirCreate s.ctx self mem name type = .ok (.ok inode, ctx', self')) :
    Inv { ctx := ctx'
          icache := keepInode (Function.update s.icache dir (some self')) cached inode
          files := if type = .regularFile then Function.update s.files inode.identifier (some []) else s.files } := by
  rcases dirCreate_cases hcreate with ⟨rc, he, -⟩ | ⟨a, children, freeIdx, rfl, -, -, hdir, -, -, he, rfl, rfl⟩
  · cases he
  · obtain rfl := Except.ok.inj he
    have hid := (h.cached dir self hself).1
    have hnew := hfresh a rfl
    rw [hid] at hdir ⊢
    have hadded := h.addChild freeIdx name type hself hdir hnew
      ((self.size + direntSize) % 2 ^ 64)
    refine hadded.keep ?_ cached
    exact (Function.update_of_ne (ne_of_eq_some hnew hdir).symm ..).trans (Function.update_self ..)

section Calls

variable {custody : FileCustody}

lemma ssize_toNat_le {n : ℕ} (hlt : n < 2 ^ 32) (hneg : ¬ ssize n < 0) : (ssize n).toNat ≤ n := by
  by_cases hsmall : n < 2 ^ 31
  · rw [ssize_of_lt hsmall]
    exact le_refl _
  · rw [ssize, Int.bmod_def, Int.emod_eq_of_lt (by omega) (by omega)] at hneg ⊢
    split at hneg <;> split <;> omega

lemma vfsSeekCur_offset_le (mem : Option (ℕ → UInt8)) (ctx : TempfsCtx) (hlt : self.size < 2 ^ 32)
    (hoffset : custody.offset ≤ self.size) (offset : ℤ) :
    (vfsSeekCur (fileInodeOps mem) (ctx, self) custody offset).offset ≤ self.size := by
  have hle := defaultCheckedSeek_le self.size custody.offset .cur offset
  obtain ⟨n, hn⟩ : ∃ n : ℕ, n = defaultCheckedSeek self.size custody.offset .cur offset := ⟨_, rfl⟩
  have hseek : (fileInodeOps mem).seekCur (ctx, self) custody.offset offset = n := congrArg Nat.cast hn.symm
  rw [← hn] at hle
  rw [vfsSeekCur, apply_ite FileCustody.offset, hseek]
  split
  · exact hoffset
  · rename_i hneg
    dsimp only
    exact (ssize_toNat_le (hle.trans_lt hlt) hneg).trans hle

lemma waitsFor_never (mem : Option (ℕ → UInt8)) (st : TempfsCtx × SizedInode) {event : ℕ}
    (h : event = fPollIn ∨ event = fPollOut) : waitsFor (fileInodeOps mem) st event = false := by
  rcases h with rfl | rfl <;> simp [waitsFor, fileInodeOps, pollAlwaysReady]

/-- No number of bytes that fits into the blocks is taken for an error. -/
lemma not_failed_ssize {n : ℕ} (h : n ≤ 2 ^ 32 - blockSize) : ¬ Failed (ssize n) := by
  simp only [blockSize] at h
  rw [Failed, ssize, Int.bmod_def, Int.emod_eq_of_lt (by omega) (by omega), Err.noMem, Err.perm]
  split <;> omega

lemma TempFile.WellFormed.size_le_of_lt (h : file.WellFormed) (hlt : file.allocated < 2 ^ 32) :
    file.size ≤ 2 ^ 32 - blockSize := by
  have hsize := h.size_lt
  have hround := h.allocated
  have hle := le_roundUp64 (n := file.size) (by omega)
  rw [roundUp64_eq (by omega)] at hround hle
  simp only [blockSize]
  omega

lemma Inv.vfsWrite (h : Inv s) {buffer : List UInt8} (mem : Option (ℕ → UInt8))
    (hself : s.icache custody.inode = some self)
    (htype : self.type = .regularFile) (hoffset : custody.offset ≤ self.size) (hbuffer : buffer.length < 2 ^ 32) :
    ∃ rc custody' ctx' self', vfsWrite (fileInodeOps mem) (s.ctx, self) custody buffer =
        .ok (some (rc, custody', ctx', self')) ∧ custody'.offset ≤ self'.size ∧
      (Failed rc ∧ custody' = custody ∧ ctx' = s.ctx ∧ self' = self ∨
        ¬ Failed rc ∧ rc = ssize buffer.length ∧ ∃ file file', s.ctx.inodes custody.inode = some (.regularFile file) ∧
          file'.WellFormed ∧ file'.contents = splice file.contents custody.offset buffer ∧
          file.allocated ≤ file'.allocated ∧ s.ctx.used + (file'.allocated - file.allocated) ≤ s.ctx.capacity ∧
          ctx' = s.ctx.refill custody.inode file file' ∧ self' = { self with size := file'.size }) := by
  obtain ⟨hid, file, hfile, hsize⟩ := h.cached_file hself htype
  have hw := (h.file _ file hfile).1
  have hused := h.allocated_le hfile
  rw [Vfs.vfsWrite]
  by_cases hro : custody.flags &&& ofAccmode = ofRdonly
  · rw [if_pos hro]
    exact ⟨_, _, _, _, rfl, hoffset, Or.inl ⟨Or.inr rfl, rfl, rfl, rfl⟩⟩
  · rw [if_neg hro, if_neg (by simp [waitsFor_never mem (s.ctx, self) (Or.inr rfl)])]
    have hwrite : (fileInodeOps mem).write (s.ctx, self) custody.offset buffer =
      fileInodeWrite mem s.ctx self custody.offset buffer := rfl
    rw [hwrite]
    rcases fileInodeWrite_spec mem (hid.symm ▸ hfile) hw htype hsize (hsize ▸ hoffset) hbuffer h.capacity_lt hused
      h.used_le with he | ⟨file', hw', hcontents, hle, hcap, he⟩
    · rw [he, ok_bind]
      exact ⟨_, _, _, _, rfl, hoffset, Or.inl ⟨Or.inl rfl, rfl, rfl, rfl⟩⟩
    · rw [he, ok_bind, hid]
      have hlength := congrArg List.length hcontents
      rw [hw'.length_contents, length_splice (by rw [hw.length_contents]; exact hsize ▸ hoffset),
        hw.length_contents] at hlength
      have hbytes : buffer.length ≤ 2 ^ 32 - blockSize := by
        have hlt := h.capacity_lt
        exact (by omega : buffer.length ≤ file'.size).trans (hw'.size_le_of_lt (by omega))
      refine ⟨_, _, _, _, rfl, ?_, Or.inr ⟨not_failed_ssize hbytes, rfl, file, file', hfile, hw', hcontents,
        hle, hcap, rfl, rfl⟩⟩
      have hoffset' : custody.offset ≤ file'.size := by omega
      split
      · exact vfsSeekCur_offset_le mem _ hw'.size_lt hoffset' _
      · exact hoffset'

lemma Inv.vfsRead (h : Inv s) {size : ℕ} {contents : List UInt8} (hself : s.icache custody.inode = some self)
    (htype : self.type = .regularFile) (hcontents : s.files custody.inode = some contents)
    (hoffset : custody.offset ≤ self.size) (hsize : size < 2 ^ 32) :
    ∃ rc out custody', vfsRead (fileInodeOps none) (s.ctx, self) custody size =
        .ok (some (rc, out, custody', s.ctx, self)) ∧ custody'.offset ≤ self.size ∧
      if custody.flags &&& ofAccmode = ofWronly then rc = -Err.perm ∧ out = [] ∧ custody' = custody
      else rc = ssize out.length ∧ out = (contents.drop custody.offset).take size := by
  obtain ⟨hid, file, hfile, hself'⟩ := h.cached_file hself htype
  obtain ⟨hw, hfiles⟩ := h.file _ file hfile
  obtain rfl := Option.some.inj (hcontents.symm.trans hfiles)
  rw [Vfs.vfsRead]
  by_cases hwo : custody.flags &&& ofAccmode = ofWronly
  · rw [if_pos hwo]
    exact ⟨_, _, _, rfl, hoffset, by rw [if_pos hwo]; exact ⟨rfl, rfl, rfl⟩⟩
  · rw [if_neg hwo, if_neg (by simp [waitsFor_never none (s.ctx, self) (Or.inl rfl)])]
    have hread : (fileInodeOps none).read (s.ctx, self) custody.offset size =
        .ok (((file.contents.drop custody.offset).take size).length, (file.contents.drop custody.offset).take size,
          s.ctx, self) := by
      have he : fileInodeRead s.ctx self custody.offset size = _ :=
        fileInodeRead_spec (hid.symm ▸ hfile) hw htype hself' (hself' ▸ hoffset) hsize
      dsimp only [fileInodeOps]
      rw [he]
      rfl
    rw [hread, ok_bind]
    refine ⟨_, _, _, rfl, ?_, by rw [if_neg hwo]; exact ⟨rfl, rfl⟩⟩
    split
    · exact vfsSeekCur_offset_le none _ (hself' ▸ hw.size_lt) hoffset _
    · exact hoffset

end Calls

end Steps

lemma files_inductive {fs : ℕ} : (files fs).Inductive Inv := by
  constructor
  · rintro s ⟨capacity, root, hcap, rfl⟩
    exact inv_initial hcap
  · rintro s act s' h hs
    cases hs with
    | create hself _ hfresh hcreate => exact h.create hself hfresh hcreate
    | notCreated hself _ hcreate =>
      rcases dirCreate_cases hcreate with ⟨rc, -, rfl, rfl⟩ | ⟨_, _, _, -, -, -, -, -, -, he, -⟩
      · rw [Function.update_eq_self_iff.mpr hself.symm]
        exact h
      · cases he
    | lookup _ _ hlookup =>
      obtain ⟨children, a, found, -, -, hfound, rfl⟩ := dirInodeLookup_ok hlookup
      exact h.keep hfound _
    | write hself htype hoffset hbuffer hwrite =>
      obtain ⟨rc, custody', ctx', self', he, -, hcases⟩ := h.vfsWrite _ hself htype hoffset hbuffer
      cases he.symm.trans hwrite
      rcases hcases with ⟨hfailed, -, rfl, rfl⟩ | ⟨hok, -, file, file', hfile, hw, hcontents, hle, hcap, rfl, rfl⟩
      · rw [if_pos hfailed, Function.update_eq_self_iff.mpr hself.symm]
        exact h
      · rw [if_neg hok, (h.file _ file hfile).2, Option.map_some, ← hcontents]
        exact h.refill hself hfile hw hle hcap
    | read hself htype hoffset hsize hread =>
      obtain ⟨-, file, hfile, -⟩ := h.cached_file hself htype
      obtain ⟨rc, out, custody', he, -⟩ := h.vfsRead hself htype (h.file _ file hfile).2 hoffset hsize
      cases he.symm.trans hread
      rw [Function.update_eq_self_iff.mpr hself.symm]
      exact h

/-- The files are the arrays that the accepted writes make of them, the sizes agree, the blocks are accounted
for, and every further read and write keeps to this. -/
structure FilesRefine (s : Files) : Prop where
  contents : ∀ a contents, s.files a = some contents ↔ ∃ file, s.ctx.inodes a = some (.regularFile file) ∧
    file.contents = contents ∧ file.size = contents.length
  cached : ∀ a self contents, s.icache a = some self → s.files a = some contents →
    self.type = .regularFile ∧ self.identifier = a ∧ self.size = contents.length
  used : ∃ addresses : Finset ℕ, (∀ a, a ∈ addresses ↔ (s.files a).isSome) ∧
    s.ctx.used = ∑ a ∈ addresses, roundUp64 ((s.files a).getD []).length blockSize
  capacity : s.ctx.used ≤ s.ctx.capacity
  reads : ∀ custody self contents size, s.icache custody.inode = some self → s.files custody.inode = some contents →
    custody.offset ≤ contents.length → size < 2 ^ 32 →
    ∃ rc out custody', vfsRead (fileInodeOps none) (s.ctx, self) custody size =
        .ok (some (rc, out, custody', s.ctx, self)) ∧ custody'.offset ≤ self.size ∧
      if custody.flags &&& ofAccmode = ofWronly then rc = -Err.perm ∧ out = [] ∧ custody' = custody
      else rc = ssize out.length ∧ out = (contents.drop custody.offset).take size
  writes : ∀ mem custody self contents buffer, s.icache custody.inode = some self →
    s.files custody.inode = some contents → custody.offset ≤ contents.length → buffer.length < 2 ^ 32 →
    ∃ rc custody' ctx' self', vfsWrite (fileInodeOps mem) (s.ctx, self) custody buffer =
        .ok (some (rc, custody', ctx', self')) ∧ custody'.offset ≤ self'.size ∧
      if Failed rc then custody' = custody ∧ ctx' = s.ctx ∧ self' = self
      else rc = ssize buffer.length ∧ ∃ file', ctx'.inodes custody.inode = some (.regularFile file') ∧
        file'.contents = splice contents custody.offset buffer ∧ self'.size = file'.size

section Example

/-- 1024 bytes, and the root directory at the address 1. -/
def mounted : Files :=
  ⟨create 1024 1, Function.update (fun _ => none) 1 (some (onMount 0 (create 1024 1))), fun _ => none⟩

/-- The root directory with the empty file `f` at the address 9. -/
def withFile : TempfsCtx := (create 1024 1).addChild 1 (List.replicate maxChildren ⟨[], none⟩) 15 [0x66] 9 .regularFile

lemma create_f : dirCreate mounted.ctx (onMount 0 (create 1024 1)) (some 9) [0x66] .regularFile =
    .ok (.ok (fillInode 0 9 (newInode .regularFile)), withFile, { onMount 0 (create 1024 1) with size := 272 }) := rfl

end Example

end Pi0Os.Vfs.Tempfs
