import Pi0Os.Kernel.RingBuffer
import Pi0Os.Vfs.FileIo

/-! The pipes of `pipefs.cpp` and `vfs_create_pipe`. -/

namespace Pi0Os.Vfs

open Kernel

/-- `/pipe/new`. -/
def pipeNew : CString := [0x2f, 0x70, 0x69, 0x70, 0x65, 0x2f, 0x6e, 0x65, 0x77]

def newName : CString := [0x6e, 0x65, 0x77]

/-- The state of the VFS with that of the `pipefs` mounted in it: the next identifier, and the ring
buffers that the `opaque` pointers of the inodes lead to. The identifier is 64 bits wide and every
pipe leaves its entry in the cache, so that memory ends before it wraps. -/
structure PipeFS where
  vfs : VfsState
  fs : ℕ
  nextPipeId : ℕ
  data : ℕ → RingBuffer 4096 UInt8

def pipefsDirInodeLookup (fs nextPipeId identifier : ℕ) (name : CString) : Except ℤ Inode :=
  if identifier ≠ 0 ∨ name ≠ newName then .error (-Err.noEnt)
  else .ok ⟨1, .pipe, nextPipeId, fs, false⟩

/-- The allocations of one `vfs_create_pipe`; `ring` is what `malloc` finds in the new context. -/
structure PipeEnv where
  malloc : ℕ → Bool
  inodeMem : Bool
  contextMem : Bool
  entryMem : Bool
  custodyMem : Bool
  duplicateMem : Bool
  ring : RingBuffer 4096 UInt8

/-- How `pipefs` answers the calls of `vfs_open`: its root has the identifier 0, `open_inode` only
fails when it has no memory, and it does not support `create`. -/
def PipeEnv.openEnv (env : PipeEnv) (fs nextPipeId : ℕ) : OpenEnv where
  malloc := env.malloc
  rootOpenRc := 0
  walk _ := ⟨⟨env.inodeMem, if env.contextMem then 0 else -Err.noMem, env.entryMem⟩,
    pipefsDirInodeLookup fs nextPipeId 0⟩
  create := ⟨⟨env.inodeMem, if env.contextMem then 0 else -Err.noMem, env.entryMem⟩, fun _ => .error (-Err.notSup)⟩
  custodyMem := env.custodyMem

variable (s : PipeFS)

/-- What `vfs_open("/pipe/new", OF_CREATE)` leaves: `lookup` has taken an identifier if the walk got
that far, and the context of the new inode is cleared. -/
def openPipe (env : PipeEnv) : Except Panic (ℤ × PipeFS) := do
  let cpath ← canonicalizePath env.malloc pipeNew
  let (rc, vfs) ← vfsOpen s.vfs (env.openEnv s.fs s.nextPipeId) pipeNew ofCreate
  return (rc, { s with
    vfs := vfs
    nextPipeId := if cpath.isSome then s.nextPipeId + 1 else s.nextPipeId
    data := Function.update s.data s.vfs.nextInode env.ring.clear })

def vfsCreatePipe (env : PipeEnv) : Except Panic (ℤ × PipeFS) := do
  let (rc, s) ← openPipe s env
  if rc ≠ 0 then return (rc, s)
  match s.vfs.custodies.getLast? with
  | none => .error (.undefined "no custody")
  | some sender =>
    if ¬ env.duplicateMem then
      return (-Err.noMem, { s with vfs := ← vfsClose s.vfs (s.vfs.custodies.length - 1) sender })
    let vfs := vfsDuplicate s.vfs sender true
    return (0, { s with vfs := { vfs with
      custodies := s.vfs.custodies.dropLast ++ [{ sender with flags := ofWronly },
        { sender with flags := ofRdonly }] } })

def deadContext : Panic := .undefined "the context of a closed pipe"

/-- The loop of `pipefs_file_inode_write`. -/
def pushWhileRoom : List UInt8 → RingBuffer 4096 UInt8 → ℕ × RingBuffer 4096 UInt8
  | [], b => (0, b)
  | ch :: buffer, b =>
    if b.isFull then (0, b)
    else
      let (n, b) := pushWhileRoom buffer (b.push ch)
      (n + 1, b)

def pipefsFileInodeRead (a size : ℕ) : Except Panic (ℤ × List UInt8 × PipeFS) := do
  panicIf deadContext (¬ (s.vfs.inodes a).live)
  if (s.data a).isEmpty then return (0, [], s)
  let (out, b) := (s.data a).popUpTo size
  return (out.length, out, { s with data := Function.update s.data a b })

def pipefsFileInodeWrite (a : ℕ) (buffer : List UInt8) : Except Panic (ℤ × PipeFS) := do
  panicIf deadContext (¬ (s.vfs.inodes a).live)
  let (n, b) := pushWhileRoom buffer (s.data a)
  return (n, { s with data := Function.update s.data a b })

def pipefsFileInodePoll (a events : ℕ) : ℤ × ℕ :=
  let revents := if events &&& fPollIn ≠ 0 ∧ ¬ (s.data a).isEmpty then fPollIn else 0
  (0, if events &&& fPollOut ≠ 0 ∧ ¬ (s.data a).isFull then revents ||| fPollOut else revents)

/-- The file operations of the pipe at the address `a`. -/
def pipeOps (a : ℕ) : FileOps PipeFS where
  read s _ size := pipefsFileInodeRead s a size
  write s _ buffer := pipefsFileInodeWrite s a buffer
  seekCur _ _ _ := -Err.notSup
  poll s events := pipefsFileInodePoll s a events

def PipeFS.setCustody (i : ℕ) (custody : FileCustody) : PipeFS :=
  { s with vfs := { s.vfs with custodies := s.vfs.custodies.set i custody } }

section Buffer

variable {s : PipeFS} {a : ℕ}

lemma pushWhileRoom_spec (buffer : List UInt8) (b : RingBuffer 4096 UInt8) :
    b.contents.length + (pushWhileRoom buffer b).1 ≤ 4096 ∧
      (pushWhileRoom buffer b).2.contents = b.contents ++ buffer.take (pushWhileRoom buffer b).1 := by
  induction buffer generalizing b with
  | nil => exact ⟨b.length_contents_le, (List.append_nil _).symm⟩
  | cons ch buffer ih =>
    rw [pushWhileRoom]
    split
    · exact ⟨b.length_contents_le, (List.append_nil _).symm⟩
    · rename_i hfull
      rw [b.isFull_iff] at hfull
      have hlt : (b.contents ++ [ch]).length ≤ 4096 := by
        have := b.length_contents_le
        rw [List.length_append, List.length_singleton]
        omega
      obtain ⟨hle, hc⟩ := ih (b.push ch)
      rw [b.contents_push, Library.rtake_of_length_le hlt] at hle hc
      rw [List.append_assoc, List.singleton_append] at hc
      rw [List.length_append, List.length_singleton, add_right_comm] at hle
      exact ⟨by rwa [add_assoc] at hle, hc⟩

lemma pipeRead_spec {size : ℕ} {rc : ℤ} {out : List UInt8} {s' : PipeFS}
    (h : pipefsFileInodeRead s a size = .ok (rc, out, s')) :
    rc = out.length ∧ out.length ≤ 4096 ∧ ∃ b : RingBuffer 4096 UInt8,
      s' = { s with data := Function.update s.data a b } ∧
      out ++ b.contents = (s.data a).contents := by
  obtain ⟨-, h⟩ := panicIf_bind_eq_ok.mp h
  have hle := (s.data a).length_contents_le
  split at h
  · cases h
    exact ⟨rfl, Nat.zero_le _, s.data a, by rw [Function.update_eq_self], rfl⟩
  · obtain ⟨hout, hrest⟩ := (s.data a).popUpTo_spec size
    cases h
    refine ⟨rfl, ?_, _, rfl, ?_⟩
    · rw [hout, List.length_take]
      exact (Nat.min_le_right _ _).trans hle
    · rw [hout, hrest, List.take_append_drop]

lemma pipeWrite_spec {buffer : List UInt8} {rc : ℤ} {s' : PipeFS}
    (h : pipefsFileInodeWrite s a buffer = .ok (rc, s')) :
    ∃ n : ℕ, rc = n ∧ n ≤ 4096 ∧ ∃ b : RingBuffer 4096 UInt8, s' = { s with data := Function.update s.data a b } ∧
      b.contents = (s.data a).contents ++ buffer.take n := by
  obtain ⟨-, h⟩ := panicIf_bind_eq_ok.mp h
  obtain ⟨hle, hc⟩ := pushWhileRoom_spec buffer (s.data a)
  cases h
  exact ⟨_, rfl, by omega, _, rfl, hc⟩

end Buffer

end Pi0Os.Vfs
