import Pi0Os.Task.Scheduler
import Pi0Os.Vfs.FileIo

/-! The system calls on the `openfiles` of the processes. The custodies are named by their
addresses, and a freed address is not used again; what `vfs_open` and `malloc` answer is read from
the call. -/

namespace Pi0Os.Task

open Kernel

structure FileTables where
  sched : Scheduler
  custodies : ℕ → Option Vfs.FileCustody
  nextCustody : ℕ

variable (s : FileTables)

/-- The open file of a process at a descriptor. -/
def FileTables.slot (k : ℕ × Fin 16) : Option FileCustody := s.sched.processes[k.1]?.bind fun p => p.openfiles k.2

def FileTables.setFile (k : ℕ × Fin 16) (file : Option FileCustody) : FileTables :=
  { s with sched := { s.sched with
    processes := s.sched.processes.modify k.1 fun p => { p with openfiles := Function.update p.openfiles k.2 file } } }

def FileTables.allocCustody (c : Vfs.FileCustody) : FileTables :=
  { s with custodies := Function.update s.custodies s.nextCustody (some c), nextCustody := s.nextCustody + 1 }

def FileTables.setFlags (a flags : ℕ) : FileTables :=
  { s with custodies := Function.update s.custodies a ((s.custodies a).map fun c => { c with flags := flags }) }

def vfsClose : Option FileCustody → Except Panic FileTables
  | none => .ok s
  | some a =>
    match s.custodies a with
    | none => .error (.undefined "freed custody")
    | some _ => .ok { s with custodies := Function.update s.custodies a none }

def vfsDuplicate (mem : Bool) (custody : Option FileCustody) : Except Panic (Option FileCustody × FileTables) :=
  if ¬ mem then .ok (none, s)
  else
    match custody with
    | none => .error (.undefined "null custody")
    | some a =>
      match s.custodies a with
      | none => .error (.undefined "freed custody")
      | some c => .ok (some s.nextCustody, s.allocCustody c)

/-- The descriptors that pass the check of the range. -/
def descriptor (fd : ℤ) : Option (Fin 16) := if h : 0 ≤ fd ∧ fd < 16 then some ⟨fd.toNat, by omega⟩ else none

def firstFree (i : ℕ) : Option (Fin 16) := (List.finRange 16).find? fun fd => (s.slot (i, fd)).isNone

def sysOpen (i : ℕ) (vfsOpen : CString → CString → ℤ → Except ℤ Vfs.FileCustody) (p : Process) (path : CString)
    (flags : ℤ) : ℤ × FileTables :=
  match firstFree s i with
  | none => (-Err.nFile, s)
  | some fd =>
    match vfsOpen p.workingDirectory path flags with
    | .error rc => (rc, s)
    | .ok c => (fd, (s.allocCustody c).setFile (i, fd) (some s.nextCustody))

def sysClose (i : ℕ) (fd : ℤ) : Except Panic (ℤ × FileTables) :=
  match descriptor fd with
  | none => .ok (-Err.badF, s)
  | some fd =>
    match s.slot (i, fd) with
    | none => .ok (-Err.badF, s)
    | some file => do
      let s ← vfsClose s (some file)
      return (0, s.setFile (i, fd) none)

def sysMovefd (i : ℕ) (fd newFd : ℤ) : Except Panic (ℤ × FileTables) :=
  match descriptor fd with
  | none => .ok (-Err.badF, s)
  | some fd =>
    match s.slot (i, fd) with
    | none => .ok (-Err.badF, s)
    | some file =>
      match descriptor newFd with
      | none => .ok (-Err.badF, s)
      | some newFd => do
        let s ← vfsClose s (s.slot (i, newFd))
        return (0, (s.setFile (i, newFd) (some file)).setFile (i, fd) none)

def sysDup2 (i : ℕ) (fd newFd : ℤ) (mem : Bool) : Except Panic (ℤ × FileTables) :=
  match descriptor fd with
  | none => .ok (-Err.badF, s)
  | some fd =>
    match s.slot (i, fd) with
    | none => .ok (-Err.badF, s)
    | some _ =>
      match descriptor newFd with
      | none => .ok (-Err.badF, s)
      | some newFd => do
        let s ← vfsClose s (s.slot (i, newFd))
        let s := s.setFile (i, newFd) none
        let (dup, s) ← vfsDuplicate s mem (s.slot (i, fd))
        return (0, s.setFile (i, newFd) dup)

/-- `opened` is what `vfs_open("/pipe/new", OF_CREATE, ..)` answers. -/
def vfsCreatePipe (opened : Except ℤ Vfs.FileCustody) (mem : Bool) :
    Except Panic (Except ℤ (FileCustody × FileCustody) × FileTables) :=
  match opened with
  | .error rc => .ok (.error rc, s)
  | .ok c => do
    let sender := s.nextCustody
    let (receiver, s) ← vfsDuplicate (s.allocCustody c) mem (some sender)
    match receiver with
    | none => return (.error (-Err.noMem), ← vfsClose s (some sender))
    | some receiver =>
      return (.ok (sender, receiver), (s.setFlags sender Vfs.ofWronly).setFlags receiver Vfs.ofRdonly)

/-- The return value with the descriptors stored through `write_fd` and `read_fd`. -/
def sysCreatePipe (i : ℕ) (opened : Except ℤ Vfs.FileCustody) (mem : Bool) :
    Except Panic (ℤ × Option (Fin 16 × Fin 16) × FileTables) := do
  match ← vfsCreatePipe s opened mem with
  | (.error rc, s) => return (rc, none, s)
  | (.ok (sender, receiver), s) =>
    match firstFree s i with
    | none =>
      let s ← vfsClose s (some receiver)
      let s ← vfsClose s (some sender)
      return (-Err.nFile, none, s)
    | some readFd =>
      let s := s.setFile (i, readFd) (some receiver)
      match firstFree s i with
      | none =>
        let s ← vfsClose s (some receiver)
        let s ← vfsClose s (some sender)
        return (-Err.nFile, none, s.setFile (i, readFd) none)
      | some writeFd => return (0, some (writeFd, readFd), s.setFile (i, writeFd) (some sender))

/-- The loop of `sys$fork` over the open files, which ends at the first that is not duplicated. -/
def duplicateOpenfiles (mem : Fin 16 → Bool) (files : Fin 16 → Option FileCustody) :
    List (Fin 16) → FileTables → Except Panic ((Fin 16 → Option FileCustody) × FileTables)
  | [], s => .ok (fun _ => none, s)
  | fd :: fds, s =>
    match files fd with
    | none => duplicateOpenfiles mem files fds s
    | some custody => do
      let (dup, s) ← vfsDuplicate s (mem fd) (some custody)
      match dup with
      | none => return (fun _ => none, s)
      | some dup =>
        let (dups, s) ← duplicateOpenfiles mem files fds s
        return (Function.update dups fd (some dup), s)

structure ForkAnswers where
  alloc : AllocEnv
  workingDirectory : Bool
  duplicateMem : Fin 16 → Bool
  vmFork : Bool

def sysForkFiles (env : ForkAnswers) (p : Process) (t : Thread) : Except Panic (ℤ × FileTables) := do
  let (dups, s) ← duplicateOpenfiles env.duplicateMem p.openfiles (List.finRange 16) s
  let (rc, sched) ← sysFork ⟨env.alloc, env.workingDirectory, dups, env.vmFork⟩ s.sched p t
  return (rc, { s with sched := sched })

inductive FileCall where
  | openFile (vfsOpen : CString → CString → ℤ → Except ℤ Vfs.FileCustody) (path : CString) (flags : ℤ)
  | close (fd : ℤ)
  | movefd (fd newFd : ℤ)
  | dup2 (fd newFd : ℤ) (mem : Bool)
  | createPipe (opened : Except ℤ Vfs.FileCustody) (mem : Bool)
  | fork (env : ForkAnswers)

/-- The call of the thread `t` of the `i`-th process. -/
def fileCall (i : ℕ) (p : Process) (t : Thread) : FileCall → Except Panic (ℤ × FileTables)
  | .openFile vfsOpen path flags => .ok (sysOpen s i vfsOpen p path flags)
  | .close fd => sysClose s i fd
  | .movefd fd newFd => sysMovefd s i fd newFd
  | .dup2 fd newFd mem => sysDup2 s i fd newFd mem
  | .createPipe opened mem => do
    let (rc, _, s) ← sysCreatePipe s i opened mem
    return (rc, s)
  | .fork env => sysForkFiles s env p t

end Pi0Os.Task
