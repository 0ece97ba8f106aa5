import Pi0Os.Kernel.CString

/-! Processes and threads of `scheduler.cpp`: creation of the first process, `sys$fork` and
`sys$execve`, with the trap frames of `armirq.h`. What the page tables, the heap, the files
and the ELF loader answer is read from an environment. -/

namespace Pi0Os.Task

open Kernel

structure InterruptFrame where
  userSp : ℕ
  userLr : ℕ
  r : Fin 13 → ℕ
  supervisorLr : ℕ
  lr : ℕ
  spsr : ℕ

namespace InterruptFrame

def setSyscallReturnValue (f : InterruptFrame) (value : ℤ) : InterruptFrame :=
  { f with r := Function.update f.r 0 (value % 2 ^ 32).toNat }

def setThreadStartValues (f : InterruptFrame) (entrypoint userstack : ℕ) : InterruptFrame :=
  { f with lr := entrypoint, userSp := userstack }

/-- The processor mode the thread continues in: the five mode bits of `spsr`. -/
def mode (f : InterruptFrame) : ℕ := f.spsr % 32

end InterruptFrame

abbrev modeUser : ℕ := 0x10
abbrev modeSystem : ℕ := 0x1f

inductive ThreadState where
  | runnable
  | suspended
  | zombie
deriving DecidableEq

structure Thread where
  tid : ℕ
  iframe : InterruptFrame
  state : ThreadState
  -- ghost: the entry point of the ELF file that the last successful `sys$execve` put in `iframe`
  program : Option ℕ

abbrev FileCustody := ℕ

structure Process where
  nextAvailableTid : ℕ
  pid : ℕ
  exitCode : ℤ
  name : Buffer
  addressSpace : ℕ
  openfiles : Fin 16 → Option FileCustody
  workingDirectory : CString
  threads : List Thread

structure Scheduler where
  nextAvailablePid : ℕ
  allThreads : List (Option (ℕ × ℕ)) -- the slots below `s_all_threads_len`, by process and thread
  processes : List Process

def Scheduler.initial : Scheduler := ⟨0, [], []⟩

def strcpy (dst src : Buffer) : Except Panic Buffer := do
  let n ← src.strlen
  dst.memcpy 0 (src.take (n + 1))

def strncpy (dst : Buffer) (src : CString) (n : ℕ) : Except Panic Buffer :=
  dst.memcpy 0 ((src ++ List.replicate n Byte.nul).take n)

def archCreateInitialKernelStack (supervisorLr userstack entrypoint : ℕ) (privileged : Bool) :
    InterruptFrame where
  userSp := userstack
  userLr := 0
  r := fun i => i
  supervisorLr := supervisorLr
  lr := entrypoint
  spsr := if privileged then modeSystem else modeUser

/-- The answers that `alloc_process` gets: its three `malloc` calls (with the bytes found in
the `Process`), `strdup`, the address space, the kernel stack (with the word it finds in the
place of `supervisor_lr`) and whether there are pages for the user stack. -/
structure AllocEnv where
  process : Option Buffer
  threadsArray : Bool
  thread : Bool
  workingDirectory : Bool
  addressSpace : Option ℕ
  kernelStack : Option ℕ
  userStackPages : Bool

def userStackStart (tid : ℕ) : ℕ := sub32 Areas.kernelVirtStartAddr (2 * size1MB * tid)

def allocThreadUserStack (pages : Bool) (tid : ℕ) : Option ℕ :=
  if pages then some (sub32 (userStackStart tid) 8) else none

def allocProcess (env : AllocEnv) (s : Scheduler) (name : Buffer) (entrypoint : ℕ)
    (privileged : Bool) : Except Panic (Option Process × Scheduler) := do
  match env.process with
  | none => return (none, s)
  | some mem =>
    -- the cleanup frees the address space and reads the threads before either is set
    panicIf (.undefined "vm_free before vm_create_address_space") (¬ env.threadsArray ∨ ¬ env.thread)
    let pid := s.nextAvailablePid
    let s := { s with nextAvailablePid := pid + 1 }
    let name ← strcpy mem name
    panicIf (.undefined "vm_free before vm_create_address_space") (¬ env.workingDirectory)
    match env.addressSpace with
    | none => .error (.undefined "vm_free before vm_create_address_space")
    | some addressSpace =>
      match env.kernelStack, allocThreadUserStack env.userStackPages 0 with
      | some supervisorLr, some userStack =>
        let iframe := archCreateInitialKernelStack supervisorLr userStack entrypoint privileged
        return (some ⟨1, pid, 0, name, addressSpace, fun _ => none, [Byte.slash],
          [⟨0, iframe, .suspended, none⟩]⟩, s)
      | _, _ => return (none, s)

abbrev maxThreads : ℕ := 64

def registerThread (s : Scheduler) (pid tid : ℕ) : Except Panic Scheduler := do
  kassert "s_all_threads_len < array_size(s_all_threads)" (s.allThreads.length < maxThreads)
  return { s with allThreads := s.allThreads ++ [some (pid, tid)] }

def Process.runnable (p : Process) : Process :=
  { p with threads := p.threads.modify 0 fun t => { t with state := .runnable } }

def standardFiles (stdin stdout stderr : FileCustody) (i : Fin 16) : Option FileCustody :=
  if i = 0 then some stdin else if i = 1 then some stdout else if i = 2 then some stderr else none

instance neZero_standardFiles : NeZero 3 := ⟨by decide⟩

/-- `log` holds the results of the three `vfs_open("/dev/kernel_log", ..)`. -/
def createFirstProcess (env : AllocEnv) (log : Fin 3 → Except ℤ FileCustody) (s : Scheduler)
    (entrypoint : ℕ) : Except Panic Scheduler := do
  match ← allocProcess env s [0x6b, 0x65, 0x72, 0x6e, 0x65, 0x6c, 0] entrypoint true with
  | (none, _) => .error (.assertion "stage2 != nullptr")
  | (some stage2, s) =>
    let s ← registerThread s stage2.pid 0
    match log 0, log 1, log 2 with
    | .ok stdin, .ok stdout, .ok stderr =>
      let stage2 := { stage2 with openfiles := standardFiles stdin stdout stderr }
      return { s with processes := s.processes ++ [stage2.runnable] }
    | _, _, _ => .error (.assertion "rc == 0")

structure ForkEnv where
  alloc : AllocEnv
  workingDirectory : Bool
  duplicate : Fin 16 → Option FileCustody
  vmFork : Bool

def duplicateFiles (duplicate : Fin 16 → Option FileCustody) (files : Fin 16 → Option FileCustody) :
    Option (Fin 16 → Option FileCustody) :=
  if ∀ i, (files i).isSome → (duplicate i).isSome then
    some fun i => if (files i).isSome then duplicate i else none
  else none

def sysFork (env : ForkEnv) (s : Scheduler) (current : Process) (thread : Thread) :
    Except Panic (ℤ × Scheduler) := do
  match ← allocProcess env.alloc s current.name 0 false with
  | (none, _) => .error (.undefined "free_process(nullptr)")
  | (some forked, s) =>
    -- `free_thread` already frees the process of its last thread
    match duplicateFiles env.duplicate current.openfiles with
    | some files =>
      panicIf (.undefined "free_process frees twice") (¬ env.workingDirectory ∨ ¬ env.vmFork)
      let child : Thread := ⟨0, thread.iframe.setSyscallReturnValue 0, .runnable, thread.program⟩
      let s ← registerThread s forked.pid 0
      return (forked.pid, { s with processes := s.processes ++ [{ forked with
        openfiles := files, workingDirectory := current.workingDirectory, threads := [child] }] })
    | none => .error (.undefined "free_process frees twice")

abbrev archStackAlignment : ℕ := 8

def pushStrings (userstack : ℕ) : List CString → ℕ
  | [] => userstack
  | str :: array => pushStrings (sub32 userstack (str.length + 1)) array

def pushStringArrayToStack (userstack : ℕ) (array : List CString) : ℕ :=
  roundDown (pushStrings (sub32 userstack (4 * array.length)) array) archStackAlignment

def pushProcessArgs (userstack : ℕ) (argv envp : List CString) : ℕ :=
  let userstack := pushStringArrayToStack userstack argv
  let userstack := pushStringArrayToStack userstack envp
  roundDown (sub32 userstack 16) archStackAlignment

structure CloneEnv where
  array : Bool
  strdup : ℕ → Bool

/-- The loop of `clone_user_array_of_strings`; its failure path frees every slot of the
array, also the slots that no `strdup` has filled. -/
def cloneStrings (strdup : ℕ → Bool) : ℕ → List CString → Except Panic (Except ℤ (List CString))
  | _, [] => .ok (.ok [])
  | i, str :: rest => do
    panicIf (.undefined "free of an unset array slot") (256 ≤ str.length)
    if strdup i then
      match ← cloneStrings strdup (i + 1) rest with
      | .ok copies => return .ok (str :: copies)
      | .error rc => return .error rc
    else if rest ≠ [] then .error (.undefined "free of an unset array slot")
    else return .error (-Err.noMem)

def cloneUserArrayOfStrings (env : CloneEnv) (userArray : List CString) :
    Except Panic (Except ℤ (List CString)) :=
  if 128 ≤ userArray.length then .ok (.error (-Err.tooBig))
  else if ¬ env.array then .ok (.error (-Err.noMem))
  else cloneStrings env.strdup 0 userArray

structure ExecveEnv where
  argv : CloneEnv
  envp : CloneEnv
  addressSpace : Option ℕ
  elfLoad : Except Panic (Except ℤ ℕ)
  userStackPages : Bool
  stackWrites : Except Panic Unit

/-- The process and the thread as `sys$execve` leaves them, with its return value. -/
def sysExecve (env : ExecveEnv) (path : CString) (userArgv userEnvp : List CString)
    (current : Process) (thread : Thread) : Except Panic (ℤ × Process × Thread) := do
  match ← cloneUserArrayOfStrings env.argv userArgv with
  | .error _ => .error (.undefined "vm_free before vm_create_address_space")
  | .ok argv =>
    match ← cloneUserArrayOfStrings env.envp userEnvp with
    | .error _ => .error (.undefined "vm_free before vm_create_address_space")
    | .ok envp =>
      match env.addressSpace with
      | none => .error (.undefined "vm_free before vm_create_address_space")
      | some newAs =>
        match ← env.elfLoad with
        | .error rc => return (rc, current, thread)
        | .ok entrypoint =>
          match allocThreadUserStack env.userStackPages 0 with
          | none => return (-Err.noMem, current, thread)
          | some userstack =>
            panicIf (.message "execve for multiple threads not implemented") (1 < current.threads.length)
            let name ← strncpy current.name path 63
            env.stackWrites
            let userstack := pushProcessArgs userstack argv envp
            kassert "(uintptr_t) userstack % ARCH_STACK_ALIGNMENT == 0"
              (userstack % archStackAlignment = 0)
            return (0, { current with name := name, addressSpace := newAs },
              { thread with
                iframe := thread.iframe.setThreadStartValues entrypoint userstack
                program := some entrypoint })

inductive Syscall where
  | fork (env : ForkEnv)
  | execve (env : ExecveEnv) (path : CString) (argv envp : List CString)

/-- A system call trap: the thread that traps, the frame its registers are saved in, and the
call that the registers ask for. -/
structure Trap where
  process : ℕ
  thread : ℕ
  frame : InterruptFrame
  call : Syscall

def setThread (s : Scheduler) (i j : ℕ) (p : Process) (t : Thread) : Scheduler :=
  { s with processes := s.processes.set i { p with threads := p.threads.set j t } }

/-- The software interrupt: save the frame, run the call, store its result in `r0`. -/
def irqAndExceptionHandler (s : Scheduler) (trap : Trap) (current : Process) (thread : Thread) :
    Except Panic Scheduler := do
  let thread := { thread with iframe := trap.frame }
  match trap.call with
  | .fork env =>
    let (rc, s) ← sysFork env s current thread
    return setThread s trap.process trap.thread current
      { thread with iframe := thread.iframe.setSyscallReturnValue rc }
  | .execve env path argv envp =>
    let (rc, current, thread) ← sysExecve env path argv envp current thread
    return setThread s trap.process trap.thread current
      { thread with iframe := thread.iframe.setSyscallReturnValue rc }

end Pi0Os.Task
