import Pi0Os.Kernel.IntrusiveList
import Pi0Os.Task.ThreadTable

/-! `scheduler.cpp` over the objects on the kernel heap: threads and processes are named by their
addresses, an address can be used again after a `free`, and what is freed must not be touched. -/

namespace Pi0Os.Task.Objects

open Kernel Library

structure Thread where
  process : ℕ
  state : ThreadState

/-- `addressSpace` is the root table; the nodes of `exitListeners` lie on the stacks of the waiters. -/
structure Process where
  pid : ℕ
  exitCode : ℤ
  addressSpace : ℕ
  openfiles : Fin 16 → Option FileCustody
  exitListeners : IntrusiveLinkedList
  threads : List ℕ

/-- A thread inside `sys$waitexit`: the mutex that its listener releases, and for whom it waits. -/
structure Wait where
  taken : Bool
  -- ghost: the number of the call, and the process that it waits for
  call : ℕ
  pid : ℕ

inductive Cpu where
  | boot
  | loop (slot : ℕ)
  | running (slot : ℕ)
  | spinning -- in `spinlock_take` on a lock that nobody else can release
deriving DecidableEq

structure Tasks where
  threads : ℕ → Option Thread
  processes : ℕ → Option Process
  allThreads : List (Option ℕ) -- the slots below `s_all_threads_len`
  currentThread : ℕ
  hasStarted : Bool
  nextAvailablePid : ℕ
  loaded : ℕ -- the root table of `g_current_address_space`
  waits : ℕ → Option Wait -- by the address of the thread
  cpu : Cpu
  -- ghosts: the processes whose thread has exited, those whose thread was freed, and those torn down
  exited : List ℕ
  freed : List ℕ
  tornDown : List ℕ
  -- ghosts: the calls of `sys$waitexit` that wait or have waited, and those released
  waited : List (ℕ × ℕ)
  released : List (ℕ × ℕ)
  -- ghost: the root tables given to `vm_free`, each with the one loaded then
  vmFreed : List (ℕ × ℕ)

namespace Tasks

def kernelRoot : ℕ := 0

def initial : Tasks where
  threads _ := none
  processes _ := none
  allThreads := []
  currentThread := 0
  hasStarted := false
  nextAvailablePid := 0
  loaded := kernelRoot
  waits _ := none
  cpu := .boot
  exited := []
  freed := []
  tornDown := []
  waited := []
  released := []
  vmFreed := []

variable (s : Tasks)

def slot (i : ℕ) : Option ℕ := s.allThreads[i]?.join

def thread (t : ℕ) : Except Panic Thread :=
  match s.threads t with
  | some th => .ok th
  | none => .error (.undefined "a Thread that is gone")

def process (a : ℕ) : Except Panic Process :=
  match s.processes a with
  | some p => .ok p
  | none => .error (.undefined "a Process that is gone")

def setThread (t : ℕ) (th : Option Thread) : Tasks := { s with threads := Function.update s.threads t th }

def setProcess (a : ℕ) (p : Option Process) : Tasks := { s with processes := Function.update s.processes a p }

def setWait (t : ℕ) (w : Option Wait) : Tasks := { s with waits := Function.update s.waits t w }

/-- The node of a thread exists while the thread is inside `sys$waitexit`. -/
def alive (t : ℕ) : Bool := (s.waits t).isSome

def vmFree (root : ℕ) : Tasks := { s with vmFreed := (root, s.loaded) :: s.vmFreed }

/-- The callback of a listener releases the mutex of its waiter; `pid` is the process that calls it. -/
def release (t pid : ℕ) : Tasks :=
  match s.waits t with
  | none => s
  | some w => { s.setWait t (some { w with taken := false }) with released := (w.call, pid) :: s.released }

end Tasks

open Tasks

/-- `pop`, which writes to the neighbours of the node. -/
def popListener (s : Tasks) (l : IntrusiveLinkedList) : Except Panic (Option (ℕ × IntrusiveLinkedList)) :=
  match l.head with
  | none => .ok none
  | some node => do
    panicIf IntrusiveLinkedList.deadNode (¬ s.alive node)
    panicIf IntrusiveLinkedList.deadNode (¬ ((l.prev node).all s.alive ∧ (l.next node).all s.alive))
    return some (node, l.remove node)

/-- The loop of `free_process` over the listeners. -/
def releaseListeners (a : ℕ) : ℕ → Tasks → Except Panic Tasks
  | 0, _ => .error (.undefined "the loop does not end")
  | fuel + 1, s => do
    let p ← s.process a
    match ← popListener s p.exitListeners with
    | none => return s
    | some (node, l) =>
      releaseListeners a fuel ((s.setProcess a (some { p with exitListeners := l })).release node p.pid)

/-- One listener for each of the other threads. -/
abbrev maxListeners : ℕ := maxThreads + 1

mutual

/-- `n` bounds the nesting of the calls. -/
def freeThread : ℕ → ℕ → Tasks → Except Panic Tasks
  | 0, _, _ => .error (.undefined "nested calls")
  | n + 1, t, s => do
    let thread ← s.thread t
    let parent := thread.process
    let s := s.setThread t none
    let p ← s.process parent
    let threads := arraySwapRemove p.threads (p.threads.idxOf t)
    let s := s.setProcess parent (some { p with threads := threads })
    let s := { s with
      allThreads := s.allThreads.set (s.allThreads.idxOf (some t)) none
      freed := p.pid :: s.freed }
    if threads.isEmpty then freeProcess n parent s else return s

def freeProcess : ℕ → ℕ → Tasks → Except Panic Tasks
  | 0, _, _ => .error (.undefined "nested calls")
  | n + 1, a, s => do
    let s ← releaseListeners a maxListeners s
    let s ← freeThreads n a 0 s
    -- its array of threads, files and working directory go with the process
    let p ← s.process a
    let s := s.vmFree p.addressSpace
    return { s.setProcess a none with tornDown := p.pid :: s.tornDown }

/-- The loop of `free_process` over its threads, from the `i`-th on. -/
def freeThreads : ℕ → ℕ → ℕ → Tasks → Except Panic Tasks
  | 0, _, _, _ => .error (.undefined "nested calls")
  | n + 1, a, i, s => do
    let p ← s.process a
    if i < p.threads.length then
      let s ← freeThread n (p.threads.headD 0) s
      freeThreads n a (i + 1) s
    else return s

end

abbrev maxNesting : ℕ := 8

def registerThread (t : ℕ) (s : Tasks) : Except Panic Tasks := do
  kassert "s_all_threads_len < array_size(s_all_threads)" (s.allThreads.length < maxThreads)
  return { s with allThreads := s.allThreads ++ [some t] }

def lookupProcessByPid (s : Tasks) (pid : ℤ) : List (Option ℕ) → Except Panic (Option ℕ)
  | [] => .ok none
  | none :: slots => lookupProcessByPid s pid slots
  | some t :: slots => do
    let thread ← s.thread t
    let p ← s.process thread.process
    if p.pid = pid then return some thread.process else lookupProcessByPid s pid slots

def isZombie (s : Tasks) : List ℕ → Except Panic Bool
  | [] => .ok true
  | t :: threads => do
    let thread ← s.thread t
    if thread.state ≠ .zombie then return false else isZombie s threads

/-- The answers that `alloc_process` gets; `process` comes with the bytes found in the place of
`process_exit_listeners`, which are left as they are. -/
structure AllocEnv where
  process : Option (ℕ × IntrusiveLinkedList)
  threadsArray : Bool
  thread : Option ℕ
  workingDirectory : Bool
  addressSpace : Option ℕ
  kernelStack : Bool
  userStackPages : Bool

def allocProcess (env : AllocEnv) (s : Tasks) : Except Panic (Option (ℕ × ℕ) × Tasks) :=
  match env.process with
  | none => .ok (none, s)
  | some (a, listeners) =>
    match env.thread, env.addressSpace with
    | some t, some root => do
      -- the cleanup frees the address space before it is set
      panicIf (.undefined "vm_free before vm_create_address_space") (¬ env.threadsArray ∨ ¬ env.workingDirectory)
      let pid := s.nextAvailablePid
      let s := { s with nextAvailablePid := pid + 1 }
      if env.kernelStack ∧ env.userStackPages then
        let s := s.setProcess a (some ⟨pid, 0, root, fun _ => none, listeners, [t]⟩)
        return (some (a, t), s.setThread t (some ⟨a, .suspended⟩))
      else return (none, s.vmFree root)
    | _, _ => .error (.undefined "vm_free before vm_create_address_space")

/-- `log` holds the results of the three `vfs_open("/dev/kernel_log", ..)`. -/
def createFirstProcess (env : AllocEnv) (log : Fin 3 → Except ℤ FileCustody) (s : Tasks) : Except Panic Tasks := do
  match ← allocProcess env s with
  | (none, _) => .error (.assertion "stage2 != nullptr")
  | (some (a, t), s) =>
    let s ← registerThread t s
    match log 0, log 1, log 2 with
    | .ok stdin, .ok stdout, .ok stderr =>
      let p ← s.process a
      let s := s.setProcess a (some { p with openfiles := standardFiles stdin stdout stderr })
      return { s.setThread t (some ⟨a, .runnable⟩) with currentThread := t, cpu := .loop 0 }
    | _, _, _ => .error (.assertion "rc == 0")

structure ForkEnv where
  alloc : AllocEnv
  workingDirectory : Bool
  duplicate : Fin 16 → Option FileCustody
  vmFork : Bool

def sysFork (env : ForkEnv) (s : Tasks) : Except Panic (ℤ × Tasks) := do
  let current ← s.thread s.currentThread
  let parent ← s.process current.process
  match ← allocProcess env.alloc s with
  | (none, _) => .error (.undefined "free_process(nullptr)")
  | (some (a, t), s) =>
    let forked ← s.process a
    match duplicateFiles env.duplicate parent.openfiles with
    | some files =>
      if env.workingDirectory ∧ env.vmFork then
        let s := s.setProcess a (some { forked with openfiles := files })
        let s ← registerThread t (s.setThread t (some ⟨a, .runnable⟩))
        return (forked.pid, s)
      else return (-Err.noMem, ← freeProcess maxNesting a s)
    | none => return (-Err.noMem, ← freeProcess maxNesting a s)

def sysExecve (env : ExecveEnv) (userArgv userEnvp : List CString) (s : Tasks) : Except Panic (ℤ × Tasks) := do
  let current ← s.thread s.currentThread
  let p ← s.process current.process
  match ← cloneUserArrayOfStrings env.argv userArgv with
  | .error _ => .error (.undefined "vm_free before vm_create_address_space")
  | .ok _ =>
    match ← cloneUserArrayOfStrings env.envp userEnvp with
    | .error _ => .error (.undefined "vm_free before vm_create_address_space")
    | .ok _ =>
      match env.addressSpace with
      | none => .error (.undefined "vm_free before vm_create_address_space")
      | some newAs =>
        match ← env.elfLoad with
        | .error rc => return (rc, s.vmFree newAs)
        | .ok _ =>
          if ¬ env.userStackPages then return (-Err.noMem, s.vmFree newAs)
          panicIf (.message "execve for multiple threads not implemented") (1 < p.threads.length)
          let s := { s.setProcess current.process (some { p with addressSpace := newAs }) with loaded := newAs }
          let s := s.vmFree p.addressSpace
          env.stackWrites
          return (0, s)

def nextSlot (slot : ℕ) : ℕ := (slot + 1) % maxThreads

/-- The thread of `slot` gives way to the scheduler. -/
def switchBack (s : Tasks) (slot : ℕ) : Tasks := { s with cpu := .loop (nextSlot slot), hasStarted := true }

def sysExit (slot : ℕ) (exitCode : ℤ) (s : Tasks) : Except Panic Tasks := do
  let current ← s.thread s.currentThread
  let p ← s.process current.process
  let s := s.setThread s.currentThread (some { current with state := .zombie })
  let s := s.setProcess current.process (some { p with exitCode := exitCode })
  return switchBack { s with exited := p.pid :: s.exited } slot

/-- `sys$waitexit` up to where it returns or waits. -/
def sysWaitexit (slot : ℕ) (pid : ℤ) (s : Tasks) : Except Panic (Option ℤ × Tasks) := do
  match ← lookupProcessByPid s pid s.allThreads with
  | none => return (some (-Err.inval), s)
  | some a =>
    let p ← s.process a
    if ← isZombie s p.threads then return (some 0, s)
    else
      panicIf IntrusiveLinkedList.deadNode (¬ p.exitListeners.head.all s.alive)
      let call := s.waited.length
      let s := s.setProcess a (some { p with exitListeners := p.exitListeners.add s.currentThread })
      let s := s.setWait s.currentThread (some ⟨true, call, p.pid⟩)
      let s := { s with waited := (call, p.pid) :: s.waited }
      -- `mutex_take`
      if s.hasStarted then return (none, switchBack s slot)
      else return (none, { s with cpu := .spinning })

/-- The body of the loop of `scheduler_start`, up to where it switches to a thread. -/
def schedulerBody (slot : ℕ) (s : Tasks) : Except Panic Tasks :=
  match s.slot slot with
  | none => .ok { s with cpu := .loop (nextSlot slot) }
  | some t => do
    let thread ← s.thread t
    match thread.state with
    | .zombie =>
      let s ← freeThread maxNesting t s
      return { s with allThreads := s.allThreads.set slot none, cpu := .loop (nextSlot slot) }
    | .suspended => return { s with cpu := .loop (nextSlot slot) }
    | .runnable =>
      let p ← s.process thread.process
      return { s with loaded := p.addressSpace, currentThread := t, cpu := .running slot }

inductive Act where
  | boot (env : AllocEnv) (log : Fin 3 → Except ℤ FileCustody)
  | schedule
  | yield
  | exit (exitCode : ℤ)
  | fork (env : ForkEnv)
  | execve (env : ExecveEnv) (argv envp : List CString)
  | waitexit (pid : ℤ)
  | resume

/-- What the allocators hand out is in use by nobody else. -/
structure Fresh (s : Tasks) (process thread root : Option ℕ) : Prop where
  process : ∀ a ∈ process, s.processes a = none
  thread : ∀ t ∈ thread, s.threads t = none
  root : ∀ r ∈ root, r ≠ kernelRoot ∧ ∀ a p, s.processes a = some p → p.addressSpace ≠ r

def AllocEnv.Fresh (env : AllocEnv) (s : Tasks) : Prop :=
  Objects.Fresh s (env.process.map Prod.fst) env.thread env.addressSpace

/-- A thread that runs makes a call, or goes on inside `sys$waitexit` when it is switched to there. -/
inductive Step : Tasks → Act → Tasks → Prop
  | boot {s s' env log} : s.cpu = .boot → env.Fresh s → createFirstProcess env log s = .ok s' →
      Step s (.boot env log) s'
  | schedule {s s' slot} : s.cpu = .loop slot → schedulerBody slot s = .ok s' → Step s .schedule s'
  | yield {s slot} : s.cpu = .running slot → s.waits s.currentThread = none → Step s .yield (switchBack s slot)
  | exit {s s' slot exitCode} : s.cpu = .running slot → s.waits s.currentThread = none →
      sysExit slot exitCode s = .ok s' → Step s (.exit exitCode) s'
  | fork {s s' env rc} : (∃ slot, s.cpu = .running slot) → s.waits s.currentThread = none → env.alloc.Fresh s →
      sysFork env s = .ok (rc, s') → Step s (.fork env) s'
  | execve {s s' env argv envp rc} : (∃ slot, s.cpu = .running slot) → s.waits s.currentThread = none →
      Objects.Fresh s none none env.addressSpace → sysExecve env argv envp s = .ok (rc, s') →
      Step s (.execve env argv envp) s'
  | waitexit {s s' slot pid rc} : s.cpu = .running slot → s.waits s.currentThread = none →
      sysWaitexit slot pid s = .ok (rc, s') → Step s (.waitexit pid) s'
  | spin {s slot w} : s.cpu = .running slot → s.waits s.currentThread = some w → w.taken = true →
      Step s .resume (switchBack s slot)
  | woken {s slot w} : s.cpu = .running slot → s.waits s.currentThread = some w → w.taken = false →
      Step s .resume (s.setWait s.currentThread none)

def tasks : TransitionSystem Tasks Act where
  Init s := s = initial
  Step := Step

end Pi0Os.Task.Objects
