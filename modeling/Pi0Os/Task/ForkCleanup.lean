import Pi0Os.Task.ThreadTable
import Pi0Os.Library.Outcomes

/-! `sys$fork` with all that it acquires for the child, and what its failure paths do with it. Pointers are addresses,
`none` is the null pointer, and a field that was never initialised has no value. -/

namespace Pi0Os.Task.ForkCleanup

open Kernel Library

/-- What is acquired besides the `Process` and the `Thread`. -/
inductive Block where
  | threadsArray (a : ℕ)
  | string (a : ℕ)
  | addressSpace (root : ℕ)
  | kernelStack (ptr : ℕ)
deriving DecidableEq

structure Thread where
  process : Option ℕ
  kernelStackPtr : Option (Option ℕ)

structure Process where
  pid : ℕ
  addressSpace : Option ℕ -- never initialised before `vm_create_address_space`
  openfiles : Fin 16 → Option ℕ
  workingDirectory : Option ℕ
  exitListeners : Option ℕ -- the word that `malloc` has left there
  threads : Option (ℕ × List ℕ) -- `data` with its elements

structure Tasks where
  processes : ℕ → Option Process
  threads : ℕ → Option Thread
  blocks : Block → Bool
  custodies : ℕ → Option ℕ -- each with its inode
  refcount : ℕ → ℕ -- of the inodes
  allThreads : List (Option ℕ)
  nextAvailablePid : ℕ
  currentProcess : ℕ

namespace Tasks

variable (s : Tasks)

def process (a : ℕ) : Except Panic Process :=
  match s.processes a with
  | some p => .ok p
  | none => .error (.undefined "a Process that is gone")

def thread (t : ℕ) : Except Panic Thread :=
  match s.threads t with
  | some th => .ok th
  | none => .error (.undefined "a Thread that is gone")

def setProcess (a : ℕ) (p : Option Process) : Tasks := { s with processes := Function.update s.processes a p }

def setThread (t : ℕ) (th : Option Thread) : Tasks := { s with threads := Function.update s.threads t th }

def allocate (b : Option Block) : Tasks :=
  match b with
  | none => s
  | some b => { s with blocks := Function.update s.blocks b true }

/-- `free`, `vm_free` and `free_kernel_stack`, which do nothing for the null pointer. -/
def free (b : Option Block) : Except Panic Tasks :=
  match b with
  | none => .ok s
  | some b =>
    if s.blocks b then .ok { s with blocks := Function.update s.blocks b false }
    else .error (.undefined "free of what is not allocated")

def freeProcessBlock (a : Option ℕ) : Except Panic Tasks :=
  match a with
  | none => .ok s
  | some a => do
    let _ ← s.process a
    return s.setProcess a none

def freeThreadBlock (t : Option ℕ) : Except Panic Tasks :=
  match t with
  | none => .ok s
  | some t => do
    let _ ← s.thread t
    return s.setThread t none

def inode (custody : ℕ) : Except Panic ℕ :=
  match s.custodies custody with
  | some inode => .ok inode
  | none => .error (.undefined "a FileCustody that is gone")

def vfsClose (custody : ℕ) : Except Panic Tasks := do
  let inode ← s.inode custody
  return { s with
    custodies := Function.update s.custodies custody none
    refcount := Function.update s.refcount inode (s.refcount inode - 1) }

/-- `malloc` has answered `dup`. -/
def vfsDuplicate (custody : ℕ) (dup : Option ℕ) : Except Panic Tasks :=
  match dup with
  | none => .ok s
  | some dup => do
    let inode ← s.inode custody
    return { s with
      custodies := Function.update s.custodies dup (some inode)
      refcount := Function.update s.refcount inode (s.refcount inode + 1) }

end Tasks

open Tasks

/-- A field that has to have been initialised. -/
def initialised {α : Type} (field : Option α) : Except Panic α :=
  match field with
  | some x => .ok x
  | none => .error (.undefined "a field that was never initialised")

/-- `threads.data[0]`. -/
def Process.firstThread (p : Process) : Except Panic ℕ := do
  let threads ← initialised p.threads
  initialised threads.2.head?

abbrev nestedCalls : Panic := .undefined "nested calls"

mutual

/-- `n` bounds the nesting of the calls. -/
def freeThread : ℕ → ℕ → Tasks → Except Panic Tasks
  | 0, _, _ => .error nestedCalls
  | n + 1, t, s => do
    let thread ← s.thread t
    let parent ← initialised thread.process
    let s ← s.freeThreadBlock (some t)
    let p ← s.process parent
    let (data, threads) ← initialised p.threads
    let threads := arraySwapRemove threads (threads.idxOf t)
    let s := s.setProcess parent (some { p with threads := some (data, threads) })
    let s := { s with allThreads := s.allThreads.set (s.allThreads.idxOf (some t)) none }
    if threads.isEmpty then freeProcess n (some parent) s else return s

def freeProcess : ℕ → Option ℕ → Tasks → Except Panic Tasks
  | 0, _, _ => .error nestedCalls
  | _ + 1, none, _ => .error (.undefined "a null Process")
  | n + 1, some a, s => do
    let p ← s.process a
    -- `pop` follows the first node
    panicIf (.undefined "a listener that was never added") (p.exitListeners ≠ none)
    let s ← freeThreads n a 0 s
    let p ← s.process a
    let (data, _) ← initialised p.threads
    let s ← s.free (some (.threadsArray data))
    let s ← ((List.finRange 16).filterMap p.openfiles).foldlM vfsClose s
    let root ← initialised p.addressSpace
    let s ← s.free (some (.addressSpace root))
    let s ← s.free (p.workingDirectory.map .string)
    s.freeProcessBlock (some a)

/-- The loop of `free_process` over its threads, from the `i`-th on. -/
def freeThreads : ℕ → ℕ → ℕ → Tasks → Except Panic Tasks
  | 0, _, _, _ => .error nestedCalls
  | n + 1, a, i, s => do
    let p ← s.process a
    let (_, threads) ← initialised p.threads
    if i < threads.length then
      let t ← p.firstThread
      let s ← freeThread n t s
      freeThreads n a (i + 1) s
    else return s

end

abbrev maxNesting : ℕ := 8

/-- The answers that `alloc_process` gets. The word that `malloc` finds in the place of `process_exit_listeners` is
`found`. -/
structure AllocEnv where
  process : Option ℕ
  found : Option ℕ
  threadsArray : Option ℕ
  thread : Option ℕ
  rootDirectory : Option ℕ
  addressSpace : Option ℕ
  kernelStack : Option ℕ
  userStack : Bool

/-- One of the allocations of `alloc_process` fails. -/
def AllocEnv.Fails (env : AllocEnv) : Prop :=
  env.process = none ∨ env.threadsArray = none ∨ env.thread = none ∨ env.rootDirectory = none ∨
    env.addressSpace = none ∨ env.kernelStack = none ∨ env.userStack = false

/-- `vm_free` and `free_kernel_stack` under the label `cleanup` of `alloc_process`. -/
def freeContents (s : Tasks) : Option ℕ → Except Panic Tasks
  | none => .ok s
  | some a => do
    let p ← s.process a
    let root ← initialised p.addressSpace
    let s ← s.free (some (.addressSpace root))
    let thread ← s.thread (← p.firstThread)
    s.free ((← initialised thread.kernelStackPtr).map .kernelStack)

/-- The label `cleanup` of `alloc_process`. -/
def cleanup (env : AllocEnv) (s : Tasks) : Except Panic (Option ℕ × Tasks) := do
  let s ← freeContents s env.process
  let s ← s.freeProcessBlock env.process
  let s ← s.free (env.threadsArray.map .threadsArray)
  let s ← s.freeThreadBlock env.thread
  return (none, s)

/-- The three calls of `malloc`. -/
def mallocs (env : AllocEnv) (s : Tasks) : Tasks :=
  let s := match env.process with
    | none => s
    | some a => s.setProcess a (some ⟨0, none, fun _ => none, none, env.found, none⟩)
  let s := s.allocate (env.threadsArray.map .threadsArray)
  match env.thread with
  | none => s
  | some t => s.setThread t (some ⟨none, none⟩)

def allocProcess (env : AllocEnv) (s : Tasks) : Except Panic (Option ℕ × Tasks) :=
  let s := mallocs env s
  match env.process, env.threadsArray, env.thread with
  | some a, some data, some t =>
    let pid := s.nextAvailablePid
    let s := { s with nextAvailablePid := pid + 1 }
    let p : Process := ⟨pid, none, fun _ => none, env.rootDirectory, env.found, none⟩
    let s := (s.allocate (env.rootDirectory.map .string)).setProcess a (some p)
    if env.rootDirectory = none then cleanup env s
    else
      match env.addressSpace with
      | none => cleanup env s
      | some root =>
        let s := s.allocate (some (.addressSpace root))
        let s := s.setProcess a (some { p with addressSpace := some root, threads := some (data, [t]) })
        let s := (s.allocate (env.kernelStack.map .kernelStack)).setThread t (some ⟨some a, some env.kernelStack⟩)
        if env.kernelStack = none ∨ ¬ env.userStack then cleanup env s else .ok (some a, s)
  | _, _, _ => cleanup env s

/-- The loop over the open files of the parent; the last one is null where `vfs_duplicate` has failed. -/
def duplicateFiles (dups : Fin 16 → Option ℕ) (files : Fin 16 → Option ℕ) (a : ℕ) :
    List (Fin 16) → Tasks → Except Panic (Bool × Tasks)
  | [], s => .ok (true, s)
  | i :: rest, s =>
    match files i with
    | none => duplicateFiles dups files a rest s
    | some custody => do
      let s ← s.vfsDuplicate custody (dups i)
      let p ← s.process a
      let s := s.setProcess a (some { p with openfiles := Function.update p.openfiles i (dups i) })
      if dups i = none then return (false, s) else duplicateFiles dups files a rest s

structure ForkEnv where
  alloc : AllocEnv
  workingDirectory : Option ℕ
  duplicate : Fin 16 → Option ℕ
  vmFork : Bool

/-- The label `failed` of `sys$fork`. -/
def failed (forked : Option ℕ) (s : Tasks) : Except Panic (ℤ × Tasks) := do
  return (-Err.noMem, ← freeProcess maxNesting forked s)

def sysFork (env : ForkEnv) (s : Tasks) : Except Panic (ℤ × Tasks) := do
  let parent ← s.process s.currentProcess
  let (forked, s) ← allocProcess env.alloc s
  match forked with
  | none => failed none s
  | some a =>
    let p ← s.process a
    let s ← s.free (p.workingDirectory.map .string)
    let s := (s.allocate (env.workingDirectory.map .string)).setProcess a
      (some { p with workingDirectory := env.workingDirectory })
    if env.workingDirectory = none then failed (some a) s
    else
      match ← duplicateFiles env.duplicate parent.openfiles a (List.finRange 16) s with
      | (false, s) => failed (some a) s
      | (true, s) =>
        let p ← s.process a
        let t ← p.firstThread
        if ¬ env.vmFork then failed (some a) s
        else
          kassert "s_all_threads_len < array_size(s_all_threads)" (s.allThreads.length < maxThreads)
          return (p.pid, { s with allThreads := s.allThreads ++ [some t] })

/-- One of the allocations that the call asks for fails. -/
def ForkEnv.Fails (env : ForkEnv) (parent : Process) : Prop :=
  env.alloc.Fails ∨ env.workingDirectory = none ∨ (∃ i, (parent.openfiles i).isSome ∧ env.duplicate i = none) ∨
    env.vmFork = false

/-- The call returns a negative code, and everything but the number of the next process is as it was: all that was
acquired has been released, and what is released twice is undefined. -/
def LeavesNothing (env : ForkEnv) (s : Tasks) : Prop :=
  ∃ rc s', sysFork env s = .ok (rc, s') ∧ rc < 0 ∧ s' = { s with nextAvailablePid := s'.nextAvailablePid }

variable {s : Tasks} {env : ForkEnv} {p parent : Process} {a t data : ℕ}

section Steps

lemma process_ends (s : Tasks) (a : ℕ) : Ends nestedCalls (fun p => s.processes a = some p) (s.process a) := by
  unfold Tasks.process
  cases s.processes a with
  | none => exact .error (by decide)
  | some p => exact .ok rfl

lemma thread_ends (s : Tasks) (t : ℕ) : Ends nestedCalls (fun th => s.threads t = some th) (s.thread t) := by
  unfold Tasks.thread
  cases s.threads t with
  | none => exact .error (by decide)
  | some th => exact .ok rfl

lemma inode_ends (s : Tasks) (custody : ℕ) : Ends nestedCalls (fun _ => True) (s.inode custody) := by
  unfold Tasks.inode
  cases s.custodies custody with
  | none => exact .error (by decide)
  | some inode => exact .ok trivial

lemma initialised_ends {α : Type} (field : Option α) :
    Ends nestedCalls (fun x => field = some x) (initialised field) := by
  cases field with
  | none => exact .error (by decide)
  | some x => exact .ok rfl

lemma firstThread_ends (p : Process) : Ends nestedCalls (fun _ => True) p.firstThread :=
  (initialised_ends p.threads).bind fun threads _ => (initialised_ends threads.2.head?).mono fun _ _ => trivial

/-- `s'` has the processes and threads of `s`. -/
def SameTasks (s s' : Tasks) : Prop := s'.processes = s.processes ∧ s'.threads = s.threads

lemma allocate_same (s : Tasks) (b : Option Block) : SameTasks s (s.allocate b) := by
  cases b with
  | none => exact ⟨rfl, rfl⟩
  | some b => exact ⟨rfl, rfl⟩

lemma free_ends (s : Tasks) (b : Option Block) : Ends nestedCalls (SameTasks s) (s.free b) := by
  cases b with
  | none => exact .ok ⟨rfl, rfl⟩
  | some b =>
    simp only [Tasks.free]
    by_cases hb : s.blocks b = true
    · rw [if_pos hb]
      exact .ok ⟨rfl, rfl⟩
    · rw [if_neg hb]
      exact .error (by decide)

lemma vfsClose_ends (s : Tasks) (custody : ℕ) : Ends nestedCalls (fun _ => True) (s.vfsClose custody) :=
  (inode_ends s custody).bind fun _ _ => .ok trivial

lemma vfsDuplicate_ends (s : Tasks) (custody : ℕ) (dup : Option ℕ) :
    Ends nestedCalls (SameTasks s) (s.vfsDuplicate custody dup) := by
  cases dup with
  | none => exact .ok ⟨rfl, rfl⟩
  | some dup => exact (inode_ends s custody).bind fun _ _ => .ok ⟨rfl, rfl⟩

lemma freeProcessBlock_ends (s : Tasks) (a : ℕ) :
    Ends nestedCalls (fun s' => s'.processes a = none) (s.freeProcessBlock (some a)) :=
  (process_ends s a).bind fun _ _ => .ok (by simp [Tasks.setProcess])

lemma freeThreadBlock_ends (s : Tasks) (t : Option ℕ) :
    Ends nestedCalls (fun s' => s'.processes = s.processes) (s.freeThreadBlock t) := by
  cases t with
  | none => exact .ok rfl
  | some t => exact (thread_ends s t).bind fun _ _ => .ok rfl

lemma panicIf_ends {what : String} {cond : Prop} [Decidable cond] (h : what ≠ "nested calls") :
    Ends nestedCalls (fun _ => True) (panicIf (.undefined what) cond) := by
  unfold panicIf
  by_cases hc : cond
  · rw [if_pos hc]
    exact .error fun he => h (Panic.undefined.inj he)
  · rw [if_neg hc]
    exact .ok trivial

end Steps

lemma freeThreads_none (hp : s.processes a = some p) (hthreads : p.threads = some (data, [])) (n i : ℕ) :
    freeThreads (n + 1) a i s = .ok s := by
  simp [freeThreads, Tasks.process, hp, hthreads, initialised]

lemma freeThreads_gone (ha : s.processes a = none) (n i : ℕ) :
    Ends nestedCalls (fun _ => False) (freeThreads (n + 1) a i s) := by
  simp only [freeThreads, Tasks.process, ha, error_bind]
  exact .error (by decide)

/-- What `free_process` does after its threads. -/
lemma freeProcess_ends (n : ℕ) (hloop : Ends nestedCalls (fun _ => True) (freeThreads n a 0 s)) :
    Ends nestedCalls (fun s' => s'.processes a = none) (freeProcess (n + 1) (some a) s) := by
  unfold freeProcess
  refine (process_ends s a).bind fun p _ => (panicIf_ends (by decide)).bind fun _ _ => hloop.bind fun s _ => ?_
  refine (process_ends s a).bind fun p _ => (initialised_ends p.threads).bind fun threads _ => ?_
  refine (free_ends s _).bind fun s _ => ?_
  refine (Ends.foldlM (fun s c _ => vfsClose_ends s c) trivial _).bind fun s _ => ?_
  refine (initialised_ends p.addressSpace).bind fun root _ => (free_ends s _).bind fun s _ => ?_
  exact (free_ends s _).bind fun s _ => freeProcessBlock_ends s a

/-- A thread that is the only one of its process. -/
structure OnlyThread (s : Tasks) (a t : ℕ) : Prop where
  process : ∃ p data, s.processes a = some p ∧ p.threads = some (data, [t])
  thread : ∃ stack, s.threads t = some ⟨some a, stack⟩

lemma OnlyThread.same {s' : Tasks} (h : OnlyThread s a t) (hs : SameTasks s s') : OnlyThread s' a t := by
  obtain ⟨hprocesses, hthreads⟩ := hs
  refine ⟨?_, ?_⟩
  · rw [hprocesses]
    exact h.process
  · rw [hthreads]
    exact h.thread

lemma OnlyThread.setProcess (h : OnlyThread s a t) (hp : s.processes a = some p) (p' : Process)
    (hthreads : p'.threads = p.threads) : OnlyThread (s.setProcess a (some p')) a t := by
  obtain ⟨⟨q, data, hq, hlist⟩, hthread⟩ := h
  rw [Option.some.inj (hp.symm.trans hq)] at hthreads
  exact ⟨⟨p', data, Function.update_self a _ _, hthreads.trans hlist⟩, hthread⟩

/-- With the last thread its process goes. -/
lemma freeThread_last (h : OnlyThread s a t) (n : ℕ) :
    Ends nestedCalls (fun s' => s'.processes a = none) (freeThread (n + 3) t s) := by
  obtain ⟨⟨p, data, hp, hthreads⟩, stack, ht⟩ := h
  have hswap : arraySwapRemove [t] ([t].idxOf t) = [] := by simp [arraySwapRemove]
  simp only [freeThread, Tasks.thread, Tasks.process, Tasks.freeThreadBlock, Tasks.setThread, Tasks.setProcess, ht, hp,
    hthreads, initialised, hswap, ok_bind, pure_eq_ok, List.isEmpty_nil, if_true]
  refine freeProcess_ends (n + 1) ?_
  have hp' := Function.update_self a (some { p with threads := some (data, []) }) s.processes
  rw [freeThreads_none hp' rfl]
  exact .ok trivial

/-- `free_process` and `free_thread` call each other over one process, and the outer of the two is left with a process
that is gone. -/
lemma freeProcess_only (h : OnlyThread s a t) (n : ℕ) :
    Ends nestedCalls (fun _ => False) (freeProcess (n + 5) (some a) s) := by
  obtain ⟨p, data, hp, hthreads⟩ := h.process
  have hloop : Ends nestedCalls (fun _ => False) (freeThreads (n + 4) a 0 s) := by
    simp only [freeThreads, Tasks.process, hp, hthreads, initialised, Process.firstThread, ok_bind,
      List.length_singleton, Nat.zero_lt_one, if_true, List.head?_cons]
    exact (freeThread_last h n).bind fun s' hs' => freeThreads_gone hs' _ _
  unfold freeProcess
  exact (process_ends s a).bind fun p _ => (panicIf_ends (by decide)).bind fun _ _ => hloop.bind_never

lemma failed_ends (forked : Option ℕ) (h : ∀ a, forked = some a → ∃ t, OnlyThread s a t) :
    Ends nestedCalls (fun _ => False) (failed forked s) := by
  unfold failed
  cases forked with
  | none => exact .error (by decide)
  | some a =>
    obtain ⟨t, ht⟩ := h a rfl
    exact (freeProcess_only ht 3).bind_never

section Alloc

variable {env : AllocEnv}

lemma freeContents_ends (s : Tasks) (process : Option ℕ) :
    Ends nestedCalls (fun _ => True) (freeContents s process) := by
  cases process with
  | none => exact .ok trivial
  | some a =>
    refine (process_ends s a).bind fun p _ => (initialised_ends p.addressSpace).bind fun root _ => ?_
    refine (free_ends s _).bind fun s _ => (firstThread_ends p).bind fun t _ => ?_
    refine (thread_ends s t).bind fun th _ => (initialised_ends th.kernelStackPtr).bind fun stack _ => ?_
    exact (free_ends s _).mono fun _ _ => trivial

lemma cleanup_ends (env : AllocEnv) (s : Tasks) : Ends nestedCalls (fun r => r.1 = none) (cleanup env s) := by
  have hprocess : ∀ s : Tasks, Ends nestedCalls (fun _ => True) (s.freeProcessBlock env.process) := by
    intro s
    cases env.process with
    | none => exact .ok trivial
    | some a => exact (freeProcessBlock_ends s a).mono fun _ _ => trivial
  refine (freeContents_ends s env.process).bind fun s _ => (hprocess s).bind fun s _ => ?_
  exact (free_ends s _).bind fun s _ => (freeThreadBlock_ends s _).bind fun s _ => .ok rfl

/-- What `alloc_process` returns is null after a failure, and a process of one thread otherwise. -/
lemma allocProcess_ends (env : AllocEnv) (s : Tasks) :
    Ends nestedCalls (fun r => ∀ a, r.1 = some a → ¬ env.Fails ∧ ∃ t, OnlyThread r.2 a t) (allocProcess env s) := by
  have hcleanup : ∀ s : Tasks, Ends nestedCalls (fun r => ∀ a, r.1 = some a → ¬ env.Fails ∧ ∃ t, OnlyThread r.2 a t)
      (cleanup env s) := fun s => (cleanup_ends env s).mono fun r hr a ha => absurd (hr.symm.trans ha) (by simp)
  obtain ⟨process, found, threadsArray, thread, rootDirectory, addressSpace, kernelStack, userStack⟩ := env
  cases process with
  | none => exact hcleanup _
  | some a =>
  cases threadsArray with
  | none => exact hcleanup _
  | some data =>
  cases thread with
  | none => exact hcleanup _
  | some t =>
  cases rootDirectory with
  | none => exact hcleanup _
  | some root =>
  cases addressSpace with
  | none => exact hcleanup _
  | some space =>
  cases kernelStack with
  | none => exact hcleanup _
  | some stack =>
  cases userStack with
  | false => exact hcleanup _
  | true =>
    refine Ends.ok fun a' ha' => ?_
    cases ha'
    refine ⟨by simp [AllocEnv.Fails], t, ?_, ?_⟩
    · exact ⟨_, data, Function.update_self a _ _, rfl⟩
    · exact ⟨_, Function.update_self t _ _⟩

lemma allocProcess_ok (h : ¬ env.Fails) (s : Tasks) :
    ∃ a s' p root, allocProcess env s = .ok (some a, s') ∧ s'.processes a = some p ∧ p.workingDirectory = some root ∧
      s'.blocks (.string root) = true ∧ p.pid = s.nextAvailablePid ∧ (∃ data t, p.threads = some (data, [t])) ∧
      s'.custodies = s.custodies ∧ s'.allThreads = s.allThreads := by
  obtain ⟨process, found, threadsArray, thread, rootDirectory, addressSpace, kernelStack, userStack⟩ := env
  simp only [AllocEnv.Fails, not_or, ← ne_eq, Option.ne_none_iff_exists', Bool.not_eq_false] at h
  obtain ⟨⟨a, rfl⟩, ⟨data, rfl⟩, ⟨t, rfl⟩, ⟨root, rfl⟩, ⟨space, rfl⟩, ⟨stack, rfl⟩, rfl⟩ := h
  refine ⟨a, _, _, root, rfl, Function.update_self a _ _, rfl, ?_, rfl, ⟨data, t, rfl⟩, rfl, rfl⟩
  simp [mallocs, Tasks.allocate, Tasks.setProcess, Tasks.setThread]

end Alloc

/-- The loop is through only if every open file has been duplicated. -/
lemma duplicateFiles_ends (dups files : Fin 16 → Option ℕ) (l : List (Fin 16)) (h : OnlyThread s a t) :
    Ends nestedCalls (fun r => OnlyThread r.2 a t ∧ (r.1 = true → ∀ i ∈ l, (files i).isSome → dups i ≠ none))
      (duplicateFiles dups files a l s) := by
  induction l generalizing s with
  | nil => exact .ok ⟨h, fun _ i hi => absurd hi List.not_mem_nil⟩
  | cons i rest ih =>
    unfold duplicateFiles
    cases hi : files i with
    | none =>
      refine (ih h).mono fun r hr => ⟨hr.1, fun htrue => ?_⟩
      rintro j (_ | ⟨_, hj⟩) hopen
      · rw [hi] at hopen
        cases hopen
      · exact hr.2 htrue j hj hopen
    | some custody =>
      refine (vfsDuplicate_ends s custody (dups i)).bind fun s₁ hs₁ => (process_ends s₁ a).bind fun p hp => ?_
      have h₂ := (h.same hs₁).setProcess hp { p with openfiles := Function.update p.openfiles i (dups i) } rfl
      by_cases hdup : dups i = none
      · simp only [if_pos hdup]
        exact .ok ⟨h₂, fun hfalse => by cases hfalse⟩
      · simp only [if_neg hdup]
        refine (ih h₂).mono fun r hr => ⟨hr.1, fun htrue => ?_⟩
        rintro j (_ | ⟨_, hj⟩) hopen
        · exact hdup
        · exact hr.2 htrue j hj hopen

lemma sysFork_ends (hparent : s.processes s.currentProcess = some parent) (hfails : env.Fails parent) :
    Ends nestedCalls (fun _ => False) (sysFork env s) := by
  have hcurrent : s.process s.currentProcess = .ok parent := by simp [Tasks.process, hparent]
  simp only [sysFork, hcurrent, ok_bind]
  refine (allocProcess_ends env.alloc s).bind fun r hr => ?_
  obtain ⟨_ | a, s₁⟩ := r
  · exact failed_ends none fun a ha => absurd ha (by simp)
  obtain ⟨halloc, t, h₁⟩ := hr a rfl
  refine (process_ends s₁ a).bind fun p hp => (free_ends s₁ _).bind fun s₂ hs₂ => ?_
  have hs₃ := allocate_same s₂ (env.workingDirectory.map .string)
  have hp₃ : (s₂.allocate (env.workingDirectory.map .string)).processes a = some p := by rw [hs₃.1, hs₂.1, hp]
  have h₄ := ((h₁.same hs₂).same hs₃).setProcess hp₃ { p with workingDirectory := env.workingDirectory } rfl
  by_cases hdir : env.workingDirectory = none
  · simp only [if_pos hdir]
    exact failed_ends (some a) fun b hb => ⟨t, Option.some.inj hb ▸ h₄⟩
  simp only [if_neg hdir]
  refine (duplicateFiles_ends env.duplicate parent.openfiles (List.finRange 16) h₄).bind fun r hr => ?_
  obtain ⟨_ | _, s₅⟩ := r
  · exact failed_ends (some a) fun b hb => ⟨t, Option.some.inj hb ▸ hr.1⟩
  refine (process_ends s₅ a).bind fun p₅ _ => (firstThread_ends p₅).bind fun t₅ _ => ?_
  have hfork : env.vmFork = false := by
    obtain h | h | ⟨i, hopen, hdup⟩ | h := hfails
    · exact absurd h halloc
    · exact absurd h hdir
    · exact absurd hdup (hr.2 rfl i (List.mem_finRange i) hopen)
    · exact h
  simp only [hfork, Bool.false_eq_true, not_false_eq_true, if_true]
  exact failed_ends (some a) fun b hb => ⟨t, Option.some.inj hb ▸ hr.1⟩

lemma duplicateFiles_ok {dups files : Fin 16 → Option ℕ} (hdups : ∀ i, (files i).isSome → dups i ≠ none)
    (l : List (Fin 16)) (hfiles : ∀ i c, files i = some c → (s.custodies c).isSome) (hp : s.processes a = some p) :
    ∃ s' p', duplicateFiles dups files a l s = .ok (true, s') ∧ s'.processes a = some p' ∧ p'.pid = p.pid ∧
      p'.threads = p.threads ∧ s'.allThreads = s.allThreads := by
  induction l generalizing s p with
  | nil => exact ⟨s, p, rfl, hp, rfl, rfl, rfl⟩
  | cons i rest ih =>
    unfold duplicateFiles
    cases hi : files i with
    | none => exact ih hfiles hp
    | some custody =>
      obtain ⟨dup, hdup⟩ := Option.ne_none_iff_exists'.mp (hdups i (by simp [hi]))
      obtain ⟨inode, hinode⟩ := Option.isSome_iff_exists.mp (hfiles i custody hi)
      let p₁ : Process := { p with openfiles := Function.update p.openfiles i (some dup) }
      let s₁ : Tasks := { s with
        custodies := Function.update s.custodies dup (some inode)
        refcount := Function.update s.refcount inode (s.refcount inode + 1)
        processes := Function.update s.processes a (some p₁) }
      have hfiles₁ : ∀ j c, files j = some c → (s₁.custodies c).isSome := by
        intro j c hj
        by_cases hc : c = dup
        · simp [s₁, hc]
        · simpa [s₁, Function.update_of_ne hc] using hfiles j c hj
      obtain ⟨s', p', hrun, hp', hpid, hthreads, hall⟩ := ih (s := s₁) (p := p₁) hfiles₁ (by simp [s₁])
      refine ⟨s', p', ?_, hp', hpid, hthreads, hall⟩
      simpa [hdup, Tasks.vfsDuplicate, Tasks.inode, hinode, Tasks.process, hp, Tasks.setProcess, s₁, p₁] using hrun

/-- A call in which nothing fails returns the number of the child. -/
theorem sysFork_succeeds (hparent : s.processes s.currentProcess = some parent) (hfails : ¬ env.Fails parent)
    (hfiles : ∀ i c, parent.openfiles i = some c → (s.custodies c).isSome) (hroom : s.allThreads.length < maxThreads) :
    ∃ s', sysFork env s = .ok (s.nextAvailablePid, s') := by
  simp only [ForkEnv.Fails, not_or, not_exists, not_and, Bool.not_eq_false] at hfails
  obtain ⟨halloc, hdir, hdups, hfork⟩ := hfails
  obtain ⟨wd, hwd⟩ := Option.ne_none_iff_exists'.mp hdir
  obtain ⟨a, s₁, p, root, hrun, hp, hroot, hblock, hpid, ⟨data, t, hthreads⟩, hcustodies, hall⟩ :=
    allocProcess_ok halloc s
  let p₁ : Process := { p with workingDirectory := some wd }
  let s₂ : Tasks := { s₁ with
    blocks := Function.update (Function.update s₁.blocks (.string root) false) (.string wd) true
    processes := Function.update s₁.processes a (some p₁) }
  have hfiles₂ : ∀ i c, parent.openfiles i = some c → (s₂.custodies c).isSome :=
    fun i c hi => hcustodies ▸ hfiles i c hi
  obtain ⟨s₃, p₃, hloop, hp₃, hpid₃, hthreads₃, hall₃⟩ :=
    duplicateFiles_ok (p := p₁) hdups (List.finRange 16) hfiles₂ (Function.update_self a _ _)
  have hroom₃ : s₃.allThreads.length < maxThreads := by rwa [hall₃, show s₂.allThreads = s.allThreads from hall]
  have hpid₁ : p₃.pid = s.nextAvailablePid := hpid₃.trans hpid
  have hlist : p₃.threads = some (data, [t]) := hthreads₃.trans hthreads
  refine ⟨{ s₃ with allThreads := s₃.allThreads ++ [some t] }, ?_⟩
  simp only [sysFork, Tasks.process, hparent, ok_bind, hrun, hp, hroot, Tasks.free, Option.map_some, hblock, if_true,
    Tasks.allocate, Tasks.setProcess, hwd, reduceCtorEq, if_false]
  rw [hloop]
  simp [hp₃, Process.firstThread, hlist, initialised, hfork, kassert_of hroom₃, hpid₁]

/-- Every failure ends in an error of the memory: what is not allocated, or was never initialised, is used. -/
theorem sysFork_failing (hparent : s.processes s.currentProcess = some parent) (hfails : env.Fails parent) :
    (∃ e, e ≠ nestedCalls ∧ sysFork env s = .error e) ∧ ¬ LeavesNothing env s := by
  have herror := (sysFork_ends hparent hfails).exists_error
  refine ⟨herror, ?_⟩
  rintro ⟨rc, s', hok, -, -⟩
  obtain ⟨e, -, he⟩ := herror
  rw [he] at hok
  cases hok

/-- A process of one thread, with no open files. -/
def shell : Process := ⟨0, some 1, fun _ => none, some 1, none, some (1, [1])⟩

def onlyShell : Tasks where
  processes a := if a = 1 then some shell else none
  threads t := if t = 1 then some ⟨some 1, some (some 1)⟩ else none
  blocks b := b ∈ [.threadsArray 1, .string 1, .addressSpace 1, .kernelStack 1]
  custodies _ := none
  refcount _ := 0
  allThreads := [some 1]
  nextAvailablePid := 1
  currentProcess := 1

/-- Only `vm_fork` fails, or nothing. -/
def forkAnswers (vmFork : Bool) : ForkEnv :=
  ⟨⟨some 2, none, some 2, some 2, some 2, some 2, some 2, true⟩, some 3, fun _ => none, vmFork⟩

theorem sysFork_failing_vmFork :
    (∃ e, e ≠ nestedCalls ∧ sysFork (forkAnswers false) onlyShell = .error e) ∧
      ¬ LeavesNothing (forkAnswers false) onlyShell :=
  @sysFork_failing onlyShell (forkAnswers false) shell rfl (.inr (.inr (.inr rfl)))

/-- The process that the child's last thread has taken along is looked at again. -/
theorem sysFork_vmFork_gone :
    (∃ parent, onlyShell.processes onlyShell.currentProcess = some parent ∧ (forkAnswers false).Fails parent) ∧
      sysFork (forkAnswers false) onlyShell = .error (.undefined "a Process that is gone") ∧
      ¬ LeavesNothing (forkAnswers false) onlyShell := by
  have hrun : sysFork (forkAnswers false) onlyShell = .error (.undefined "a Process that is gone") := rfl
  refine ⟨⟨shell, rfl, .inr (.inr (.inr rfl))⟩, hrun, ?_⟩
  rintro ⟨rc, s', hok, -, -⟩
  rw [hrun] at hok
  cases hok

example : (sysFork (forkAnswers true) onlyShell).map Prod.fst = .ok 1 := rfl

end Pi0Os.Task.ForkCleanup
