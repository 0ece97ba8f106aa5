import Mathlib.Logic.Relation
import Pi0Os.Memory.AddressSpaceTeardown
import Pi0Os.Task.ThreadTable

/-! The physical pages of a process: those `sys$fork` acquires, and those the scheduler gives back when
it reaps the thread. A kernel stack is named by its page; what it holds is in the `iframe` of its
thread, and no table lies there. -/

namespace Pi0Os.Task

open Kernel Library Memory

structure Machine where
  sched : Scheduler
  vm : Vm

def allocKernelStack (s : Vm) : Except Panic (Option ℕ × Vm) := do
  match ← physicalPageAlloc .kb4 s.pages with
  | (none, pages) => return (none, { s with pages := pages })
  | (some page, pages) =>
    let s := { s with pages := pages }
    let _ ← phys2virt s (← page2addr s.pages page)
    return (some page, s)

/-- The first loop of `alloc_thread_user_stack`, with `n` pages to go. -/
def allocStackPages : ℕ → List ℕ → PageAllocator → Except Panic (Option (List ℕ) × PageAllocator)
  | 0, pages, s => .ok (some pages, s)
  | n + 1, pages, s => do
    match ← physicalPageAlloc .kb4 s with
    | (none, s) =>
      let s ← pages.foldlM (fun s page => physicalPageFree page .kb4 s) s
      return (none, s)
    | (some page, s) => allocStackPages n (pages ++ [page]) s

/-- The second loop, from the `i`-th page. -/
def mapStackPages (as startaddr : ℕ) : ℕ → List ℕ → Vm → Except Panic Vm
  | _, [], s => .ok s
  | i, page :: pages, s => do
    let virt := sub32 startaddr ((i + 1) * size4KB)
    let s ← vmMap s as page virt .userFullAccess
    mapStackPages as startaddr (i + 1) pages s

def allocUserStackPages (as tid : ℕ) (s : Vm) : Except Panic (Bool × Vm) := do
  match ← allocStackPages 4 [] s.pages with
  | (none, a) => return (false, { s with pages := a })
  | (some pages, a) =>
    let s ← mapStackPages as (userStackStart tid) 0 pages { s with pages := a }
    return (true, s)

/-- The address space, the kernel stack and the user stack that `alloc_process` acquires. -/
def allocProcessPages (s : Vm) : Except Panic (Option ℕ × Option ℕ × Bool × Vm) := do
  match ← vmCreateAddressSpace s with
  | (none, s) => return (none, none, false, s)
  | (some as, s) =>
    match ← allocKernelStack s with
    | (none, s) => return (some as, none, false, s)
    | (some stack, s) =>
      let (user, s) ← allocUserStackPages as 0 s
      return (some as, some stack, user, s)

/-- The answers that the pages give to `sys$fork`; `supervisorLr` is the word found in the new kernel
stack. -/
def ForkEnv.withPages (env : ForkEnv) (supervisorLr : ℕ) (as stack : Option ℕ) (user vmFork : Bool) :
    ForkEnv :=
  { env with
    alloc := { env.alloc with
      addressSpace := as, kernelStack := stack.map fun _ => supervisorLr, userStackPages := user }
    vmFork := vmFork }

/-- `sys$fork`; a process that was not given all its pages never gets to `vm_fork`. -/
def sysForkPages (env : ForkEnv) (supervisorLr : ℕ) (m : Machine) (current : Process) (thread : Thread) :
    Except Panic (ℤ × Machine) := do
  match ← allocProcessPages m.vm with
  | (some as, some stack, true, vm) =>
    let (ok, vm) ← vmFork vm current.addressSpace as
    let (rc, sched) ← sysFork (env.withPages supervisorLr (some as) (some stack) true ok) m.sched current thread
    return (rc, ⟨sched, vm⟩)
  | (as, stack, user, vm) =>
    let (rc, sched) ← sysFork (env.withPages supervisorLr as stack user false) m.sched current thread
    return (rc, ⟨sched, vm⟩)

/-- `free_thread`, and the `vm_free` of `free_process` when it was the last thread. -/
def freeThreadPages (m : Machine) (i j : ℕ) (p : Process) (t : Thread) : Except Panic Machine := do
  if (arraySwapRemove p.threads j).isEmpty then
    return ⟨freeThread m.sched i j p t, ← vmFree m.vm p.addressSpace⟩
  else return ⟨freeThread m.sched i j p t, m.vm⟩

/-- The tables of the user half are as they were. -/
def SameTables (root : ℕ) (m m' : ℕ → ℕ) : Prop :=
  ∀ i < kernelStartIdx, m' (root + 4 * i) = m (root + 4 * i) ∧
    (m (root + 4 * i) ≠ 0 → ∀ j < lvl2Entries,
      m' (lvl2EntryAddr m (root + 4 * i) j) = m (lvl2EntryAddr m (root + 4 * i) j))

/-- A step of the child with the address space `as`: it acquires no page and maps none, and does to
its memory and to the processes what it likes; or it exits. -/
inductive ChildStep (as : ℕ) : Machine → Machine → Prop
  | run {m m'} : m'.vm.pages = m.vm.pages →
      SameTables (pageAddr m.vm.pages.ramStart as) m.vm.words m'.vm.words → ChildStep as m m'
  | exit {m i j p t exitCode} : m.sched.processes[i]? = some p → p.threads[j]? = some t →
      p.addressSpace = as → ChildStep as m { m with sched := sysExit m.sched i j exitCode p t }

/-- The life of a child: the fork, its run to `sys$exit`, and the reaping of its thread. -/
inductive Lifetime (env : ForkEnv) (supervisorLr : ℕ) (parent : Process) (thread : Thread) :
    Machine → Machine → Prop
  | mk {m m₁ m₂ m₃ : Machine} {rc : ℤ} {child p : Process} {t : Thread} {slot i j : ℕ} :
      sysForkPages env supervisorLr m parent thread = .ok (rc, m₁) →
      m₁.sched.processes.getLast? = some child →
      Relation.ReflTransGen (ChildStep child.addressSpace) m₁ m₂ →
      ThreadAt m₂.sched slot i j p t → t.state = .zombie → p.addressSpace = child.addressSpace →
      freeThreadPages m₂ i j p t = .ok m₃ → Lifetime env supervisorLr parent thread m m₃

/-- The blocks in use, with their orders, and every count are what they were. -/
structure Conserved (first limit : ℕ) (live : Finset Block) (s s' : PageAllocator) : Prop where
  blocks : Blocks first limit s' live
  refCount : s'.refCount = s.refCount

end Pi0Os.Task
