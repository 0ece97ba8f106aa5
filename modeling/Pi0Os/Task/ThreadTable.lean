import Pi0Os.Task.UserMode

/-! The table `s_all_threads` under the loop of `scheduler_start`: the traps of the threads, the ends
of `sys$exit`, and the reaping of zombies. -/

namespace Pi0Os.Task

open Kernel Library

/-- The slots from `s_all_threads_len` on are null. -/
def Scheduler.slot (s : Scheduler) (i : ℕ) : Option (ℕ × ℕ) := s.allThreads[i]?.join

/-- `array_swap_remove` of the `j`-th element, with the count lowered. -/
def arraySwapRemove {α : Type} (l : List α) (j : ℕ) : List α :=
  match l.getLast? with
  | none => []
  | some last => (l.set j last).dropLast

/-- The thread `t` that the slot leads to, at its places in the lists. -/
structure ThreadAt (s : Scheduler) (slot i j : ℕ) (p : Process) (t : Thread) : Prop where
  slot : s.slot slot = some (p.pid, t.tid)
  process : s.processes[i]? = some p
  thread : p.threads[j]? = some t

def freeThread (s : Scheduler) (i j : ℕ) (p : Process) (t : Thread) : Scheduler :=
  let threads := arraySwapRemove p.threads j
  { s with
    allThreads := s.allThreads.set (s.allThreads.idxOf (some (p.pid, t.tid))) none
    processes :=
      if threads.isEmpty then s.processes.eraseIdx i else s.processes.set i { p with threads := threads } }

def sysExit (s : Scheduler) (i j : ℕ) (exitCode : ℤ) (p : Process) (t : Thread) : Scheduler :=
  setThread s i j { p with exitCode := exitCode } { t with state := .zombie }

/-- The scheduler is at a slot, or the thread of a slot runs. -/
inductive Cpu where
  | loop (slot : ℕ)
  | running (slot : ℕ)

structure SchedulerLoop where
  sched : Scheduler
  cpu : Cpu
  registered : ℕ -- ghost: the threads registered so far

inductive LoopAct where
  | skip
  | reap
  | switch
  | trap (trap : Trap)
  | yield
  | exit (exitCode : ℤ)

def Syscall.registers : Syscall → ℕ
  | .fork _ => 1
  | .execve .. => 0

inductive LoopStep : SchedulerLoop → LoopAct → SchedulerLoop → Prop
  | null {s slot} : s.cpu = .loop slot → s.sched.slot slot = none →
      LoopStep s .skip { s with cpu := .loop ((slot + 1) % maxThreads) }
  | suspended {s slot i j p t} : s.cpu = .loop slot → ThreadAt s.sched slot i j p t → t.state = .suspended →
      LoopStep s .skip { s with cpu := .loop ((slot + 1) % maxThreads) }
  | reap {s slot i j p t} : s.cpu = .loop slot → ThreadAt s.sched slot i j p t → t.state = .zombie →
      LoopStep s .reap { s with
        sched := { freeThread s.sched i j p t with
          allThreads := (freeThread s.sched i j p t).allThreads.set slot none }
        cpu := .loop ((slot + 1) % maxThreads) }
  | switch {s slot i j p t} : s.cpu = .loop slot → ThreadAt s.sched slot i j p t → t.state = .runnable →
      LoopStep s .switch { s with cpu := .running slot }
  | trap {s slot trap current thread sched'} : s.cpu = .running slot →
      ThreadAt s.sched slot trap.process trap.thread current thread → trap.frame.mode = thread.iframe.mode →
      irqAndExceptionHandler s.sched trap current thread = .ok sched' →
      LoopStep s (.trap trap) { s with sched := sched', registered := s.registered + trap.call.registers }
  | yield {s slot} : s.cpu = .running slot → LoopStep s .yield { s with cpu := .loop ((slot + 1) % maxThreads) }
  | exit {s slot i j p t exitCode} : s.cpu = .running slot → ThreadAt s.sched slot i j p t →
      LoopStep s (.exit exitCode) { s with
        sched := sysExit s.sched i j exitCode p t
        cpu := .loop ((slot + 1) % maxThreads) }

def schedulerLoop : TransitionSystem SchedulerLoop LoopAct where
  Init s := scheduler.Init s.sched ∧ s.cpu = .loop 0 ∧ s.registered = 1
  Step := LoopStep

/-- The assertion in `register_thread` holds, whatever thread comes. -/
def CanRegister (s : Scheduler) : Prop := ∀ pid tid, ∃ s', registerThread s pid tid = .ok s'

section Table

variable {s s' : Scheduler} {current : Process} {thread : Thread}

lemma registerThread_length {pid tid : ℕ} (h : registerThread s pid tid = .ok s') :
    s'.allThreads.length = s.allThreads.length + 1 := by
  obtain ⟨-, h⟩ := kassert_bind_eq_ok.mp h
  cases h
  exact List.length_append

lemma canRegister_length : CanRegister s ↔ s.allThreads.length < maxThreads := by
  refine ⟨fun h => ?_, fun h pid tid => ?_⟩
  · obtain ⟨s', h⟩ := h 0 0
    exact (kassert_bind_eq_ok.mp h).1
  · rw [registerThread, kassert_of h]
    exact ⟨_, rfl⟩

lemma allocProcess_allThreads {env : AllocEnv} {name : Buffer} {entrypoint : ℕ} {privileged : Bool}
    {p : Option Process} (h : allocProcess env s name entrypoint privileged = .ok (p, s')) :
    s'.allThreads = s.allThreads := by
  unfold allocProcess at h
  split at h
  · cases h
    rfl
  · obtain ⟨-, h⟩ := panicIf_bind_eq_ok.mp h
    obtain ⟨_, -, h⟩ := bind_eq_ok.mp h
    obtain ⟨-, h⟩ := panicIf_bind_eq_ok.mp h
    split at h
    · cases h
    · split at h <;> (cases h; rfl)

lemma sysFork_length {env : ForkEnv} {rc : ℤ} (h : sysFork env s current thread = .ok (rc, s')) :
    s'.allThreads.length = s.allThreads.length + 1 := by
  obtain ⟨⟨_ | forked, s₁⟩, ha, h⟩ := bind_eq_ok.mp h
  · cases h
  · dsimp only at h
    split at h
    · obtain ⟨-, h⟩ := panicIf_bind_eq_ok.mp h
      obtain ⟨s₂, hr, h⟩ := bind_eq_ok.mp h
      have hlen := registerThread_length hr
      rw [allocProcess_allThreads ha] at hlen
      cases h
      exact hlen
    · cases h

lemma irqAndExceptionHandler_length {trap : Trap} (h : irqAndExceptionHandler s trap current thread = .ok s') :
    s'.allThreads.length = s.allThreads.length + trap.call.registers := by
  cases hcall : trap.call with
  | fork env =>
    rw [irqAndExceptionHandler, hcall] at h
    obtain ⟨⟨rc, s₁⟩, hf, h⟩ := bind_eq_ok.mp h
    have hlen := sysFork_length hf
    cases h
    exact hlen
  | execve env path argv envp =>
    rw [irqAndExceptionHandler, hcall] at h
    obtain ⟨⟨rc, current', thread'⟩, -, h⟩ := bind_eq_ok.mp h
    cases h
    rfl

lemma init_length (h : scheduler.Init s) : s.allThreads.length = 1 := by
  obtain ⟨env, log, entrypoint, h⟩ := h
  obtain ⟨⟨_ | stage2, s₁⟩, ha, h⟩ := bind_eq_ok.mp h
  · cases h
  · obtain ⟨s₂, hr, h⟩ := bind_eq_ok.mp h
    have hlen := registerThread_length hr
    rw [allocProcess_allThreads ha] at hlen
    split at h
    · cases h
      exact hlen
    · cases h

end Table

section Runs

variable {s s' : SchedulerLoop}

lemma table_inductive : schedulerLoop.Inductive fun s => s.sched.allThreads.length = s.registered := by
  constructor
  · rintro s ⟨hinit, -, hone⟩
    rw [init_length hinit, hone]
  · intro s act s' h hs
    cases hs with
    | null => exact h
    | suspended => exact h
    | reap =>
      simp only [freeThread, List.length_set]
      exact h
    | switch => exact h
    | trap _ _ _ htrap =>
      rw [irqAndExceptionHandler_length htrap, h]
    | yield => exact h
    | exit => exact h

/-- A slot is never used again, so that the table is full after 64 threads, dead or alive. -/
theorem canRegister_iff (h : schedulerLoop.Reachable s) : CanRegister s.sched ↔ s.registered < maxThreads := by
  rw [canRegister_length, h.invariant table_inductive]

theorem canRegister_iff_boot : CanRegister bootState :=
  (canRegister_iff (s := ⟨bootState, .loop 0, 1⟩) (.init ⟨scheduler_init_boot, rfl, rfl⟩)).mpr (by decide)

end Runs

section Rounds

/-- The threads that exist; those that have exited count until they are reaped. -/
def Scheduler.threadCount (s : Scheduler) : ℕ := (s.processes.map fun p => p.threads.length).sum

def AtMost63 (s : SchedulerLoop) (_ : LoopAct) : Prop := s.sched.threadCount ≤ 63

abbrev FewThreads : SchedulerLoop → Prop := (schedulerLoop.restrict AtMost63).Reachable

lemma FewThreads.step {s s' : SchedulerLoop} {a : LoopAct} (h : FewThreads s) (hs : LoopStep s a s')
    (hfew : s.sched.threadCount ≤ 63) : FewThreads s' := TransitionSystem.Reachable.step (a := a) h ⟨hs, hfew⟩

lemma FewThreads.sweep {sched : Scheduler} {registered n i : ℕ} (hfew : sched.threadCount ≤ 63)
    (hnull : ∀ k, i ≤ k → k < i + n → sched.slot k = none) (hle : i + n ≤ maxThreads)
    (h : FewThreads ⟨sched, .loop (i % maxThreads), registered⟩) :
    FewThreads ⟨sched, .loop ((i + n) % maxThreads), registered⟩ := by
  induction n with
  | zero => exact h
  | succ n ih =>
    have hprev := ih (fun k hk hlt => hnull k hk (by omega)) (by omega)
    have hmod : (i + n) % maxThreads = i + n := Nat.mod_eq_of_lt (by omega)
    rw [hmod] at hprev
    exact hprev.step (.null rfl (hnull (i + n) (by omega) (by omega))) hfew

/-- A fork whose allocations all succeed. -/
def roomyFork : ForkEnv := ⟨bootAlloc, true, fun _ => some 7, true⟩

/-- The parent with the frame that its thread has been left with. -/
structure IsParent (p : Process) (frame : InterruptFrame) : Prop where
  pid : p.pid = 0
  name : p.name = proc1.name
  threads : p.threads = [⟨0, frame, .runnable, none⟩]

def parentTrap (frame : InterruptFrame) : Trap := ⟨0, 0, frame, .fork roomyFork⟩

lemma allocProcess_boot (s : Scheduler) : ∃ p, p.pid = s.nextAvailablePid ∧
    allocProcess bootAlloc s proc1.name 0 false = .ok (some p, { s with nextAvailablePid := s.nextAvailablePid + 1 }) :=
  ⟨_, rfl, rfl⟩

lemma sysFork_roomy (s : Scheduler) {p : Process} (thread : Thread) (hp : p.name = proc1.name) :
    ∃ child, child.pid = s.nextAvailablePid ∧
      child.threads = [⟨0, thread.iframe.setSyscallReturnValue 0, .runnable, thread.program⟩] ∧
      sysFork roomyFork s p thread =
        if s.allThreads.length < maxThreads then .ok (s.nextAvailablePid,
          ⟨s.nextAvailablePid + 1, s.allThreads ++ [some (s.nextAvailablePid, 0)], s.processes ++ [child]⟩)
        else .error (.assertion "s_all_threads_len < array_size(s_all_threads)") := by
  obtain ⟨forked, hpid, halloc⟩ := allocProcess_boot s
  have hfiles : duplicateFiles roomyFork.duplicate p.openfiles =
      some fun i => if (p.openfiles i).isSome then some 7 else none := if_pos fun _ _ => rfl
  have halloc' : allocProcess roomyFork.alloc s p.name 0 false =
      .ok (some forked, { s with nextAvailablePid := s.nextAvailablePid + 1 }) := by
    rw [hp]
    exact halloc
  refine ⟨{ forked with
    openfiles := fun i => if (p.openfiles i).isSome then some 7 else none
    workingDirectory := p.workingDirectory
    threads := [⟨0, thread.iframe.setSyscallReturnValue 0, .runnable, thread.program⟩] }, hpid, rfl, ?_⟩
  simp only [sysFork, halloc', hfiles, ok_bind, registerThread]
  by_cases hlen : s.allThreads.length < maxThreads
  · rw [kassert_of hlen, if_pos hlen, ← hpid]
    rfl
  · rw [kassert_of_not hlen, if_neg hlen]
    rfl

lemma forks {s : Scheduler} {p : Process} {frame : InterruptFrame} (hp : IsParent p frame) (hs : s.processes = [p]) :
    ∃ p' frame' child frame'', IsParent p' frame' ∧ child.pid = s.nextAvailablePid ∧
      child.threads = [⟨0, frame'', .runnable, none⟩] ∧
      irqAndExceptionHandler s (parentTrap frame) p ⟨0, frame, .runnable, none⟩ =
        if s.allThreads.length < maxThreads then
          .ok ⟨s.nextAvailablePid + 1, s.allThreads ++ [some (s.nextAvailablePid, 0)], [p', child]⟩
        else .error (.assertion "s_all_threads_len < array_size(s_all_threads)") := by
  obtain ⟨child, hpid, hthreads, hfork⟩ := sysFork_roomy s ⟨0, frame, .runnable, none⟩ hp.name
  refine ⟨{ p with threads := [⟨0, frame.setSyscallReturnValue s.nextAvailablePid, .runnable, none⟩] }, _, child, _,
    ⟨hp.pid, hp.name, rfl⟩, hpid, hthreads, ?_⟩
  have hfork' : sysFork roomyFork s p
      { (⟨0, frame, .runnable, none⟩ : Thread) with iframe := (parentTrap frame).frame } = _ :=
    hfork
  rw [irqAndExceptionHandler]
  simp only [parentTrap] at hfork' ⊢
  rw [hfork']
  split
  · rw [ok_bind, setThread, hs, hp.threads]
    rfl
  · rfl

/-- The parent's slot, those of the `m` threads before, and the last one. -/
def roundTable (m : ℕ) (last : Option (ℕ × ℕ)) : List (Option (ℕ × ℕ)) :=
  some (0, 0) :: (List.replicate m none ++ [last])

lemma slot_roundTable (pid m k : ℕ) (last : Option (ℕ × ℕ)) (processes : List Process) :
    (⟨pid, roundTable m last, processes⟩ : Scheduler).slot k =
      if k = 0 then some (0, 0) else if k = m + 1 then last else none := by
  cases k with
  | zero => rfl
  | succ k =>
    rw [if_neg k.succ_ne_zero, Scheduler.slot, roundTable, List.getElem?_cons_succ]
    rcases lt_trichotomy k m with hlt | rfl | hgt
    · rw [List.getElem?_append_left (by rwa [List.length_replicate]), List.getElem?_replicate_of_lt hlt,
        if_neg (by omega)]
      rfl
    · rw [List.getElem?_append_right (by rw [List.length_replicate]), List.length_replicate, Nat.sub_self, if_pos rfl]
      rfl
    · rw [List.getElem?_eq_none (by rw [List.length_append, List.length_replicate, List.length_singleton]; omega),
        if_neg (by omega)]
      rfl

lemma idxOf_roundTable (m : ℕ) : (roundTable m (some (m + 1, 0))).idxOf (some (m + 1, 0)) = m + 1 := by
  have hne : (some (0, 0) : Option (ℕ × ℕ)) ≠ some (m + 1, 0) := by
    intro h
    cases h
  have hmem : (some (m + 1, 0) : Option (ℕ × ℕ)) ∉ List.replicate m none := by
    intro h
    cases (List.mem_replicate.mp h).2
  rw [roundTable, List.idxOf_cons_ne _ hne, List.idxOf_append_of_notMem hmem, List.length_replicate,
    List.idxOf_cons_self]

lemma set_roundTable (m : ℕ) (last : Option (ℕ × ℕ)) : (roundTable m last).set (m + 1) none = roundTable m none := by
  rw [roundTable, List.set_cons_succ, List.set_append_right _ _ (by rw [List.length_replicate]), List.length_replicate,
    Nat.sub_self]
  rfl

lemma roundTable_none (m : ℕ) : roundTable m none = some (0, 0) :: List.replicate (m + 1) none := by
  rw [roundTable, List.replicate_succ']

lemma IsParent.threadAt {p : Process} {frame : InterruptFrame} (hp : IsParent p frame) (pid m : ℕ)
    (last : Option (ℕ × ℕ)) (rest : List Process) :
    ThreadAt ⟨pid, roundTable m last, p :: rest⟩ 0 0 0 p ⟨0, frame, .runnable, none⟩ := by
  refine ⟨?_, rfl, ?_⟩
  · rw [slot_roundTable, if_pos rfl, hp.pid]
  · rw [hp.threads]
    rfl

lemma FewThreads.toLast {pid m registered : ℕ} {last : Option (ℕ × ℕ)} {processes : List Process}
    (hm : m + 1 < maxThreads)
    (hfew : (⟨pid, roundTable m last, processes⟩ : Scheduler).threadCount ≤ 63)
    (h : FewThreads ⟨⟨pid, roundTable m last, processes⟩, .running 0, registered⟩) :
    FewThreads ⟨⟨pid, roundTable m last, processes⟩, .loop (m + 1), registered⟩ := by
  have h₁ := h.step (.yield rfl) hfew
  have h₂ := FewThreads.sweep (n := m) (i := 1) hfew ?_ (by omega) h₁
  · rwa [Nat.mod_eq_of_lt (by omega), add_comm] at h₂
  · intro k hk hlt
    rw [slot_roundTable, if_neg (by omega), if_neg (by omega)]

lemma FewThreads.toParent {pid m registered : ℕ} {last : Option (ℕ × ℕ)} {p : Process} {frame : InterruptFrame}
    {rest : List Process} (hp : IsParent p frame) (hm : m + 1 < maxThreads)
    (hfew : (⟨pid, roundTable m last, p :: rest⟩ : Scheduler).threadCount ≤ 63)
    (h : FewThreads ⟨⟨pid, roundTable m last, p :: rest⟩, .loop ((m + 1 + 1) % maxThreads), registered⟩) :
    FewThreads ⟨⟨pid, roundTable m last, p :: rest⟩, .running 0, registered⟩ := by
  have h₁ := FewThreads.sweep (n := maxThreads - (m + 2)) (i := m + 2) hfew ?_ (by omega) h
  · have hend : (m + 2 + (maxThreads - (m + 2))) % maxThreads = 0 := by
      rw [Nat.add_sub_cancel' (by omega), Nat.mod_self]
    rw [hend] at h₁
    exact h₁.step (.switch rfl (hp.threadAt pid m last rest) rfl) hfew
  · intro k hk hlt
    rw [slot_roundTable, if_neg (by omega), if_neg (by omega)]

/-- The parent forks, the child exits when its turn comes, and the next time round it is reaped. -/
lemma FewThreads.round {m : ℕ} {p : Process} {frame : InterruptFrame} (hp : IsParent p frame) (hm : m + 1 < maxThreads)
    (h : FewThreads ⟨⟨m + 1, some (0, 0) :: List.replicate m none, [p]⟩, .running 0, m + 1⟩) :
    ∃ p' frame', IsParent p' frame' ∧
      FewThreads ⟨⟨m + 2, some (0, 0) :: List.replicate (m + 1) none, [p']⟩, .running 0, m + 2⟩ := by
  obtain ⟨p', frame', child, frame'', hp', hpid, hthreads, hfork⟩ :=
    forks (s := ⟨m + 1, some (0, 0) :: List.replicate m none, [p]⟩) hp rfl
  rw [if_pos (by simpa using hm)] at hfork
  refine ⟨p', frame', hp', ?_⟩
  have hone : p.threads.length = 1 := by rw [hp.threads]; rfl
  have hone' : p'.threads.length = 1 := by rw [hp'.threads]; rfl
  have hfew₀ : (⟨m + 1, some (0, 0) :: List.replicate m none, [p]⟩ : Scheduler).threadCount ≤ 63 := by
    simp [Scheduler.threadCount, hone]
  have hat₀ : ThreadAt ⟨m + 1, some (0, 0) :: List.replicate m none, [p]⟩ 0 0 0 p ⟨0, frame, .runnable, none⟩ :=
    ⟨by rw [hp.pid]; rfl, rfl, by rw [hp.threads]; rfl⟩
  have hfew : ∀ c : Process, c.threads.length = 1 →
      (⟨m + 2, roundTable m (some (m + 1, 0)), [p', c]⟩ : Scheduler).threadCount ≤ 63 := by
    intro c hc
    simp [Scheduler.threadCount, hone', hc]
  have hat : ∀ c t, c.pid = m + 1 → t.tid = 0 → c.threads = [t] →
      ThreadAt ⟨m + 2, roundTable m (some (m + 1, 0)), [p', c]⟩ (m + 1) 1 0 c t := by
    intro c t hpid htid hthreads
    refine ⟨?_, rfl, by rw [hthreads]; rfl⟩
    rw [slot_roundTable, if_neg m.succ_ne_zero, if_pos rfl, hpid, htid]
  have hchild : child.threads.length = 1 := by rw [hthreads]; rfl
  have h₁ : FewThreads ⟨⟨m + 2, roundTable m (some (m + 1, 0)), [p', child]⟩, .running 0, m + 2⟩ :=
    h.step (a := LoopAct.trap (parentTrap frame)) (.trap rfl hat₀ rfl hfork) hfew₀
  have h₂ := FewThreads.toLast hm (hfew child hchild) h₁
  have h₃ := h₂.step (.switch rfl (hat child _ hpid rfl hthreads) rfl) (hfew child hchild)
  have h₄ := h₃.step (a := LoopAct.exit 0) (.exit rfl (hat child _ hpid rfl hthreads)) (hfew child hchild)
  obtain ⟨dead, hdead⟩ :
      ∃ dead, dead = { child with exitCode := 0, threads := [⟨0, frame'', .zombie, none⟩] } := ⟨_, rfl⟩
  have hexit : sysExit ⟨m + 2, roundTable m (some (m + 1, 0)), [p', child]⟩ 1 0 0 child ⟨0, frame'', .runnable, none⟩ =
      ⟨m + 2, roundTable m (some (m + 1, 0)), [p', dead]⟩ := by
    rw [hdead, sysExit, setThread, hthreads]
    rfl
  rw [hexit] at h₄
  have hpid' : dead.pid = m + 1 := by rw [hdead]; exact hpid
  have hthreads' : dead.threads = [⟨0, frame'', .zombie, none⟩] := by rw [hdead]
  have hlen : dead.threads.length = 1 := by rw [hthreads']; rfl
  have h₅ := FewThreads.toParent hp' hm (hfew dead hlen) h₄
  have h₆ := FewThreads.toLast hm (hfew dead hlen) h₅
  have h₇ := h₆.step (.reap rfl (hat dead _ hpid' rfl hthreads') rfl) (hfew dead hlen)
  have hreap : freeThread ⟨m + 2, roundTable m (some (m + 1, 0)), [p', dead]⟩ 1 0 dead ⟨0, frame'', .zombie, none⟩ =
      ⟨m + 2, roundTable m none, [p']⟩ := by
    rw [freeThread, hpid', hthreads', idxOf_roundTable, set_roundTable]
    rfl
  rw [hreap, set_roundTable] at h₇
  have hfew₁ : (⟨m + 2, roundTable m none, [p']⟩ : Scheduler).threadCount ≤ 63 := by
    simp [Scheduler.threadCount, hone']
  have h₈ := FewThreads.toParent hp' hm hfew₁ h₇
  rwa [roundTable_none] at h₈

lemma FewThreads.rounds (m : ℕ) (hm : m < maxThreads) : ∃ p frame, IsParent p frame ∧
    FewThreads ⟨⟨m + 1, some (0, 0) :: List.replicate m none, [p]⟩, .running 0, m + 1⟩ := by
  induction m with
  | zero =>
    have h₀ : FewThreads ⟨bootState, .loop 0, 1⟩ := .init ⟨scheduler_init_boot, rfl, rfl⟩
    exact ⟨proc1, _, ⟨rfl, rfl, rfl⟩, h₀.step (.switch (i := 0) (j := 0) rfl ⟨rfl, rfl, rfl⟩ rfl) (by decide)⟩
  | succ m ih =>
    obtain ⟨p, frame, hp, h⟩ := ih (Nat.lt_of_succ_lt hm)
    obtain ⟨p', frame', hp', h'⟩ := h.round hp hm
    exact ⟨p', frame', hp', h'⟩

/-- The first process forks 63 children, each of which has exited and been reaped before the next:
the table is full with one thread alive, and one more fork fails the assertion. -/
theorem reaped_slots_fill_table : ∃ s trap current thread, FewThreads s ∧ s.sched.threadCount = 1 ∧
    s.cpu = .running 0 ∧ ThreadAt s.sched 0 trap.process trap.thread current thread ∧ ¬ CanRegister s.sched ∧
    irqAndExceptionHandler s.sched trap current thread =
      .error (.assertion "s_all_threads_len < array_size(s_all_threads)") := by
  obtain ⟨p, frame, hp, h⟩ := FewThreads.rounds 63 (by decide)
  have hfull : ¬ (⟨64, some (0, 0) :: List.replicate 63 none, [p]⟩ : Scheduler).allThreads.length < maxThreads := by
    simp
  obtain ⟨_, _, _, _, -, -, -, hfork⟩ := forks (s := ⟨64, some (0, 0) :: List.replicate 63 none, [p]⟩) hp rfl
  rw [if_neg hfull] at hfork
  refine ⟨_, parentTrap frame, p, _, h, ?_, rfl, ⟨?_, rfl, ?_⟩, ?_, hfork⟩
  · rw [Scheduler.threadCount, List.map_singleton, hp.threads]
    rfl
  · rw [hp.pid]
    rfl
  · rw [hp.threads]
    rfl
  · rwa [canRegister_length]

end Rounds

end Pi0Os.Task
