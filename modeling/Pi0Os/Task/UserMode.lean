import Pi0Os.Library.TransitionSystem
import Pi0Os.Task.Scheduler

/-! The processor mode of the threads over every run of `sys$fork` and `sys$execve` that
starts with `create_first_process`. -/

namespace Pi0Os.Task

open Kernel Library

/-- The traps of the running threads. A program does not change its own processor mode, so a
trap saves the mode bits that the thread was resumed with; the other registers are arbitrary. -/
def scheduler : TransitionSystem Scheduler Trap where
  Init s := ∃ env log entrypoint, createFirstProcess env log .initial entrypoint = .ok s
  Step s trap s' := ∃ current thread, s.processes[trap.process]? = some current ∧
    current.threads[trap.thread]? = some thread ∧ thread.state = .runnable ∧
    trap.frame.mode = thread.iframe.mode ∧ irqAndExceptionHandler s trap current thread = .ok s'

def Scheduler.AllThreads (P : Thread → Prop) (s : Scheduler) : Prop :=
  ∀ p ∈ s.processes, ∀ t ∈ p.threads, P t

def UserProgramsUnprivileged (s : Scheduler) : Prop :=
  s.AllThreads fun t => t.program.isSome → t.iframe.mode = modeUser

/-- The thread that calls `sys$execve` is in user mode when it traps. -/
def ExecveFromUserMode (_ : Scheduler) (trap : Trap) : Prop :=
  match trap.call with
  | .fork _ => True
  | .execve .. => trap.frame.mode = modeUser

/-- `sys$execve` gets as far as its `strncpy`. -/
def ExecveEnv.Loads (env : ExecveEnv) : Prop :=
  (∃ entrypoint, env.elfLoad = .ok (.ok entrypoint)) ∧ env.userStackPages

section Specs

variable {s s' : Scheduler} {current current' : Process} {thread thread' : Thread}

@[simp] lemma mode_setSyscallReturnValue (f : InterruptFrame) (value : ℤ) :
    (f.setSyscallReturnValue value).mode = f.mode := rfl

@[simp] lemma mode_setThreadStartValues (f : InterruptFrame) (entrypoint userstack : ℕ) :
    (f.setThreadStartValues entrypoint userstack).mode = f.mode := rfl

lemma allocProcess_spec {env : AllocEnv} {name : Buffer} {entrypoint : ℕ} {privileged : Bool}
    {p : Process} (h : allocProcess env s name entrypoint privileged = .ok (some p, s')) :
    s'.processes = s.processes ∧
      (∃ supervisorLr userstack, p.threads = [⟨0,
        archCreateInitialKernelStack supervisorLr userstack entrypoint privileged, .suspended, none⟩]) ∧
      env.addressSpace = some p.addressSpace ∧ ∃ mem, env.process = some mem ∧ strcpy mem name = .ok p.name := by
  unfold allocProcess at h
  cases hmem : env.process with
  | none =>
    rw [hmem] at h
    cases h
  | some mem =>
    rw [hmem] at h
    obtain ⟨-, h⟩ := panicIf_bind_eq_ok.mp h
    obtain ⟨name, hcpy, h⟩ := bind_eq_ok.mp h
    obtain ⟨-, h⟩ := panicIf_bind_eq_ok.mp h
    split at h
    · cases h
    · rename_i as has
      split at h
      · simp only [pure_eq_ok, Except.ok.injEq, Prod.mk.injEq, Option.some.injEq] at h
        obtain ⟨rfl, rfl⟩ := h
        exact ⟨rfl, ⟨_, _, rfl⟩, has, mem, rfl, hcpy⟩
      · simp at h

lemma registerThread_processes {pid tid : ℕ} (h : registerThread s pid tid = .ok s') :
    s'.processes = s.processes := by
  obtain ⟨-, h⟩ := kassert_bind_eq_ok.mp h
  cases h
  rfl

lemma createFirstProcess_spec {env : AllocEnv} {log : Fin 3 → Except ℤ FileCustody} {entrypoint : ℕ}
    (h : createFirstProcess env log s entrypoint = .ok s') :
    ∃ p, s'.processes = s.processes ++ [p] ∧
      (∀ t ∈ p.threads, t.iframe.mode = modeSystem ∧ t.program = none) ∧
      (∃ mem, env.process = some mem ∧ strcpy mem [0x6b, 0x65, 0x72, 0x6e, 0x65, 0x6c, 0] = .ok p.name) ∧
      ∃ stdin stdout stderr, log 0 = .ok stdin ∧ log 1 = .ok stdout ∧ log 2 = .ok stderr ∧
        p.openfiles = standardFiles stdin stdout stderr := by
  obtain ⟨⟨_ | stage2, s₁⟩, ha, h⟩ := bind_eq_ok.mp h
  · cases h
  · obtain ⟨s₂, hr, h⟩ := bind_eq_ok.mp h
    obtain ⟨hp, ⟨supervisorLr, userstack, ht⟩, -, hname⟩ := allocProcess_spec ha
    have hs : s₂.processes = s.processes := (registerThread_processes hr).trans hp
    dsimp only at h
    split at h
    · rename_i stdin stdout stderr hin hout herr
      cases h
      refine ⟨_, congrArg (· ++ [_]) hs, ?_, hname, stdin, stdout, stderr, hin, hout, herr, rfl⟩
      intro t hmem
      simp only [Process.runnable, ht, List.modify, List.modifyTailIdx] at hmem
      rcases List.mem_singleton.mp hmem with rfl
      exact ⟨rfl, rfl⟩
    · cases h

lemma sysFork_spec {env : ForkEnv} {rc : ℤ} (h : sysFork env s current thread = .ok (rc, s')) :
    ∃ p, s'.processes = s.processes ++ [p] ∧
      (∀ t ∈ p.threads, t.iframe.mode = thread.iframe.mode ∧ t.program = thread.program) ∧
      (∃ mem, env.alloc.process = some mem ∧ strcpy mem current.name = .ok p.name) ∧
      env.vmFork = true ∧ env.alloc.addressSpace = some p.addressSpace := by
  obtain ⟨⟨_ | forked, s₁⟩, ha, h⟩ := bind_eq_ok.mp h
  · cases h
  · obtain ⟨hp, -, has, hname⟩ := allocProcess_spec ha
    dsimp only at h
    split at h
    · obtain ⟨hok, h⟩ := panicIf_bind_eq_ok.mp h
      obtain ⟨s₂, hr, h⟩ := bind_eq_ok.mp h
      have hs : s₂.processes = s.processes := (registerThread_processes hr).trans hp
      cases h
      refine ⟨_, congrArg (· ++ [_]) hs, ?_, hname, by simpa using (not_or.mp hok).2, has⟩
      intro t hmem
      rcases List.mem_singleton.mp hmem with rfl
      exact ⟨rfl, rfl⟩
    · cases h

/-- An execve that does not load leaves the process and the thread as they were. -/
lemma sysExecve_spec {env : ExecveEnv} {path : CString} {argv envp : List CString} {rc : ℤ}
    (h : sysExecve env path argv envp current thread = .ok (rc, current', thread')) :
    ¬ env.Loads ∧ current' = current ∧ thread' = thread ∨
      env.Loads ∧ strncpy current.name path 63 = .ok current'.name ∧ current'.threads = current.threads ∧
        thread'.iframe.mode = thread.iframe.mode ∧ ∃ entrypoint, thread'.program = some entrypoint := by
  obtain ⟨_ | argv, -, h⟩ := bind_eq_ok.mp h
  · cases h
  obtain ⟨_ | envp, -, h⟩ := bind_eq_ok.mp h
  · cases h
  dsimp only at h
  split at h
  · cases h
  obtain ⟨_ | entrypoint, helf, h⟩ := bind_eq_ok.mp h
  · cases h
    refine Or.inl ⟨?_, rfl, rfl⟩
    rintro ⟨⟨_, hok⟩, -⟩
    rw [helf] at hok
    cases hok
  dsimp only at h
  cases hpages : env.userStackPages with
  | false =>
    rw [hpages] at h
    cases h
    refine Or.inl ⟨fun hl => ?_, rfl, rfl⟩
    rw [hl.2] at hpages
    cases hpages
  | true =>
    rw [hpages] at h
    obtain ⟨-, h⟩ := panicIf_bind_eq_ok.mp h
    obtain ⟨name, hname, h⟩ := bind_eq_ok.mp h
    obtain ⟨-, -, h⟩ := bind_eq_ok.mp h
    obtain ⟨-, h⟩ := kassert_bind_eq_ok.mp h
    cases h
    exact Or.inr ⟨⟨⟨entrypoint, helf⟩, hpages⟩, hname, rfl, mode_setThreadStartValues _ _ _, entrypoint, rfl⟩

lemma pushProcessArgs_aligned (userstack : ℕ) (argv envp : List CString) :
    pushProcessArgs userstack argv envp % archStackAlignment = 0 :=
  Nat.mod_eq_zero_of_dvd (dvd_roundDown _ _)

lemma sysExecve_succeeds (env : ExecveEnv) (path : CString) (userArgv userEnvp : List CString)
    (current : Process) (thread : Thread) {argv envp : List CString} {newAs entrypoint : ℕ} {name : Buffer}
    (hargv : cloneUserArrayOfStrings env.argv userArgv = .ok (.ok argv))
    (henvp : cloneUserArrayOfStrings env.envp userEnvp = .ok (.ok envp))
    (has : env.addressSpace = some newAs) (helf : env.elfLoad = .ok (.ok entrypoint))
    (hpages : env.userStackPages = true) (hone : current.threads.length ≤ 1)
    (hname : strncpy current.name path 63 = .ok name) (hwrites : env.stackWrites = .ok ()) :
    ∃ userstack, sysExecve env path userArgv userEnvp current thread =
      .ok (0, { current with name := name, addressSpace := newAs },
        { thread with
          iframe := thread.iframe.setThreadStartValues entrypoint userstack
          program := some entrypoint }) := by
  refine ⟨pushProcessArgs (sub32 (userStackStart 0) 8) argv envp, ?_⟩
  simp only [sysExecve, hargv, henvp, has, helf, hpages, hname, hwrites, ok_bind, allocThreadUserStack,
    if_true, panicIf, if_neg (Nat.not_lt.mpr hone), kassert_of (pushProcessArgs_aligned _ _ _), pure_eq_ok]

lemma irqAndExceptionHandler_execve {trap : Trap} {env : ExecveEnv} {path : CString}
    {argv envp : List CString} {rc : ℤ} (hcall : trap.call = .execve env path argv envp)
    (hx : sysExecve env path argv envp current { thread with iframe := trap.frame } =
      .ok (rc, current', thread')) :
    irqAndExceptionHandler s trap current thread = .ok (setThread s trap.process trap.thread current'
      { thread' with iframe := thread'.iframe.setSyscallReturnValue rc }) := by
  rw [irqAndExceptionHandler, hcall]
  simp only [hx, ok_bind, pure_eq_ok]

end Specs

section Runs

variable {s s' : Scheduler}

namespace Scheduler.AllThreads

variable {P : Thread → Prop}

lemma of_append {p : Process} (h : s.AllThreads P) (hs : s'.processes = s.processes ++ [p])
    (hp : ∀ t ∈ p.threads, P t) : s'.AllThreads P := by
  intro q hq
  rw [hs] at hq
  rcases List.mem_append.mp hq with hq | hq
  · exact h q hq
  · rw [List.mem_singleton.mp hq]
    exact hp

lemma setThread {p : Process} {t : Thread} (h : s.AllThreads P) (i j : ℕ)
    (hp : ∀ t ∈ p.threads, P t) (ht : P t) : (setThread s i j p t).AllThreads P := by
  intro q hq u hu
  rcases List.mem_or_eq_of_mem_set hq with hq | rfl
  · exact h q hq u hu
  · rcases List.mem_or_eq_of_mem_set hu with hu | rfl
    · exact hp u hu
    · exact ht

end Scheduler.AllThreads

/-- What a trap does to the mode bits and the programs of the threads: a fork copies both, an
execve changes the program of the calling thread alone. -/
lemma step_allThreads {R : ℕ → Option ℕ → Prop} {trap : Trap}
    (hexec : ∀ env path argv envp, trap.call = .execve env path argv envp →
      ∀ x e, R trap.frame.mode x → R trap.frame.mode (some e))
    (hs : s.AllThreads fun t => R t.iframe.mode t.program) (ht : scheduler.Step s trap s') :
    s'.AllThreads fun t => R t.iframe.mode t.program := by
  obtain ⟨current, thread, hc, hth, -, hmode, h⟩ := ht
  have hcur : ∀ t ∈ current.threads, R t.iframe.mode t.program := hs current (List.mem_of_getElem? hc)
  have hthr : R trap.frame.mode thread.program := by
    rw [hmode]
    exact hcur thread (List.mem_of_getElem? hth)
  cases hcall : trap.call with
  | fork env =>
    rw [irqAndExceptionHandler, hcall] at h
    obtain ⟨⟨rc, s₁⟩, hf, h⟩ := bind_eq_ok.mp h
    obtain ⟨p, hp, hpt, -⟩ := sysFork_spec hf
    cases h
    refine (hs.of_append hp ?_).setThread _ _ hcur hthr
    intro t hmem
    rw [(hpt t hmem).1, (hpt t hmem).2]
    exact hthr
  | execve env path argv envp =>
    rw [irqAndExceptionHandler, hcall] at h
    obtain ⟨⟨rc, current', thread'⟩, hx, h⟩ := bind_eq_ok.mp h
    cases h
    rcases sysExecve_spec hx with ⟨-, rfl, rfl⟩ | ⟨-, -, htl, hm, e, hprog⟩
    · exact hs.setThread _ _ hcur hthr
    · refine hs.setThread _ _ (htl ▸ hcur) ?_
      change R thread'.iframe.mode thread'.program
      rw [hm, hprog]
      exact hexec env path argv envp hcall _ e hthr

lemma init_allThreads {R : ℕ → Option ℕ → Prop} (hR : R modeSystem none) (h : scheduler.Init s) :
    s.AllThreads fun t => R t.iframe.mode t.program := by
  obtain ⟨env, log, entrypoint, h⟩ := h
  obtain ⟨p, hp, hpt, -⟩ := createFirstProcess_spec h
  refine Scheduler.AllThreads.of_append (s := .initial) (fun p hp => absurd hp List.not_mem_nil) hp ?_
  intro t hmem
  rw [(hpt t hmem).1, (hpt t hmem).2]
  exact hR

lemma systemMode_of_reachable (h : scheduler.Reachable s) :
    s.AllThreads fun t => t.iframe.mode = modeSystem := by
  refine h.invariant ⟨fun s hs => ?_, fun s trap s' hi ht => ?_⟩
  · exact init_allThreads (R := fun m _ => m = modeSystem) rfl hs
  · exact step_allThreads (R := fun m _ => m = modeSystem) (fun _ _ _ _ _ _ _ hm => hm) hi ht

lemma unprivileged_of_restricted (h : (scheduler.restrict ExecveFromUserMode).Reachable s) :
    UserProgramsUnprivileged s := by
  refine h.invariant ⟨fun s hs => ?_, fun s trap s' hi ht => ?_⟩
  · exact init_allThreads (R := fun m x => x.isSome → m = modeUser) (fun hx => absurd hx (by simp)) hs
  · refine step_allThreads (R := fun m x => x.isSome → m = modeUser) ?_ hi ht.1
    intro env path argv envp hcall _ _ _ _
    have hc := ht.2
    rw [ExecveFromUserMode, hcall] at hc
    exact hc

/-- Runs in which `sys$execve` is only called from user mode keep the programs unprivileged; and
since no thread is ever in user mode, a state keeps them so only while no `sys$execve` has succeeded. -/
theorem userPrograms_unprivileged (s : Scheduler) :
    ((scheduler.restrict ExecveFromUserMode).Reachable s → UserProgramsUnprivileged s) ∧
    (scheduler.Reachable s → (UserProgramsUnprivileged s ↔ s.AllThreads fun t => t.program = none)) := by
  refine ⟨unprivileged_of_restricted, fun h => ⟨fun hu p hp t ht => ?_, fun hn p hp t ht => ?_⟩⟩
  · by_contra hne
    have hm := hu p hp t ht (Option.ne_none_iff_isSome.mp hne)
    rw [systemMode_of_reachable h p hp t ht] at hm
    exact absurd hm (by decide)
  · intro hx
    rw [hn p hp t ht] at hx
    exact absurd hx (by simp)

-- A boot on which every allocation succeeds.
def bootAlloc : AllocEnv where
  process := some (List.replicate 64 0)
  threadsArray := true
  thread := true
  workingDirectory := true
  addressSpace := some 0x4000
  kernelStack := some 0
  userStackPages := true

def proc1 : Process where
  nextAvailableTid := 1
  pid := 0
  exitCode := 0
  name := [0x6b, 0x65, 0x72, 0x6e, 0x65, 0x6c] ++ List.replicate 58 0
  addressSpace := 0x4000
  openfiles := standardFiles 7 7 7
  workingDirectory := [Byte.slash]
  threads := [⟨0, archCreateInitialKernelStack 0 (sub32 (userStackStart 0) 8) 0xc0010000 true, .runnable, none⟩]

def bootState : Scheduler := ⟨1, [some (0, 0)], [proc1]⟩

lemma scheduler_init_boot : scheduler.Init bootState :=
  ⟨bootAlloc, fun _ => .ok 7, 0xc0010000, rfl⟩

def bootTrap (call : Syscall) : Trap where
  process := 0
  thread := 0
  frame := ⟨userStackStart 0 - 8, 0, fun _ => 0, 0, 0xc0010004, 0x6000001f⟩
  call := call

def proc1Fork : Trap := bootTrap (.fork ⟨bootAlloc, true, fun _ => some 7, true⟩)

theorem userPrograms_unprivileged_fork :
    ∃ s, scheduler.Step bootState proc1Fork s ∧ UserProgramsUnprivileged s := by
  obtain ⟨s, hs⟩ : ∃ s, scheduler.Step bootState proc1Fork s := ⟨_, _, _, rfl, rfl, rfl, rfl, rfl⟩
  exact ⟨s, hs, (userPrograms_unprivileged s).1 (.step (.init scheduler_init_boot) ⟨hs, trivial⟩)⟩

-- The call `execve("/bina/init", {"/bina/init", nullptr}, {nullptr})` of `proc1`.
def binaInit : CString := [0x2f, 0x62, 0x69, 0x6e, 0x61, 0x2f, 0x69, 0x6e, 0x69, 0x74]

def proc1Env : ExecveEnv :=
  ⟨⟨true, fun _ => true⟩, ⟨true, fun _ => true⟩, some 0x8000, .ok (.ok 0x8054), true, .ok ()⟩

def proc1Execve : Trap := bootTrap (.execve proc1Env binaInit [binaInit] [])

theorem proc1_execve_privileged : scheduler.Reachable bootState ∧
    ∃ s, scheduler.Step bootState proc1Execve s ∧ ¬ UserProgramsUnprivileged s := by
  refine ⟨.init scheduler_init_boot, ?_⟩
  obtain ⟨userstack, hx⟩ := sysExecve_succeeds proc1Env binaInit [binaInit] [] proc1
    ⟨0, proc1Execve.frame, .runnable, none⟩ rfl rfl rfl rfl rfl (le_refl 1) rfl rfl
  refine ⟨_, ⟨proc1, _, rfl, rfl, rfl, rfl, irqAndExceptionHandler_execve rfl hx⟩, fun h => ?_⟩
  have hm := h _ (List.mem_singleton_self _) _ (List.mem_singleton_self _) rfl
  rw [mode_setSyscallReturnValue, mode_setThreadStartValues] at hm
  exact absurd hm (by decide)

end Runs

end Pi0Os.Task
