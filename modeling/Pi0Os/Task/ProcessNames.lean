import Pi0Os.Task.DescriptorRuns

/-! The names of the processes over every run of process creation, `sys$fork` and `sys$execve`. -/

namespace Pi0Os.Task

open Kernel Library Byte

/-- The `name` field of the `Process` that `malloc` returns has 64 bytes. -/
def AllocEnv.NameField (env : AllocEnv) : Prop := ∀ mem ∈ env.process, mem.length = 64

/-- What the types promise of a trap: the size of the field, and that a path is a C string. -/
def Trap.Typed (trap : Trap) : Prop :=
  match trap.call with
  | .fork env => env.alloc.NameField
  | .execve _ path _ _ => nul ∉ path

def processNames : TransitionSystem Scheduler Trap where
  Init s := ∃ env log entrypoint, env.NameField ∧ createFirstProcess env log .initial entrypoint = .ok s
  Step s trap s' := scheduler.Step s trap s' ∧ trap.Typed

/-- The path of an execve leaves room for its NUL in the 63 bytes that `strncpy` writes, or the
last byte of the name, which it does not write, is already NUL. -/
def NameFits (s : Scheduler) (trap : Trap) : Prop :=
  match trap.call with
  | .fork _ => True
  | .execve env path _ _ =>
    env.Loads → path.length < 63 ∨ ∀ p ∈ s.processes[trap.process]?, p.name[63]? = some nul

/-- The field is whole and holds a NUL. -/
def Named (name : Buffer) : Prop := name.length = 64 ∧ nul ∈ name

section Copies

variable {mem src dst : Buffer} {path : CString}

lemma strcpy_named (hmem : mem.length = 64) (h : strcpy mem src = .ok dst) : Named dst := by
  obtain ⟨n, hn, -⟩ := bind_eq_ok.mp h
  obtain ⟨str, rest, rfl, hstr, -⟩ := Buffer.exists_of_strlen hn
  rw [strcpy_eq mem hstr] at h
  split_ifs at h with hlen
  cases h
  refine ⟨?_, List.mem_append_right _ List.mem_cons_self⟩
  rw [List.length_append, List.length_cons, List.length_drop]
  omega

lemma Named.terminated (h : Named src) : Terminated src := by
  obtain ⟨str, rest, rfl, hstr⟩ := List.eq_append_cons_of_mem h.2
  refine ⟨str, rest, rfl, hstr, ?_⟩
  have hlen := h.1
  rw [List.length_append, List.length_cons] at hlen
  omega

lemma strncpy_eq (hmem : mem.length = 64) (path : CString) :
    strncpy mem path 63 = .ok ((path ++ List.replicate 63 nul).take 63 ++ mem.drop 63) := by
  have hlen : ((path ++ List.replicate 63 nul).take 63).length = 63 := by
    rw [List.length_take, List.length_append, List.length_replicate]
    omega
  rw [strncpy, Buffer.memcpy, hlen, if_pos (by omega), List.take_zero, List.nil_append]

lemma nul_mem_padded (hpath : nul ∉ path) :
    nul ∈ (path ++ List.replicate 63 nul).take 63 ↔ path.length < 63 := by
  rw [List.take_append, List.mem_append, List.take_replicate, List.mem_replicate]
  constructor
  · rintro (hmem | ⟨hne, -⟩)
    · exact absurd (List.mem_of_mem_take hmem) hpath
    · omega
  · intro hlt
    exact Or.inr ⟨by omega, rfl⟩

lemma nul_mem_last (hmem : mem.length = 64) : nul ∈ mem.drop 63 ↔ mem[63]? = some nul := by
  have hlast : mem.drop 63 = [mem[63]] := by
    rw [List.drop_eq_getElem_cons (by omega), List.drop_eq_nil_of_le (by omega)]
  rw [hlast, List.mem_singleton, List.getElem?_eq_getElem (by omega), Option.some.injEq, eq_comm]

lemma strncpy_named (hmem : mem.length = 64) (hpath : nul ∉ path) (h : strncpy mem path 63 = .ok dst) :
    dst.length = 64 ∧ (nul ∈ dst ↔ path.length < 63 ∨ mem[63]? = some nul) := by
  rw [strncpy_eq hmem] at h
  cases h
  rw [List.mem_append, nul_mem_padded hpath, nul_mem_last hmem]
  refine ⟨?_, Iff.rfl⟩
  rw [List.length_append, List.length_take, List.length_append, List.length_replicate, List.length_drop]
  omega

end Copies

section Runs

variable {s s' : Scheduler} {trap : Trap}

/-- A step writes the name of one process: the child of a fork, or the caller of an execve. -/
lemma step_named (hs : ∀ p ∈ s.processes, Named p.name) (ht : processNames.Step s trap s') :
    (∀ p ∈ s'.processes, p.name.length = 64) ∧ ((∀ p ∈ s'.processes, nul ∈ p.name) ↔ NameFits s trap) := by
  obtain ⟨⟨current, thread, hc, -, -, -, h⟩, htyped⟩ := ht
  have hcur : Named current.name := hs current (List.mem_of_getElem? hc)
  rw [irqAndExceptionHandler] at h
  rw [Trap.Typed] at htyped
  rw [NameFits]
  cases hcall : trap.call with
  | fork env =>
    rw [hcall] at h htyped
    obtain ⟨⟨rc, s₁⟩, hf, h⟩ := bind_eq_ok.mp h
    obtain ⟨child, hp, -, ⟨mem, hmem, hcpy⟩, -⟩ := sysFork_spec hf
    have hchild : Named child.name := strcpy_named (htyped mem hmem) hcpy
    cases h
    have hall : ∀ p ∈ s₁.processes, Named p.name := by
      intro p hmem
      rw [hp] at hmem
      rcases List.mem_append.mp hmem with hmem | hmem
      · exact hs p hmem
      · rw [List.mem_singleton.mp hmem]
        exact hchild
    have hset : ∀ p ∈ (setThread s₁ trap.process trap.thread current
        { thread with iframe := trap.frame.setSyscallReturnValue rc }).processes, Named p.name := by
      intro p hmem
      rcases List.mem_or_eq_of_mem_set hmem with hmem | rfl
      · exact hall p hmem
      · exact hcur
    exact ⟨fun p hp => (hset p hp).1, fun _ => trivial, fun _ p hp => (hset p hp).2⟩
  | execve env path argv envp =>
    rw [hcall] at h htyped
    obtain ⟨⟨rc, current', thread'⟩, hx, h⟩ := bind_eq_ok.mp h
    cases h
    have hlt : trap.process < s.processes.length := (List.getElem?_eq_some_iff.mp hc).1
    have hname : current'.name.length = 64 ∧ (nul ∈ current'.name ↔
        (env.Loads → path.length < 63 ∨ current.name[63]? = some nul)) := by
      rcases sysExecve_spec hx with ⟨hl, rfl, -⟩ | ⟨hl, hcpy, -⟩
      · exact ⟨hcur.1, fun _ hl' => absurd hl' hl, fun _ => hcur.2⟩
      · obtain ⟨hlen, hiff⟩ := strncpy_named hcur.1 htyped hcpy
        exact ⟨hlen, fun hmem _ => hiff.mp hmem, fun hfits => hiff.mpr (hfits hl)⟩
    simp only [hc, Option.mem_some, forall_eq']
    rw [← hname.2]
    refine ⟨fun p hmem => ?_, fun hall => ?_, fun hnul p hmem => ?_⟩
    · rcases List.mem_or_eq_of_mem_set hmem with hmem | rfl
      · exact (hs p hmem).1
      · exact hname.1
    · exact hall { current' with threads := current'.threads.set trap.thread _ } (List.mem_set hlt _)
    · rcases List.mem_or_eq_of_mem_set hmem with hmem | rfl
      · exact (hs p hmem).2
      · exact hnul

lemma named_of_reachable (h : (processNames.restrict NameFits).Reachable s) : ∀ p ∈ s.processes, Named p.name := by
  refine h.invariant (I := fun s => ∀ p ∈ s.processes, Named p.name) ⟨?_, ?_⟩
  · rintro s ⟨env, log, entrypoint, henv, hfirst⟩ p hp
    obtain ⟨first, hs, -, ⟨mem, hmem, hcpy⟩, -⟩ := createFirstProcess_spec hfirst
    rw [hs] at hp
    rw [List.mem_singleton.mp hp]
    exact strcpy_named (henv mem hmem) hcpy
  · rintro s trap s' hs ⟨ht, hfits⟩ p hp
    obtain ⟨hlen, hnul⟩ := step_named hs ht
    exact ⟨hlen p hp, hnul.mpr hfits p hp⟩

theorem processNames_terminated (h : (processNames.restrict NameFits).Reachable s) :
    (∀ p ∈ s.processes, p.name.length = 64 ∧ nul ∈ p.name ∧
      ∀ mem : Buffer, mem.length = 64 → ∃ name, strcpy mem p.name = .ok name) ∧
    ∀ trap s', processNames.Step s trap s' → ((∀ p ∈ s'.processes, nul ∈ p.name) ↔ NameFits s trap) := by
  have hs := named_of_reachable h
  refine ⟨fun p hp => ⟨(hs p hp).1, (hs p hp).2, fun mem hmem => ?_⟩, fun trap s' ht => (step_named hs ht).2⟩
  obtain ⟨name, hcpy, -⟩ := strcpy_terminated hmem (hs p hp).terminated
  exact ⟨name, hcpy⟩

lemma processNames_init_boot : processNames.Init bootState := by
  refine ⟨bootAlloc, fun _ => .ok 7, 0xc0010000, fun mem hmem => ?_, rfl⟩
  cases hmem
  rfl

theorem processNames_terminated_fork :
    ∃ s, processNames.Step bootState proc1Fork s ∧ ∀ p ∈ s.processes, nul ∈ p.name := by
  obtain ⟨s, hs⟩ : ∃ s, scheduler.Step bootState proc1Fork s := ⟨_, _, _, rfl, rfl, rfl, rfl, rfl⟩
  have ht : processNames.Step bootState proc1Fork s := by
    refine ⟨hs, fun mem hmem => ?_⟩
    cases hmem
    rfl
  exact ⟨s, ht, ((processNames_terminated (.init processNames_init_boot)).2 proc1Fork s ht).mpr trivial⟩

-- A `Process` in memory that `malloc` returns with all bytes set.
def dirtyAlloc : AllocEnv := { bootAlloc with process := some (List.replicate 64 0xff) }

def dirtyProc1 : Process :=
  { proc1 with name := [0x6b, 0x65, 0x72, 0x6e, 0x65, 0x6c, 0] ++ List.replicate 57 0xff }

def dirtyState : Scheduler := { bootState with processes := [dirtyProc1] }

-- `/bina/`, then `./` for 26 times, then `/init`: 63 bytes.
def longInit : CString :=
  [0x2f, 0x62, 0x69, 0x6e, 0x61, 0x2f] ++ (List.replicate 26 [0x2e, 0x2f]).flatten ++ [0x2f, 0x69, 0x6e, 0x69, 0x74]

def dirtyExecve : Trap := bootTrap (.execve proc1Env longInit [longInit] [])

/-- After its execve the first process has no NUL in its name, and its next fork reads on behind the field. -/
theorem longPath_unterminated : ∃ s, processNames.Reachable s ∧
    ∃ current, s.processes[0]? = some current ∧ nul ∉ current.name ∧
      ∃ thread, current.threads[0]? = some thread ∧
        irqAndExceptionHandler s proc1Fork current thread = .error (.undefined "unterminated string") := by
  have hinit : processNames.Init dirtyState := by
    refine ⟨dirtyAlloc, fun _ => .ok 7, 0xc0010000, fun mem hmem => ?_, rfl⟩
    cases hmem
    rfl
  obtain ⟨userstack, hx⟩ := sysExecve_succeeds proc1Env longInit [longInit] [] dirtyProc1
    ⟨0, dirtyExecve.frame, .runnable, none⟩ rfl rfl rfl rfl rfl (le_refl 1) rfl rfl
  have hnul : nul ∉ longInit := by decide
  have hname : nul ∉ longInit ++ [0xff] := by decide
  have hstep : irqAndExceptionHandler dirtyState dirtyExecve dirtyProc1 bootThread = .ok _ :=
    irqAndExceptionHandler_execve rfl hx
  have ht : processNames.Step dirtyState dirtyExecve _ := ⟨⟨dirtyProc1, bootThread, rfl, rfl, rfl, rfl, hstep⟩, hnul⟩
  exact ⟨_, .step (.init hinit) ht, _, rfl, hname, _, rfl, rfl⟩

end Runs

end Pi0Os.Task
