import Pi0Os.Task.Reaping

/-! `sys$waitexit`: a call that finds the process alive is released once, by the teardown of that process. -/

namespace Pi0Os.Task.Objects

open Kernel Library Tasks

/-- The first thread that is switched to runs with `g_scheduler_has_started` not yet set, and `mutex_take`
then spins on the lock without giving way. -/
def Prompt (s : Tasks) : Act → Prop
  | .waitexit pid => s.hasStarted = true ∨ ∀ a p, s.processes a = some p → (p.pid : ℤ) ≠ pid
  | _ => True

/-- Every call that waits is released by the teardown of the process it waits for, after the exit of its
thread, and by nothing else; and nothing that reads the listeners comes to a node that is gone. -/
structure NoLostWakeup (s : Tasks) : Prop where
  released_once : (s.released.map Prod.fst).Nodup
  released_by : ∀ r ∈ s.released, r ∈ s.waited ∧ r.2 ∈ s.tornDown ∧ r.2 ∈ s.exited
  not_lost : ∀ r ∈ s.waited, r.2 ∈ s.tornDown → r ∈ s.released
  taken_iff : ∀ t w, s.waits t = some w → (w.taken = true ↔ (w.call, w.pid) ∉ s.released)
  gives_way : s.cpu ≠ .spinning
  found_alive : ∀ i a p, s.cpu = .running i → s.processes a = some p → p.pid ∉ s.exited →
    ∃ s', sysWaitexit i p.pid s = .ok (none, s') ∧ s'.waits s.currentThread = some ⟨true, s.waited.length, p.pid⟩ ∧
      s'.waited = (s.waited.length, p.pid) :: s.waited
  found_zombie : ∀ i a p, s.cpu = .running i → s.processes a = some p → p.pid ∈ s.exited →
    sysWaitexit i p.pid s = .ok (some 0, s)
  waitexit_returns : ∀ i pid, s.cpu = .running i → ∃ r, sysWaitexit i pid s = .ok r
  schedules : ∀ i, s.cpu = .loop i → ∃ s', schedulerBody i s = .ok s'

section WaitExit

variable {s s' : Tasks} {a i : ℕ} {p : Process}

lemma Inv.pid_inj (h : Inv s) {b : ℕ} {q : Process} (hp : s.processes a = some p) (hq : s.processes b = some q)
    (he : q.pid = p.pid) : b = a :=
  h.table.pid_inj b a p.pid q.threads p.threads (by rw [owner, hq, ← he]; rfl) (by rw [owner, hp]; rfl)

lemma waitexit_alive (h : Inv s) (hp : s.processes a = some p) (halive : p.pid ∉ s.exited) :
    sysWaitexit i p.pid s =
      .ok (none, if s.hasStarted then switchBack (waiting s a p) i else { waiting s a p with cpu := .spinning }) := by
  rcases sysWaitexit_spec (i := i) h p.pid with ⟨hno, -⟩ | ⟨b, q, -, hpid, hex, -⟩ | ⟨b, q, hq, hpid, -, he⟩
  · exact absurd rfl (hno a p hp)
  · rw [Int.natCast_inj.mp hpid] at hex
    exact absurd hex halive
  · obtain rfl := h.pid_inj hp hq (Int.natCast_inj.mp hpid)
    obtain rfl := Option.some.inj (hp.symm.trans hq)
    exact he

lemma waitexit_zombie (h : Inv s) (hp : s.processes a = some p) (hex : p.pid ∈ s.exited) :
    sysWaitexit i p.pid s = .ok (some 0, s) := by
  rcases sysWaitexit_spec (i := i) h p.pid with ⟨hno, -⟩ | ⟨_, _, -, -, -, he⟩ | ⟨b, q, -, hpid, halive, -⟩
  · exact absurd rfl (hno a p hp)
  · exact he
  · rw [Int.natCast_inj.mp hpid] at halive
    exact absurd hex halive

lemma Inv.not_lost (h : Inv s) : ∀ r ∈ s.waited, r.2 ∈ s.tornDown → r ∈ s.released := by
  intro r hr htorn
  by_contra hnr
  obtain ⟨t, w, hw, rfl⟩ := h.waiters.pending r hr hnr
  obtain ⟨b, L, -, hb, -⟩ := h.waiters.registered t w hw ((h.waiters.taken_iff t w hw).mpr hnr)
  obtain ⟨q, hq, he⟩ := Option.map_eq_some_iff.mp hb
  -- the process is still there, so it was not torn down
  rw [h.tornDown] at htorn
  refine (h.table.freed_gone _ htorn).2 b q.threads ?_
  rw [owner, hq, ← (Prod.mk.inj he).1]
  rfl

lemma step_not_spinning (h : Inv s) {act : Act} (hs : Step s act s') (hg : Granted s act) (hp : Prompt s act)
    (hcpu : s.cpu ≠ .spinning) : s'.cpu ≠ .spinning := by
  cases hs with
  | boot _ _ hs =>
    obtain ⟨_, _, _, _, _, -, -, -, rfl⟩ := createFirstProcess_granted hg hs
    exact fun he => nomatch he
  | schedule _ hs =>
    rename_i i _
    rcases schedulerBody_spec (i := i) h with ⟨-, he⟩ | ⟨_, _, _, _, -, -, -, -, -, he⟩ | ⟨_, _, _, -, -, -, he⟩
    all_goals
      rw [← Except.ok.inj (he.symm.trans hs)]
      exact fun hsp => nomatch hsp
  | yield => exact fun he => nomatch he
  | exit _ _ hs =>
    obtain ⟨current, -, hs⟩ := bind_eq_ok.mp hs
    obtain ⟨q, -, hs⟩ := bind_eq_ok.mp hs
    rw [← Except.ok.inj hs]
    exact fun he => nomatch he
  | fork hrun _ _ hs =>
    obtain ⟨i, hi⟩ := hrun
    obtain ⟨_, _, _, _, _, -, -, -, -, he⟩ := sysFork_granted h hg hi
    rw [he] at hs
    split at hs
    · rw [← (Prod.mk.inj (Except.ok.inj hs)).2]
      exact hcpu
    · cases hs
  | execve hrun _ _ hs =>
    obtain ⟨i, hi⟩ := hrun
    obtain ⟨-, b, ht⟩ := h.running i hi
    obtain ⟨q, -, hq, -⟩ := h.process_of_thread ht
    obtain ⟨-, -, rfl | rfl⟩ := sysExecve_cases ht hq hs
    · exact hcpu
    · exact hcpu
  | waitexit hi _ hs =>
    rename_i slot pid _ _
    rcases sysWaitexit_spec (i := slot) h pid with ⟨-, he⟩ | ⟨_, _, -, -, -, he⟩ | ⟨b, q, hq, hpid, -, he⟩
    · rw [← (Prod.mk.inj (Except.ok.inj (he.symm.trans hs))).2]
      exact hcpu
    · rw [← (Prod.mk.inj (Except.ok.inj (he.symm.trans hs))).2]
      exact hcpu
    · have hstarted : s.hasStarted = true := hp.resolve_right fun hno => hno b q hq hpid
      rw [← (Prod.mk.inj (Except.ok.inj (he.symm.trans hs))).2, if_pos hstarted]
      exact fun hsp => nomatch hsp
  | spin => exact fun he => nomatch he
  | woken => exact hcpu

end WaitExit

lemma waits_inductive :
    (tasks.restrict fun s act => Granted s act ∧ Prompt s act).Inductive fun s => Inv s ∧ s.cpu ≠ .spinning := by
  constructor
  · rintro s rfl
    exact ⟨inv_initial, by simp [initial]⟩
  · rintro s act s' ⟨h, hcpu⟩ ⟨hs, hg, hp⟩
    exact ⟨tasks_inductive.2 s act s' h ⟨hs, hg⟩, step_not_spinning h hs hg hp hcpu⟩

/-- In every run whose new processes start with no listeners and whose calls that wait come after the
scheduler has started. -/
theorem noLostWakeup_of_prompt {s : Tasks}
    (h : (tasks.restrict fun s act => Granted s act ∧ Prompt s act).Reachable s) : NoLostWakeup s := by
  obtain ⟨hinv, hcpu⟩ := h.invariant waits_inductive
  refine ⟨hinv.waiters.released_calls, ?_, hinv.not_lost, hinv.waiters.taken_iff, hcpu, ?_, ?_, ?_, ?_⟩
  · intro r hr
    obtain ⟨hw, htorn⟩ := hinv.waiters.released_torn r hr
    have hfreed : r.2 ∈ s.freed := hinv.tornDown ▸ htorn
    exact ⟨hw, htorn, (hinv.table.freed_gone r.2 hfreed).1⟩
  · intro i a p _ hp halive
    refine ⟨_, waitexit_alive hinv hp halive, ?_, ?_⟩
    · split <;> exact Function.update_self ..
    · split <;> rfl
  · exact fun i a p _ hp hex => waitexit_zombie hinv hp hex
  · intro i pid _
    rcases sysWaitexit_spec (i := i) hinv pid with ⟨-, he⟩ | ⟨_, _, -, -, -, he⟩ | ⟨_, _, -, -, -, he⟩
    all_goals exact ⟨_, he⟩
  · exact hinv.reapedOnce.schedules

section Example

/-- A child at the addresses 4 and 5, and what is found in the place of its listeners. -/
def childEnv (head : Option ℕ) : ForkEnv :=
  ⟨⟨some (4, ⟨head, none, fun _ => none, fun _ => none⟩), true, some 5, true, some 6, true, true⟩, true,
    fun _ => some 0, true⟩

lemma childEnv_fresh (head : Option ℕ) : (childEnv head).alloc.Fresh (started none) := by
  constructor
  · simp [childEnv, started, booted, Tasks.registered, initial]
  · simp [childEnv, started, booted, Tasks.registered, initial]
  · simp only [childEnv, Option.mem_def, Option.some.injEq, forall_eq']
    refine ⟨by decide, fun a p hp => ?_⟩
    by_cases ha : a = 1
    · subst ha
      obtain rfl := Option.some.inj hp
      decide
    · simp [started, booted, Tasks.registered, initial, ha] at hp

def forked (head : Option ℕ) : Tasks :=
  (started none).registered 4 5 6 ⟨head, none, fun _ => none, fun _ => none⟩ fun i =>
    if (standardFiles 0 0 0 i).isSome then some 0 else none

lemma forked_step (head : Option ℕ) : Step (started none) (.fork (childEnv head)) (forked head) := by
  have hfiles : duplicateFiles (fun _ => some 0) (standardFiles 0 0 0) =
    some fun i => if (standardFiles 0 0 0 i).isSome then some 0 else none := if_pos fun _ _ => rfl
  suffices hfork : sysFork (childEnv head) (started none) = .ok (1, forked head) from
    .fork ⟨0, rfl⟩ rfl (childEnv_fresh head) hfork
  rw [sysFork, show (started none).thread (started none).currentThread = .ok ⟨1, .runnable⟩ from rfl, ok_bind,
    show (started none).process 1 = .ok ⟨0, 0, 3, standardFiles 0 0 0,
      ⟨none, none, fun _ => none, fun _ => none⟩, [2]⟩ from rfl,
    ok_bind]
  simp [allocProcess, childEnv, panicIf, registerThread, kassert, forked, Tasks.registered, Tasks.process,
    Tasks.setProcess, Tasks.setThread, started, booted, initial, hfiles]

lemma prompt_started : (tasks.restrict fun s act => Granted s act ∧ Prompt s act).Reachable (started none) := by
  have h₀ : (tasks.restrict fun s act => Granted s act ∧ Prompt s act).Reachable initial := .init rfl
  have h₁ : (tasks.restrict fun s act => Granted s act ∧ Prompt s act).Reachable (booted none) :=
    h₀.step ⟨boot_step none, bootEnv_granted, trivial⟩
  exact h₁.step (a := Act.schedule) ⟨started_step none, trivial, trivial⟩

lemma prompt_forked : (tasks.restrict fun s act => Granted s act ∧ Prompt s act).Reachable (forked none) := by
  refine prompt_started.step ⟨forked_step none, ⟨⟨⟨4, _, rfl, rfl⟩, rfl, rfl, rfl, rfl, rfl, rfl⟩, rfl, ?_,
    rfl⟩, trivial⟩
  exact fun _ _ _ _ _ _ => rfl

theorem noLostWakeup_of_prompt_forked : NoLostWakeup (forked none) := noLostWakeup_of_prompt prompt_forked

/-- `add` writes to whatever `malloc` has left in the place of the first listener. -/
theorem garbage_listeners_break_waitexit : ∃ s, tasks.Reachable s ∧ ¬ NoLostWakeup s := by
  have h₀ : tasks.Reachable initial := .init rfl
  have h₂ : tasks.Reachable (started none) := (h₀.step (boot_step none)).step (started_step none)
  refine ⟨forked (some 7), h₂.step (forked_step (some 7)), fun h => ?_⟩
  obtain ⟨s', hs', -⟩ := h.found_alive 0 4 _ rfl rfl List.not_mem_nil
  cases hs'

end Example

end Pi0Os.Task.Objects
