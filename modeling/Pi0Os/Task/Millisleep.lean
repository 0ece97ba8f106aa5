import Pi0Os.Kernel.TimerFates
import Pi0Os.Library.TransitionSystem

/-! `sys$millisleep`, and the runs of the timers with all that uses them: calls of threads and of callbacks, timer
interrupts, and threads that sleep. -/

namespace Pi0Os.Task

open Kernel Library

/-- A thread in `mutex_take` of `sys$millisleep`; `entered` are the ticks at the beginning of the call. -/
structure Sleeper where
  mutex : ℕ
  ms : ℕ
  entered : ℕ
deriving DecidableEq

/-- A call of `sys$millisleep` that returned. -/
structure Sleep where
  ms : ℤ
  entered : ℕ
  returned : ℕ
  rc : ℤ

structure SleepState where
  timers : TimerState
  sleepers : List Sleeper
  -- ghost
  slept : List Sleep

section Millisleep

variable (ticksPerMs : ℕ)

/-- `sys$millisleep` up to `mutex_take`; the mutex is a local variable, which `mutex_init` makes locked. -/
def sysMillisleep (s : SleepState) (ms : ℤ) (mutex entered block delay : ℕ) : Except Panic SleepState :=
  if ms < 0 then .ok { s with slept := s.slept ++ [⟨ms, entered, s.timers.clock, -Err.inval⟩] }
  else if ms = 0 then .ok { s with slept := s.slept ++ [⟨ms, entered, s.timers.clock, 0⟩] }
  else do
    let timers ← timerExecOnce ticksPerMs { s.timers with locks := Function.update s.timers.locks mutex true } ms.toNat
      (.release mutex) block delay
    return { s with timers := timers, sleepers := ⟨mutex, ms.toNat, entered⟩ :: s.sleepers }

/-- `mutex_take` finds the mutex free, and `sys$millisleep` returns. -/
def millisleepReturn (s : SleepState) (x : Sleeper) (delay : ℕ) : SleepState where
  timers := { s.timers.read delay with locks := Function.update s.timers.locks x.mutex true }
  sleepers := s.sleepers.erase x
  slept := s.slept ++ [⟨x.ms, x.entered, s.timers.clock + delay, 0⟩]

inductive TimerEvent where
  | exec (r : TimerRequest)
  | install (ms delay : ℕ)
  | interrupt (env : TimerInterrupt)
  | sleep (ms : ℤ) (mutex entered block delay : ℕ)
  | wake (x : Sleeper) (delay : ℕ)

/-- A call began before, and its mutex is not that of another thread; only a free mutex can be taken. -/
def TimerEvent.Enabled (s : SleepState) : TimerEvent → Prop
  | .sleep _ mutex entered _ _ => entered ≤ s.timers.clock ∧ ∀ x ∈ s.sleepers, x.mutex ≠ mutex
  | .wake x _ => x ∈ s.sleepers ∧ s.timers.locks x.mutex = false
  | _ => True

def TimerEvent.run (s : SleepState) : TimerEvent → Except Panic SleepState
  | .exec r => do return { s with timers := ← r.exec ticksPerMs s.timers }
  | .install ms delay => .ok { s with timers := timerInstallSchedulerCallback ticksPerMs s.timers ms delay }
  | .interrupt env => do return { s with timers := ← timerInterrupt ticksPerMs s.timers env }
  | .sleep ms mutex entered block delay => sysMillisleep ticksPerMs s ms mutex entered block delay
  | .wake x delay => .ok (millisleepReturn s x delay)

/-- The machine when `timer_init` has run. -/
def TimersStart (s : SleepState) : Prop :=
  s.timers.timers.head = none ∧ s.timers.timers.tail = none ∧ (∀ a, s.timers.heap a = none) ∧
    s.timers.log = ⟨0, [], [], [], []⟩ ∧ s.sleepers = [] ∧ s.slept = []

def timerRuns : TransitionSystem SleepState TimerEvent where
  Init := TimersStart
  Step s event s' := event.Enabled s ∧ event.run ticksPerMs s = .ok s'

/-- The mutexes that are to be released, and when. -/
def promises (sleepers : List Sleeper) : List (ℕ × ℕ) :=
  sleepers.map fun x => (x.mutex, x.entered + x.ms * ticksPerMs)

/-- What holds in every run, with the timers of the list. -/
structure SleepInv (s : SleepState) (l : List (ℕ × Timer)) : Prop where
  timers : TimerInv ticksPerMs s.timers l [] [] (promises ticksPerMs s.sleepers)
  slept : NoOverflow s.timers.log → ∀ z ∈ s.slept, z.entered + z.ms.toNat * ticksPerMs ≤ z.returned

end Millisleep

section Runs

variable {ticksPerMs : ℕ} {s s' : SleepState} {l : List (ℕ × Timer)} {p : List (ℕ × ℕ)}

lemma sleepInv_start (h : TimersStart s) : SleepInv ticksPerMs s [] := by
  obtain ⟨hhead, htail, hheap, hlog, hsleepers, hslept⟩ := h
  have hlinked : TimersLinked s.timers [] := by
    refine ⟨.empty hhead htail, by simp, fun a t ha => ?_, .nil, by simp, by simp [hlog], by simp [hlog]⟩
    rw [hheap] at ha
    cases ha
  refine ⟨⟨hlinked, fun _ => ⟨by simp, by simp, by simp, fun n hn => ?_⟩, ?_⟩, by simp [hslept]⟩
  · rw [hlog] at hn
    exact absurd hn (Nat.not_lt_zero n)
  · rw [hsleepers]
    exact ⟨by simp, by simp, by simp [promises], by simp [promises]⟩

namespace SleepInv

/-- The timers are new, the threads are as they were. -/
lemma timers_step {timers : TimerState} {l' : List (ℕ × Timer)} (h : SleepInv ticksPerMs s l)
    (ht : TimerInv ticksPerMs timers l' [] [] (promises ticksPerMs s.sleepers))
    (hsub : s.timers.log.deadlines ⊆ timers.log.deadlines) : SleepInv ticksPerMs { s with timers := timers } l' :=
  ⟨ht, fun hno => h.slept (hno.mono hsub)⟩

/-- A call that does not sleep comes back. -/
lemma slept_now (h : SleepInv ticksPerMs s l) {ms : ℤ} (hms : ms ≤ 0) {entered : ℕ} (hle : entered ≤ s.timers.clock)
    (rc : ℤ) : SleepInv ticksPerMs { s with slept := s.slept ++ [⟨ms, entered, s.timers.clock, rc⟩] } l := by
  refine ⟨h.timers, fun hno z hz => ?_⟩
  rcases List.mem_append.mp hz with hz | hz
  · exact h.slept hno z hz
  · rw [List.mem_singleton.mp hz, Int.toNat_of_nonpos hms, Nat.zero_mul]
    exact hle

/-- A thread goes to sleep. -/
lemma sleeps (h : SleepInv ticksPerMs s l) {mutex entered : ℕ} (hle : entered ≤ s.timers.clock)
    (hfree : ∀ x ∈ s.sleepers, x.mutex ≠ mutex) {block : ℕ} (hdead : s.timers.alive block = false) (ms delay : ℕ) :
    ∃ t, SleepInv ticksPerMs
      { s with
        timers := scheduleTimer ticksPerMs { s.timers with locks := Function.update s.timers.locks mutex true } block
          .oneShot (.release mutex) ms delay
        sleepers := ⟨mutex, ms, entered⟩ :: s.sleepers } ((block, t) :: l) := by
  let s₀ := scheduleTimer ticksPerMs s.timers block .oneShot (.release mutex) ms delay
  obtain ⟨t, htype, hcall, hserial, hstart, hperiod, hl⟩ :=
    @TimersLinked.add ticksPerMs _ _ _ h.timers.linked hdead .oneShot (.release mutex) ms delay
  have hsub : s.timers.log.deadlines ⊆ s₀.log.deadlines := List.subset_cons_self _ _
  have hdue : NoOverflow s₀.log → entered + ms * ticksPerMs ≤ t.startTime + t.period := fun hno => by
    have hlt : s.timers.clock + delay + ms * ticksPerMs < word64 := hno _ List.mem_cons_self
    have hp : t.period = ms * ticksPerMs := hperiod.trans (Nat.mod_eq_of_lt (by omega))
    rw [hstart, hp]
    omega
  have hpromised : Promised s₀ (l ++ []) (promises ticksPerMs s.sleepers) :=
    h.timers.promised.congr rfl hsub (Nat.le_add_right _ _)
  have hmutex : ∀ p ∈ promises ticksPerMs s.sleepers, p.1 ≠ mutex := fun p hp => by
    obtain ⟨x, hx, rfl⟩ := List.mem_map.mp hp
    exact hfree x hx
  refine ⟨t, ⟨hl.congr rfl rfl rfl hl.looked rfl, fun hno => ?_, ?_⟩, fun hno => h.slept (hno.mono hsub)⟩
  · have hf : Fates ticksPerMs s₀ ((block, t) :: l) [] [] :=
      (h.timers.fates (hno.mono hsub)).add h.timers.linked htype hserial hstart hperiod hno
    exact hf.congr rfl le_rfl
  · exact hpromised.promise hmutex (e := (block, t)) hcall htype hdue

/-- A thread wakes up, after its time. -/
lemma wakes (h : SleepInv ticksPerMs s l) {x : Sleeper} (hx : x ∈ s.sleepers)
    (hlock : s.timers.locks x.mutex = false) (delay : ℕ) : SleepInv ticksPerMs (millisleepReturn s x delay) l := by
  have hp : (x.mutex, x.entered + x.ms * ticksPerMs) ∈ promises ticksPerMs s.sleepers := List.mem_map_of_mem hx
  have hread := h.timers.read delay
  refine ⟨⟨hread.linked.congr rfl rfl rfl hread.linked.looked rfl, fun hno => (hread.fates hno).congr rfl le_rfl, ?_⟩,
    fun hno z hz => ?_⟩
  · refine hread.promised.forget hlock (fun p hp => ?_) fun p hp hne => ?_
    · obtain ⟨y, hy, rfl⟩ := List.mem_map.mp hp
      exact List.mem_map_of_mem (List.mem_of_mem_erase hy)
    · obtain ⟨y, hy, rfl⟩ := List.mem_map.mp hp
      refine List.mem_map_of_mem ((List.mem_erase_of_ne ?_).mpr hy)
      rintro rfl
      exact hne rfl
  · rcases List.mem_append.mp hz with hz | hz
    · exact h.slept hno z hz
    · rw [List.mem_singleton.mp hz]
      exact (h.timers.promised.kept _ hp hlock hno).trans (Nat.le_add_right _ _)

/-- One step: it fails only for want of memory. -/
lemma run (h : SleepInv ticksPerMs s l) {event : TimerEvent} (hen : event.Enabled s) :
    (∃ s' l', event.run ticksPerMs s = .ok s' ∧ SleepInv ticksPerMs s' l') ∨
      event.run ticksPerMs s = .error mallocFailed := by
  cases event with
  | exec r =>
    rcases h.timers.calls r with ⟨timers, e, hrun, ht, hsub⟩ | hrun
    · exact .inl ⟨_, _, by rw [TimerEvent.run, hrun]; rfl, h.timers_step ht hsub⟩
    · exact .inr (by rw [TimerEvent.run, hrun]; rfl)
  | install ms delay =>
    have ht := h.timers.read delay
    refine .inl ⟨_, l, rfl, h.timers_step ⟨ht.linked.congr rfl rfl rfl ht.linked.looked rfl, fun hno => ?_, ?_⟩ ?_⟩
    · exact (ht.fates hno).congr rfl le_rfl
    · exact ht.promised.congr rfl (List.Subset.refl _) le_rfl
    · exact List.Subset.refl _
  | interrupt env =>
    rcases h.timers.interrupt env with ⟨timers, l', hrun, ht, hsub⟩ | hrun
    · exact .inl ⟨_, l', by rw [TimerEvent.run, hrun]; rfl, h.timers_step ht hsub⟩
    · exact .inr (by rw [TimerEvent.run, hrun]; rfl)
  | sleep ms mutex entered block delay =>
    obtain ⟨hle, hfree⟩ := hen
    rw [TimerEvent.run, sysMillisleep]
    by_cases hneg : ms < 0
    · rw [if_pos hneg]
      exact .inl ⟨_, l, rfl, h.slept_now hneg.le hle _⟩
    by_cases hzero : ms = 0
    · rw [if_neg hneg, if_pos hzero]
      exact .inl ⟨_, l, rfl, h.slept_now hzero.le hle _⟩
    rw [if_neg hneg, if_neg hzero, timerExecOnce]
    have hl : TimersLinked { s.timers with locks := Function.update s.timers.locks mutex true } (l ++ [] ++ []) :=
      h.timers.linked.congr rfl rfl rfl h.timers.linked.looked rfl
    rcases @timerExec_cases ticksPerMs _ _ hl .oneShot (.release mutex) ms.toNat block delay with ⟨hdead, hrun⟩ | hrun
    · obtain ⟨t, hs⟩ := h.sleeps hle hfree hdead ms.toNat delay
      exact .inl ⟨_, _, by rw [hrun]; rfl, hs⟩
    · exact .inr (by rw [hrun]; rfl)
  | wake x delay => exact .inl ⟨_, l, rfl, h.wakes hen.1 hen.2 delay⟩

end SleepInv

lemma sleepInv_reachable (h : (timerRuns ticksPerMs).Reachable s) : ∃ l, SleepInv ticksPerMs s l := by
  refine h.invariant (I := fun s => ∃ l, SleepInv ticksPerMs s l) ⟨fun s hs => ⟨[], sleepInv_start hs⟩, ?_⟩
  rintro s event s' ⟨l, hl⟩ ⟨hen, hrun⟩
  rcases hl.run hen with ⟨s₂, l', hrun', hl'⟩ | hrun'
  · obtain rfl := Except.ok.inj (hrun'.symm.trans hrun)
    exact ⟨l', hl'⟩
  · rw [hrun'] at hrun
    cases hrun

/-- In every run without a 64-bit overflow: each one-shot timer is called once, by the first interrupt after it was
added that sees its deadline, and freed; each periodic one stays and keeps its period; a thread sleeps at least as long
as it asked for; and no step fails but for want of memory. -/
theorem timers_onTime (h : (timerRuns ticksPerMs).Reachable s) (hno : NoOverflow s.timers.log) :
    TimersOnTime ticksPerMs s.timers ∧ (∀ z ∈ s.slept, z.entered + z.ms.toNat * ticksPerMs ≤ z.returned) ∧
      ∀ event : TimerEvent, event.Enabled s → ∀ e, event.run ticksPerMs s = .error e → e = mallocFailed := by
  obtain ⟨l, hl⟩ := sleepInv_reachable h
  refine ⟨hl.timers.onTime hno, hl.slept hno, fun event hen e he => ?_⟩
  rcases hl.run hen with ⟨s', l', hrun, -⟩ | hrun
  · rw [hrun] at he
    cases he
  · exact Except.error.inj (he.symm.trans hrun)

end Runs

section Examples

def noTimers : SleepState where
  timers := ⟨⟨none, none, fun _ => none, fun _ => none⟩, fun _ => none, fun _ => false, 0, 0, 0, ⟨0, [], [], [], []⟩⟩
  sleepers := []
  slept := []

def quietInterrupt (delay : ℕ) : TimerInterrupt := ⟨fun _ => ⟨delay, [], 0⟩, 0, 0⟩

/-- A thread sleeps for two milliseconds; the first interrupt comes after one, the second after four. -/
theorem timers_onTime_sleep : ∃ s, (timerRuns 1).Reachable s ∧ TimersOnTime 1 s.timers ∧ s.slept = [⟨2, 0, 4, 0⟩] ∧
    s.timers.log.freed = [0] := by
  have hrun : ∃ s₁ s₂ s₃, TimerEvent.run 1 noTimers (.sleep 2 7 0 9 0) = .ok s₁ ∧
      TimerEvent.run 1 s₁ (.interrupt (quietInterrupt 1)) = .ok s₂ ∧
      TimerEvent.run 1 s₂ (.interrupt (quietInterrupt 3)) = .ok s₃ ∧
      s₃.sleepers = [⟨7, 2, 0⟩] ∧ s₃.timers.locks 7 = false ∧ s₃.slept = [] ∧ s₃.timers.clock = 4 ∧
      s₃.timers.log.freed = [0] ∧ s₃.timers.log.deadlines = [2] :=
    ⟨_, _, _, rfl, rfl, rfl, rfl, rfl, rfl, rfl, rfl, rfl⟩
  obtain ⟨s₁, s₂, s₃, h₁, h₂, h₃, hsleepers, hlock, hslept, hclock, hfreed, hdeadlines⟩ := hrun
  have hr₃ : (timerRuns 1).Reachable s₃ := by
    have hr₀ : (timerRuns 1).Reachable noTimers := .init ⟨rfl, rfl, fun _ => rfl, rfl, rfl, rfl⟩
    have hr₁ : (timerRuns 1).Reachable s₁ :=
      .step (a := .sleep 2 7 0 9 0) hr₀ ⟨⟨le_rfl, fun x hx => absurd hx List.not_mem_nil⟩, h₁⟩
    have hr₂ : (timerRuns 1).Reachable s₂ := .step (a := .interrupt (quietInterrupt 1)) hr₁ ⟨trivial, h₂⟩
    exact .step (a := .interrupt (quietInterrupt 3)) hr₂ ⟨trivial, h₃⟩
  have hr : (timerRuns 1).Reachable (millisleepReturn s₃ ⟨7, 2, 0⟩ 0) := by
    refine .step hr₃ (a := .wake ⟨7, 2, 0⟩ 0) ⟨⟨?_, hlock⟩, rfl⟩
    rw [hsleepers]
    exact List.mem_cons_self
  refine ⟨_, hr, (timers_onTime hr ?_).1, ?_, hfreed⟩
  · intro d hd
    have hd' : d ∈ s₃.timers.log.deadlines := hd
    rw [hdeadlines, List.mem_singleton] at hd'
    subst hd'
    decide
  · rw [millisleepReturn, hslept, hclock]
    rfl

end Examples

end Pi0Os.Task
