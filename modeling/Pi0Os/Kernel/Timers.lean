import Pi0Os.Kernel.IntrusiveList

/-! `timer.cpp`: the list of timers, the functions that add to it, and the handler of the timer interrupt. Interrupts
are off while the list changes. A reading of `ticks()` is the last one and what has passed since, which the environment
says; so the counter does not decrease. -/

namespace Pi0Os.Kernel

inductive TimerType where
  | periodic
  | oneShot
deriving DecidableEq

/-- The callback with its argument: that of `sys$millisleep` releases a mutex, and what any other one calls is read from
the environment. -/
inductive TimerCallback where
  | release (mutex : ℕ)
  | other (arg : ℕ)
deriving DecidableEq

structure Timer where
  type : TimerType
  callback : TimerCallback
  startTime : ℕ
  period : ℕ
  -- ghost: the number of timers that were added before
  serial : ℕ

/-- A timer as it was added: `interrupt` is the number of interrupts that had started. -/
structure TimerBirth where
  type : TimerType
  startTime : ℕ
  ms : ℕ
  interrupt : ℕ

/-- The handler compares the deadline of a timer with the ticks, in the interrupt with this number. -/
structure TimerLook where
  serial : ℕ
  interrupt : ℕ
  ticks : ℕ
  fired : Bool

/-- What happened to the timers; no function of the kernel reads it. -/
structure TimerLog where
  interrupts : ℕ
  born : List TimerBirth
  looks : List TimerLook
  freed : List ℕ
  -- the sums that are kept in 64 bits, before they are cut off
  deadlines : List ℕ

structure TimerState where
  timers : IntrusiveLinkedList
  heap : ℕ → Option Timer
  -- the locks of the mutexes of `sys$millisleep`, taken or not
  locks : ℕ → Bool
  schedulerDeadline : ℕ
  schedulerPeriod : ℕ
  -- the last value of `ticks()`
  clock : ℕ
  -- ghost
  log : TimerLog

abbrev word64 : ℕ := 2 ^ 64

def TimerLog.add (log : TimerLog) (b : TimerBirth) (deadline : ℕ) : TimerLog :=
  { log with born := log.born ++ [b], deadlines := deadline :: log.deadlines }

def TimerLog.look (log : TimerLog) (serial ticks : ℕ) (fired : Bool) : TimerLog :=
  { log with looks := log.looks ++ [⟨serial, log.interrupts, ticks, fired⟩] }

namespace TimerState

variable (s : TimerState)

def alive (a : ℕ) : Bool := (s.heap a).isSome

/-- The next reading of `ticks()`. -/
def read (delay : ℕ) : TimerState := { s with clock := s.clock + delay }

def look (timer : Timer) (fired : Bool) : TimerState := { s with log := s.log.look timer.serial s.clock fired }

end TimerState

/-- `mustmalloc` panics when there is no block; a block that is in use stands for this. -/
def mallocFailed : Panic := .message "malloc failed\n"

section Timers

variable (ticksPerMs : ℕ)

/-- What `schedule_timer` does with the lock held, to a timer in the block `a`. -/
def scheduleTimer (s : TimerState) (a : ℕ) (type : TimerType) (callback : TimerCallback) (ms delay : ℕ) :
    TimerState :=
  let s := s.read delay
  { s with
    timers := s.timers.add a
    heap := Function.update s.heap a
      (some ⟨type, callback, s.clock, ms * ticksPerMs % word64, s.log.born.length⟩)
    log := s.log.add ⟨type, s.clock, ms, s.log.interrupts⟩ (s.clock + ms * ticksPerMs) }

/-- The common part of `timer_exec_once` and `timer_exec_periodic`. -/
def timerExec (s : TimerState) (type : TimerType) (callback : TimerCallback) (ms block delay : ℕ) :
    Except Panic TimerState := do
  panicIf mallocFailed (s.alive block)
  panicIf IntrusiveLinkedList.deadNode (¬ s.timers.head.all s.alive)
  return scheduleTimer ticksPerMs s block type callback ms delay

def timerExecOnce (s : TimerState) (ms : ℕ) (callback : TimerCallback) (block delay : ℕ) :
    Except Panic TimerState := timerExec ticksPerMs s .oneShot callback ms block delay

def timerExecPeriodic (s : TimerState) (ms : ℕ) (callback : TimerCallback) (block delay : ℕ) :
    Except Panic TimerState := timerExec ticksPerMs s .periodic callback ms block delay

def timerInstallSchedulerCallback (s : TimerState) (ms delay : ℕ) : TimerState :=
  let s := s.read delay
  let period := ticksPerMs * ms % word64
  { s with schedulerPeriod := period, schedulerDeadline := (s.clock + period) % word64 }

/-- A call of `timer_exec_once` or `timer_exec_periodic`, with the block that `malloc` gives. -/
structure TimerRequest where
  type : TimerType
  ms : ℕ
  arg : ℕ
  block : ℕ
  delay : ℕ

def TimerRequest.exec (r : TimerRequest) (s : TimerState) : Except Panic TimerState :=
  match r.type with
  | .oneShot => timerExecOnce ticksPerMs s r.ms (.other r.arg) r.block r.delay
  | .periodic => timerExecPeriodic ticksPerMs s r.ms (.other r.arg) r.block r.delay

def runCallback (s : TimerState) (calls : List TimerRequest) : TimerCallback → Except Panic TimerState
  | .release mutex => .ok { s with locks := Function.update s.locks mutex false }
  | .other _ => calls.foldlM (fun s r => r.exec ticksPerMs s) s

/-- What passes while the handler is at one timer: the ticks before each of its readings, and the calls of the
callback. -/
structure TimerVisit where
  delay : ℕ
  calls : List TimerRequest
  rearmDelay : ℕ

/-- The handler behind the callback: `remove` and `kfree`, or the new start time. -/
def finishTimer (s : TimerState) (a delay : ℕ) : Except Panic TimerState :=
  match s.heap a with
  | none => .error IntrusiveLinkedList.deadNode
  | some timer =>
    if timer.type = .oneShot then do
      panicIf IntrusiveLinkedList.deadNode (¬ ((s.timers.prev a).all s.alive ∧ (s.timers.next a).all s.alive))
      return { s with
        timers := s.timers.remove a
        heap := Function.update s.heap a none
        log := { s.log with freed := s.log.freed ++ [timer.serial] } }
    else
      let s := s.read delay
      .ok { s with
        heap := Function.update s.heap a (some { timer with startTime := s.clock })
        log := { s.log with deadlines := (s.clock + timer.period) :: s.log.deadlines } }

def handleTimer (v : TimerVisit) (s : TimerState) (a : ℕ) : Except Panic TimerState :=
  match s.heap a with
  | none => .error IntrusiveLinkedList.deadNode
  | some timer =>
    let s := s.read v.delay
    if (timer.startTime + timer.period) % word64 ≤ s.clock then do
      let s ← runCallback ticksPerMs (s.look timer true) v.calls timer.callback
      finishTimer s a v.rearmDelay
    else .ok (s.look timer false)

structure TimerInterrupt where
  visit : ℕ → TimerVisit
  schedulerDelay : ℕ
  rearmDelay : ℕ

/-- The end of the handler, with the callback of the scheduler. -/
def schedulerTick (env : TimerInterrupt) (s : TimerState) : TimerState :=
  let s := s.read env.schedulerDelay
  if s.schedulerDeadline ≤ s.clock then
    let s := s.read env.rearmDelay
    { s with schedulerDeadline := (s.clock + s.schedulerPeriod) % word64 }
  else s

/-- The handler that `timer_init` installs. No more timers are in the list than have been added. -/
def timerInterrupt (s : TimerState) (env : TimerInterrupt) : Except Panic TimerState := do
  let s := { s with log := { s.log with interrupts := s.log.interrupts + 1 } }
  let s ← IntrusiveLinkedList.foreach TimerState.timers TimerState.alive
    (fun i s a => handleTimer ticksPerMs (env.visit i) s a) s.log.born.length 0 s s.timers.head
  return schedulerTick env s

end Timers

/-- The blocks of the heap are the timers of the list. -/
structure TimersLinked (s : TimerState) (l : List (ℕ × Timer)) : Prop where
  holds : s.timers.Holds (l.map Prod.fst)
  heap : ∀ e ∈ l, s.heap e.1 = some e.2
  linked : ∀ a t, s.heap a = some t → (a, t) ∈ l
  serials : (l.map fun e => e.2.serial).Nodup
  born : ∀ e ∈ l, e.2.serial < s.log.born.length
  looked : ∀ x ∈ s.log.looks, x.serial < s.log.born.length
  freed : ∀ n ∈ s.log.freed, n < s.log.born.length

section Linked

variable {ticksPerMs : ℕ} {s s' : TimerState} {l x y : List (ℕ × Timer)} {e : ℕ × Timer} {a : ℕ} {t : Timer}

namespace TimersLinked

/-- The list and the heap are untouched, and what is logged is logged of a timer. -/
lemma congr (h : TimersLinked s l) (htimers : s'.timers = s.timers) (hheap : s'.heap = s.heap)
    (hborn : s'.log.born = s.log.born) (hlooks : ∀ x ∈ s'.log.looks, x.serial < s.log.born.length)
    (hfreed : s'.log.freed = s.log.freed) : TimersLinked s' l where
  holds := htimers ▸ h.holds
  heap := hheap ▸ h.heap
  linked := hheap ▸ h.linked
  serials := h.serials
  born := hborn ▸ h.born
  looked := hborn ▸ hlooks
  freed := hborn ▸ hfreed ▸ h.freed

lemma nodup (h : TimersLinked s l) : (l.map Prod.fst).Nodup := h.holds.nodup

lemma length_le (h : TimersLinked s l) : l.length ≤ s.log.born.length := by
  have hsub : (l.map fun e => e.2.serial) ⊆ List.range s.log.born.length := by
    intro n hn
    obtain ⟨e, he, rfl⟩ := List.mem_map.mp hn
    exact List.mem_range.mpr (h.born e he)
  simpa using (h.serials.subperm hsub).length_le

lemma alive (h : TimersLinked s l) (he : e ∈ l) : s.alive e.1 = true := by
  rw [TimerState.alive, h.heap e he]
  rfl

lemma alive_of_mem (h : TimersLinked s l) (ha : a ∈ l.map Prod.fst) : s.alive a = true := by
  obtain ⟨e, he, rfl⟩ := List.mem_map.mp ha
  exact h.alive he

lemma head_alive (h : TimersLinked s l) : s.timers.head.all s.alive = true := by
  rw [h.holds.head]
  cases l with
  | nil => rfl
  | cons e l => exact h.alive List.mem_cons_self

lemma notMem_of_dead (h : TimersLinked s l) (ha : s.alive a = false) : a ∉ l.map Prod.fst := fun hm =>
  absurd (h.alive_of_mem hm) (by rw [ha]; exact Bool.false_ne_true)

lemma next (h : TimersLinked s (x ++ e :: y)) : s.timers.next e.1 = (y.map Prod.fst).head? :=
  (h.holds.links (x.map Prod.fst) e.1 (y.map Prod.fst) (by simp)).2

lemma links_alive (h : TimersLinked s (x ++ e :: y)) :
    (s.timers.prev e.1).all s.alive = true ∧ (s.timers.next e.1).all s.alive = true := by
  obtain ⟨hprev, hnext⟩ := h.holds.links (x.map Prod.fst) e.1 (y.map Prod.fst) (by simp)
  rw [hprev, hnext]
  constructor
  · cases hx : (x.map Prod.fst).getLast? with
    | none => rfl
    | some b =>
      refine h.alive_of_mem ?_
      rw [List.map_append]
      exact List.mem_append_left _ (List.mem_of_getLast? hx)
  · cases hy : (y.map Prod.fst).head? with
    | none => rfl
    | some b =>
      refine h.alive_of_mem ?_
      rw [List.map_append, List.map_cons]
      exact List.mem_append_right _ (List.mem_cons_of_mem _ (List.mem_of_head? hy))

/-- The new timer is the head of the list. -/
lemma add (h : TimersLinked s l) (ha : s.alive a = false) (type : TimerType) (callback : TimerCallback) (ms delay : ℕ) :
    ∃ t, t.type = type ∧ t.callback = callback ∧ t.serial = s.log.born.length ∧
      t.startTime = s.clock + delay ∧ t.period = ms * ticksPerMs % word64 ∧
      TimersLinked (scheduleTimer ticksPerMs s a type callback ms delay) ((a, t) :: l) := by
  have hnew := h.notMem_of_dead ha
  have hne : ∀ e ∈ l, e.1 ≠ a := fun e he hea => hnew (hea ▸ List.mem_map_of_mem he)
  have hlen : (scheduleTimer ticksPerMs s a type callback ms delay).log.born.length = s.log.born.length + 1 :=
    List.length_append
  refine ⟨⟨type, callback, s.clock + delay, ms * ticksPerMs % word64, s.log.born.length⟩, rfl, rfl, rfl, rfl, rfl,
    h.holds.add hnew, ?_, fun b t hb => ?_, ?_, ?_, fun x hx => ?_, fun n hn => ?_⟩
  · rintro e (_ | ⟨_, he⟩)
    · exact Function.update_self ..
    · exact (Function.update_of_ne (hne e he) ..).trans (h.heap e he)
  · change Function.update s.heap a _ b = some t at hb
    by_cases hba : b = a
    · subst hba
      rw [Function.update_self] at hb
      obtain rfl := Option.some.inj hb
      exact List.mem_cons_self
    · rw [Function.update_of_ne hba] at hb
      exact List.mem_cons_of_mem _ (h.linked b t hb)
  · refine List.nodup_cons.mpr ⟨fun hm => ?_, h.serials⟩
    obtain ⟨e, he, hes⟩ := List.mem_map.mp hm
    exact absurd (h.born e he) (by rw [hes]; exact lt_irrefl _)
  · rintro e (_ | ⟨_, he⟩)
    · exact hlen ▸ Nat.lt_succ_self _
    · exact hlen ▸ (h.born e he).trans (Nat.lt_succ_self _)
  · exact hlen ▸ (h.looked x hx).trans (Nat.lt_succ_self _)
  · exact hlen ▸ (h.freed n hn).trans (Nat.lt_succ_self _)

end TimersLinked

/-- The state after `timer` in the block `a` is unlinked and freed. -/
def TimerState.unlink (s : TimerState) (a : ℕ) (timer : Timer) : TimerState :=
  { s with
    timers := s.timers.remove a
    heap := Function.update s.heap a none
    log := { s.log with freed := s.log.freed ++ [timer.serial] } }

/-- The state after the periodic `timer` starts again. -/
def TimerState.rearm (s : TimerState) (a : ℕ) (timer : Timer) (delay : ℕ) : TimerState :=
  { s.read delay with
    heap := Function.update s.heap a (some { timer with startTime := s.clock + delay })
    log := { s.log with deadlines := (s.clock + delay + timer.period) :: s.log.deadlines } }

namespace TimersLinked

lemma unlink (h : TimersLinked s (x ++ (a, t) :: y)) : TimersLinked (s.unlink a t) (x ++ y) := by
  have hnodup := h.nodup
  rw [List.map_append, List.map_cons] at hnodup
  have hnot : a ∉ x.map Prod.fst ++ y.map Prod.fst := (List.nodup_middle.mp hnodup).notMem
  have hsub : ∀ e ∈ x ++ y, e ∈ x ++ (a, t) :: y := fun e he =>
    (List.sublist_cons_self _ _).append_left x |>.mem he
  refine ⟨?_, fun e he => ?_, fun b t' hb => ?_, ?_, fun e he => h.born e (hsub e he), h.looked, fun n hn => ?_⟩
  · have hholds := h.holds
    rw [List.map_append, List.map_cons] at hholds
    rw [List.map_append]
    exact hholds.remove
  · refine (Function.update_of_ne (fun hea => hnot ?_) ..).trans (h.heap e (hsub e he))
    rw [← List.map_append]
    exact hea ▸ List.mem_map_of_mem he
  · change Function.update s.heap a none b = some t' at hb
    have hba : b ≠ a := by
      rintro rfl
      rw [Function.update_self] at hb
      cases hb
    rw [Function.update_of_ne hba] at hb
    have hm := h.linked b t' hb
    rcases List.mem_append.mp hm with hm | hm
    · exact List.mem_append_left _ hm
    · rcases List.mem_cons.mp hm with heq | hm
      · exact absurd (congrArg Prod.fst heq) hba
      · exact List.mem_append_right _ hm
  · exact h.serials.sublist (((List.sublist_cons_self _ _).append_left x).map _)
  · rcases List.mem_append.mp hn with hn | hn
    · exact h.freed n hn
    · rw [List.mem_singleton.mp hn]
      exact h.born (a, t) (by simp)

lemma rearm (h : TimersLinked s (x ++ (a, t) :: y)) (delay : ℕ) :
    TimersLinked (s.rearm a t delay) (x ++ (a, { t with startTime := s.clock + delay }) :: y) := by
  have hnodup := h.nodup
  rw [List.map_append, List.map_cons] at hnodup
  have hnot : a ∉ x.map Prod.fst ++ y.map Prod.fst := (List.nodup_middle.mp hnodup).notMem
  have hcase : ∀ e ∈ x ++ (a, { t with startTime := s.clock + delay }) :: y,
      e = (a, { t with startTime := s.clock + delay }) ∨ e ∈ x ++ y := fun e he => by
    rcases List.mem_append.mp he with he | he
    · exact .inr (List.mem_append_left _ he)
    · exact (List.mem_cons.mp he).imp_right (List.mem_append_right x)
  have hsub : ∀ e ∈ x ++ y, e ∈ x ++ (a, t) :: y := fun e he =>
    (List.sublist_cons_self _ _).append_left x |>.mem he
  have hserials : (x ++ (a, { t with startTime := s.clock + delay }) :: y).map (fun e => e.2.serial) =
      (x ++ (a, t) :: y).map fun e => e.2.serial := by simp
  have hnodes : (x ++ (a, { t with startTime := s.clock + delay }) :: y).map Prod.fst =
      (x ++ (a, t) :: y).map Prod.fst := by simp
  refine ⟨hnodes ▸ h.holds, fun e he => ?_, fun b t' hb => ?_, hserials ▸ h.serials, fun e he => ?_, h.looked,
    h.freed⟩
  · rcases hcase e he with rfl | he
    · exact Function.update_self ..
    · refine (Function.update_of_ne (fun hea => hnot ?_) ..).trans (h.heap e (hsub e he))
      rw [← List.map_append]
      exact hea ▸ List.mem_map_of_mem he
  · change Function.update s.heap a _ b = some t' at hb
    by_cases hba : b = a
    · subst hba
      rw [Function.update_self] at hb
      obtain rfl := Option.some.inj hb
      exact List.mem_append_right _ List.mem_cons_self
    · rw [Function.update_of_ne hba] at hb
      have hm := h.linked b t' hb
      rcases List.mem_append.mp hm with hm | hm
      · exact List.mem_append_left _ hm
      · rcases List.mem_cons.mp hm with heq | hm
        · exact absurd (congrArg Prod.fst heq) hba
        · exact List.mem_append_right _ (List.mem_cons_of_mem _ hm)
  · rcases hcase e he with rfl | he
    · exact h.born (a, t) (by simp)
    · exact h.born e (hsub e he)

end TimersLinked

/-- `timer_exec_once` and `timer_exec_periodic` fail only for want of memory. -/
lemma timerExec_cases (h : TimersLinked s l) (type : TimerType) (callback : TimerCallback) (ms a delay : ℕ) :
    (s.alive a = false ∧
      timerExec ticksPerMs s type callback ms a delay = .ok (scheduleTimer ticksPerMs s a type callback ms delay)) ∨
      timerExec ticksPerMs s type callback ms a delay = .error mallocFailed := by
  cases ha : s.alive a with
  | true => exact .inr (by rw [timerExec, ha]; rfl)
  | false =>
    refine .inl ⟨rfl, ?_⟩
    rw [timerExec, panicIf, if_neg (by rw [ha]; exact Bool.false_ne_true), ok_bind, panicIf,
      if_neg (not_not_intro h.head_alive)]
    rfl

lemma TimerRequest.exec_eq (r : TimerRequest) (s : TimerState) :
    r.exec ticksPerMs s = timerExec ticksPerMs s r.type (.other r.arg) r.ms r.block r.delay := by
  obtain ⟨_ | _, ms, arg, block, delay⟩ := r <;> rfl

/-- What the handler does behind the callback. -/
lemma finishTimer_cases (h : TimersLinked s (x ++ (a, t) :: y)) (delay : ℕ) :
    finishTimer s a delay = .ok (if t.type = .oneShot then s.unlink a t else s.rearm a t delay) := by
  obtain ⟨hprev, hnext⟩ := h.links_alive
  rw [finishTimer, h.heap (a, t) (by simp)]
  dsimp only
  split_ifs with htype
  · rw [panicIf, if_neg (not_not_intro ⟨hprev, hnext⟩), ok_bind]
    rfl
  · rfl

end Linked

end Pi0Os.Kernel
