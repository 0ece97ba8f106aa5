import Pi0Os.Kernel.Timers

/-! What becomes of the timers: when the handler looks at each, when it calls them, and when they are freed. -/

namespace Pi0Os.Kernel

/-- The sums that the timers keep in 64 bits fit. -/
def NoOverflow (log : TimerLog) : Prop := ∀ d ∈ log.deadlines, d < word64

def TimerLog.looksOf (log : TimerLog) (n : ℕ) : List TimerLook := log.looks.filter fun x => x.serial = n

def TimerBirth.deadline (ticksPerMs : ℕ) (b : TimerBirth) : ℕ := b.startTime + b.ms * ticksPerMs

/-- One look in each interrupt behind `first`, up to `last`. -/
def EachInterrupt (looks : List TimerLook) (first last : ℕ) : Prop :=
  looks.map TimerLook.interrupt = List.range' (first + 1) (last - first)

/-- No look saw the deadline, and none fired. -/
def NotYet (deadline : ℕ) (looks : List TimerLook) : Prop := ∀ x ∈ looks, x.fired = false ∧ x.ticks < deadline

/-- The last look is the first to see the deadline, and it alone fired. -/
def FiredLast (deadline : ℕ) (looks : List TimerLook) : Prop :=
  ∃ init last, looks = init ++ [last] ∧ NotYet deadline init ∧ last.fired = true ∧ deadline ≤ last.ticks

def firings (looks : List TimerLook) : List ℕ := (looks.filter fun x => x.fired).map TimerLook.ticks

/-- From the start on, the firings are at least the period apart. -/
def Spaced (period : ℕ) (ticks : List ℕ) : Prop := ticks.IsChain fun a b => a + period ≤ b

section Log

variable {log log' : TimerLog} {n serial ticks d : ℕ} {fired : Bool} {b : TimerBirth}

lemma NoOverflow.mono (h : NoOverflow log') (hsub : log.deadlines ⊆ log'.deadlines) : NoOverflow log :=
  fun d hd => h d (hsub hd)

/-- What the log says of one timer is still there, and nothing is new. -/
structure SameFor (n : ℕ) (log log' : TimerLog) : Prop where
  born : ∀ b, log.born[n]? = some b → log'.born[n]? = some b
  looks : log'.looksOf n = log.looksOf n
  freed : log'.freed.count n = log.freed.count n
  deadlines : log.deadlines ⊆ log'.deadlines

lemma SameFor.refl (n : ℕ) (log : TimerLog) : SameFor n log log := ⟨fun _ h => h, rfl, rfl, fun _ h => h⟩

lemma sameFor_add (n : ℕ) (log : TimerLog) (b : TimerBirth) (d : ℕ) : SameFor n log (log.add b d) where
  born c hc := by
    obtain ⟨hlt, hget⟩ := List.getElem?_eq_some_iff.mp hc
    rw [TimerLog.add, List.getElem?_append_left hlt]
    exact hc
  looks := rfl
  freed := rfl
  deadlines := List.subset_cons_self _ _

lemma looksOf_look (log : TimerLog) (n serial ticks : ℕ) (fired : Bool) :
    (log.look serial ticks fired).looksOf n =
      if serial = n then log.looksOf n ++ [⟨serial, log.interrupts, ticks, fired⟩] else log.looksOf n := by
  rw [TimerLog.looksOf, TimerLog.look, List.filter_append]
  split_ifs with h
  · simp [h, TimerLog.looksOf]
  · simp [h, TimerLog.looksOf]

lemma sameFor_look (h : serial ≠ n) : SameFor n log (log.look serial ticks fired) :=
  ⟨fun _ hb => hb, by rw [looksOf_look, if_neg h], rfl, fun _ hd => hd⟩

lemma sameFor_free (h : serial ≠ n) : SameFor n log { log with freed := log.freed ++ [serial] } where
  born _ hb := hb
  looks := rfl
  freed := by rw [List.count_append, List.count_singleton, if_neg (by simpa using h), add_zero]
  deadlines _ hd := hd

lemma sameFor_rearm (n : ℕ) (log : TimerLog) (d : ℕ) : SameFor n log { log with deadlines := d :: log.deadlines } :=
  ⟨fun _ hb => hb, rfl, rfl, List.subset_cons_self _ _⟩

lemma looksOf_eq_nil (h : ∀ x ∈ log.looks, x.serial < n) : log.looksOf n = [] :=
  List.filter_eq_nil_iff.mpr fun x hx => by simpa using (h x hx).ne

lemma EachInterrupt.look {looks : List TimerLook} {first k : ℕ} (h : EachInterrupt looks first k) (hle : first ≤ k)
    (x : TimerLook) (hx : x.interrupt = k + 1) : EachInterrupt (looks ++ [x]) first (k + 1) := by
  have hlen : k + 1 - first = (k - first) + 1 := by omega
  have hlast : first + 1 + 1 * (k - first) = k + 1 := by omega
  rw [EachInterrupt] at h ⊢
  rw [List.map_append, h, hlen, List.range'_concat, hlast, List.map_singleton, hx]

lemma firings_concat (looks : List TimerLook) (x : TimerLook) :
    firings (looks ++ [x]) = if x.fired then firings looks ++ [x.ticks] else firings looks := by
  rw [firings, firings, List.filter_append, List.map_append]
  cases h : x.fired <;> simp [h]

end Log

section Fates

variable (ticksPerMs : ℕ)

/-- A timer that is not freed: it was born with its type and period, and the handler has looked at it once in each
interrupt since, up to the interrupt `k`. -/
structure Tracked (log : TimerLog) (t : Timer) (b : TimerBirth) (k : ℕ) : Prop where
  born : log.born[t.serial]? = some b
  type : b.type = t.type
  period : t.period = b.ms * ticksPerMs
  since : b.interrupt ≤ k
  looked : EachInterrupt (log.looksOf t.serial) b.interrupt k
  unfreed : log.freed.count t.serial = 0

/-- A timer between two looks. -/
structure Waiting (log : TimerLog) (t : Timer) (b : TimerBirth) (k : ℕ) : Prop
    extends Tracked ticksPerMs log t b k where
  deadline : t.startTime + t.period ∈ log.deadlines
  oneShot : t.type = .oneShot → t.startTime = b.startTime ∧ NotYet (b.deadline ticksPerMs) (log.looksOf t.serial)
  periodic : t.type = .periodic → Spaced t.period (b.startTime :: firings (log.looksOf t.serial)) ∧
    ∀ x ∈ b.startTime :: firings (log.looksOf t.serial), x ≤ t.startTime

/-- A timer whose callback runs. -/
structure Called (log : TimerLog) (t : Timer) (b : TimerBirth) (k clock : ℕ) : Prop
    extends Tracked ticksPerMs log t b k where
  oneShot : t.type = .oneShot → FiredLast (b.deadline ticksPerMs) (log.looksOf t.serial)
  periodic : t.type = .periodic → Spaced t.period (b.startTime :: firings (log.looksOf t.serial)) ∧
    ∀ x ∈ b.startTime :: firings (log.looksOf t.serial), x ≤ clock

/-- A one-shot timer that was called and freed. -/
structure Ended (log : TimerLog) (n : ℕ) (b : TimerBirth) : Prop where
  born : log.born[n]? = some b
  type : b.type = .oneShot
  looked : ∃ k, EachInterrupt (log.looksOf n) b.interrupt k
  fired : FiredLast (b.deadline ticksPerMs) (log.looksOf n)
  freed : log.freed.count n = 1

variable {ticksPerMs} {log log' : TimerLog} {t : Timer} {b : TimerBirth} {k n ticks start clock clock' : ℕ}

lemma Tracked.congr (h : Tracked ticksPerMs log t b k) (hs : SameFor t.serial log log') :
    Tracked ticksPerMs log' t b k where
  born := hs.born b h.born
  type := h.type
  period := h.period
  since := h.since
  looked := hs.looks ▸ h.looked
  unfreed := hs.freed.trans h.unfreed

lemma Waiting.congr (h : Waiting ticksPerMs log t b k) (hs : SameFor t.serial log log') :
    Waiting ticksPerMs log' t b k where
  toTracked := h.toTracked.congr hs
  deadline := hs.deadlines h.deadline
  oneShot := hs.looks ▸ h.oneShot
  periodic := hs.looks ▸ h.periodic

lemma Called.congr (h : Called ticksPerMs log t b k clock) (hs : SameFor t.serial log log') (hle : clock ≤ clock') :
    Called ticksPerMs log' t b k clock' where
  toTracked := h.toTracked.congr hs
  oneShot := hs.looks ▸ h.oneShot
  periodic ht := by
    rw [hs.looks]
    exact ⟨(h.periodic ht).1, fun x hx => ((h.periodic ht).2 x hx).trans hle⟩

lemma Ended.congr (h : Ended ticksPerMs log n b) (hs : SameFor n log log') : Ended ticksPerMs log' n b where
  born := hs.born b h.born
  type := h.type
  looked := hs.looks ▸ h.looked
  fired := hs.looks ▸ h.fired
  freed := hs.freed.trans h.freed

lemma Tracked.look (h : Tracked ticksPerMs log t b k) (hk : log.interrupts = k + 1) (ticks : ℕ) (fired : Bool) :
    Tracked ticksPerMs (log.look t.serial ticks fired) t b (k + 1) where
  born := h.born
  type := h.type
  period := h.period
  since := h.since.trans (Nat.le_succ k)
  looked := by
    rw [looksOf_look, if_pos rfl]
    exact h.looked.look h.since _ hk
  unfreed := h.unfreed

namespace Waiting

/-- The 64-bit sum that the handler compares is the deadline. -/
lemma deadline_mod (h : Waiting ticksPerMs log t b k) (hno : NoOverflow log) :
    (t.startTime + t.period) % word64 = t.startTime + t.period := Nat.mod_eq_of_lt (hno _ h.deadline)

lemma look (h : Waiting ticksPerMs log t b k) (hno : NoOverflow log) (hk : log.interrupts = k + 1)
    (hnot : ¬ (t.startTime + t.period) % word64 ≤ ticks) :
    Waiting ticksPerMs (log.look t.serial ticks false) t b (k + 1) where
  toTracked := h.toTracked.look hk ticks false
  deadline := h.deadline
  oneShot ht := by
    obtain ⟨hstart, hyet⟩ := h.oneShot ht
    rw [h.deadline_mod hno, hstart, h.period, ← TimerBirth.deadline, not_le] at hnot
    rw [looksOf_look, if_pos rfl]
    refine ⟨hstart, fun x hx => ?_⟩
    rcases List.mem_append.mp hx with hx | hx
    · exact hyet x hx
    · rw [List.mem_singleton.mp hx]
      exact ⟨rfl, hnot⟩
  periodic ht := by
    rw [looksOf_look, if_pos rfl, firings_concat, if_neg Bool.false_ne_true]
    exact h.periodic ht

lemma fire (h : Waiting ticksPerMs log t b k) (hno : NoOverflow log) (hk : log.interrupts = k + 1)
    (hdue : (t.startTime + t.period) % word64 ≤ ticks) :
    Called ticksPerMs (log.look t.serial ticks true) t b (k + 1) ticks := by
  rw [h.deadline_mod hno] at hdue
  refine ⟨h.toTracked.look hk ticks true, fun ht => ?_, fun ht => ?_⟩
  · obtain ⟨hstart, hyet⟩ := h.oneShot ht
    rw [hstart, h.period, ← TimerBirth.deadline] at hdue
    rw [looksOf_look, if_pos rfl]
    exact ⟨_, _, rfl, hyet, rfl, hdue⟩
  · obtain ⟨hspaced, hle⟩ := h.periodic ht
    rw [looksOf_look, if_pos rfl, firings_concat, if_pos rfl, ← List.cons_append]
    refine ⟨List.isChain_append.mpr ⟨hspaced, .singleton _, fun x hx y hy => ?_⟩, fun x hx => ?_⟩
    · have hxs := hle x (List.mem_of_mem_getLast? hx)
      obtain rfl := Option.some.inj hy
      exact (Nat.add_le_add_right hxs _).trans hdue
    · rcases List.mem_append.mp hx with hx | hx
      · have hxs := hle x hx
        omega
      · exact (List.mem_singleton.mp hx).le

lemma new (hlooks : ∀ x ∈ log.looks, x.serial < log.born.length) (hfreed : ∀ n ∈ log.freed, n < log.born.length)
    {type : TimerType} {start ms : ℕ} (hno : NoOverflow (log.add ⟨type, start, ms, log.interrupts⟩
      (start + ms * ticksPerMs))) (htype : t.type = type) (hserial : t.serial = log.born.length)
    (hstart : t.startTime = start) (hperiod : t.period = ms * ticksPerMs % word64) :
    Waiting ticksPerMs (log.add ⟨type, start, ms, log.interrupts⟩ (start + ms * ticksPerMs)) t
      ⟨type, start, ms, log.interrupts⟩ log.interrupts := by
  have hlt : start + ms * ticksPerMs < word64 := hno _ List.mem_cons_self
  have hp : t.period = ms * ticksPerMs := hperiod.trans (Nat.mod_eq_of_lt (by omega))
  have hnil : (log.add ⟨type, start, ms, log.interrupts⟩ (start + ms * ticksPerMs)).looksOf t.serial = [] :=
    looksOf_eq_nil (hserial ▸ hlooks)
  refine ⟨⟨?_, htype.symm, hp, le_rfl, ?_, ?_⟩, ?_, fun _ => ⟨hstart, ?_⟩, fun _ => ?_⟩
  · rw [hserial]
    exact List.getElem?_concat_length
  · rw [EachInterrupt, hnil, Nat.sub_self]
    rfl
  · refine List.count_eq_zero_of_not_mem fun hm => ?_
    exact absurd (hfreed _ hm) (by rw [hserial]; exact lt_irrefl _)
  · rw [hstart, hp]
    exact List.mem_cons_self
  · rw [hnil]
    exact fun x hx => absurd hx List.not_mem_nil
  · rw [hnil]
    refine ⟨.singleton _, fun x hx => ?_⟩
    rw [List.mem_singleton.mp hx, hstart]

end Waiting

lemma Called.free (h : Called ticksPerMs log t b k clock) (ht : t.type = .oneShot) :
    Ended ticksPerMs { log with freed := log.freed ++ [t.serial] } t.serial b where
  born := h.born
  type := h.type.trans ht
  looked := ⟨k, h.looked⟩
  fired := h.oneShot ht
  freed := by rw [List.count_append, h.unfreed, List.count_singleton_self]

lemma Called.rearm (h : Called ticksPerMs log t b k clock) (ht : t.type = .periodic) (hle : clock ≤ start) :
    Waiting ticksPerMs { log with deadlines := (start + t.period) :: log.deadlines } { t with startTime := start } b
      k where
  toTracked := ⟨h.born, h.type, h.period, h.since, h.looked, h.unfreed⟩
  deadline := List.mem_cons_self
  oneShot ht' := absurd (ht.symm.trans ht') (by decide)
  periodic _ := ⟨(h.periodic ht).1, fun x hx => ((h.periodic ht).2 x hx).trans hle⟩

end Fates

section Invariant

variable (ticksPerMs : ℕ)

/-- The fates of all timers, in the middle of an interrupt: the handler has looked at `seen`, runs the callback of
`called` and has not come to `unseen`. -/
structure Fates (s : TimerState) (seen called unseen : List (ℕ × Timer)) : Prop where
  behind : ∀ e ∈ seen, ∃ b, Waiting ticksPerMs s.log e.2 b s.log.interrupts
  running : ∀ e ∈ called, ∃ b, Called ticksPerMs s.log e.2 b s.log.interrupts s.clock
  ahead : ∀ e ∈ unseen, ∃ b k, s.log.interrupts = k + 1 ∧ Waiting ticksPerMs s.log e.2 b k
  ended : ∀ n < s.log.born.length,
    (∃ e ∈ seen ++ called ++ unseen, e.2.serial = n) ∨ ∃ b, Ended ticksPerMs s.log n b

/-- Each mutex of `promises` is released by one timer, and not before the ticks that stand with it. -/
structure Promised (s : TimerState) (l : List (ℕ × Timer)) (promises : List (ℕ × ℕ)) : Prop where
  owner : ∀ e ∈ l, ∀ m, e.2.callback = .release m → e.2.type = .oneShot ∧ s.locks m = true ∧
    ∃ d, (m, d) ∈ promises ∧ (NoOverflow s.log → d ≤ e.2.startTime + e.2.period)
  unique : ∀ e ∈ l, ∀ e' ∈ l, ∀ m, e.2.callback = .release m → e'.2.callback = .release m → e = e'
  kept : ∀ p ∈ promises, s.locks p.1 = false → NoOverflow s.log → p.2 ≤ s.clock
  distinct : ∀ p ∈ promises, ∀ p' ∈ promises, p.1 = p'.1 → p = p'

/-- What the handler keeps. -/
structure TimerInv (s : TimerState) (seen called unseen : List (ℕ × Timer)) (promises : List (ℕ × ℕ)) : Prop where
  linked : TimersLinked s (seen ++ called ++ unseen)
  fates : NoOverflow s.log → Fates ticksPerMs s seen called unseen
  promised : Promised s (seen ++ unseen) promises

variable {ticksPerMs} {s s' : TimerState} {seen called unseen l : List (ℕ × Timer)} {promises : List (ℕ × ℕ)}
  {a : ℕ} {t : Timer}

namespace TimersLinked

/-- The serial number of the timer is that of no other. -/
lemma serial_ne (h : TimersLinked s (seen ++ (a, t) :: unseen)) {e : ℕ × Timer} (he : e ∈ seen ++ unseen) :
    t.serial ≠ e.2.serial := by
  have hnodup := h.serials
  rw [List.map_append, List.map_cons] at hnodup
  intro heq
  refine (List.nodup_middle.mp hnodup).notMem ?_
  rw [heq, ← List.map_append]
  exact List.mem_map_of_mem he

lemma notMem (h : TimersLinked s (seen ++ (a, t) :: unseen)) : (a, t) ∉ seen ++ unseen := fun he =>
  h.serial_ne he rfl

end TimersLinked

namespace Fates

/-- Only the clock and other parts of the state are new. -/
lemma congr (h : Fates ticksPerMs s seen called unseen) (hlog : s'.log = s.log) (hle : s.clock ≤ s'.clock) :
    Fates ticksPerMs s' seen called unseen where
  behind := hlog ▸ h.behind
  running e he := by
    obtain ⟨b, hb⟩ := h.running e he
    exact ⟨b, hlog ▸ hb.congr (.refl _ _) hle⟩
  ahead := hlog ▸ h.ahead
  ended := hlog ▸ h.ended

lemma look (h : Fates ticksPerMs s seen [] ((a, t) :: unseen))
    (hl : TimersLinked s (seen ++ (a, t) :: unseen)) (hno : NoOverflow s.log)
    (hnot : ¬ (t.startTime + t.period) % word64 ≤ s.clock) :
    Fates ticksPerMs (s.look t false) (seen ++ [(a, t)]) [] unseen := by
  have hsame : ∀ e ∈ seen ++ unseen, SameFor e.2.serial s.log (s.look t false).log := fun e he =>
    sameFor_look (hl.serial_ne he)
  refine ⟨fun e he => ?_, by simp, fun e he => ?_, fun n hn => ?_⟩
  · rcases List.mem_append.mp he with he | he
    · obtain ⟨b, hb⟩ := h.behind e he
      exact ⟨b, hb.congr (hsame e (List.mem_append_left _ he))⟩
    · obtain rfl := List.mem_singleton.mp he
      obtain ⟨b, k, hk, hb⟩ := h.ahead (a, t) List.mem_cons_self
      have hw := hb.look hno hk hnot
      rw [← hk] at hw
      exact ⟨b, hw⟩
  · obtain ⟨b, k, hk, hb⟩ := h.ahead e (List.mem_cons_of_mem _ he)
    exact ⟨b, k, hk, hb.congr (hsame e (List.mem_append_right _ he))⟩
  · by_cases hnt : t.serial = n
    · exact .inl ⟨(a, t), by simp, hnt⟩
    · rcases h.ended n hn with ⟨e, he, hen⟩ | ⟨b, hb⟩
      · exact .inl ⟨e, by simpa using he, hen⟩
      · exact .inr ⟨b, hb.congr (sameFor_look hnt)⟩

lemma fire (h : Fates ticksPerMs s seen [] ((a, t) :: unseen))
    (hl : TimersLinked s (seen ++ (a, t) :: unseen)) (hno : NoOverflow s.log)
    (hdue : (t.startTime + t.period) % word64 ≤ s.clock) :
    Fates ticksPerMs (s.look t true) seen [(a, t)] unseen := by
  have hsame : ∀ e ∈ seen ++ unseen, SameFor e.2.serial s.log (s.look t true).log := fun e he =>
    sameFor_look (hl.serial_ne he)
  refine ⟨fun e he => ?_, fun e he => ?_, fun e he => ?_, fun n hn => ?_⟩
  · obtain ⟨b, hb⟩ := h.behind e he
    exact ⟨b, hb.congr (hsame e (List.mem_append_left _ he))⟩
  · obtain rfl := List.mem_singleton.mp he
    obtain ⟨b, k, hk, hb⟩ := h.ahead (a, t) List.mem_cons_self
    have hc := hb.fire hno hk hdue
    rw [← hk] at hc
    exact ⟨b, hc⟩
  · obtain ⟨b, k, hk, hb⟩ := h.ahead e (List.mem_cons_of_mem _ he)
    exact ⟨b, k, hk, hb.congr (hsame e (List.mem_append_right _ he))⟩
  · by_cases hnt : t.serial = n
    · exact .inl ⟨(a, t), by simp, hnt⟩
    · rcases h.ended n hn with ⟨e, he, hen⟩ | ⟨b, hb⟩
      · exact .inl ⟨e, by simpa using he, hen⟩
      · exact .inr ⟨b, hb.congr (sameFor_look hnt)⟩

lemma add (h : Fates ticksPerMs s seen called unseen) (hl : TimersLinked s (seen ++ called ++ unseen))
    {type : TimerType} {callback : TimerCallback} {ms delay : ℕ} (htype : t.type = type)
    (hserial : t.serial = s.log.born.length) (hstart : t.startTime = s.clock + delay)
    (hperiod : t.period = ms * ticksPerMs % word64)
    (hno : NoOverflow (scheduleTimer ticksPerMs s a type callback ms delay).log) :
    Fates ticksPerMs (scheduleTimer ticksPerMs s a type callback ms delay) ((a, t) :: seen) called unseen := by
  have hsame : ∀ n, SameFor n s.log (scheduleTimer ticksPerMs s a type callback ms delay).log := fun n =>
    sameFor_add n _ _ _
  have hnew : ∃ b, Waiting ticksPerMs (scheduleTimer ticksPerMs s a type callback ms delay).log t b s.log.interrupts :=
    ⟨_, Waiting.new hl.looked hl.freed hno htype hserial hstart hperiod⟩
  refine ⟨fun e he => ?_, fun e he => ?_, fun e he => ?_, fun n hn => ?_⟩
  · rcases List.mem_cons.mp he with rfl | he
    · exact hnew
    · obtain ⟨b, hb⟩ := h.behind e he
      exact ⟨b, hb.congr (hsame _)⟩
  · obtain ⟨b, hb⟩ := h.running e he
    exact ⟨b, hb.congr (hsame _) (Nat.le_add_right _ _)⟩
  · obtain ⟨b, k, hk, hb⟩ := h.ahead e he
    exact ⟨b, k, hk, hb.congr (hsame _)⟩
  · have hlen : (scheduleTimer ticksPerMs s a type callback ms delay).log.born.length = s.log.born.length + 1 :=
      List.length_append
    rcases Nat.lt_succ_iff_lt_or_eq.mp (hlen ▸ hn) with hn | rfl
    · rcases h.ended n hn with ⟨e, he, hen⟩ | ⟨b, hb⟩
      · exact .inl ⟨e, List.mem_cons_of_mem _ he, hen⟩
      · exact .inr ⟨b, hb.congr (hsame n)⟩
    · exact .inl ⟨(a, t), List.mem_cons_self, hserial⟩

lemma unlink (h : Fates ticksPerMs s seen [(a, t)] unseen) (hl : TimersLinked s (seen ++ (a, t) :: unseen))
    (ht : t.type = .oneShot) : Fates ticksPerMs (s.unlink a t) seen [] unseen := by
  have hsame : ∀ e ∈ seen ++ unseen, SameFor e.2.serial s.log (s.unlink a t).log := fun e he =>
    sameFor_free (hl.serial_ne he)
  refine ⟨fun e he => ?_, by simp, fun e he => ?_, fun n hn => ?_⟩
  · obtain ⟨b, hb⟩ := h.behind e he
    exact ⟨b, hb.congr (hsame e (List.mem_append_left _ he))⟩
  · obtain ⟨b, k, hk, hb⟩ := h.ahead e he
    exact ⟨b, k, hk, hb.congr (hsame e (List.mem_append_right _ he))⟩
  · by_cases hnt : t.serial = n
    · obtain ⟨b, hb⟩ := h.running (a, t) List.mem_cons_self
      subst hnt
      exact .inr ⟨b, hb.free ht⟩
    · rcases h.ended n hn with ⟨e, he, hen⟩ | ⟨b, hb⟩
      · have hne : e ≠ (a, t) := by
          rintro rfl
          exact hnt hen
        exact .inl ⟨e, by simpa [hne] using he, hen⟩
      · exact .inr ⟨b, hb.congr (sameFor_free hnt)⟩

lemma rearm (h : Fates ticksPerMs s seen [(a, t)] unseen) (ht : t.type = .periodic) (delay : ℕ) :
    Fates ticksPerMs (s.rearm a t delay) (seen ++ [(a, { t with startTime := s.clock + delay })]) [] unseen := by
  have hsame : ∀ n, SameFor n s.log (s.rearm a t delay).log := fun n => sameFor_rearm n _ _
  refine ⟨fun e he => ?_, by simp, fun e he => ?_, fun n hn => ?_⟩
  · rcases List.mem_append.mp he with he | he
    · obtain ⟨b, hb⟩ := h.behind e he
      exact ⟨b, hb.congr (hsame _)⟩
    · obtain rfl := List.mem_singleton.mp he
      obtain ⟨b, hb⟩ := h.running (a, t) List.mem_cons_self
      exact ⟨b, hb.rearm ht (Nat.le_add_right _ _)⟩
  · obtain ⟨b, k, hk, hb⟩ := h.ahead e he
    exact ⟨b, k, hk, hb.congr (hsame _)⟩
  · rcases h.ended n hn with ⟨e, he, hen⟩ | ⟨b, hb⟩
    · by_cases heq : e = (a, t)
      · subst heq
        exact .inl ⟨(a, { t with startTime := s.clock + delay }), by simp, hen⟩
      · have hmem : e ∈ seen ∨ e ∈ unseen := by simpa [heq] using he
        refine .inl ⟨e, ?_, hen⟩
        rcases hmem with hmem | hmem
        · simp [hmem]
        · simp [hmem]
    · exact .inr ⟨b, hb.congr (hsame n)⟩

end Fates

namespace Promised

lemma congr (h : Promised s l promises) (hlocks : s'.locks = s.locks) (hdeadlines : s.log.deadlines ⊆ s'.log.deadlines)
    (hle : s.clock ≤ s'.clock) : Promised s' l promises where
  owner e he m hm := by
    obtain ⟨htype, hlock, d, hd, hdue⟩ := h.owner e he m hm
    exact ⟨htype, hlocks ▸ hlock, d, hd, fun hno => hdue (hno.mono hdeadlines)⟩
  unique := h.unique
  kept p hp hlock hno := (h.kept p hp (hlocks ▸ hlock) (hno.mono hdeadlines)).trans hle
  distinct := h.distinct

lemma sub {l' : List (ℕ × Timer)} (h : Promised s l promises) (hsub : l' ⊆ l) : Promised s l' promises where
  owner e he := h.owner e (hsub he)
  unique e he e' he' := h.unique e (hsub he) e' (hsub he')
  kept := h.kept
  distinct := h.distinct

/-- A timer that releases no mutex is added. -/
lemma cons (h : Promised s l promises) {e : ℕ × Timer} (he : ∀ m, e.2.callback ≠ .release m) :
    Promised s (e :: l) promises where
  owner e' he' m hm := by
    rcases List.mem_cons.mp he' with rfl | he'
    · exact absurd hm (he m)
    · exact h.owner e' he' m hm
  unique e₁ h₁ e₂ h₂ m hm₁ hm₂ := by
    rcases List.mem_cons.mp h₁ with rfl | h₁
    · exact absurd hm₁ (he m)
    · rcases List.mem_cons.mp h₂ with rfl | h₂
      · exact absurd hm₂ (he m)
      · exact h.unique e₁ h₁ e₂ h₂ m hm₁ hm₂
  kept := h.kept
  distinct := h.distinct

/-- The timer of a mutex has seen its deadline, and releases it. -/
lemma release (h : Promised s (seen ++ (a, t) :: unseen) promises) (hnot : (a, t) ∉ seen ++ unseen) {m : ℕ}
    (hm : t.callback = .release m) (hdue : NoOverflow s.log → t.startTime + t.period ≤ s.clock) :
    Promised { s with locks := Function.update s.locks m false } (seen ++ unseen) promises := by
  have hmem : (a, t) ∈ seen ++ (a, t) :: unseen := by simp
  have hsub : seen ++ unseen ⊆ seen ++ (a, t) :: unseen := fun e he =>
    ((List.sublist_cons_self _ _).append_left seen).mem he
  refine ⟨fun e he m' hm' => ?_, (h.sub hsub).unique, fun p hp hlock hno => ?_, h.distinct⟩
  · have hne : m' ≠ m := by
      rintro rfl
      exact hnot (h.unique e (hsub he) (a, t) hmem m' hm' hm ▸ he)
    obtain ⟨htype, hlock, hd⟩ := h.owner e (hsub he) m' hm'
    exact ⟨htype, (Function.update_of_ne hne ..).trans hlock, hd⟩
  · by_cases hpm : p.1 = m
    · obtain ⟨-, -, d, hd, hle⟩ := h.owner (a, t) hmem m hm
      obtain rfl : p = (m, d) := h.distinct p hp (m, d) hd hpm
      exact (hle hno).trans (hdue hno)
    · exact h.kept p hp ((Function.update_of_ne hpm ..).symm.trans hlock) hno

/-- A locked mutex gets a timer that releases it. -/
lemma promise (h : Promised s l promises) {m d : ℕ} (hfree : ∀ p ∈ promises, p.1 ≠ m) {e : ℕ × Timer}
    (hcall : e.2.callback = .release m) (htype : e.2.type = .oneShot)
    (hdue : NoOverflow s.log → d ≤ e.2.startTime + e.2.period) :
    Promised { s with locks := Function.update s.locks m true } (e :: l) ((m, d) :: promises) := by
  have hne : ∀ e' ∈ l, e'.2.callback ≠ .release m := fun e' he' hm => by
    obtain ⟨-, -, d', hd', -⟩ := h.owner e' he' m hm
    exact hfree _ hd' rfl
  refine ⟨fun e' he' m' hm' => ?_, fun e₁ h₁ e₂ h₂ m' hm₁ hm₂ => ?_, fun p hp hlock hno => ?_,
    fun p hp p' hp' hpp => ?_⟩
  · rcases List.mem_cons.mp he' with rfl | he'
    · obtain rfl : m = m' := TimerCallback.release.inj (hcall.symm.trans hm')
      exact ⟨htype, Function.update_self .., d, List.mem_cons_self, hdue⟩
    · have hmm : m' ≠ m := fun hmm => hne e' he' (hmm ▸ hm')
      obtain ⟨htype', hlock, d', hd', hle⟩ := h.owner e' he' m' hm'
      exact ⟨htype', (Function.update_of_ne hmm ..).trans hlock, d', List.mem_cons_of_mem _ hd', hle⟩
  · rcases List.mem_cons.mp h₁ with heq₁ | hmem₁
    · rcases List.mem_cons.mp h₂ with heq₂ | hmem₂
      · exact heq₁.trans heq₂.symm
      · obtain rfl : m = m' := TimerCallback.release.inj (hcall.symm.trans (heq₁ ▸ hm₁))
        exact absurd hm₂ (hne e₂ hmem₂)
    · rcases List.mem_cons.mp h₂ with heq₂ | hmem₂
      · obtain rfl : m = m' := TimerCallback.release.inj (hcall.symm.trans (heq₂ ▸ hm₂))
        exact absurd hm₁ (hne e₁ hmem₁)
      · exact h.unique e₁ hmem₁ e₂ hmem₂ m' hm₁ hm₂
  · rcases List.mem_cons.mp hp with rfl | hp
    · exact absurd ((Function.update_self ..).symm.trans hlock) (by decide)
    · exact h.kept p hp ((Function.update_of_ne (hfree p hp) ..).symm.trans hlock) hno
  · rcases List.mem_cons.mp hp with rfl | hp
    · rcases List.mem_cons.mp hp' with rfl | hp'
      · rfl
      · exact absurd hpp.symm (hfree p' hp')
    · rcases List.mem_cons.mp hp' with rfl | hp'
      · exact absurd hpp (hfree p hp)
      · exact h.distinct p hp p' hp' hpp

/-- A mutex that is free is taken, and nobody waits for it any more. -/
lemma forget (h : Promised s l promises) {m : ℕ} (hlock : s.locks m = false) {rest : List (ℕ × ℕ)}
    (hsub : rest ⊆ promises) (hrest : ∀ p ∈ promises, p.1 ≠ m → p ∈ rest) :
    Promised { s with locks := Function.update s.locks m true } l rest := by
  refine ⟨fun e he m' hm' => ?_, h.unique, fun p hp hlock' hno => ?_, fun p hp p' hp' => h.distinct p (hsub hp) p'
    (hsub hp')⟩
  · obtain ⟨htype, hlock', d, hd, hle⟩ := h.owner e he m' hm'
    have hne : m' ≠ m := by
      rintro rfl
      exact absurd (hlock'.symm.trans hlock) (by decide)
    exact ⟨htype, (Function.update_of_ne hne ..).trans hlock', d, hrest _ hd hne, hle⟩
  · by_cases hpm : p.1 = m
    · subst hpm
      exact absurd ((Function.update_self ..).symm.trans hlock') (by decide)
    · exact h.kept p (hsub hp) ((Function.update_of_ne hpm ..).symm.trans hlock') hno

end Promised

namespace TimerInv

lemma calls (h : TimerInv ticksPerMs s seen called unseen promises) (r : TimerRequest) :
    (∃ s' e, r.exec ticksPerMs s = .ok s' ∧ TimerInv ticksPerMs s' (e :: seen) called unseen promises ∧
      s.log.deadlines ⊆ s'.log.deadlines) ∨
      r.exec ticksPerMs s = .error mallocFailed := by
  rw [r.exec_eq]
  rcases timerExec_cases h.linked r.type (.other r.arg) r.ms r.block r.delay with ⟨hdead, hrun⟩ | hrun
  · obtain ⟨t, htype, hcall, hserial, hstart, hperiod, hl⟩ :=
      @TimersLinked.add ticksPerMs _ _ _ h.linked hdead r.type (.other r.arg) r.ms r.delay
    refine .inl ⟨_, (r.block, t), hrun, ⟨hl, fun hno => ?_, ?_⟩, List.subset_cons_self _ _⟩
    · exact (h.fates (hno.mono (List.subset_cons_self _ _))).add h.linked htype hserial hstart hperiod hno
    · have hp : Promised (scheduleTimer ticksPerMs s r.block r.type (.other r.arg) r.ms r.delay) (seen ++ unseen)
          promises := h.promised.congr rfl (List.subset_cons_self _ _) (Nat.le_add_right _ _)
      exact hp.cons fun m hm => by rw [hcall] at hm; exact TimerCallback.noConfusion hm
  · exact .inr hrun

lemma foldlM_calls (h : TimerInv ticksPerMs s seen called unseen promises) (calls : List TimerRequest) :
    (∃ s' seen', calls.foldlM (fun s r => r.exec ticksPerMs s) s = .ok s' ∧
      TimerInv ticksPerMs s' seen' called unseen promises ∧ s.log.deadlines ⊆ s'.log.deadlines) ∨
      calls.foldlM (fun s r => r.exec ticksPerMs s) s = .error mallocFailed := by
  induction calls generalizing s seen with
  | nil => exact .inl ⟨s, seen, rfl, h, List.Subset.refl _⟩
  | cons r calls ih =>
    rw [List.foldlM_cons]
    rcases h.calls r with ⟨s', e, hrun, h', hsub⟩ | hrun
    · rw [hrun, ok_bind]
      rcases ih h' with ⟨s₂, seen', hrun₂, h₂, hsub₂⟩ | hrun₂
      · exact .inl ⟨s₂, seen', hrun₂, h₂, List.Subset.trans hsub hsub₂⟩
      · exact .inr hrun₂
    · rw [hrun]
      exact .inr rfl

lemma read (h : TimerInv ticksPerMs s seen called unseen promises) (delay : ℕ) :
    TimerInv ticksPerMs (s.read delay) seen called unseen promises where
  linked := h.linked.congr rfl rfl rfl h.linked.looked rfl
  fates hno := (h.fates hno).congr rfl (Nat.le_add_right _ _)
  promised := h.promised.congr rfl (List.Subset.refl _) (Nat.le_add_right _ _)

lemma look_linked {x : List (ℕ × Timer)} (h : TimersLinked s x) {e : ℕ × Timer} (he : e ∈ x) (fired : Bool) :
    TimersLinked (s.look e.2 fired) x := by
  refine h.congr rfl rfl rfl (fun y hy => ?_) rfl
  rcases List.mem_append.mp hy with hy | hy
  · exact h.looked y hy
  · rw [List.mem_singleton.mp hy]
    exact h.born e he

/-- The callback of a timer whose deadline is seen. -/
lemma callback (h : TimerInv ticksPerMs s seen [] ((a, t) :: unseen) promises)
    (hdue : (t.startTime + t.period) % word64 ≤ s.clock) (calls : List TimerRequest) :
    (∃ s' seen', runCallback ticksPerMs (s.look t true) calls t.callback = .ok s' ∧
      TimerInv ticksPerMs s' seen' [(a, t)] unseen promises ∧ s.log.deadlines ⊆ s'.log.deadlines) ∨
      runCallback ticksPerMs (s.look t true) calls t.callback = .error mallocFailed := by
  have hl : TimersLinked s (seen ++ (a, t) :: unseen) := by simpa using h.linked
  have hl' : TimersLinked (s.look t true) (seen ++ [(a, t)] ++ unseen) := by
    simpa using look_linked (e := (a, t)) hl (by simp) true
  have hf : NoOverflow s.log → Fates ticksPerMs (s.look t true) seen [(a, t)] unseen := fun hno =>
    (h.fates hno).fire hl hno hdue
  have hp : Promised (s.look t true) (seen ++ (a, t) :: unseen) promises :=
    h.promised.congr rfl (List.Subset.refl _) le_rfl
  cases hcall : t.callback with
  | release m =>
    refine .inl ⟨_, seen, rfl, ⟨hl'.congr rfl rfl rfl hl'.looked rfl, fun hno => (hf hno).congr rfl le_rfl, ?_⟩,
      List.Subset.refl _⟩
    refine hp.release hl.notMem hcall fun hno => ?_
    obtain ⟨b, k, -, hb⟩ := (h.fates hno).ahead (a, t) List.mem_cons_self
    rw [← hb.deadline_mod hno]
    exact hdue
  | other arg =>
    have hsub : seen ++ unseen ⊆ seen ++ (a, t) :: unseen := fun e he =>
      ((List.sublist_cons_self _ _).append_left seen).mem he
    exact foldlM_calls ⟨hl', hf, hp.sub hsub⟩ calls

/-- The handler at one timer. -/
lemma handleTimer (h : TimerInv ticksPerMs s seen [] ((a, t) :: unseen) promises) (v : TimerVisit) :
    (∃ s' seen', Kernel.handleTimer ticksPerMs v s a = .ok s' ∧ TimerInv ticksPerMs s' seen' [] unseen promises ∧
      s.log.deadlines ⊆ s'.log.deadlines) ∨
      Kernel.handleTimer ticksPerMs v s a = .error mallocFailed := by
  have h₁ := h.read v.delay
  have hl : TimersLinked (s.read v.delay) (seen ++ (a, t) :: unseen) := by simpa using h₁.linked
  have hmem : (a, t) ∈ seen ++ (a, t) :: unseen := by simp
  have htimer : s.heap a = some t := hl.heap (a, t) hmem
  rw [Kernel.handleTimer, htimer]
  dsimp only
  by_cases hdue : (t.startTime + t.period) % word64 ≤ (s.read v.delay).clock
  · rw [if_pos hdue]
    rcases h₁.callback hdue v.calls with ⟨s₂, seen', hrun, h₂, hsub⟩ | hrun
    · have hl₂ : TimersLinked s₂ (seen' ++ (a, t) :: unseen) := by simpa using h₂.linked
      rw [hrun, ok_bind, finishTimer_cases hl₂]
      cases htype : t.type with
      | oneShot =>
        refine .inl ⟨s₂.unlink a t, seen', rfl, ⟨by simpa using hl₂.unlink, fun hno => ?_, ?_⟩, hsub⟩
        · exact (h₂.fates hno).unlink hl₂ htype
        · exact h₂.promised.congr rfl (List.Subset.refl _) le_rfl
      | periodic =>
        refine .inl ⟨s₂.rearm a t v.rearmDelay, seen' ++ [(a, { t with startTime := s₂.clock + v.rearmDelay })], rfl,
          ⟨by simpa using hl₂.rearm v.rearmDelay, fun hno => ?_, ?_⟩,
          List.Subset.trans hsub (List.subset_cons_self _ _)⟩
        · exact (h₂.fates (hno.mono (List.subset_cons_self _ _))).rearm htype v.rearmDelay
        · have hnot : ∀ m, t.callback ≠ .release m := fun m hm => by
            have howner := (h.promised.owner (a, t) (by simp) m hm).1
            exact absurd (htype.symm.trans howner) (by decide)
          have hp : Promised (s₂.rearm a t v.rearmDelay) (seen' ++ unseen) promises :=
            h₂.promised.congr rfl (List.subset_cons_self _ _) (Nat.le_add_right _ _)
          refine (hp.cons (e := (a, { t with startTime := s₂.clock + v.rearmDelay })) hnot).sub fun e he => ?_
          simp only [List.append_assoc, List.mem_append, List.mem_cons] at he ⊢
          tauto
    · rw [hrun]
      exact .inr rfl
  · rw [if_neg hdue]
    refine .inl ⟨_, seen ++ [(a, t)], rfl, ⟨?_, fun hno => ?_, ?_⟩, List.Subset.refl _⟩
    · simpa using look_linked (e := (a, t)) hl hmem false
    · exact (h₁.fates hno).look hl hno hdue
    · have hp : Promised ((s.read v.delay).look t false) (seen ++ (a, t) :: unseen) promises :=
        h₁.promised.congr rfl (List.Subset.refl _) le_rfl
      simpa using hp

lemma schedulerTick (h : TimerInv ticksPerMs s seen called unseen promises) (env : TimerInterrupt) :
    TimerInv ticksPerMs (Kernel.schedulerTick env s) seen called unseen promises ∧
      (Kernel.schedulerTick env s).log = s.log := by
  rw [Kernel.schedulerTick]
  dsimp only
  split_ifs
  · have h₂ := (h.read env.schedulerDelay).read env.rearmDelay
    exact ⟨⟨h₂.linked.congr rfl rfl rfl h₂.linked.looked rfl, fun hno => (h₂.fates hno).congr rfl le_rfl,
      h₂.promised.congr rfl (List.Subset.refl _) le_rfl⟩, rfl⟩
  · exact ⟨h.read env.schedulerDelay, rfl⟩

/-- An interrupt looks at each timer of the list. -/
lemma interrupt (h : TimerInv ticksPerMs s l [] [] promises) (env : TimerInterrupt) :
    (∃ s' l', timerInterrupt ticksPerMs s env = .ok s' ∧ TimerInv ticksPerMs s' l' [] [] promises ∧
      s.log.deadlines ⊆ s'.log.deadlines) ∨
      timerInterrupt ticksPerMs s env = .error mallocFailed := by
  let s₁ : TimerState := { s with log := { s.log with interrupts := s.log.interrupts + 1 } }
  have hl : TimersLinked s l := by simpa using h.linked
  have hl₁ : TimersLinked s₁ l := hl.congr rfl rfl rfl hl.looked rfl
  have hp : Promised s l promises := by simpa using h.promised
  have hp₁ : Promised s₁ l promises := hp.congr rfl (List.Subset.refl _) le_rfl
  have h₁ : TimerInv ticksPerMs s₁ [] [] l promises := by
    refine ⟨by simpa using hl₁, fun hno => ⟨by simp, by simp, fun e he => ?_, fun n hn => ?_⟩, by simpa using hp₁⟩
    · obtain ⟨b, hb⟩ := (h.fates hno).behind e he
      exact ⟨b, _, rfl, hb.congr ⟨fun _ hb => hb, rfl, rfl, fun _ hd => hd⟩⟩
    · rcases (h.fates hno).ended n hn with ⟨e, he, hen⟩ | ⟨b, hb⟩
      · exact .inl ⟨e, by simpa using he, hen⟩
      · exact .inr ⟨b, hb.congr ⟨fun _ hb => hb, rfl, rfl, fun _ hd => hd⟩⟩
  have hlen : (l.map Prod.fst).length ≤ s₁.log.born.length := by
    rw [List.length_map]
    exact hl.length_le
  have hrun := @IntrusiveLinkedList.foreach_rule TimerState TimerState.timers TimerState.alive
    (fun i s a => Kernel.handleTimer ticksPerMs (env.visit i) s a)
    (fun s' nodes => ∃ seen unseen, nodes = unseen.map Prod.fst ∧ TimerInv ticksPerMs s' seen [] unseen promises ∧
      s.log.deadlines ⊆ s'.log.deadlines)
    (· = mallocFailed) ?_ ?_ (l.map Prod.fst) _ hlen s₁ ⟨[], l, rfl, h₁, List.Subset.refl _⟩ 0
  · have hhead : s₁.timers.head = (l.map Prod.fst).head? := hl.holds.head
    rw [← hhead] at hrun
    rcases hrun with ⟨s₂, hrun, seen', unseen', hnil, h₂, hsub⟩ | ⟨e, hrun, rfl⟩
    · obtain rfl := List.map_eq_nil_iff.mp hnil.symm
      obtain ⟨h₃, hlog⟩ := h₂.schedulerTick env
      refine .inl ⟨Kernel.schedulerTick env s₂, seen', ?_, h₃, hlog ▸ hsub⟩
      rw [timerInterrupt, hrun]
      rfl
    · exact .inr (by rw [timerInterrupt, hrun]; rfl)
  · rintro s' n nodes ⟨seen, unseen, hnodes, h', -⟩
    obtain ⟨e, unseen, rfl⟩ := List.exists_cons_of_ne_nil (l := unseen) (by rintro rfl; cases hnodes)
    obtain ⟨rfl, rfl⟩ := List.cons.inj hnodes
    have hl' : TimersLinked s' (seen ++ e :: unseen) := by simpa using h'.linked
    exact ⟨hl'.alive (by simp), hl'.next⟩
  · rintro i s' n nodes ⟨seen, unseen, hnodes, h', hsub⟩
    obtain ⟨e, unseen, rfl⟩ := List.exists_cons_of_ne_nil (l := unseen) (by rintro rfl; cases hnodes)
    obtain ⟨rfl, rfl⟩ := List.cons.inj hnodes
    rcases h'.handleTimer (env.visit i) with ⟨s₂, seen', hrun, h₂, hsub₂⟩ | hrun
    · exact .inl ⟨s₂, hrun, seen', unseen, rfl, h₂, List.Subset.trans hsub hsub₂⟩
    · exact .inr ⟨_, hrun, rfl⟩

end TimerInv

end Invariant

section OnTime

variable (ticksPerMs : ℕ)

/-- The timer is in the list. -/
def TimerState.Lists (s : TimerState) (n : ℕ) : Prop :=
  ∃ nodes a t, s.timers.Holds nodes ∧ a ∈ nodes ∧ s.heap a = some t ∧ t.serial = n

/-- A one-shot timer that is not called yet: no interrupt since has seen its deadline. -/
structure OneShotPending (s : TimerState) (n : ℕ) (b : TimerBirth) : Prop where
  listed : s.Lists n
  looked : EachInterrupt (s.log.looksOf n) b.interrupt s.log.interrupts
  notYet : NotYet (b.deadline ticksPerMs) (s.log.looksOf n)
  unfreed : s.log.freed.count n = 0

/-- A one-shot timer that the first interrupt to see its deadline has called, unlinked and freed. -/
structure OneShotCalled (s : TimerState) (n : ℕ) (b : TimerBirth) : Prop where
  unlisted : ¬ s.Lists n
  looked : ∃ k, EachInterrupt (s.log.looksOf n) b.interrupt k
  fired : FiredLast (b.deadline ticksPerMs) (s.log.looksOf n)
  freed : s.log.freed.count n = 1

/-- A periodic timer: it stays, and its firings are at least the period apart. -/
structure PeriodicKept (s : TimerState) (n : ℕ) (b : TimerBirth) : Prop where
  listed : s.Lists n
  looked : EachInterrupt (s.log.looksOf n) b.interrupt s.log.interrupts
  spaced : Spaced (b.ms * ticksPerMs) (b.startTime :: firings (s.log.looksOf n))
  unfreed : s.log.freed.count n = 0

/-- What becomes of every timer that was added. -/
structure TimersOnTime (s : TimerState) : Prop where
  oneShot : ∀ n b, s.log.born[n]? = some b → b.type = .oneShot →
    OneShotPending ticksPerMs s n b ∨ OneShotCalled ticksPerMs s n b
  periodic : ∀ n b, s.log.born[n]? = some b → b.type = .periodic → PeriodicKept ticksPerMs s n b

variable {ticksPerMs} {s : TimerState} {l : List (ℕ × Timer)} {promises : List (ℕ × ℕ)}

lemma TimersLinked.lists_iff (h : TimersLinked s l) {n : ℕ} : s.Lists n ↔ ∃ e ∈ l, e.2.serial = n := by
  constructor
  · rintro ⟨nodes, a, t, -, -, ha, hn⟩
    exact ⟨(a, t), h.linked a t ha, hn⟩
  · rintro ⟨e, he, hn⟩
    exact ⟨_, e.1, e.2, h.holds, List.mem_map_of_mem he, h.heap e he, hn⟩

lemma TimerInv.onTime (h : TimerInv ticksPerMs s l [] [] promises) (hno : NoOverflow s.log) :
    TimersOnTime ticksPerMs s := by
  have hl : TimersLinked s l := by simpa using h.linked
  have hf := h.fates hno
  have hcases : ∀ n b, s.log.born[n]? = some b →
      (∃ e ∈ l, e.2.serial = n ∧ Waiting ticksPerMs s.log e.2 b s.log.interrupts) ∨ Ended ticksPerMs s.log n b := by
    intro n b hb
    rcases hf.ended n (List.getElem?_eq_some_iff.mp hb).1 with ⟨e, he, rfl⟩ | ⟨b', hb'⟩
    · have hel : e ∈ l := by simpa using he
      obtain ⟨b', hw⟩ := hf.behind e hel
      obtain rfl := Option.some.inj (hb.symm.trans hw.born)
      exact .inl ⟨e, hel, rfl, hw⟩
    · obtain rfl := Option.some.inj (hb.symm.trans hb'.born)
      exact .inr hb'
  refine ⟨fun n b hb htype => ?_, fun n b hb htype => ?_⟩
  · rcases hcases n b hb with ⟨e, he, rfl, hw⟩ | hended
    · obtain ⟨-, hyet⟩ := hw.oneShot (hw.type.symm.trans htype)
      exact .inl ⟨hl.lists_iff.mpr ⟨e, he, rfl⟩, hw.looked, hyet, hw.unfreed⟩
    · refine .inr ⟨fun hlists => ?_, hended.looked, hended.fired, hended.freed⟩
      obtain ⟨e, he, rfl⟩ := hl.lists_iff.mp hlists
      obtain ⟨b', hw⟩ := hf.behind e he
      exact absurd (hw.unfreed.symm.trans hended.freed) (by decide)
  · rcases hcases n b hb with ⟨e, he, rfl, hw⟩ | hended
    · obtain ⟨hspaced, -⟩ := hw.periodic (hw.type.symm.trans htype)
      exact ⟨hl.lists_iff.mpr ⟨e, he, rfl⟩, hw.looked, hw.period ▸ hspaced, hw.unfreed⟩
    · exact absurd (htype.symm.trans hended.type) (by decide)

end OnTime

end Pi0Os.Kernel
