import Pi0Os.Task.Lifecycles

/-! Reaping: what `free_thread` does to the thread it is called for and to its process, and the
invariant of the threads, the processes and the waiters over every run. -/

namespace Pi0Os.Task.Objects

open Kernel Library Tasks

namespace Tasks

variable (s : Tasks)

/-- The listeners of `l` have been called, one after the other, by the process `pid`. -/
def wakeAll (l : List ℕ) (pid : ℕ) : Tasks :=
  { s with
    waits := fun n => if n ∈ l then (s.waits n).map fun w => { w with taken := false } else s.waits n
    released := (l.filterMap fun n => (s.waits n).map fun w => (w.call, pid)).reverse ++ s.released }

/-- The thread `t`, the only one of the process `a` with the listeners `l`, is gone, and the process with it. -/
def reaped (t a : ℕ) (p : Process) (l : List ℕ) : Tasks :=
  { s.wakeAll l p.pid with
    threads := Function.update s.threads t none
    processes := Function.update s.processes a none
    allThreads := s.allThreads.set (s.allThreads.idxOf (some t)) none
    freed := p.pid :: s.freed
    tornDown := p.pid :: s.tornDown
    vmFreed := (p.addressSpace, s.loaded) :: s.vmFreed }

end Tasks

section Release

variable {s : Tasks} {a t n : ℕ} {p : Process} {l : List ℕ}

lemma process_of (h : s.processes a = some p) : s.process a = .ok p := by simp [Tasks.process, h]

lemma thread_of {th : Thread} (h : s.threads t = some th) : s.thread t = .ok th := by simp [Tasks.thread, h]

lemma popListener_nil {L : IntrusiveLinkedList} (h : Listeners L []) : popListener s L = .ok none := by
  have hh : L.head = none := h.chain
  rw [popListener, hh]

lemma popListener_cons {L : IntrusiveLinkedList} (h : Listeners L (n :: l)) (halive : ∀ m ∈ n :: l, s.alive m) :
    popListener s L = .ok (some (n, L.remove n)) := by
  have hn := halive n List.mem_cons_self
  have hneighbours : (L.prev n).all s.alive ∧ (L.next n).all s.alive := by
    rw [h.remove.1]
    refine ⟨rfl, ?_⟩
    cases hnext : L.next n with
    | none => rfl
    | some m => exact halive m (List.mem_cons_of_mem _ (h.next_mem m hnext))
  rw [popListener, h.chain.1]
  simp only [panicIf]
  rw [if_neg (by simpa using hn), ok_bind, if_neg (by simpa using hneighbours)]
  rfl

lemma releaseListeners_ok {fuel : ℕ} (hp : s.processes a = some p) (hl : Listeners p.exitListeners l)
    (halive : ∀ n ∈ l, s.alive n) (hfuel : l.length < fuel) :
    ∃ L, releaseListeners a fuel s = .ok ((s.wakeAll l p.pid).setProcess a (some { p with exitListeners := L })) := by
  induction l generalizing s p fuel with
  | nil =>
    cases fuel with
    | zero => cases hfuel
    | succ fuel =>
      refine ⟨p.exitListeners, ?_⟩
      have hs : (s.wakeAll [] p.pid).setProcess a (some p) = s := by
        simp [wakeAll, setProcess, ← hp]
      rw [releaseListeners, process_of hp, ok_bind, popListener_nil hl, ok_bind, hs]
      rfl
  | cons n l ih =>
    cases fuel with
    | zero => cases hfuel
    | succ fuel =>
      obtain ⟨w, hw⟩ := Option.isSome_iff_exists.mp (halive n List.mem_cons_self)
      have hnl := (List.nodup_cons.mp hl.nodup).1
      have hne : ∀ m ∈ l, m ≠ n := fun m hm he => hnl (he ▸ hm)
      generalize hs₁ : (s.setProcess a (some { p with exitListeners := p.exitListeners.remove n })).release n p.pid = s₁
      have hrel : s₁ = { s with
          processes := Function.update s.processes a (some { p with exitListeners := p.exitListeners.remove n })
          waits := Function.update s.waits n (some { w with taken := false })
          released := (w.call, p.pid) :: s.released } := by
        rw [← hs₁, release]
        simp only [setProcess, hw]
        rfl
      have hp₁ : s₁.processes a = some { p with exitListeners := p.exitListeners.remove n } := by simp [hrel]
      have halive₁ : ∀ m ∈ l, s₁.alive m := fun m hm => by
        have hm' := halive m (List.mem_cons_of_mem _ hm)
        simpa [hrel, alive, Function.update_of_ne (hne m hm)] using hm'
      obtain ⟨L, hL⟩ := ih hp₁ hl.remove.2 halive₁ (Nat.lt_of_succ_lt_succ hfuel)
      refine ⟨L, ?_⟩
      rw [releaseListeners, process_of hp, ok_bind, popListener_cons hl halive, ok_bind]
      dsimp only
      rw [hs₁, hL, hrel]
      have hmap : l.filterMap (fun m => (Function.update s.waits n (some { w with taken := false }) m).map
          fun w => (w.call, p.pid)) = l.filterMap fun m => (s.waits m).map fun w => (w.call, p.pid) :=
        List.filterMap_congr fun m hm => by rw [Function.update_of_ne (hne m hm)]
      have hwaits : (fun m => if m ∈ l then (Function.update s.waits n (some { w with taken := false }) m).map
          (fun w => { w with taken := false }) else Function.update s.waits n (some { w with taken := false }) m) =
          fun m => if m ∈ n :: l then (s.waits m).map (fun w => { w with taken := false }) else s.waits m := by
        funext m
        by_cases hm : m = n
        · subst hm
          rw [if_neg hnl, if_pos List.mem_cons_self, Function.update_self, hw]
          rfl
        · simp [hm]
      simp only [wakeAll, setProcess, Function.update_idem, hmap, hwaits, List.filterMap_cons, hw, Option.map_some,
        List.reverse_cons, List.append_assoc, List.singleton_append]

lemma freeThread_single {state : ThreadState} {depth : ℕ} (ht : s.threads t = some ⟨a, state⟩)
    (hp : s.processes a = some p)
    (hone : p.threads = [t]) (hl : Listeners p.exitListeners l) (halive : ∀ n ∈ l, s.alive n)
    (hlen : l.length < maxListeners) : freeThread (depth + 3) t s = .ok (s.reaped t a p l) := by
  generalize hs₁ : { (s.setThread t none).setProcess a (some { p with threads := [] }) with
    allThreads := s.allThreads.set (s.allThreads.idxOf (some t)) none
    freed := p.pid :: s.freed } = s₁
  have hp₁ : s₁.processes a = some { p with threads := [] } := by simp [← hs₁, setProcess]
  have halive₁ : ∀ n ∈ l, s₁.alive n := fun n hn => by
    simpa [← hs₁, alive, Tasks.setProcess, Tasks.setThread] using halive n hn
  obtain ⟨L, hL⟩ := releaseListeners_ok hp₁ hl halive₁ hlen
  have hgone : arraySwapRemove p.threads (p.threads.idxOf t) = [] := by simp [hone, arraySwapRemove]
  have hprocess : ((s₁.wakeAll l p.pid).setProcess a (some { p with threads := [], exitListeners := L })).process a =
      .ok { p with threads := [], exitListeners := L } := process_of (by simp [setProcess])
  rw [freeThread, thread_of ht, ok_bind]
  dsimp only
  rw [process_of (p := p) (by exact hp), ok_bind, hgone]
  dsimp only [Tasks.setThread, Tasks.setProcess] at hs₁ ⊢
  rw [hs₁, if_pos List.isEmpty_nil, freeProcess, hL, ok_bind, freeThreads, hprocess, ok_bind]
  dsimp only
  rw [if_neg (by simp), pure_eq_ok, ok_bind, hprocess, ok_bind, ← hs₁]
  simp [wakeAll, setProcess, vmFree, reaped]

/-- `pop` goes by whatever is in the place of the list. -/
lemma freeThread_garbage {state : ThreadState} {depth : ℕ} (ht : s.threads t = some ⟨a, state⟩)
    (hp : s.processes a = some p) (hone : p.threads = [t]) (hhead : p.exitListeners.head = some n)
    (hdead : s.alive n = false) : freeThread (depth + 2) t s = .error IntrusiveLinkedList.deadNode := by
  have hgone : arraySwapRemove p.threads (p.threads.idxOf t) = [] := by simp [hone, arraySwapRemove]
  rw [freeThread, thread_of ht, ok_bind]
  dsimp only
  rw [process_of (p := p) (by exact hp), ok_bind, hgone]
  rw [if_pos List.isEmpty_nil, freeProcess, releaseListeners, process_of (Function.update_self ..), ok_bind,
    popListener]
  rw [hhead]
  dsimp only
  rw [panicIf, if_pos]
  · rfl
  · rw [Bool.not_eq_true]
    exact hdead

lemma schedulerBody_garbage {i : ℕ} (hslot : s.slot i = some t) (ht : s.threads t = some ⟨a, .zombie⟩)
    (hp : s.processes a = some p) (hone : p.threads = [t]) (hhead : p.exitListeners.head = some n)
    (hdead : s.alive n = false) : schedulerBody i s = .error IntrusiveLinkedList.deadNode := by
  rw [schedulerBody, hslot]
  dsimp only
  rw [thread_of ht, ok_bind]
  dsimp only
  rw [freeThread_garbage ht hp hone hhead hdead]
  rfl

end Release

namespace Tasks

variable (s : Tasks)

def owner (a : ℕ) : Option (ℕ × List ℕ) := (s.processes a).map fun p => (p.pid, p.threads)

def lists (a : ℕ) : Option (ℕ × IntrusiveLinkedList) := (s.processes a).map fun p => (p.pid, p.exitListeners)

end Tasks

structure Inv (s : Tasks) : Prop where
  table : Table s.threads s.owner s.slot s.exited s.freed s.nextAvailablePid
  waiters : Waiters s.waits s.lists s.waited s.released s.tornDown
  waiter_runs : ∀ n, (s.waits n).isSome → ∃ a, s.threads n = some ⟨a, .runnable⟩
  tornDown : s.tornDown = s.freed
  length_le : s.allThreads.length ≤ maxThreads
  loop_lt : ∀ i, s.cpu = .loop i → i < maxThreads
  running : ∀ i, s.cpu = .running i → s.slot i = some s.currentThread ∧
    ∃ a, s.threads s.currentThread = some ⟨a, .runnable⟩
  booting : s.cpu = .boot → s = initial

/-- Everything that is asked for is given, and the bytes found in the place of `process_exit_listeners`
are those of an empty list. -/
structure AllocEnv.Granted (env : AllocEnv) : Prop where
  process : ∃ a L, env.process = some (a, L) ∧ L.head = none
  threadsArray : env.threadsArray = true
  thread : env.thread.isSome
  workingDirectory : env.workingDirectory = true
  addressSpace : env.addressSpace.isSome
  kernelStack : env.kernelStack = true
  userStackPages : env.userStackPages = true

structure ForkEnv.Granted (env : ForkEnv) (s : Tasks) : Prop where
  alloc : env.alloc.Granted
  workingDirectory : env.workingDirectory = true
  duplicate : ∀ current p, s.threads s.currentThread = some current → s.processes current.process = some p →
    ∀ i, (p.openfiles i).isSome → (env.duplicate i).isSome
  vmFork : env.vmFork = true

def Granted (s : Tasks) : Act → Prop
  | .boot env _ => env.Granted
  | .fork env => env.Granted s
  | _ => True

section Steps

variable {s s' : Tasks} {t a i : ℕ} {p : Process}

lemma owner_update (hp : s'.processes = Function.update s.processes a (some p)) :
    s'.owner = Function.update s.owner a (some (p.pid, p.threads)) :=
  map_update _ hp

lemma lists_update (hp : s'.processes = Function.update s.processes a (some p)) :
    s'.lists = Function.update s.lists a (some (p.pid, p.exitListeners)) :=
  map_update _ hp

lemma Inv.length_lt (h : Inv s) {l : List ℕ} (hl : l.Nodup) (halive : ∀ n ∈ l, s.alive n) :
    l.length < maxListeners := by
  have hsub : l.map some ⊆ s.allThreads := by
    intro x hx
    obtain ⟨n, hn, rfl⟩ := List.mem_map.mp hx
    obtain ⟨b, hb⟩ := h.waiter_runs n (halive n hn)
    obtain ⟨k, hk, -⟩ := h.table.owned.unique n (by rw [hb]; rfl)
    exact List.mem_of_getElem? (Option.join_eq_some_iff.mp hk)
  have hle := (List.subperm_of_subset (hl.map (Option.some_injective _)) hsub).length_le
  rw [List.length_map] at hle
  exact Nat.lt_succ_of_le (hle.trans h.length_le)

lemma Inv.process_of_thread (h : Inv s) {state : ThreadState} (ht : s.threads t = some ⟨a, state⟩) :
    ∃ p l, s.processes a = some p ∧ p.threads = [t] ∧ Listeners p.exitListeners l ∧ (∀ n ∈ l, s.alive n) ∧
      l.length < maxListeners := by
  obtain ⟨pid, ha⟩ := h.table.thread t a state ht
  obtain ⟨p, hp, he⟩ := Option.map_eq_some_iff.mp ha
  obtain ⟨l, hl, hw⟩ := h.waiters.listeners a p.pid p.exitListeners (by rw [Tasks.lists, hp]; rfl)
  have halive : ∀ n ∈ l, s.alive n := by
    intro n hn
    obtain ⟨w, hw, -⟩ := hw n hn
    rw [alive, hw]
    rfl
  exact ⟨p, l, hp, (Prod.mk.inj he).2, hl, halive, h.length_lt hl.nodup halive⟩

lemma owner_erase (hp : s'.processes = Function.update s.processes a none) :
    s'.owner = Function.update s.owner a none :=
  map_update _ hp

lemma lists_erase (hp : s'.processes = Function.update s.processes a none) :
    s'.lists = Function.update s.lists a none :=
  map_update _ hp

lemma slot_set (k : ℕ) : (fun j => (s.allThreads.set k none)[j]?.join) = Function.update s.slot k none := by
  funext j
  by_cases hj : j = k
  · subst hj
    by_cases hlt : j < s.allThreads.length <;> simp [hlt]
  · rw [Function.update_of_ne hj, List.getElem?_set_ne (Ne.symm hj)]
    rfl

lemma slot_append : (fun j => (s.allThreads ++ [some t])[j]?.join) =
    Function.update s.slot s.allThreads.length (some t) := by
  funext j
  rcases lt_trichotomy j s.allThreads.length with hlt | rfl | hgt
  · rw [Function.update_of_ne hlt.ne, List.getElem?_append_left hlt]
    rfl
  · simp
  · have hnone : s.slot j = none := by simp [Tasks.slot, hgt.le]
    rw [Function.update_of_ne hgt.ne', hnone, List.getElem?_eq_none (by simp; omega)]
    rfl

/-- `free_thread` clears the slot that the loop clears once more. -/
lemma idxOf_slot (h : Owned s.slot s.threads) {k : ℕ} (hk : s.slot k = some t) :
    s.allThreads.idxOf (some t) = k := by
  have hmem : some t ∈ s.allThreads := List.mem_of_getElem? (Option.join_eq_some_iff.mp hk)
  have hlt := List.idxOf_lt_length_of_mem hmem
  refine h.slot_inj ?_ hk
  rw [Tasks.slot, List.getElem?_eq_getElem hlt, List.getElem_idxOf]
  rfl

lemma schedulerBody_spec (h : Inv s) :
    (s.slot i = none ∧ schedulerBody i s = .ok { s with cpu := .loop (nextSlot i) }) ∨
    (∃ t a p l, s.slot i = some t ∧ s.threads t = some ⟨a, .zombie⟩ ∧ s.processes a = some p ∧ p.threads = [t] ∧
      Listeners p.exitListeners l ∧ schedulerBody i s = .ok { s.reaped t a p l with
        allThreads := s.allThreads.set i none
        cpu := .loop (nextSlot i) }) ∨
    (∃ t a p, s.slot i = some t ∧ s.threads t = some ⟨a, .runnable⟩ ∧ s.processes a = some p ∧
      schedulerBody i s = .ok { s with loaded := p.addressSpace, currentThread := t, cpu := .running i }) := by
  cases hslot : s.slot i with
  | none => exact Or.inl ⟨rfl, by rw [schedulerBody, hslot]⟩
  | some t =>
    right
    obtain ⟨⟨a, state⟩, ht⟩ := Option.isSome_iff_exists.mp (h.table.owned.filled i t hslot)
    obtain ⟨p, l, hp, hone, hl, halive, hlen⟩ := h.process_of_thread ht
    rw [schedulerBody, hslot]
    dsimp only
    rw [thread_of ht, ok_bind]
    cases state with
    | suspended => exact absurd ht (h.table.started t a)
    | zombie =>
      refine Or.inl ⟨t, a, p, l, rfl, ht, hp, hone, hl, ?_⟩
      dsimp only
      rw [freeThread_single ht hp hone hl halive hlen, ok_bind]
      simp only [reaped, idxOf_slot h.table.owned hslot, List.set_set, pure_eq_ok]
    | runnable =>
      refine Or.inr ⟨t, a, p, rfl, ht, hp, ?_⟩
      dsimp only
      rw [process_of hp, ok_bind]
      rfl

lemma Inv.reap (h : Inv s) {l : List ℕ} (hslot : s.slot i = some t) (ht : s.threads t = some ⟨a, .zombie⟩)
    (hp : s.processes a = some p) (hone : p.threads = [t]) (hl : Listeners p.exitListeners l) :
    Inv { s.reaped t a p l with allThreads := s.allThreads.set i none, cpu := .loop (nextSlot i) } := by
  have ha : s.owner a = some (p.pid, [t]) := by rw [owner, hp, ← hone]; rfl
  have hlists : s.lists a = some (p.pid, p.exitListeners) := by rw [Tasks.lists, hp]; rfl
  have hpid : ∀ b L, s.lists b = some (p.pid, L) → b = a := by
    intro b L hb
    obtain ⟨q, hq, he⟩ := Option.map_eq_some_iff.mp hb
    refine h.table.pid_inj b a p.pid q.threads [t] ?_ ha
    rw [owner, hq, ← (Prod.mk.inj he).1]
    rfl
  constructor
  · have htable := h.table.reap ht ha hslot
    rw [← slot_set] at htable
    rw [owner_erase (s := s) (a := a) rfl]
    exact htable
  · have hwaiters := h.waiters.reap hlists hl hpid
    rw [lists_erase (s := s) (a := a) rfl]
    exact hwaiters
  · intro n hn
    have hn' : (s.waits n).isSome := by
      dsimp only [reaped, wakeAll] at hn
      split at hn
      · simpa using hn
      · exact hn
    obtain ⟨b, hb⟩ := h.waiter_runs n hn'
    refine ⟨b, (Function.update_of_ne ?_ ..).trans hb⟩
    rintro rfl
    rw [ht] at hb
    cases hb
  · exact congrArg (p.pid :: ·) h.tornDown
  · dsimp only [reaped]
    rw [List.length_set]
    exact h.length_le
  · rintro j hj
    cases hj
    exact Nat.mod_lt _ (by decide)
  · rintro j hj
    cases hj
  · rintro hj
    cases hj

lemma Inv.schedule (h : Inv s) (hs : schedulerBody i s = .ok s') : Inv s' := by
  rcases schedulerBody_spec (i := i) h with ⟨-, he⟩ | ⟨t, a, p, l, hslot, ht, hp, hone, hl, he⟩ |
    ⟨t, a, p, hslot, ht, hp, he⟩
  · obtain rfl := Except.ok.inj (he.symm.trans hs)
    refine ⟨h.table, h.waiters, h.waiter_runs, h.tornDown, h.length_le, ?_, ?_, ?_⟩
    · rintro j hj
      cases hj
      exact Nat.mod_lt _ (by decide)
    · rintro j hj
      cases hj
    · rintro hj
      cases hj
  · obtain rfl := Except.ok.inj (he.symm.trans hs)
    exact h.reap hslot ht hp hone hl
  · obtain rfl := Except.ok.inj (he.symm.trans hs)
    refine ⟨h.table, h.waiters, h.waiter_runs, h.tornDown, h.length_le, ?_, ?_, ?_⟩
    · rintro j hj
      cases hj
    · rintro j hj
      cases hj
      exact ⟨hslot, a, ht⟩
    · rintro hj
      cases hj

lemma Inv.switchBack (h : Inv s) : Inv (switchBack s i) := by
  refine ⟨h.table, h.waiters, h.waiter_runs, h.tornDown, h.length_le, ?_, ?_, ?_⟩
  · rintro j hj
    cases hj
    exact Nat.mod_lt _ (by decide)
  · rintro j hj
    cases hj
  · rintro hj
    cases hj

lemma Inv.exit (h : Inv s) (hcpu : s.cpu = .running i) (hwait : s.waits s.currentThread = none) {exitCode : ℤ}
    (hs : sysExit i exitCode s = .ok s') : Inv s' := by
  obtain ⟨-, a, ht⟩ := h.running i hcpu
  obtain ⟨p, l, hp, hone, -⟩ := h.process_of_thread ht
  rw [sysExit, thread_of ht, ok_bind, process_of hp, ok_bind] at hs
  obtain rfl := Except.ok.inj hs
  have ha : s.owner a = some (p.pid, [s.currentThread]) := by rw [owner, hp, ← hone]; rfl
  have hsame : Function.update s.owner a (some (p.pid, p.threads)) = s.owner := by
    rw [hone, ← ha, Function.update_eq_self]
  have hlists : Function.update s.lists a (some (p.pid, p.exitListeners)) = s.lists := by
    refine Function.update_eq_self_iff.mpr ?_
    rw [Tasks.lists, hp]
    rfl
  refine ⟨?_, ?_, ?_, h.tornDown, h.length_le, ?_, ?_, ?_⟩
  · have htable := h.table.exit ht ha
    rw [← hsame] at htable
    rw [owner_update (s := s) (p := { p with exitCode := exitCode }) rfl]
    exact htable
  · rw [lists_update (s := s) (p := { p with exitCode := exitCode }) rfl, hlists]
    exact h.waiters
  · intro n hn
    obtain ⟨b, hb⟩ := h.waiter_runs n hn
    refine ⟨b, (Function.update_of_ne ?_ ..).trans hb⟩
    rintro rfl
    have hn' : (s.waits s.currentThread).isSome := hn
    rw [hwait] at hn'
    cases hn'
  · rintro j hj
    cases hj
    exact Nat.mod_lt _ (by decide)
  · rintro j hj
    cases hj
  · rintro hj
    cases hj

lemma allocProcess_granted {env : AllocEnv} (hg : env.Granted) (s : Tasks) : ∃ a L t root,
    env.process = some (a, L) ∧ L.head = none ∧ env.thread = some t ∧ env.addressSpace = some root ∧
    allocProcess env s = .ok (some (a, t), { s with
      nextAvailablePid := s.nextAvailablePid + 1
      processes := Function.update s.processes a (some ⟨s.nextAvailablePid, 0, root, fun _ => none, L, [t]⟩)
      threads := Function.update s.threads t (some ⟨a, .suspended⟩) }) := by
  obtain ⟨a, L, ha, hL⟩ := hg.process
  obtain ⟨t, ht⟩ := Option.isSome_iff_exists.mp hg.thread
  obtain ⟨root, hroot⟩ := Option.isSome_iff_exists.mp hg.addressSpace
  refine ⟨a, L, t, root, ha, hL, ht, hroot, ?_⟩
  rw [allocProcess, ha, ht, hroot]
  simp [panicIf, hg.threadsArray, hg.workingDirectory, hg.kernelStack, hg.userStackPages, Tasks.setThread,
    Tasks.setProcess]

namespace Tasks

/-- A new process with one thread that can run, in a slot of its own. -/
def registered (s : Tasks) (a t root : ℕ) (L : IntrusiveLinkedList) (files : Fin 16 → Option FileCustody) : Tasks :=
  { s with
    nextAvailablePid := s.nextAvailablePid + 1
    processes := Function.update s.processes a (some ⟨s.nextAvailablePid, 0, root, files, L, [t]⟩)
    threads := Function.update s.threads t (some ⟨a, .runnable⟩)
    allThreads := s.allThreads ++ [some t] }

end Tasks

lemma Inv.registered (h : Inv s) (ha : s.processes a = none) (ht : s.threads t = none)
    (hlen : s.allThreads.length < maxThreads) {root : ℕ} {L : IntrusiveLinkedList} (hL : L.head = none)
    {files : Fin 16 → Option FileCustody} (hcpu : s.cpu ≠ .boot) : Inv (s.registered a t root L files) := by
  have hslot : s.slot s.allThreads.length = none := by simp [Tasks.slot]
  have hne : ∀ u b, s.threads u = some b → u ≠ t := by
    rintro u b hu rfl
    rw [ht] at hu
    cases hu
  refine ⟨?_, ?_, ?_, h.tornDown, ?_, h.loop_lt, ?_, fun hb => absurd hb hcpu⟩
  · have htable := h.table.fork ht (a := a) (by rw [owner, ha]; rfl) hslot
    rw [← slot_append] at htable
    rw [owner_update (s := s) (a := a) rfl]
    exact htable
  · have hnone : s.lists a = none := by rw [Tasks.lists, ha]; rfl
    rw [lists_update (s := s) (a := a) rfl]
    exact h.waiters.fork hnone hL
  · intro n hn
    obtain ⟨b, hb⟩ := h.waiter_runs n hn
    exact ⟨b, (Function.update_of_ne (hne n _ hb) ..).trans hb⟩
  · dsimp only [Tasks.registered]
    rw [List.length_append]
    exact hlen
  · intro j hj
    obtain ⟨hk, b, hb⟩ := h.running j hj
    refine ⟨?_, b, (Function.update_of_ne (hne _ _ hb) ..).trans hb⟩
    have hjlen : j ≠ s.allThreads.length := by
      rintro rfl
      rw [hslot] at hk
      cases hk
    have he := congrFun (slot_append (s := s) (t := t)) j
    rw [Function.update_of_ne hjlen, hk] at he
    exact he

lemma sysFork_granted (h : Inv s) {env : ForkEnv} (hg : env.Granted s) (hcpu : s.cpu = .running i) :
    ∃ a L t root files,
    env.alloc.process = some (a, L) ∧ L.head = none ∧ env.alloc.thread = some t ∧ env.alloc.addressSpace = some root ∧
    sysFork env s = if s.allThreads.length < maxThreads then
      .ok (s.nextAvailablePid, s.registered a t root L files)
    else .error (.assertion "s_all_threads_len < array_size(s_all_threads)") := by
  obtain ⟨-, b, ht⟩ := h.running i hcpu
  obtain ⟨p, -, hp, -⟩ := h.process_of_thread ht
  obtain ⟨a, L, t, root, ha, hL, ht', hroot, halloc⟩ := allocProcess_granted hg.alloc s
  have hfiles : duplicateFiles env.duplicate p.openfiles =
      some fun i => if (p.openfiles i).isSome then env.duplicate i else none :=
    if_pos (hg.duplicate _ p ht hp)
  refine ⟨a, L, t, root, fun i => if (p.openfiles i).isSome then env.duplicate i else none, ha, hL, ht', hroot, ?_⟩
  rw [sysFork, thread_of ht, ok_bind]
  dsimp only
  rw [process_of hp, ok_bind, halloc, ok_bind]
  dsimp only
  rw [process_of (Function.update_self ..), ok_bind, hfiles]
  dsimp only
  rw [if_pos ⟨hg.workingDirectory, hg.vmFork⟩, registerThread]
  by_cases hlen : s.allThreads.length < maxThreads
  · rw [kassert_of (by exact hlen), if_pos hlen]
    simp [Tasks.registered, Tasks.setThread, Tasks.setProcess]
  · rw [kassert_of_not (by exact hlen), if_neg hlen]
    rfl

lemma sysExecve_cases {env : ExecveEnv} {argv envp : List CString} {rc : ℤ} {state : ThreadState}
    (ht : s.threads s.currentThread = some ⟨a, state⟩) (hp : s.processes a = some p)
    (hs : sysExecve env argv envp s = .ok (rc, s')) :
    ∃ newAs, env.addressSpace = some newAs ∧ (s' = s.vmFree newAs ∨
      s' = { s with
        processes := Function.update s.processes a (some { p with addressSpace := newAs })
        loaded := newAs
        vmFreed := (p.addressSpace, newAs) :: s.vmFreed }) := by
  rw [sysExecve, thread_of ht, ok_bind] at hs
  dsimp only at hs
  rw [process_of hp, ok_bind] at hs
  obtain ⟨_ | _, -, hs⟩ := bind_eq_ok.mp hs
  · cases hs
  obtain ⟨_ | _, -, hs⟩ := bind_eq_ok.mp hs
  · cases hs
  dsimp only at hs
  cases hnew : env.addressSpace with
  | none =>
    rw [hnew] at hs
    cases hs
  | some newAs =>
    rw [hnew] at hs
    refine ⟨newAs, rfl, ?_⟩
    obtain ⟨_ | _, -, hs⟩ := bind_eq_ok.mp hs
    · exact Or.inl (Prod.mk.inj (Except.ok.inj hs)).2.symm
    · dsimp only at hs
      split at hs
      · exact Or.inl (Prod.mk.inj (Except.ok.inj hs)).2.symm
      · obtain ⟨-, hs⟩ := panicIf_bind_eq_ok.mp hs
        obtain ⟨-, -, hs⟩ := bind_eq_ok.mp hs
        exact Or.inr (Prod.mk.inj (Except.ok.inj hs)).2.symm

lemma Inv.execve (h : Inv s) (hcpu : s.cpu = .running i) {env : ExecveEnv} {argv envp : List CString} {rc : ℤ}
    (hs : sysExecve env argv envp s = .ok (rc, s')) : Inv s' := by
  obtain ⟨-, a, ht⟩ := h.running i hcpu
  obtain ⟨p, -, hp, -⟩ := h.process_of_thread ht
  obtain ⟨newAs, -, rfl | rfl⟩ := sysExecve_cases ht hp hs
  · exact ⟨h.table, h.waiters, h.waiter_runs, h.tornDown, h.length_le, h.loop_lt, h.running,
      fun hb => nomatch hcpu.symm.trans hb⟩
  · refine ⟨?_, ?_, h.waiter_runs, h.tornDown, h.length_le, h.loop_lt, h.running, fun hb => nomatch hcpu.symm.trans hb⟩
    · have howner : Function.update s.owner a (some (p.pid, p.threads)) = s.owner := by
        refine Function.update_eq_self_iff.mpr ?_
        rw [owner, hp]
        rfl
      rw [owner_update (s := s) (p := { p with addressSpace := newAs }) rfl, howner]
      exact h.table
    · have hlists : Function.update s.lists a (some (p.pid, p.exitListeners)) = s.lists := by
        refine Function.update_eq_self_iff.mpr ?_
        rw [Tasks.lists, hp]
        rfl
      rw [lists_update (s := s) (p := { p with addressSpace := newAs }) rfl, hlists]
      exact h.waiters

lemma lookup_spec (h : Inv s) (pid : ℤ) {slots : List (Option ℕ)} (hsub : slots ⊆ s.allThreads) :
    ((∀ t a state p, some t ∈ slots → s.threads t = some ⟨a, state⟩ → s.processes a = some p → (p.pid : ℤ) ≠ pid) ∧
      lookupProcessByPid s pid slots = .ok none) ∨
      ∃ t a p state, some t ∈ slots ∧ s.threads t = some ⟨a, state⟩ ∧ s.processes a = some p ∧ p.pid = pid ∧
        lookupProcessByPid s pid slots = .ok (some a) := by
  induction slots with
  | nil => exact Or.inl ⟨fun _ _ _ _ ht => absurd ht List.not_mem_nil, rfl⟩
  | cons slot slots ih =>
    have ih := ih fun x hx => hsub (List.mem_cons_of_mem _ hx)
    cases slot with
    | none =>
      rcases ih with ⟨hno, ih⟩ | ⟨t, a, p, state, ht, hrest⟩
      · exact Or.inl ⟨fun t a state p ht => hno t a state p (List.mem_of_ne_of_mem (by simp) ht), ih⟩
      · exact Or.inr ⟨t, a, p, state, List.mem_cons_of_mem _ ht, hrest⟩
    | some t =>
      obtain ⟨k, hk⟩ := List.getElem?_of_mem (hsub List.mem_cons_self)
      obtain ⟨⟨a, state⟩, ht⟩ := Option.isSome_iff_exists.mp (h.table.owned.filled k t (by rw [Tasks.slot, hk]; rfl))
      obtain ⟨p, -, hp, -⟩ := h.process_of_thread ht
      rw [lookupProcessByPid, thread_of ht, ok_bind]
      dsimp only
      rw [process_of hp, ok_bind]
      by_cases hpid : (p.pid : ℤ) = pid
      · rw [if_pos hpid]
        exact Or.inr ⟨t, a, p, state, List.mem_cons_self, ht, hp, hpid, rfl⟩
      · rw [if_neg hpid]
        rcases ih with ⟨hno, ih⟩ | ⟨t, a, p, state, ht, hrest⟩
        · refine Or.inl ⟨fun u b state' q hu hut huq => ?_, ih⟩
          rcases List.mem_cons.mp hu with he | hu
          · obtain rfl := Option.some.inj he
            cases ht.symm.trans hut
            cases hp.symm.trans huq
            exact hpid
          · exact hno u b state' q hu hut huq
        · exact Or.inr ⟨t, a, p, state, List.mem_cons_of_mem _ ht, hrest⟩

/-- The call of `sys$waitexit` for a process that has not exited yet. -/
def waiting (s : Tasks) (a : ℕ) (p : Process) : Tasks :=
  { s with
    processes := Function.update s.processes a (some { p with exitListeners := p.exitListeners.add s.currentThread })
    waits := Function.update s.waits s.currentThread (some ⟨true, s.waited.length, p.pid⟩)
    waited := (s.waited.length, p.pid) :: s.waited }

lemma sysWaitexit_spec (h : Inv s) (pid : ℤ) :
    ((∀ a p, s.processes a = some p → (p.pid : ℤ) ≠ pid) ∧ sysWaitexit i pid s = .ok (some (-Err.inval), s)) ∨
    (∃ a p, s.processes a = some p ∧ p.pid = pid ∧ p.pid ∈ s.exited ∧ sysWaitexit i pid s = .ok (some 0, s)) ∨
    (∃ a p, s.processes a = some p ∧ p.pid = pid ∧ p.pid ∉ s.exited ∧ sysWaitexit i pid s =
      .ok (none, if s.hasStarted then switchBack (waiting s a p) i else { waiting s a p with cpu := .spinning })) := by
  rcases lookup_spec h pid (List.Subset.refl _) with ⟨hno, hnone⟩ | ⟨t, a, p, state, -, ht, hp, hpid, hlookup⟩
  · refine Or.inl ⟨fun a p hp => ?_, by rw [sysWaitexit, hnone]; rfl⟩
    obtain ⟨t, state, -, ht⟩ := h.table.process a p.pid p.threads (by rw [owner, hp]; rfl)
    obtain ⟨k, hk, -⟩ := h.table.owned.unique t (by rw [ht]; rfl)
    exact hno t a state p (List.mem_of_getElem? (Option.join_eq_some_iff.mp hk)) ht hp
  · right
    obtain ⟨p', l, hp', hone, hl, halive, -⟩ := h.process_of_thread ht
    obtain rfl := Option.some.inj (hp'.symm.trans hp)
    have hz := h.table.zombie t a state p'.pid _ ht (by rw [owner, hp]; rfl)
    have hzombie : isZombie s p'.threads = .ok (decide (state = .zombie)) := by
      rw [hone, isZombie, thread_of ht, ok_bind]
      by_cases hs : state = .zombie <;> simp [hs, isZombie]
    rw [sysWaitexit, hlookup, ok_bind]
    dsimp only
    rw [process_of hp, ok_bind, hzombie, ok_bind]
    by_cases hs : state = .zombie
    · exact Or.inl ⟨a, p', hp, hpid, hz.mp hs, by rw [if_pos (by simpa using hs)]; rfl⟩
    · refine Or.inr ⟨a, p', hp, hpid, fun hm => hs (hz.mpr hm), ?_⟩
      have hhead : p'.exitListeners.head.all s.alive := by
        cases hh : p'.exitListeners.head with
        | none => rfl
        | some m =>
          cases l with
          | nil => cases hh.symm.trans hl.chain
          | cons k l =>
            obtain rfl := Option.some.inj (hl.chain.1.symm.trans hh)
            exact halive k List.mem_cons_self
      rw [if_neg (by simpa using hs), panicIf, if_neg (by simpa using hhead), ok_bind]
      by_cases hstarted : s.hasStarted
      · rw [if_pos (by exact hstarted), if_pos hstarted]
        rfl
      · rw [if_neg (by exact hstarted), if_neg hstarted]
        rfl

lemma Inv.waiting (h : Inv s) (hcpu : s.cpu = .running i) (hwait : s.waits s.currentThread = none)
    (hp : s.processes a = some p) : Inv (waiting s a p) := by
  refine ⟨?_, ?_, ?_, h.tornDown, h.length_le, h.loop_lt, h.running, fun hb => nomatch hcpu.symm.trans hb⟩
  · have howner : Function.update s.owner a (some (p.pid, p.threads)) = s.owner := by
      refine Function.update_eq_self_iff.mpr ?_
      rw [owner, hp]
      rfl
    rw [owner_update (s := s) (p := { p with exitListeners := p.exitListeners.add s.currentThread }) rfl, howner]
    exact h.table
  · rw [lists_update (s := s) (p := { p with exitListeners := p.exitListeners.add s.currentThread }) rfl]
    exact h.waiters.add hwait (by rw [Tasks.lists, hp]; rfl)
  · intro n hn
    by_cases hnc : n = s.currentThread
    · rw [hnc]
      exact (h.running i hcpu).2
    · refine h.waiter_runs n ?_
      rw [← Function.update_of_ne hnc (some ⟨true, s.waited.length, p.pid⟩) s.waits]
      exact hn

lemma Inv.spinning (h : Inv s) : Inv { s with cpu := .spinning } :=
  ⟨h.table, h.waiters, h.waiter_runs, h.tornDown, h.length_le, fun _ hj => (nomatch hj), fun _ hj => (nomatch hj),
    fun hb => (nomatch hb)⟩

lemma Inv.waitexit (h : Inv s) (hcpu : s.cpu = .running i) (hwait : s.waits s.currentThread = none) {pid : ℤ}
    {rc : Option ℤ} (hs : sysWaitexit i pid s = .ok (rc, s')) : Inv s' := by
  rcases sysWaitexit_spec (i := i) h pid with ⟨-, he⟩ | ⟨a, p, -, -, -, he⟩ | ⟨a, p, hp, -, -, he⟩
  · rw [← (Prod.mk.inj (Except.ok.inj (he.symm.trans hs))).2]
    exact h
  · rw [← (Prod.mk.inj (Except.ok.inj (he.symm.trans hs))).2]
    exact h
  · rw [← (Prod.mk.inj (Except.ok.inj (he.symm.trans hs))).2]
    split
    · exact (h.waiting hcpu hwait hp).switchBack
    · exact (h.waiting hcpu hwait hp).spinning

lemma Inv.woken (h : Inv s) (hcpu : s.cpu = .running i) {w : Wait} (hw : s.waits s.currentThread = some w)
    (ht : w.taken = false) : Inv (s.setWait s.currentThread none) := by
  refine ⟨h.table, h.waiters.woken hw ht, ?_, h.tornDown, h.length_le, h.loop_lt, h.running,
    fun hb => nomatch hcpu.symm.trans hb⟩
  intro n hn
  by_cases hnc : n = s.currentThread
  · rw [hnc]
    exact (h.running i hcpu).2
  · refine h.waiter_runs n ?_
    rw [← Function.update_of_ne hnc none s.waits]
    exact hn

lemma inv_initial : Inv initial where
  table := Table.empty
  waiters := Waiters.empty
  waiter_runs := by simp [initial]
  tornDown := rfl
  length_le := by simp [initial]
  loop_lt := by simp [initial]
  running := by simp [initial]
  booting := fun _ => rfl

lemma createFirstProcess_granted {env : AllocEnv} {log : Fin 3 → Except ℤ FileCustody} (hg : env.Granted)
    (hs : createFirstProcess env log s = .ok s') : ∃ a t root L files, env.addressSpace = some root ∧ L.head = none ∧
      s.allThreads.length < maxThreads ∧
      s' = { s.registered a t root L files with currentThread := t, cpu := .loop 0 } := by
  obtain ⟨a, L, t, root, -, hL, -, hroot, halloc⟩ := allocProcess_granted hg s
  rw [createFirstProcess, halloc, ok_bind] at hs
  obtain ⟨s₁, hreg, hs⟩ := bind_eq_ok.mp hs
  obtain ⟨hlen, hreg⟩ := kassert_bind_eq_ok.mp hreg
  obtain rfl := Except.ok.inj hreg
  split at hs
  · rename_i stdin stdout stderr _ _ _
    rw [process_of (Function.update_self ..), ok_bind] at hs
    obtain rfl := Except.ok.inj hs
    refine ⟨a, t, root, L, standardFiles stdin stdout stderr, hroot, hL, hlen, ?_⟩
    simp [Tasks.registered, Tasks.setProcess, Tasks.setThread]
  · cases hs

lemma Inv.boot (h : Inv s) (hcpu : s.cpu = .boot) {env : AllocEnv} {log : Fin 3 → Except ℤ FileCustody}
    (hg : env.Granted) (hs : createFirstProcess env log s = .ok s') : Inv s' := by
  obtain ⟨a, t, root, L, files, -, hL, hlen, rfl⟩ := createFirstProcess_granted hg hs
  obtain rfl := h.booting hcpu
  have hloop : Inv { initial with cpu := .loop 0 } := by
    refine ⟨Table.empty, Waiters.empty, h.waiter_runs, rfl, h.length_le, ?_, fun _ hj => (nomatch hj),
      fun hb => (nomatch hb)⟩
    rintro j hj
    cases hj
    decide
  have hreg : Inv (Tasks.registered { initial with cpu := .loop 0 } a t root L files) :=
    hloop.registered rfl rfl hlen hL (by simp)
  exact ⟨hreg.table, hreg.waiters, hreg.waiter_runs, rfl, hreg.length_le, hreg.loop_lt, fun _ hj => (nomatch hj),
    fun hb => (nomatch hb)⟩

end Steps

lemma tasks_inductive : (tasks.restrict Granted).Inductive Inv := by
  constructor
  · rintro s rfl
    exact inv_initial
  · rintro s act s' h ⟨hs, hg⟩
    cases hs with
    | boot hcpu _ hs => exact h.boot hcpu hg hs
    | schedule hcpu hs => exact h.schedule hs
    | yield => exact h.switchBack
    | exit hcpu hwait hs => exact h.exit hcpu hwait hs
    | fork hrun _ hfresh hs =>
      obtain ⟨i, hcpu⟩ := hrun
      obtain ⟨a, L, t, root, files, ha, hL, ht, hroot, he⟩ := sysFork_granted h hg hcpu
      rw [he] at hs
      split at hs
      · rename_i hlen
        obtain rfl := (Prod.mk.inj (Except.ok.inj hs)).2
        exact h.registered (hfresh.process a (by rw [ha]; rfl)) (hfresh.thread t (by rw [ht]; rfl)) hlen hL
          (by simp [hcpu])
      · cases hs
    | execve hrun _ _ hs => exact h.execve hrun.choose_spec hs
    | waitexit hcpu hwait hs => exact h.waitexit hcpu hwait hs
    | spin => exact h.switchBack
    | woken hcpu hw ht => exact h.woken hcpu hw ht

/-- The table leads to threads that exist, to each of them once; only runnable threads are switched to;
a thread that has exited is freed once, together with its process, when the loop comes to its slot; and no
step of the loop, exit or fork touches anything that is gone. -/
structure ReapedOnce (s : Tasks) : Prop where
  allocated : ∀ i t, s.slot i = some t → (s.threads t).isSome
  once : ∀ i j t, s.slot i = some t → s.slot j = some t → i = j
  switched : ∀ i, s.cpu = .running i → ∃ a, s.threads s.currentThread = some ⟨a, .runnable⟩
  exited_once : s.exited.Nodup
  freed_once : s.freed.Nodup ∧ ∀ pid ∈ s.freed, pid ∈ s.exited
  tornDown : s.tornDown = s.freed
  kept : ∀ pid ∈ s.exited, pid ∉ s.freed → ∃ i t a p, s.slot i = some t ∧ s.threads t = some ⟨a, .zombie⟩ ∧
    s.processes a = some p ∧ p.pid = pid
  reaps : ∀ i t a p, s.slot i = some t → s.threads t = some ⟨a, .zombie⟩ → s.processes a = some p →
    ∃ s', schedulerBody i s = .ok s' ∧ s'.freed = p.pid :: s.freed ∧ s'.threads t = none ∧ s'.processes a = none
  schedules : ∀ i, s.cpu = .loop i → ∃ s', schedulerBody i s = .ok s'
  exits : ∀ i exitCode, s.cpu = .running i → ∃ s', sysExit i exitCode s = .ok s'
  forks : ∀ i env, s.cpu = .running i → env.Granted s → s.allThreads.length < maxThreads → ∃ r, sysFork env s = .ok r

lemma Inv.reapedOnce {s : Tasks} (h : Inv s) : ReapedOnce s where
  allocated := h.table.owned.filled
  once _ _ _ hi hj := h.table.owned.slot_inj hi hj
  switched i hi := (h.running i hi).2
  exited_once := h.table.exited_nodup
  freed_once := ⟨h.table.freed_nodup, fun pid hpid => (h.table.freed_gone pid hpid).1⟩
  tornDown := h.tornDown
  kept := by
    intro pid hpid hnf
    obtain ⟨-, hf | ⟨a, ts, ha⟩⟩ := h.table.exited_cases pid hpid
    · exact absurd hf hnf
    · obtain ⟨p, hp, he⟩ := Option.map_eq_some_iff.mp ha
      obtain ⟨t, state, -, ht⟩ := h.table.process a pid ts ha
      obtain rfl := (h.table.zombie t a state pid ts ht ha).mpr hpid
      obtain ⟨i, hi, -⟩ := h.table.owned.unique t (by rw [ht]; rfl)
      exact ⟨i, t, a, p, hi, ht, hp, (Prod.mk.inj he).1⟩
  reaps := by
    intro i t a p hi ht hp
    rcases schedulerBody_spec (i := i) h with
      ⟨hnone, -⟩ | ⟨u, b, q, l, hu, hut, hq, -, -, he⟩ | ⟨u, b, q, hu, hut, -, -⟩
    · cases hi.symm.trans hnone
    · obtain rfl := Option.some.inj (hi.symm.trans hu)
      cases ht.symm.trans hut
      cases hp.symm.trans hq
      exact ⟨_, he, rfl, Function.update_self .., Function.update_self ..⟩
    · obtain rfl := Option.some.inj (hi.symm.trans hu)
      cases ht.symm.trans hut
  schedules := by
    intro i _
    rcases schedulerBody_spec (i := i) h with ⟨-, he⟩ | ⟨_, _, _, _, _, _, _, _, _, he⟩ | ⟨_, _, _, _, _, _, he⟩
    · exact ⟨_, he⟩
    · exact ⟨_, he⟩
    · exact ⟨_, he⟩
  exits := by
    intro i exitCode hi
    obtain ⟨-, a, ht⟩ := h.running i hi
    obtain ⟨p, -, hp, -⟩ := h.process_of_thread ht
    rw [sysExit, thread_of ht, ok_bind, process_of hp, ok_bind]
    exact ⟨_, rfl⟩
  forks := by
    intro i env hi hg hlen
    obtain ⟨_, _, _, _, _, _, _, _, _, he⟩ := sysFork_granted h hg hi
    rw [if_pos hlen] at he
    exact ⟨_, he⟩

/-- In every run whose forks are given all that they ask for and find no listeners in the new process. -/
theorem reapedOnce_of_granted {s : Tasks} (h : (tasks.restrict Granted).Reachable s) : ReapedOnce s :=
  (h.invariant tasks_inductive).reapedOnce

section Example

/-- All is given, at the addresses 1 and 2; `head` is what is found in the place of the listeners. -/
def bootEnv (head : Option ℕ) : AllocEnv :=
  ⟨some (1, ⟨head, none, fun _ => none, fun _ => none⟩), true, some 2, true, some 3, true, true⟩

lemma bootEnv_fresh (head : Option ℕ) : (bootEnv head).Fresh initial := by
  constructor <;> simp [bootEnv, initial, kernelRoot]

def booted (head : Option ℕ) : Tasks :=
  { initial.registered 1 2 3 ⟨head, none, fun _ => none, fun _ => none⟩ (standardFiles 0 0 0) with
    currentThread := 2, cpu := .loop 0 }

lemma boot_step (head : Option ℕ) : Step initial (.boot (bootEnv head) fun _ => .ok 0) (booted head) := by
  refine .boot rfl (bootEnv_fresh head) ?_
  simp [createFirstProcess, allocProcess, bootEnv, panicIf, registerThread, kassert, initial, booted, Tasks.registered,
    Tasks.process, Tasks.setProcess, Tasks.setThread]

def started (head : Option ℕ) : Tasks := { booted head with loaded := 3, cpu := .running 0 }

lemma started_step (head : Option ℕ) : Step (booted head) .schedule (started head) := by
  refine .schedule rfl ?_
  simp [schedulerBody, booted, started, Tasks.registered, initial, Tasks.slot, Tasks.thread, Tasks.process]

lemma bootEnv_granted : (bootEnv none).Granted := ⟨⟨1, _, rfl, rfl⟩, rfl, rfl, rfl, rfl, rfl, rfl⟩

lemma started_reachable : (tasks.restrict Granted).Reachable (started none) := by
  have h₀ : (tasks.restrict Granted).Reachable initial := .init rfl
  have h₁ : (tasks.restrict Granted).Reachable (booted none) := h₀.step ⟨boot_step none, bootEnv_granted⟩
  exact h₁.step (a := Act.schedule) ⟨started_step none, trivial⟩

theorem reapedOnce_of_granted_started : ReapedOnce (started none) := reapedOnce_of_granted started_reachable

def finished (head : Option ℕ) : Tasks :=
  { started head with
    threads := Function.update (started head).threads 2 (some ⟨1, .zombie⟩)
    processes := Function.update (started head).processes 1
      (some ⟨0, 0, 3, standardFiles 0 0 0, ⟨head, none, fun _ => none, fun _ => none⟩, [2]⟩)
    hasStarted := true
    exited := [0]
    cpu := .loop 1 }

lemma finished_step (head : Option ℕ) : Step (started head) (.exit 0) (finished head) := by
  suffices hexit : sysExit 0 0 (started head) = .ok (finished head) from .exit rfl rfl hexit
  simp [sysExit, finished, started, booted, Tasks.registered, initial, Tasks.thread, Tasks.process, Tasks.setProcess,
    Tasks.setThread, switchBack, nextSlot]

lemma sweep {s : Tasks} {i n : ℕ} (hnull : ∀ k, i ≤ k → k < i + n → s.slot k = none) (hle : i + n ≤ maxThreads)
    (h : tasks.Reachable { s with cpu := .loop (i % maxThreads) }) :
    tasks.Reachable { s with cpu := .loop ((i + n) % maxThreads) } := by
  induction n with
  | zero => exact h
  | succ n ih =>
    have hprev := ih (fun k hk hlt => hnull k hk (by omega)) (by omega)
    have hmod : (i + n) % maxThreads = i + n := Nat.mod_eq_of_lt (by omega)
    rw [hmod] at hprev
    refine hprev.step (a := .schedule) (.schedule rfl ?_)
    have hslot : Tasks.slot { s with cpu := .loop (i + n) } (i + n) = none := hnull (i + n) (by omega) (by omega)
    rw [schedulerBody, hslot]
    rfl

lemma finished_reachable (head : Option ℕ) : tasks.Reachable { finished head with cpu := .loop 0 } := by
  have h₀ : tasks.Reachable initial := .init rfl
  have h₁ : tasks.Reachable (booted head) := h₀.step (boot_step head)
  have h₂ : tasks.Reachable (started head) := h₁.step (started_step head)
  have h₃ : tasks.Reachable (finished head) := h₂.step (finished_step head)
  refine sweep (s := finished head) (i := 1) (n := 63) (fun k hk _ => ?_) (by decide) h₃
  have hnull : [some 2][k]? = none := List.getElem?_eq_none hk
  simp [finished, started, booted, Tasks.registered, initial, Tasks.slot, hnull]

/-- The loop of `free_process` follows whatever `malloc` has left in the place of the listeners. -/
theorem garbage_listeners_not_reaped : ∃ s, tasks.Reachable s ∧ ¬ ReapedOnce s := by
  refine ⟨_, finished_reachable (some 7), fun h => ?_⟩
  obtain ⟨s', hs'⟩ := h.schedules 0 rfl
  have herror := schedulerBody_garbage (s := { finished (some 7) with cpu := .loop 0 }) (i := 0) (t := 2) (a := 1)
    (n := 7) rfl rfl rfl rfl rfl rfl
  cases herror.symm.trans hs'

end Example

end Pi0Os.Task.Objects
