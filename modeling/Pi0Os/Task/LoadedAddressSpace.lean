import Pi0Os.Task.Reaping

/-! Which address space is loaded when one is freed: the scheduler reaps with the table of the thread that
ran last, so that thread has to be followed by another one before the loop is back at its slot. -/

namespace Pi0Os.Task.Objects

open Kernel Library Tasks

/-- Some other thread can still run when one exits. -/
def Outlived (s : Tasks) : Act → Prop
  | .exit _ => ∃ i t a, s.slot i = some t ∧ t ≠ s.currentThread ∧ s.threads t = some ⟨a, .runnable⟩
  | _ => True

/-- How many slots the loop visits at `k` before it comes to `i`. -/
def distance (k i : ℕ) : ℕ := (i + maxThreads - k) % maxThreads

section Distance

variable {i k : ℕ}

lemma distance_self : distance k k = 0 := by
  rw [distance, Nat.add_sub_cancel_left, Nat.mod_self]

lemma distance_next (hk : k < maxThreads) (hi : i < maxThreads) (hne : i ≠ k) :
    distance k i = distance (nextSlot k) i + 1 := by
  simp only [distance, nextSlot, maxThreads] at *
  omega

/-- From the slot after `k`, every other slot is visited before `k` itself. -/
lemma distance_nextSlot_lt (hk : k < maxThreads) (hi : i < maxThreads) (hne : i ≠ k) :
    distance (nextSlot k) i < distance (nextSlot k) k := by
  simp only [distance, nextSlot, maxThreads] at *
  omega

end Distance

/-- No two processes share an address space, and none has the one of the kernel. -/
structure Separate (space : ℕ → Option ℕ) : Prop where
  inj : ∀ a b root, space a = some root → space b = some root → a = b
  user : ∀ a, space a ≠ some kernelRoot

namespace Separate

variable {space : ℕ → Option ℕ}

lemma update (h : Separate space) (a : ℕ) {root : ℕ} (hkernel : root ≠ kernelRoot) (hfresh : ∀ b, space b ≠ some root) :
    Separate (Function.update space a (some root)) := by
  constructor
  · intro b c r hb hc
    rcases update_some_eq_some.mp hb with ⟨hba, rfl⟩ | ⟨-, hb⟩
    · rcases update_some_eq_some.mp hc with ⟨hca, -⟩ | ⟨-, hc⟩
      · exact hba.trans hca.symm
      · exact absurd hc (hfresh c)
    · rcases update_some_eq_some.mp hc with ⟨-, rfl⟩ | ⟨-, hc⟩
      · exact absurd hb (hfresh b)
      · exact h.inj b c r hb hc
  · intro b hb
    rcases update_some_eq_some.mp hb with ⟨-, hr⟩ | ⟨-, hb⟩
    · exact hkernel hr
    · exact h.user b hb

lemma erase (h : Separate space) (a : ℕ) : Separate (Function.update space a none) := by
  constructor
  · intro b c r hb hc
    exact h.inj b c r (update_none_eq_some.mp hb).2 (update_none_eq_some.mp hc).2
  · intro b hb
    exact h.user b (update_none_eq_some.mp hb).2

end Separate

def Tasks.space (s : Tasks) (a : ℕ) : Option ℕ := (s.processes a).map Process.addressSpace

/-- The loop at `k` runs with the address space of a thread that is still in the table; when this is a
zombie, the loop comes to a thread that can run before it comes to the zombie. -/
def Held (s : Tasks) (k : ℕ) : Prop :=
  ∃ j t a state, s.slot j = some t ∧ s.threads t = some ⟨a, state⟩ ∧ s.space a = some s.loaded ∧
    (state = .zombie → ∃ r u b, s.slot r = some u ∧ s.threads u = some ⟨b, .runnable⟩ ∧ distance k r < distance k j)

structure Spaces (s : Tasks) : Prop where
  separate : Separate s.space
  running : ∀ i a, s.cpu = .running i → s.threads s.currentThread = some ⟨a, .runnable⟩ → s.space a = some s.loaded
  loop : ∀ k, s.cpu = .loop k → s.loaded = kernelRoot ∨ Held s k
  freed : ∀ r ∈ s.vmFreed, r.1 ≠ r.2

section Steps

variable {s s' : Tasks} {t a i k : ℕ} {p : Process}

lemma space_of (hp : s.processes a = some p) : s.space a = some p.addressSpace := by rw [space, hp]; rfl

lemma space_update (hp : s'.processes = Function.update s.processes a (some p)) :
    s'.space = Function.update s.space a (some p.addressSpace) :=
  map_update _ hp

lemma space_erase (hp : s'.processes = Function.update s.processes a none) :
    s'.space = Function.update s.space a none :=
  map_update _ hp

lemma space_congr (hp : s.processes a = some p) {q : Process} (hq : q.addressSpace = p.addressSpace)
    (hs : s'.processes = Function.update s.processes a (some q)) : s'.space = s.space := by
  rw [space_update hs, hq, ← space_of hp, Function.update_eq_self]

lemma Inv.slot_lt (h : Inv s) (hslot : s.slot i = some t) : i < maxThreads := by
  obtain ⟨hlt, -⟩ := List.getElem?_eq_some_iff.mp (Option.join_eq_some_iff.mp hslot)
  exact hlt.trans_le h.length_le

lemma Spaces.switchBack (h : Spaces s) (hinv : Inv s) (hcpu : s.cpu = .running i) : Spaces (switchBack s i) := by
  obtain ⟨hslot, a, ht⟩ := hinv.running i hcpu
  refine ⟨h.separate, fun j b hj => (nomatch hj), fun k hk => Or.inr ?_, h.freed⟩
  cases hk
  exact ⟨i, s.currentThread, a, .runnable, hslot, ht, h.running i a hcpu ht, fun hz => nomatch hz⟩

lemma Spaces.skip (h : Spaces s) (hinv : Inv s) (hcpu : s.cpu = .loop i) (hslot : s.slot i = none) :
    Spaces { s with cpu := .loop (nextSlot i) } := by
  have hi := hinv.loop_lt i hcpu
  have hne : ∀ j u, s.slot j = some u → j ≠ i := by
    rintro j u hj rfl
    cases hslot.symm.trans hj
  refine ⟨h.separate, fun j b hj => (nomatch hj), ?_, h.freed⟩
  rintro k hk
  cases hk
  rcases h.loop i hcpu with hkernel | ⟨j, t, a, state, hj, ht, ha, hnext⟩
  · exact Or.inl hkernel
  · refine Or.inr ⟨j, t, a, state, hj, ht, ha, fun hz => ?_⟩
    obtain ⟨r, u, b, hr, hu, hlt⟩ := hnext hz
    refine ⟨r, u, b, hr, hu, ?_⟩
    rw [distance_next hi (hinv.slot_lt hr) (hne r u hr), distance_next hi (hinv.slot_lt hj) (hne j t hj)] at hlt
    exact Nat.lt_of_succ_lt_succ hlt

lemma Spaces.reap (h : Spaces s) (hinv : Inv s) (hcpu : s.cpu = .loop i) {l : List ℕ} (hslot : s.slot i = some t)
    (ht : s.threads t = some ⟨a, .zombie⟩) (hp : s.processes a = some p) (hone : p.threads = [t]) :
    Spaces { s.reaped t a p l with allThreads := s.allThreads.set i none, cpu := .loop (nextSlot i) } := by
  have hi := hinv.loop_lt i hcpu
  have hspace : Tasks.space { s.reaped t a p l with allThreads := s.allThreads.set i none, cpu := .loop (nextSlot i) } =
      Function.update s.space a none := space_erase rfl
  have hslots : ∀ j u, s.slot j = some u → u ≠ t →
      Tasks.slot
        { s.reaped t a p l with allThreads := s.allThreads.set i none, cpu := .loop (nextSlot i) } j = some u := by
    intro j u hj hut
    have hji : j ≠ i := by
      rintro rfl
      exact hut (Option.some.inj (hj.symm.trans hslot))
    have he := congrFun (slot_set (s := s) i) j
    rw [Function.update_of_ne hji, hj] at he
    exact he
  -- the thread that holds what is loaded is another one, with another process
  have hheld : s.loaded = kernelRoot ∨ ∃ j u b state, s.slot j = some u ∧ u ≠ t ∧ b ≠ a ∧
    s.threads u = some ⟨b, state⟩ ∧
      s.space b = some s.loaded ∧ (state = .zombie → ∃ r v c, s.slot r = some v ∧ v ≠ t ∧
        s.threads v = some ⟨c, .runnable⟩ ∧ distance (nextSlot i) r < distance (nextSlot i) j) := by
    rcases h.loop i hcpu with hkernel | ⟨j, u, b, state, hj, hu, hb, hnext⟩
    · exact Or.inl hkernel
    · have hrunnable : ∀ v c, s.threads v = some ⟨c, .runnable⟩ → v ≠ t := by
        rintro v c hv rfl
        cases ht.symm.trans hv
      have hut : u ≠ t := by
        rintro rfl
        cases ht.symm.trans hu
        obtain ⟨r, v, c, -, -, hlt⟩ := hnext rfl
        rw [hinv.table.owned.slot_inj hj hslot, distance_self] at hlt
        exact Nat.not_lt_zero _ hlt
      have hba : b ≠ a := by
        rintro rfl
        obtain ⟨q, -, hq, hqone, -⟩ := hinv.process_of_thread hu
        obtain rfl := Option.some.inj (hp.symm.trans hq)
        exact hut (List.singleton_injective (hqone.symm.trans hone))
      refine Or.inr ⟨j, u, b, state, hj, hut, hba, hu, hb, fun hz => ?_⟩
      obtain ⟨r, v, c, hr, hv, hlt⟩ := hnext hz
      have hne : ∀ m w, s.slot m = some w → w ≠ t → m ≠ i := by
        rintro m w hm hwt rfl
        exact hwt (Option.some.inj (hm.symm.trans hslot))
      rw [distance_next hi (hinv.slot_lt hr) (hne r v hr (hrunnable v c hv)),
        distance_next hi (hinv.slot_lt hj) (hne j u hj hut)] at hlt
      exact ⟨r, v, c, hr, hrunnable v c hv, hv, Nat.lt_of_succ_lt_succ hlt⟩
  constructor
  · rw [hspace]
    exact h.separate.erase a
  · exact fun j b hj => nomatch hj
  · rintro k hk
    cases hk
    rcases hheld with hkernel | ⟨j, u, b, state, hj, hut, hba, hu, hb, hnext⟩
    · exact Or.inl hkernel
    · refine Or.inr ⟨j, u, b, state, hslots j u hj hut, (Function.update_of_ne hut ..).trans hu, ?_, fun hz => ?_⟩
      · rw [hspace, Function.update_of_ne hba]
        exact hb
      · obtain ⟨r, v, c, hr, hvt, hv, hlt⟩ := hnext hz
        exact ⟨r, v, c, hslots r v hr hvt, (Function.update_of_ne hvt ..).trans hv, hlt⟩
  · intro r hr
    rcases List.mem_cons.mp hr with rfl | hr
    · intro he
      have hsame : s.space a = some s.loaded := (space_of hp).trans (congrArg some he)
      rcases hheld with hkernel | ⟨_, _, b, _, -, -, hba, -, hb, -⟩
      · exact h.separate.user a (hsame.trans (congrArg some hkernel))
      · exact hba (h.separate.inj b a _ hb hsame)
    · exact h.freed r hr

lemma Spaces.schedule (h : Spaces s) (hinv : Inv s) (hcpu : s.cpu = .loop i) (hs : schedulerBody i s = .ok s') :
    Spaces s' := by
  rcases schedulerBody_spec (i := i) hinv with
    ⟨hslot, he⟩ | ⟨t, a, p, l, hslot, ht, hp, hone, -, he⟩ | ⟨t, a, p, hslot, ht, hp, he⟩
  · obtain rfl := Except.ok.inj (he.symm.trans hs)
    exact h.skip hinv hcpu hslot
  · obtain rfl := Except.ok.inj (he.symm.trans hs)
    exact h.reap hinv hcpu hslot ht hp hone
  · obtain rfl := Except.ok.inj (he.symm.trans hs)
    refine ⟨h.separate, fun j b _ hb => ?_, fun k hk => (nomatch hk), h.freed⟩
    cases ht.symm.trans hb
    exact space_of hp

lemma Spaces.exit (h : Spaces s) (hinv : Inv s) (hcpu : s.cpu = .running i) {exitCode : ℤ}
    (hout : Outlived s (.exit exitCode)) (hs : sysExit i exitCode s = .ok s') : Spaces s' := by
  obtain ⟨hslot, a, ht⟩ := hinv.running i hcpu
  obtain ⟨p, -, hp, -⟩ := hinv.process_of_thread ht
  rw [sysExit, thread_of ht, ok_bind, process_of hp, ok_bind] at hs
  obtain rfl := Except.ok.inj hs
  obtain ⟨r, u, b, hr, hur, hu⟩ := hout
  have hri : r ≠ i := by
    rintro rfl
    exact hur (Option.some.inj (hr.symm.trans hslot))
  have hspace : Tasks.space (Objects.switchBack { s with
      threads := Function.update s.threads s.currentThread (some ⟨a, .zombie⟩)
      processes := Function.update s.processes a (some { p with exitCode := exitCode })
      exited := p.pid :: s.exited } i) = s.space := space_congr hp (q := { p with exitCode := exitCode }) rfl rfl
  refine ⟨?_, ?_, ?_, h.freed⟩
  · exact hspace ▸ h.separate
  · rintro j c ⟨⟩
  · rintro k hk
    cases hk
    refine Or.inr ⟨i, s.currentThread, a, .zombie, hslot, Function.update_self .., ?_, fun _ => ?_⟩
    · exact (congrFun hspace a).trans (h.running i a hcpu ht)
    · exact ⟨r, u, b, hr, (Function.update_of_ne hur ..).trans hu,
        distance_nextSlot_lt (hinv.slot_lt hslot) (hinv.slot_lt hr) hri⟩

lemma Spaces.registered (h : Spaces s) (hinv : Inv s) (ha : s.processes a = none) (ht : s.threads t = none) {root : ℕ}
    {L : IntrusiveLinkedList} {files : Fin 16 → Option FileCustody} (hkernel : root ≠ kernelRoot)
    (hfresh : ∀ b p, s.processes b = some p → p.addressSpace ≠ root) (hloop : ∀ k, s.cpu ≠ .loop k) :
    Spaces (s.registered a t root L files) := by
  have hspace : (s.registered a t root L files).space = Function.update s.space a (some root) :=
    space_update (p := ⟨s.nextAvailablePid, 0, root, files, L, [t]⟩) rfl
  constructor
  · rw [hspace]
    refine h.separate.update a hkernel fun b hb => ?_
    obtain ⟨q, hq, he⟩ := Option.map_eq_some_iff.mp hb
    exact hfresh b q hq he
  · intro j b hj hb
    obtain ⟨-, c, hc⟩ := hinv.running j hj
    have hne : s.currentThread ≠ t := by
      rintro rfl
      cases ht.symm.trans hc
    have hb' := h.running j b hj ((Function.update_of_ne hne ..).symm.trans hb)
    have hba : b ≠ a := by
      rintro rfl
      rw [space, ha] at hb'
      cases hb'
    rw [hspace, Function.update_of_ne hba]
    exact hb'
  · exact fun k hk => absurd hk (hloop k)
  · exact h.freed

lemma Spaces.execve (h : Spaces s) (hinv : Inv s) (hcpu : s.cpu = .running i) {env : ExecveEnv}
    {argv envp : List CString}
    {rc : ℤ} (hfresh : Objects.Fresh s none none env.addressSpace) (hs : sysExecve env argv envp s = .ok (rc, s')) :
    Spaces s' := by
  obtain ⟨-, a, ht⟩ := hinv.running i hcpu
  obtain ⟨p, -, hp, -⟩ := hinv.process_of_thread ht
  obtain ⟨newAs, hnew, hs'⟩ := sysExecve_cases ht hp hs
  obtain ⟨hkernel, hother⟩ := hfresh.root newAs hnew
  have hloaded : p.addressSpace = s.loaded := Option.some.inj ((space_of hp).symm.trans (h.running i a hcpu ht))
  have hnewp : p.addressSpace ≠ newAs := hother a p hp
  rcases hs' with rfl | rfl
  · refine ⟨h.separate, h.running, h.loop, fun r hr => ?_⟩
    rcases List.mem_cons.mp hr with rfl | hr
    · exact fun he => hnewp (hloaded.trans he.symm)
    · exact h.freed r hr
  · have hspace : Tasks.space { s with
        processes := Function.update s.processes a (some { p with addressSpace := newAs })
        loaded := newAs
        vmFreed := (p.addressSpace, newAs) :: s.vmFreed } = Function.update s.space a (some newAs) :=
      space_update (p := { p with addressSpace := newAs }) rfl
    constructor
    · rw [hspace]
      refine h.separate.update a hkernel fun b hb => ?_
      obtain ⟨q, hq, he⟩ := Option.map_eq_some_iff.mp hb
      exact hother b q hq he
    · intro j b _ hb
      cases ht.symm.trans hb
      rw [hspace, Function.update_self]
    · exact fun k hk => nomatch hcpu.symm.trans hk
    · intro r hr
      rcases List.mem_cons.mp hr with rfl | hr
      · exact hnewp
      · exact h.freed r hr

lemma Spaces.waitexit (h : Spaces s) (hinv : Inv s) (hcpu : s.cpu = .running i) {pid : ℤ} {rc : Option ℤ}
    (hwait : s.waits s.currentThread = none) (hs : sysWaitexit i pid s = .ok (rc, s')) : Spaces s' := by
  rcases sysWaitexit_spec (i := i) hinv pid with ⟨-, he⟩ | ⟨a, p, -, -, -, he⟩ | ⟨a, p, hp, -, -, he⟩
  · rw [← (Prod.mk.inj (Except.ok.inj (he.symm.trans hs))).2]
    exact h
  · rw [← (Prod.mk.inj (Except.ok.inj (he.symm.trans hs))).2]
    exact h
  · have hspace : (waiting s a p).space = s.space :=
      space_congr (q := { p with exitListeners := p.exitListeners.add s.currentThread }) hp rfl rfl
    have hwaiting : Spaces (waiting s a p) := by
      refine ⟨?_, ?_, fun k hk => (nomatch hcpu.symm.trans hk), h.freed⟩
      · rw [hspace]
        exact h.separate
      · rw [hspace]
        exact h.running
    rw [← (Prod.mk.inj (Except.ok.inj (he.symm.trans hs))).2]
    split
    · exact hwaiting.switchBack (hinv.waiting hcpu hwait hp) hcpu
    · exact ⟨hwaiting.separate, fun _ _ hj => (nomatch hj), fun _ hk => (nomatch hk), h.freed⟩

lemma spaces_initial : Spaces initial where
  separate := ⟨fun _ _ _ ha => (nomatch ha), fun _ ha => nomatch ha⟩
  running _ _ hi := nomatch hi
  loop _ hk := nomatch hk
  freed _ hr := absurd hr List.not_mem_nil

lemma Spaces.boot (h : Spaces s) (hinv : Inv s) (hcpu : s.cpu = .boot) {env : AllocEnv}
    {log : Fin 3 → Except ℤ FileCustody} (hfresh : env.Fresh s) (hg : env.Granted)
    (hs : createFirstProcess env log s = .ok s') : Spaces s' := by
  obtain ⟨a, t, root, L, files, hroot, -, -, rfl⟩ := createFirstProcess_granted hg hs
  obtain ⟨hkernel, hother⟩ := hfresh.root root hroot
  obtain rfl := hinv.booting hcpu
  have hreg : Spaces (initial.registered a t root L files) :=
    h.registered hinv rfl rfl hkernel hother fun k hk => nomatch hk
  exact ⟨hreg.separate, fun _ _ hj => (nomatch hj), fun _ _ => Or.inl rfl, hreg.freed⟩

end Steps

lemma spaces_inductive :
    (tasks.restrict fun s act => Granted s act ∧ Outlived s act).Inductive fun s => Inv s ∧ Spaces s := by
  constructor
  · rintro s rfl
    exact ⟨inv_initial, spaces_initial⟩
  · rintro s act s' ⟨hinv, h⟩ ⟨hs, hg, hout⟩
    refine ⟨tasks_inductive.2 s act s' hinv ⟨hs, hg⟩, ?_⟩
    cases hs with
    | boot hcpu hfresh hs => exact h.boot hinv hcpu hfresh hg hs
    | schedule hcpu hs => exact h.schedule hinv hcpu hs
    | yield hcpu _ => exact h.switchBack hinv hcpu
    | exit hcpu _ hs => exact h.exit hinv hcpu hout hs
    | fork hrun _ hfresh hs =>
      obtain ⟨i, hcpu⟩ := hrun
      obtain ⟨a, L, t, root, files, ha, -, ht, hroot, he⟩ := sysFork_granted hinv hg hcpu
      rw [he] at hs
      split at hs
      · obtain rfl := (Prod.mk.inj (Except.ok.inj hs)).2
        obtain ⟨hkernel, hother⟩ := hfresh.root root hroot
        exact h.registered hinv (hfresh.process a (by rw [ha]; rfl)) (hfresh.thread t (by rw [ht]; rfl)) hkernel hother
          fun k hk => nomatch hcpu.symm.trans hk
      · cases hs
    | execve hrun _ hfresh hs => exact h.execve hinv hrun.choose_spec hfresh hs
    | waitexit hcpu hwait hs => exact h.waitexit hinv hcpu hwait hs
    | spin hcpu => exact h.switchBack hinv hcpu
    | woken hcpu => exact ⟨h.separate, h.running, h.loop, h.freed⟩

section Example

def nineEnv : ExecveEnv := ⟨⟨true, fun _ => true⟩, ⟨true, fun _ => true⟩, some 9, .ok (.ok 0), true, .ok ()⟩

def replaced : Tasks :=
  { started none with
    processes := Function.update (started none).processes 1
      (some ⟨0, 0, 9, standardFiles 0 0 0, ⟨none, none, fun _ => none, fun _ => none⟩, [2]⟩)
    loaded := 9
    vmFreed := [(3, 9)] }

lemma replaced_step : Step (started none) (.execve nineEnv [] []) replaced := by
  have hexecve : sysExecve nineEnv [] [] (started none) = .ok (0, replaced) := rfl
  refine .execve ⟨0, rfl⟩ rfl ⟨by simp, by simp, ?_⟩ hexecve
  simp only [nineEnv, Option.mem_def, Option.some.injEq, forall_eq']
  refine ⟨by decide, fun a p hp => ?_⟩
  by_cases ha : a = 1
  · subst ha
    obtain rfl := Option.some.inj hp
    decide
  · simp [started, booted, Tasks.registered, initial, ha] at hp

def abandoned : Tasks := { finished none with cpu := .loop 0 }

lemma abandoned_body : ∃ s, schedulerBody 0 abandoned = .ok s ∧ s.vmFreed = [(3, 3)] := by
  let p : Process := ⟨0, 0, 3, standardFiles 0 0 0, ⟨none, none, fun _ => none, fun _ => none⟩, [2]⟩
  have hfree : freeThread maxNesting 2 abandoned = .ok (abandoned.reaped 2 1 p []) :=
    freeThread_single rfl rfl rfl (listeners_nil rfl) (by simp) (by decide)
  have hslot : abandoned.slot 0 = some 2 := rfl
  have ht : abandoned.threads 2 = some ⟨1, .zombie⟩ := rfl
  rw [schedulerBody, hslot]
  dsimp only
  rw [thread_of ht, ok_bind]
  dsimp only
  rw [hfree, ok_bind]
  exact ⟨_, rfl, rfl⟩

end Example

end Pi0Os.Task.Objects
