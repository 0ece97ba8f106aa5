import Pi0Os.Library.SlotOwnership
import Pi0Os.Library.TransitionSystem
import Pi0Os.Task.FileDescriptors
import Pi0Os.Task.UserMode

/-! Runs of the system calls on file descriptors, and who owns the custodies. -/

namespace Pi0Os.Task

open Kernel Library

structure FileTrap where
  process : ℕ
  thread : ℕ
  call : FileCall

/-- The first process starts with three custodies of the kernel log. -/
def fileTables : TransitionSystem FileTables FileTrap where
  Init s := ∃ env, ∃ log : Fin 3 → Vfs.FileCustody, ∃ entrypoint,
    createFirstProcess env (fun i => .ok i) .initial entrypoint = .ok s.sched ∧
    (∀ a, s.custodies a = if h : a < 3 then some (log ⟨a, h⟩) else none) ∧ s.nextCustody = 3
  Step s trap s' := ∃ rc p t, s.sched.processes[trap.process]? = some p ∧ p.threads[trap.thread]? = some t ∧
    fileCall s trap.process p t trap.call = .ok (rc, s')

structure AllocEnv.Succeeds (env : AllocEnv) : Prop where
  process : ∃ mem, env.process = some mem ∧ mem.length = 64
  threadsArray : env.threadsArray
  thread : env.thread
  workingDirectory : env.workingDirectory
  addressSpace : env.addressSpace.isSome
  kernelStack : env.kernelStack.isSome
  userStackPages : env.userStackPages

/-- The arguments of `sys$dup2` and `sys$movefd` pass the checks. -/
structure Accepted (s : FileTables) (i : ℕ) (fd newFd : ℤ) (k k' : Fin 16) : Prop where
  fd : descriptor fd = some k
  newFd : descriptor newFd = some k'
  file : (s.slot (i, k)).isSome

/-- The descriptors that a call accepts are distinct, and no allocation of `sys$dup2` and
`sys$fork` fails. -/
def FileCallSafe (s : FileTables) (trap : FileTrap) : Prop :=
  match trap.call with
  | .movefd fd newFd => ∀ k k', Accepted s trap.process fd newFd k k' → k ≠ k'
  | .dup2 fd newFd mem => ∀ k k', Accepted s trap.process fd newFd k k' → k ≠ k' ∧ mem
  | .fork env => env.alloc.Succeeds ∧ env.workingDirectory ∧ env.vmFork ∧
    ∀ k, (s.slot (trap.process, k)).isSome → env.duplicateMem k
  | _ => True

/-- A name that fits into a `Process`, with its terminator. -/
def Terminated (name : Buffer) : Prop :=
  ∃ (str : CString) (rest : Buffer), name = str ++ Byte.nul :: rest ∧ Byte.nul ∉ str ∧ str.length < 64

/-- The inode that is open at a descriptor. -/
def FileTables.inodeAt (s : FileTables) (k : ℕ × Fin 16) : Option ℕ :=
  ((s.slot k).bind s.custodies).map fun c => c.inode

structure FileInv (s : FileTables) : Prop where
  owned : Owned s.slot s.custodies
  fresh : ∀ a, s.nextCustody ≤ a → s.custodies a = none
  names : ∀ p ∈ s.sched.processes, Terminated p.name

section Tables

variable {s s' : FileTables} {i a : ℕ} {k k' : ℕ × Fin 16}

lemma slot_setFile (hk : k.1 < s.sched.processes.length) (file : Option FileCustody) :
    (s.setFile k file).slot = Function.update s.slot k file := by
  funext j
  obtain ⟨j, fd⟩ := j
  rw [FileTables.slot, FileTables.setFile]
  dsimp only
  rw [List.getElem?_modify]
  by_cases hj : k.1 = j
  · subst hj
    rw [List.getElem?_eq_getElem hk]
    by_cases hfd : fd = k.2
    · subst hfd
      simp
    · have hne : (k.1, fd) ≠ k := fun h => hfd (congrArg Prod.snd h)
      rw [Function.update_of_ne hne, FileTables.slot, List.getElem?_eq_getElem hk]
      simp [Function.update_of_ne hfd]
  · have hne : (j, fd) ≠ k := fun h => hj (congrArg Prod.fst h).symm
    rw [Function.update_of_ne hne, FileTables.slot]
    simp [hj]

lemma length_setFile (file : Option FileCustody) :
    (s.setFile k file).sched.processes.length = s.sched.processes.length := List.length_modify ..

lemma setFile_setFile (file file' : Option FileCustody) : (s.setFile k file).setFile k file' = s.setFile k file' := by
  simp only [FileTables.setFile, List.modify_modify_eq, Function.comp_def, Function.update_idem]

lemma slot_none_of_le (h : s.sched.processes.length ≤ i) (fd : Fin 16) : s.slot (i, fd) = none := by
  rw [FileTables.slot, List.getElem?_eq_none h]
  rfl

lemma lt_of_slot (h : s.slot k = some a) : k.1 < s.sched.processes.length := by
  by_contra hle
  have hn := slot_none_of_le (i := k.1) (Nat.not_lt.mp hle) k.2
  rw [h] at hn
  cases hn

lemma names_setFile (h : ∀ p ∈ s.sched.processes, Terminated p.name) (file : Option FileCustody) :
    ∀ p ∈ (s.setFile k file).sched.processes, Terminated p.name := by
  intro p hp
  obtain ⟨j, hj, rfl⟩ := List.mem_iff_getElem.mp hp
  rw [length_setFile] at hj
  simp only [FileTables.setFile, List.getElem_modify]
  split
  · exact h s.sched.processes[j] (List.getElem_mem hj)
  · exact h s.sched.processes[j] (List.getElem_mem hj)

@[simp] lemma allocCustody_self (c : Vfs.FileCustody) : (s.allocCustody c).custodies s.nextCustody = some c :=
  Function.update_self ..

lemma allocCustody_of_ne (ha : a ≠ s.nextCustody) (c : Vfs.FileCustody) :
    (s.allocCustody c).custodies a = s.custodies a := Function.update_of_ne ha ..

lemma allocCustody_fresh (h : ∀ a, s.nextCustody ≤ a → s.custodies a = none) (c : Vfs.FileCustody) :
    ∀ a, (s.allocCustody c).nextCustody ≤ a → (s.allocCustody c).custodies a = none := by
  intro a ha
  have hlt : s.nextCustody < a := ha
  rw [allocCustody_of_ne hlt.ne']
  exact h a hlt.le

lemma allocCustody_isSome (h : (s.custodies a).isSome) (c : Vfs.FileCustody) :
    ((s.allocCustody c).custodies a).isSome := by
  by_cases ha : a = s.nextCustody
  · subst ha
    rw [allocCustody_self]
    rfl
  · rwa [allocCustody_of_ne ha]

lemma vfsClose_live {c : Vfs.FileCustody} (h : s.custodies a = some c) :
    vfsClose s (some a) = .ok { s with custodies := Function.update s.custodies a none } := by
  rw [vfsClose, h]

lemma vfsDuplicate_live {c : Vfs.FileCustody} (h : s.custodies a = some c) :
    vfsDuplicate s true (some a) = .ok (some s.nextCustody, s.allocCustody c) := by
  simp only [vfsDuplicate, h, not_true_eq_false, if_false]

lemma FileInv.custody (h : FileInv s) (hk : s.slot k = some a) : ∃ c, s.custodies a = some c :=
  Option.isSome_iff_exists.mp (h.owned.filled k a hk)

lemma FileInv.close (h : FileInv s) (hk : s.slot k = some a) :
    FileInv (({ s with custodies := Function.update s.custodies a none } : FileTables).setFile k none) := by
  have hlt := lt_of_slot hk
  refine ⟨?_, ?_, names_setFile (s := s) h.names none⟩
  · rw [slot_setFile (s := { s with custodies := Function.update s.custodies a none }) hlt]
    exact h.owned.release hk
  · intro b hb
    change Function.update s.custodies a none b = none
    by_cases hba : b = a
    · subst hba
      rw [Function.update_self]
    · rw [Function.update_of_ne hba]
      exact h.fresh b hb

lemma FileInv.opened (h : FileInv s) (hlt : k.1 < s.sched.processes.length) (hk : s.slot k = none)
    (c : Vfs.FileCustody) : FileInv ((s.allocCustody c).setFile k (some s.nextCustody)) := by
  refine ⟨?_, ?_, names_setFile (s := s) h.names _⟩
  · rw [slot_setFile (s := s.allocCustody c) hlt]
    exact h.owned.acquire hk (h.fresh _ le_rfl) c
  · exact allocCustody_fresh h.fresh c

lemma firstFree_some {fd : Fin 16} (h : firstFree s i = some fd) : s.slot (i, fd) = none := by
  have hf := List.find?_some h
  exact Option.isNone_iff_eq_none.mp hf

lemma FileInv.move (h : FileInv s) (hk : s.slot k = some a) (hk' : s.slot k' = none)
    (hlt : k'.1 < s.sched.processes.length) :
    FileInv ((s.setFile k' (some a)).setFile k none) := by
  have hlt' : k.1 < (s.setFile k' (some a)).sched.processes.length := by
    rw [length_setFile]
    exact lt_of_slot hk
  refine ⟨?_, h.fresh, names_setFile (names_setFile h.names _) _⟩
  rw [slot_setFile hlt', slot_setFile hlt]
  exact h.owned.move hk hk'

end Tables

/-- What holds of a call, whatever it returns: it uses no null and no freed custody, it keeps the
invariant, and a negative code leaves the tables as they were. -/
structure Outcome (s : FileTables) (r : Except Panic (ℤ × FileTables)) : Prop where
  defined : ∀ what, r ≠ .error (.undefined what)
  inv : ∀ rc s', r = .ok (rc, s') → FileInv s'
  failed : ∀ rc s', r = .ok (rc, s') → rc < 0 → s'.slot = s.slot

section Calls

variable {s s' : FileTables} {i : ℕ}

lemma Outcome.ok {rc : ℤ} (h : FileInv s') (hslot : rc < 0 → s'.slot = s.slot) : Outcome s (.ok (rc, s')) where
  defined what hr := by cases hr
  inv rc s' hr := by
    cases hr
    exact h
  failed rc s' hr := by
    cases hr
    exact hslot

lemma sysOpen_outcome (h : FileInv s) (hi : i < s.sched.processes.length)
    (vfsOpen : CString → CString → ℤ → Except ℤ Vfs.FileCustody) (p : Process) (path : CString) (flags : ℤ) :
    Outcome s (.ok (sysOpen s i vfsOpen p path flags)) := by
  rw [sysOpen]
  cases hfree : firstFree s i with
  | none => exact .ok h fun _ => rfl
  | some fd =>
    dsimp only
    cases vfsOpen p.workingDirectory path flags with
    | error rc => exact .ok h fun _ => rfl
    | ok c => exact .ok (h.opened hi (firstFree_some hfree) c) fun hneg => absurd hneg (by omega)

lemma sysClose_outcome (h : FileInv s) (fd : ℤ) : Outcome s (sysClose s i fd) := by
  rw [sysClose]
  cases descriptor fd with
  | none => exact .ok h fun _ => rfl
  | some fd =>
    dsimp only
    cases hfile : s.slot (i, fd) with
    | none => exact .ok h fun _ => rfl
    | some a =>
      obtain ⟨c, hc⟩ := h.custody hfile
      dsimp only
      rw [vfsClose_live hc]
      exact .ok (h.close hfile) fun hneg => absurd hneg (lt_irrefl 0)

lemma FileInv.vacate (h : FileInv s) {k k' : ℕ × Fin 16} {a : ℕ} (hk : s.slot k = some a) (hne : k ≠ k')
    (hlt : k'.1 < s.sched.processes.length) :
    ∃ custodies, vfsClose s (s.slot k') = .ok { s with custodies := custodies } ∧
      FileInv (({ s with custodies := custodies } : FileTables).setFile k' none) ∧
      custodies a = s.custodies a ∧
      (({ s with custodies := custodies } : FileTables).setFile k' none).slot =
        Function.update s.slot k' none := by
  cases hk' : s.slot k' with
  | none =>
    have hslot : (s.setFile k' none).slot = s.slot := by
      rw [slot_setFile hlt, ← hk', Function.update_eq_self]
    refine ⟨s.custodies, rfl, ⟨?_, h.fresh, names_setFile h.names none⟩, rfl, ?_⟩
    · exact hslot ▸ h.owned
    · exact slot_setFile hlt none
  | some b =>
    obtain ⟨c, hc⟩ := h.custody hk'
    refine ⟨_, vfsClose_live hc, h.close hk', ?_, slot_setFile (s := { s with custodies := _ }) hlt none⟩
    refine Function.update_of_ne ?_ ..
    rintro rfl
    exact hne (h.owned.slot_inj hk hk')

lemma FileInv.inodeAt (h : FileInv s) {k : ℕ × Fin 16} (hk : (s.slot k).isSome) : (s.inodeAt k).isSome := by
  obtain ⟨a, ha⟩ := Option.isSome_iff_exists.mp hk
  obtain ⟨c, hc⟩ := h.custody ha
  rw [FileTables.inodeAt, ha, Option.bind_some, hc]
  rfl

lemma sysMovefd_accepted (h : FileInv s) (hi : i < s.sched.processes.length) {fd newFd : ℤ} {k k' : Fin 16}
    (hacc : Accepted s i fd newFd k k') (hne : k ≠ k') :
    ∃ s', sysMovefd s i fd newFd = .ok (0, s') ∧ FileInv s' ∧ s'.inodeAt (i, k') = s.inodeAt (i, k) := by
  obtain ⟨a, ha⟩ := Option.isSome_iff_exists.mp hacc.file
  have hne' : (i, k) ≠ (i, k') := fun he => hne (congrArg Prod.snd he)
  obtain ⟨custodies, hclose, h₁, hlive, hslot⟩ := h.vacate ha hne' hi
  have hk : (({ s with custodies := custodies } : FileTables).setFile (i, k') none).slot (i, k) = some a := by
    rw [hslot, Function.update_of_ne hne', ha]
  have hk' : (({ s with custodies := custodies } : FileTables).setFile (i, k') none).slot (i, k') = none := by
    rw [hslot, Function.update_self]
  have h₂ := h₁.move hk hk' (by rw [length_setFile]; exact hi)
  rw [setFile_setFile] at h₂
  refine ⟨_, ?_, h₂, ?_⟩
  · simp only [sysMovefd, hacc.fd, hacc.newFd, ha, hclose, ok_bind, pure_eq_ok]
  · rw [FileTables.inodeAt, FileTables.inodeAt, slot_setFile (by rw [length_setFile]; exact hi),
      Function.update_of_ne hne'.symm, slot_setFile hi, Function.update_self, ha]
    exact congrArg (Option.map _) hlive

lemma descriptor_val {fd : ℤ} {k : Fin 16} (h : descriptor fd = some k) : (k : ℤ) = fd := by
  rw [descriptor] at h
  split at h
  · cases h
    rename_i hfd
    exact Int.toNat_of_nonneg hfd.1
  · cases h

lemma sysMovefd_rejected {fd newFd : ℤ} (h : ∀ k k', ¬ Accepted s i fd newFd k k') :
    sysMovefd s i fd newFd = .ok (-Err.badF, s) := by
  rw [sysMovefd]
  cases hfd : descriptor fd with
  | none => rfl
  | some k =>
    dsimp only
    cases hfile : s.slot (i, k) with
    | none => rfl
    | some a =>
      cases hnew : descriptor newFd with
      | none => rfl
      | some k' => exact absurd ⟨hfd, hnew, hfile ▸ rfl⟩ (h k k')

lemma sysDup2_rejected {fd newFd : ℤ} (mem : Bool) (h : ∀ k k', ¬ Accepted s i fd newFd k k') :
    sysDup2 s i fd newFd mem = .ok (-Err.badF, s) := by
  rw [sysDup2]
  cases hfd : descriptor fd with
  | none => rfl
  | some k =>
    dsimp only
    cases hfile : s.slot (i, k) with
    | none => rfl
    | some a =>
      cases hnew : descriptor newFd with
      | none => rfl
      | some k' => exact absurd ⟨hfd, hnew, hfile ▸ rfl⟩ (h k k')

lemma sysDup2_accepted (h : FileInv s) (hi : i < s.sched.processes.length) {fd newFd : ℤ} {k k' : Fin 16}
    (hacc : Accepted s i fd newFd k k') (hne : k ≠ k') :
    ∃ s', sysDup2 s i fd newFd true = .ok (0, s') ∧ FileInv s' ∧ s'.inodeAt (i, k') = s.inodeAt (i, k) := by
  obtain ⟨a, ha⟩ := Option.isSome_iff_exists.mp hacc.file
  obtain ⟨c, hc⟩ := h.custody ha
  have hne' : (i, k) ≠ (i, k') := fun he => hne (congrArg Prod.snd he)
  obtain ⟨custodies, hclose, h₁, hlive, hslot⟩ := h.vacate ha hne' hi
  have hlen : i < (({ s with custodies := custodies } : FileTables).setFile (i, k') none).sched.processes.length := by
    rw [length_setFile]
    exact hi
  have hlive₁ : (({ s with custodies := custodies } : FileTables).setFile (i, k') none).custodies a = some c :=
    hlive.trans hc
  generalize hs₁ : ({ s with custodies := custodies } : FileTables).setFile (i, k') none = s₁ at h₁ hslot hlen hlive₁
  have hk : s₁.slot (i, k) = some a := by rw [hslot, Function.update_of_ne hne', ha]
  have hk' : s₁.slot (i, k') = none := by rw [hslot, Function.update_self]
  refine ⟨_, ?_, h₁.opened hlen hk' c, ?_⟩
  · simp only [sysDup2, hacc.fd, hacc.newFd, ha, hclose, ok_bind]
    rw [hs₁, hk, vfsDuplicate_live hlive₁]
    rfl
  · rw [FileTables.inodeAt, FileTables.inodeAt, slot_setFile (s := s₁.allocCustody c) hlen, Function.update_self, ha,
      Option.bind_some, Option.bind_some, hc]
    have hself : (s₁.allocCustody c).custodies s₁.nextCustody = some c := Function.update_self ..
    exact congrArg (Option.map _) hself

/-- The target of a successful `sys$dup2` or `sys$movefd` is open on the inode that the source was. -/
def TargetOpen (s : FileTables) (i : ℕ) (fd newFd : ℤ) (s' : FileTables) : Prop :=
  ∃ k k' : Fin 16, (k : ℤ) = fd ∧ (k' : ℤ) = newFd ∧ (s'.inodeAt (i, k')).isSome ∧
    s'.inodeAt (i, k') = s.inodeAt (i, k)

lemma replace_spec (h : FileInv s) {fd newFd : ℤ} {r : Except Panic (ℤ × FileTables)}
    (haccepted : ∀ k k', Accepted s i fd newFd k k' →
      ∃ s', r = .ok (0, s') ∧ FileInv s' ∧ s'.inodeAt (i, k') = s.inodeAt (i, k))
    (hrejected : (∀ k k', ¬ Accepted s i fd newFd k k') → r = .ok (-Err.badF, s)) :
    Outcome s r ∧ ∀ s', r = .ok (0, s') → TargetOpen s i fd newFd s' := by
  by_cases hacc : ∃ k k', Accepted s i fd newFd k k'
  · obtain ⟨k, k', hacc⟩ := hacc
    obtain ⟨s', rfl, hs', hinode⟩ := haccepted k k' hacc
    refine ⟨.ok hs' fun hneg => absurd hneg (lt_irrefl 0), ?_⟩
    rintro s'' ⟨⟩
    exact ⟨k, k', descriptor_val hacc.fd, descriptor_val hacc.newFd, hinode ▸ h.inodeAt hacc.file, hinode⟩
  · rw [hrejected fun k k' hk => hacc ⟨k, k', hk⟩]
    exact ⟨.ok h fun _ => rfl, fun s' hs' => by cases hs'⟩

lemma sysMovefd_spec (h : FileInv s) (hi : i < s.sched.processes.length) {fd newFd : ℤ}
    (hsafe : ∀ k k', Accepted s i fd newFd k k' → k ≠ k') : Outcome s (sysMovefd s i fd newFd) ∧
      ∀ s', sysMovefd s i fd newFd = .ok (0, s') → TargetOpen s i fd newFd s' :=
  replace_spec h (fun k k' hacc => sysMovefd_accepted h hi hacc (hsafe k k' hacc)) sysMovefd_rejected

lemma sysDup2_spec (h : FileInv s) (hi : i < s.sched.processes.length) {fd newFd : ℤ} {mem : Bool}
    (hsafe : ∀ k k', Accepted s i fd newFd k k' → k ≠ k' ∧ mem) : Outcome s (sysDup2 s i fd newFd mem) ∧
      ∀ s', sysDup2 s i fd newFd mem = .ok (0, s') → TargetOpen s i fd newFd s' := by
  refine replace_spec h (fun k k' hacc => ?_) (sysDup2_rejected mem)
  obtain ⟨hne, rfl⟩ := hsafe k k' hacc
  exact sysDup2_accepted h hi hacc hne

/-- Two new custodies at the addresses `n` and `n + 1`. -/
def withEnds (custodies : ℕ → Option Vfs.FileCustody) (n : ℕ) (c c' : Vfs.FileCustody) : ℕ → Option Vfs.FileCustody :=
  Function.update (Function.update custodies (n + 1) (some c')) n (some c)

lemma withEnds_fresh {custodies : ℕ → Option Vfs.FileCustody} {n : ℕ} (hfresh : ∀ a, n ≤ a → custodies a = none)
    (c c' : Vfs.FileCustody) (a : ℕ) (ha : n + 2 ≤ a) : withEnds custodies n c c' a = none := by
  rw [withEnds, Function.update_of_ne (by omega), Function.update_of_ne (by omega)]
  exact hfresh a (by omega)

lemma withEnds_alloc (s : FileTables) (c : Vfs.FileCustody) :
    ((((s.allocCustody c).allocCustody c).setFlags s.nextCustody Vfs.ofWronly).setFlags
      (s.nextCustody + 1) Vfs.ofRdonly).custodies =
      withEnds s.custodies s.nextCustody { c with flags := Vfs.ofWronly } { c with flags := Vfs.ofRdonly } := by
  funext a
  simp only [FileTables.setFlags, FileTables.allocCustody, withEnds]
  by_cases ha : a = s.nextCustody
  · subst ha
    simp
  · by_cases ha' : a = s.nextCustody + 1
    · subst ha'
      simp
    · simp [ha, ha']

lemma vfsCreatePipe_spec (h : FileInv s) (opened : Except ℤ Vfs.FileCustody) (mem : Bool) :
    (∃ rc s', vfsCreatePipe s opened mem = .ok (.error rc, s') ∧ FileInv s' ∧ s'.slot = s.slot) ∨
    ∃ c c', vfsCreatePipe s opened mem = .ok (.ok (s.nextCustody, s.nextCustody + 1),
      ⟨s.sched, withEnds s.custodies s.nextCustody c c', s.nextCustody + 2⟩) := by
  cases opened with
  | error rc => exact Or.inl ⟨rc, s, rfl, h, rfl⟩
  | ok c =>
    have hself : (s.allocCustody c).custodies s.nextCustody = some c := Function.update_self ..
    cases mem with
    | false =>
      have hclose := vfsClose_live hself
      have hback : Function.update (s.allocCustody c).custodies s.nextCustody none = s.custodies := by
        rw [FileTables.allocCustody, Function.update_idem, ← h.fresh s.nextCustody le_rfl, Function.update_eq_self]
      rw [hback] at hclose
      refine Or.inl ⟨-Err.noMem, { s.allocCustody c with custodies := s.custodies }, ?_,
        ⟨h.owned, fun a ha => h.fresh a (Nat.le_of_succ_le ha), h.names⟩, rfl⟩
      simp only [vfsCreatePipe, vfsDuplicate, Bool.false_eq_true, not_false_eq_true, if_true, ok_bind, hclose,
        pure_eq_ok]
    | true =>
      refine Or.inr ⟨{ c with flags := Vfs.ofWronly }, { c with flags := Vfs.ofRdonly }, ?_⟩
      simp only [vfsCreatePipe, vfsDuplicate_live hself, ok_bind, pure_eq_ok, ← withEnds_alloc s c]
      rfl

lemma closeEnds {s₂ : FileTables} {custodies : ℕ → Option Vfs.FileCustody} {n : ℕ} {c c' : Vfs.FileCustody}
    (hfresh : ∀ a, n ≤ a → custodies a = none) (hends : s₂.custodies = withEnds custodies n c c') :
    ∃ s₃, vfsClose s₂ (some (n + 1)) = .ok s₃ ∧ s₃.custodies n = some c ∧
      vfsClose s₃ (some n) = .ok { s₂ with custodies := custodies } := by
  have hreceiver : s₂.custodies (n + 1) = some c' := by
    rw [hends, withEnds, Function.update_of_ne (by omega), Function.update_self]
  have hsender : Function.update s₂.custodies (n + 1) none n = some c := by
    rw [hends, withEnds, Function.update_of_ne (by omega), Function.update_self]
  refine ⟨_, vfsClose_live hreceiver, hsender, ?_⟩
  rw [vfsClose_live (s := { s₂ with custodies := _ }) hsender]
  have hback : Function.update (Function.update s₂.custodies (n + 1) none) n none = custodies := by
    funext a
    rw [hends, withEnds]
    by_cases ha : a = n
    · subst ha
      rw [Function.update_self, hfresh a le_rfl]
    · by_cases ha' : a = n + 1
      · subst ha'
        rw [Function.update_of_ne ha, Function.update_self, hfresh (n + 1) (by omega)]
      · simp only [Function.update_of_ne ha, Function.update_of_ne ha']
  simp only [hback]

lemma sysCreatePipe_outcome (h : FileInv s) (hi : i < s.sched.processes.length)
    (opened : Except ℤ Vfs.FileCustody) (mem : Bool) :
    Outcome s (do let (rc, _, s) ← sysCreatePipe s i opened mem; return (rc, s)) := by
  rcases vfsCreatePipe_spec h opened mem with ⟨rc, s', hp, hinv, hslot⟩ | ⟨c, c', hp⟩
  · simp only [sysCreatePipe, hp, ok_bind, pure_eq_ok]
    exact .ok hinv fun _ => hslot
  · have hback : FileInv ⟨s.sched, s.custodies, s.nextCustody + 2⟩ :=
      ⟨h.owned, fun a ha => h.fresh a (le_trans (Nat.le_add_right _ 2) ha), h.names⟩
    simp only [sysCreatePipe, hp, ok_bind]
    generalize hs₁ : (⟨s.sched, withEnds s.custodies s.nextCustody c c', s.nextCustody + 2⟩ : FileTables) = s₁
    have hslot₁ : s₁.slot = s.slot := by rw [← hs₁]; rfl
    have hi₁ : i < s₁.sched.processes.length := by rw [← hs₁]; exact hi
    cases hread : firstFree s₁ i with
    | none =>
      obtain ⟨s₃, hc, -, hc'⟩ := closeEnds h.fresh (show s₁.custodies = _ by rw [← hs₁])
      simp only [hc, hc', ok_bind, pure_eq_ok]
      rw [← hs₁]
      exact .ok hback fun _ => rfl
    | some readFd =>
      have hr : s.slot (i, readFd) = none := hslot₁ ▸ firstFree_some hread
      dsimp only
      generalize hs₂ : s₁.setFile (i, readFd) (some (s.nextCustody + 1)) = s₂
      have hslot₂ : s₂.slot = Function.update s.slot (i, readFd) (some (s.nextCustody + 1)) := by
        rw [← hs₂, slot_setFile hi₁, hslot₁]
      have hcust₂ : s₂.custodies = withEnds s.custodies s.nextCustody c c' := by rw [← hs₂, ← hs₁]; rfl
      have hi₂ : i < s₂.sched.processes.length := by rw [← hs₂, length_setFile]; exact hi₁
      cases hwrite : firstFree s₂ i with
      | none =>
        obtain ⟨s₃, hc, -, hc'⟩ := closeEnds h.fresh hcust₂
        have hempty : FileTables.setFile { s₂ with custodies := s.custodies } (i, readFd) none =
            (⟨s.sched, s.custodies, s.nextCustody + 2⟩ : FileTables).setFile (i, readFd) none := by
          rw [← hs₂, ← hs₁]
          exact setFile_setFile (s := ⟨s.sched, s.custodies, s.nextCustody + 2⟩) _ none
        have hslot : FileTables.slot (FileTables.setFile ⟨s.sched, s.custodies, s.nextCustody + 2⟩ (i, readFd) none) =
            s.slot := by
          rw [slot_setFile hi, ← hr]
          exact Function.update_eq_self ..
        simp only [hc, hc', ok_bind, pure_eq_ok]
        rw [hempty]
        refine .ok ⟨?_, hback.fresh, names_setFile hback.names none⟩ fun _ => hslot
        rw [hslot]
        exact h.owned
      | some writeFd =>
        have hw : s₂.slot (i, writeFd) = none := firstFree_some hwrite
        rw [hslot₂] at hw
        refine .ok ⟨?_, ?_, ?_⟩ fun hneg => absurd hneg (lt_irrefl 0)
        · rw [slot_setFile hi₂, hslot₂]
          change Owned _ s₂.custodies
          rw [hcust₂]
          refine (h.owned.acquire hr (h.fresh _ (Nat.le_succ _)) c').acquire hw ?_ c
          exact (Function.update_of_ne (Nat.ne_of_lt (Nat.lt_succ_self _)) ..).trans (h.fresh _ le_rfl)
        · intro a ha
          have hnext : s₂.nextCustody = s.nextCustody + 2 := by rw [← hs₂, ← hs₁]; rfl
          change s₂.custodies a = none
          rw [hcust₂]
          exact withEnds_fresh h.fresh c c' a (hnext ▸ ha)
        · refine names_setFile ?_ _
          rw [← hs₂, ← hs₁]
          exact names_setFile h.names _

end Calls

section Fork

variable {s s' : FileTables} {sched : Scheduler}

lemma strcpy_eq (mem : Buffer) {str : CString} (hnul : Byte.nul ∉ str) (rest : Buffer) :
    strcpy mem (str ++ Byte.nul :: rest) =
      if str.length + 1 ≤ mem.length then .ok (str ++ Byte.nul :: mem.drop (str.length + 1))
      else .error (.undefined "memcpy outside the block") := by
  have htake : (str ++ Byte.nul :: rest).take (str.length + 1) = str ++ [Byte.nul] := by
    rw [List.take_append, List.take_of_length_le (Nat.le_succ _), Nat.add_sub_cancel_left]
    rfl
  rw [strcpy, Buffer.strlen_append hnul, ok_bind, htake, Buffer.memcpy, zero_add, List.length_append,
    List.length_singleton, List.take_zero, List.nil_append, List.append_assoc]
  rfl

lemma strcpy_terminated {mem name : Buffer} (hmem : mem.length = 64) (hname : Terminated name) :
    ∃ name', strcpy mem name = .ok name' ∧ Terminated name' := by
  obtain ⟨str, rest, rfl, hnul, hlen⟩ := hname
  exact ⟨_, (strcpy_eq mem hnul rest).trans (if_pos (by omega)), str, _, rfl, hnul, hlen⟩

lemma allocProcess_succeeds {env : AllocEnv} (henv : env.Succeeds) (sched : Scheduler) {name : Buffer}
    (hname : Terminated name) : ∃ p, allocProcess env sched name 0 false =
      .ok (some p, { sched with nextAvailablePid := sched.nextAvailablePid + 1 }) ∧ Terminated p.name := by
  obtain ⟨process, threadsArray, thread, workingDirectory, addressSpace, kernelStack, pages⟩ := env
  obtain ⟨⟨mem, hmem, hlen⟩, htarr, hthread, hwd, has, hks, hpages⟩ := henv
  dsimp only at hmem htarr hthread hwd has hks hpages
  obtain ⟨as, rfl⟩ := Option.isSome_iff_exists.mp has
  obtain ⟨ks, rfl⟩ := Option.isSome_iff_exists.mp hks
  subst hmem htarr hthread hwd hpages
  obtain ⟨name', hcpy, hname'⟩ := strcpy_terminated hlen hname
  refine ⟨⟨1, sched.nextAvailablePid, 0, name', as, fun _ => none, [Byte.slash],
    [⟨0, archCreateInitialKernelStack ks (sub32 (userStackStart 0) 8) 0 false, .suspended, none⟩]⟩, ?_, hname'⟩
  simp only [allocProcess, hcpy]
  rfl

/-- A row of the table of slots. -/
def withRow (slots : ℕ × Fin 16 → Option FileCustody) (child : ℕ) (fds : List (Fin 16))
    (row : Fin 16 → Option FileCustody) (k : ℕ × Fin 16) : Option FileCustody :=
  if k.1 = child ∧ k.2 ∈ fds then row k.2 else slots k

structure Duplicated (s : FileTables) (files dups : Fin 16 → Option FileCustody) (fds : List (Fin 16))
    (s' : FileTables) : Prop where
  sched : s'.sched = s.sched
  others : ∀ fd, fd ∉ fds → dups fd = none
  copied : ∀ fd ∈ fds, (dups fd).isSome = (files fd).isSome
  fresh : ∀ a, s'.nextCustody ≤ a → s'.custodies a = none
  live : ∀ a, (s.custodies a).isSome → (s'.custodies a).isSome
  owned : ∀ slots child, (∀ fd ∈ fds, slots (child, fd) = none) → Owned slots s.custodies →
    Owned (withRow slots child fds dups) s'.custodies

lemma duplicateOpenfiles_spec {mem : Fin 16 → Bool} {files : Fin 16 → Option FileCustody} (fds : List (Fin 16)) :
    ∀ s : FileTables, (∀ a, s.nextCustody ≤ a → s.custodies a = none) →
      (∀ fd ∈ fds, ∀ a, files fd = some a → (s.custodies a).isSome ∧ mem fd) → fds.Nodup →
      ∃ dups s', duplicateOpenfiles mem files fds s = .ok (dups, s') ∧ Duplicated s files dups fds s' := by
  induction fds with
  | nil =>
    intro s hfresh _ _
    refine ⟨fun _ => none, s, rfl, rfl, fun _ _ => rfl, (fun fd hfd => by cases hfd), hfresh, fun _ => id, ?_⟩
    intro slots child _ howned
    have hrow : withRow slots child [] (fun _ => none) = slots := by
      funext k
      rw [withRow, if_neg (fun hk => List.not_mem_nil hk.2)]
    rw [hrow]
    exact howned
  | cons fd fds ih =>
    intro s hfresh hopen hnodup
    obtain ⟨hfd, hnodup⟩ := List.nodup_cons.mp hnodup
    cases hfile : files fd with
    | none =>
      obtain ⟨dups, s', hrun, hd⟩ := ih s hfresh (fun fd' hfd' => hopen fd' (List.mem_cons_of_mem _ hfd')) hnodup
      refine ⟨dups, s', by simp only [duplicateOpenfiles, hfile, hrun], hd.sched, ?_, ?_, hd.fresh, hd.live, ?_⟩
      · exact fun fd' hfd' => hd.others fd' fun hm => hfd' (List.mem_cons_of_mem _ hm)
      · intro fd' hfd'
        rcases List.mem_cons.mp hfd' with rfl | hfd'
        · rw [hd.others fd' hfd, hfile]
        · exact hd.copied fd' hfd'
      · intro slots child hnone howned
        have hrow : withRow slots child (fd :: fds) dups = withRow slots child fds dups := by
          funext k
          obtain ⟨j, fd'⟩ := k
          by_cases hj : j = child
          · by_cases hfd' : fd' = fd
            · subst hj hfd'
              simp only [withRow, List.mem_cons, true_or, and_self, if_true, hfd, and_false, if_false]
              rw [hd.others fd' hfd, hnone fd' List.mem_cons_self]
            · simp only [withRow, List.mem_cons, hfd', false_or]
          · simp only [withRow, hj, false_and, if_false]
        rw [hrow]
        exact hd.owned slots child (fun fd' hfd' => hnone fd' (List.mem_cons_of_mem _ hfd')) howned
    | some a =>
      obtain ⟨hlive, hmem⟩ := hopen fd List.mem_cons_self a hfile
      obtain ⟨c, hc⟩ := Option.isSome_iff_exists.mp hlive
      obtain ⟨dups, s', hrun, hd⟩ := ih (s.allocCustody c) (allocCustody_fresh hfresh c) (fun fd' hfd' b hb =>
        (hopen fd' (List.mem_cons_of_mem _ hfd') b hb).imp_left fun hl => allocCustody_isSome hl c) hnodup
      have hdup : vfsDuplicate s (mem fd) (some a) = .ok (some s.nextCustody, s.allocCustody c) := by
        rw [hmem]
        exact vfsDuplicate_live hc
      refine ⟨Function.update dups fd (some s.nextCustody), s', ?_, hd.sched, ?_, ?_, hd.fresh,
        fun b hb => hd.live b (allocCustody_isSome hb c), ?_⟩
      · simp only [duplicateOpenfiles, hfile, hdup, ok_bind, hrun, pure_eq_ok]
      · intro fd' hfd'
        have hne : fd' ≠ fd := by
          rintro rfl
          exact hfd' List.mem_cons_self
        rw [Function.update_of_ne hne]
        exact hd.others fd' fun hm => hfd' (List.mem_cons_of_mem _ hm)
      · intro fd' hfd'
        by_cases he : fd' = fd
        · subst he
          rw [Function.update_self, hfile]
          rfl
        · rw [Function.update_of_ne he]
          exact hd.copied fd' ((List.mem_cons.mp hfd').resolve_left he)
      · intro slots child hnone howned
        have hrow : withRow slots child (fd :: fds) (Function.update dups fd (some s.nextCustody)) =
            withRow (Function.update slots (child, fd) (some s.nextCustody)) child fds dups := by
          funext k
          obtain ⟨j, fd'⟩ := k
          by_cases hj : j = child
          · by_cases hfd' : fd' = fd
            · subst hj hfd'
              simp [withRow, hfd]
            · have hne : (j, fd') ≠ (child, fd) := fun he => hfd' (congrArg Prod.snd he)
              simp only [withRow, List.mem_cons, hfd', false_or, Function.update_of_ne hfd', Function.update_of_ne hne]
          · have hne : (j, fd') ≠ (child, fd) := fun he => hj (congrArg Prod.fst he)
            simp only [withRow, hj, false_and, if_false, Function.update_of_ne hne]
        rw [hrow]
        refine hd.owned _ child (fun fd' hfd' => ?_)
          (howned.acquire (hnone fd List.mem_cons_self) (hfresh _ le_rfl) c)
        have hne : (child, fd') ≠ (child, fd) := by
          intro he
          cases he
          exact hfd hfd'
        rw [Function.update_of_ne hne]
        exact hnone fd' (List.mem_cons_of_mem _ hfd')

lemma duplicateFiles_all {files dups : Fin 16 → Option FileCustody} (h : ∀ fd, (dups fd).isSome = (files fd).isSome) :
    duplicateFiles dups files = some dups := by
  rw [duplicateFiles, if_pos (fun fd hfd => (h fd).trans hfd)]
  congr 1
  funext fd
  by_cases hfd : (files fd).isSome
  · rw [if_pos hfd]
  · rw [if_neg hfd]
    rw [← h fd] at hfd
    exact (Option.not_isSome_iff_eq_none.mp hfd).symm

lemma sysForkFiles_outcome (h : FileInv s) {i : ℕ} {p : Process} (hp : s.sched.processes[i]? = some p) (t : Thread)
    {env : ForkAnswers} (halloc : env.alloc.Succeeds) (hwd : env.workingDirectory) (hvm : env.vmFork)
    (hmem : ∀ k, (s.slot (i, k)).isSome → env.duplicateMem k) : Outcome s (sysForkFiles s env p t) := by
  have hslot : ∀ fd, s.slot (i, fd) = p.openfiles fd := fun fd => by
    rw [FileTables.slot, hp]
    rfl
  have hopen : ∀ fd ∈ List.finRange 16, ∀ a, p.openfiles fd = some a → (s.custodies a).isSome ∧
    env.duplicateMem fd := by
    intro fd _ a ha
    rw [← hslot] at ha
    exact ⟨h.owned.filled _ a ha, hmem fd (ha ▸ rfl)⟩
  obtain ⟨dups, s', hrun, hd⟩ := duplicateOpenfiles_spec (List.finRange 16) s h.fresh hopen (List.nodup_finRange 16)
  obtain ⟨forked, hforked, hname⟩ := allocProcess_succeeds halloc s.sched (h.names p (List.mem_of_getElem? hp))
  have hfiles := duplicateFiles_all (fun fd => hd.copied fd (List.mem_finRange fd))
  have hguard : ¬ (¬ env.workingDirectory ∨ ¬ env.vmFork) := by simp [hwd, hvm]
  simp only [sysForkFiles, hrun, ok_bind, hd.sched, sysFork, hforked, hfiles, panicIf, if_neg hguard, registerThread]
  by_cases hlen : s.sched.allThreads.length < maxThreads
  · simp only [kassert_of hlen, ok_bind, pure_eq_ok]
    refine .ok ⟨?_, hd.fresh, ?_⟩ fun hneg => absurd hneg (by omega)
    · have hnone : ∀ fd ∈ List.finRange 16, s.slot (s.sched.processes.length, fd) = none :=
        fun fd _ => slot_none_of_le le_rfl fd
      have hrow := hd.owned s.slot s.sched.processes.length hnone h.owned
      convert hrow using 1
      funext k
      obtain ⟨j, fd⟩ := k
      rw [FileTables.slot, withRow]
      dsimp only
      rcases lt_trichotomy j s.sched.processes.length with hlt | rfl | hgt
      · rw [List.getElem?_append_left hlt, if_neg (fun hj => hlt.ne hj.1)]
        rfl
      · rw [List.getElem?_append_right le_rfl, Nat.sub_self, if_pos ⟨rfl, List.mem_finRange fd⟩]
        rfl
      · rw [if_neg (fun hj => hgt.ne' hj.1), slot_none_of_le hgt.le,
          List.getElem?_eq_none (by rw [List.length_append, List.length_singleton]; omega)]
        rfl
    · intro q hq
      rcases List.mem_append.mp hq with hq | hq
      · exact h.names q hq
      · rw [List.mem_singleton.mp hq]
        exact hname
  · simp only [kassert_of_not hlen, error_bind]
    refine ⟨fun what hr => ?_, fun rc s' hr => ?_, fun rc s' hr => ?_⟩
    · cases hr
    · cases hr
    · cases hr

end Fork

section Runs

variable {s s' : FileTables}

lemma createFirstProcess_files {env : AllocEnv} (log : Fin 3 → FileCustody) {entrypoint : ℕ} {sched : Scheduler}
    (h : createFirstProcess env (fun i => .ok (log i)) .initial entrypoint = .ok sched) :
    ∃ p, sched.processes = [p] ∧ p.openfiles = standardFiles (log 0) (log 1) (log 2) ∧ Terminated p.name := by
  obtain ⟨p, hp, -, ⟨mem, -, hcpy⟩, _, _, _, hin, hout, herr, hfiles⟩ := createFirstProcess_spec h
  cases hin
  cases hout
  cases herr
  refine ⟨p, hp, hfiles, ?_⟩
  have hkernel : strcpy mem ([0x6b, 0x65, 0x72, 0x6e, 0x65, 0x6c] ++ Byte.nul :: []) = .ok p.name := hcpy
  rw [strcpy_eq mem (by decide)] at hkernel
  split at hkernel
  · exact ⟨[0x6b, 0x65, 0x72, 0x6e, 0x65, 0x6c], mem.drop 7, (Except.ok.inj hkernel).symm, by decide, by decide⟩
  · cases hkernel

lemma standardFiles_eq : ∀ fd : Fin 16, standardFiles 0 1 2 fd = if fd.val < 3 then some fd.val else none := by
  decide

lemma init_fileInv (h : fileTables.Init s) : FileInv s := by
  obtain ⟨env, log, entrypoint, hfirst, hcust, hnext⟩ := h
  obtain ⟨p, hp, hfiles, hname⟩ := createFirstProcess_files (fun i => i) hfirst
  have hslot : ∀ k a, s.slot k = some a ↔ k.1 = 0 ∧ k.2 = a ∧ a < 3 := by
    rintro ⟨j, fd⟩ a
    rw [FileTables.slot, hp]
    cases j with
    | succ j => simp
    | zero =>
      rw [List.getElem?_cons_zero, Option.bind_some, hfiles]
      change standardFiles 0 1 2 fd = some a ↔ _
      rw [standardFiles_eq]
      by_cases hfd : fd.val < 3
      · rw [if_pos hfd]
        constructor
        · rintro ⟨⟩
          exact ⟨rfl, rfl, hfd⟩
        · rintro ⟨-, rfl, -⟩
          rfl
      · rw [if_neg hfd]
        constructor
        · rintro ⟨⟩
        · rintro ⟨-, rfl, hlt⟩
          exact absurd hlt hfd
  refine ⟨⟨fun k a hk => ?_, fun a ha => ?_⟩, fun a ha => ?_, ?_⟩
  · rw [hcust, dif_pos ((hslot k a).mp hk).2.2]
    rfl
  · rw [hcust] at ha
    by_cases hlt : a < 3
    · refine ⟨(0, ⟨a, Nat.lt_trans hlt (by decide)⟩), (hslot _ a).mpr ⟨rfl, rfl, hlt⟩, ?_⟩
      rintro ⟨j, fd⟩ hj
      obtain ⟨rfl, rfl, -⟩ := (hslot _ a).mp hj
      rfl
    · rw [dif_neg hlt] at ha
      cases ha
  · rw [hnext] at ha
    rw [hcust, dif_neg (by omega)]
  · rw [hp]
    intro q hq
    rw [List.mem_singleton.mp hq]
    exact hname

lemma fileCall_outcome (h : FileInv s) {trap : FileTrap} (hsafe : FileCallSafe s trap) {p : Process} {t : Thread}
    (hp : s.sched.processes[trap.process]? = some p) :
    Outcome s (fileCall s trap.process p t trap.call) := by
  obtain ⟨i, j, call⟩ := trap
  have hi : i < s.sched.processes.length := (List.getElem?_eq_some_iff.mp hp).1
  cases call with
  | openFile vfsOpen path flags => exact sysOpen_outcome h hi vfsOpen p path flags
  | close fd => exact sysClose_outcome h fd
  | movefd fd newFd => exact (sysMovefd_spec h hi hsafe).1
  | dup2 fd newFd mem => exact (sysDup2_spec h hi hsafe).1
  | createPipe opened mem => exact sysCreatePipe_outcome h hi opened mem
  | fork env => exact sysForkFiles_outcome h hp t hsafe.1 hsafe.2.1 hsafe.2.2.1 hsafe.2.2.2

/-- What the file descriptors promise of the next call. -/
structure DescriptorContract (s : FileTables) (i : ℕ) (call : FileCall) (r : Except Panic (ℤ × FileTables)) : Prop where
  defined : ∀ what, r ≠ .error (.undefined what)
  failed : ∀ rc s', r = .ok (rc, s') → rc < 0 → s'.slot = s.slot
  target : ∀ fd newFd s', (call = .movefd fd newFd ∨ ∃ mem, call = .dup2 fd newFd mem) → r = .ok (0, s') →
    TargetOpen s i fd newFd s'

theorem fileDescriptors_owned (h : (fileTables.restrict FileCallSafe).Reachable s) : Owned s.slot s.custodies ∧
    ∀ trap p t, FileCallSafe s trap → s.sched.processes[trap.process]? = some p →
      p.threads[trap.thread]? = some t →
      DescriptorContract s trap.process trap.call (fileCall s trap.process p t trap.call) := by
  have hind : (fileTables.restrict FileCallSafe).Inductive FileInv := by
    refine ⟨fun _ => init_fileInv, ?_⟩
    rintro s trap s' hi ⟨⟨rc, p, t, hp, -, hcall⟩, hsafe⟩
    exact (fileCall_outcome hi hsafe hp).inv rc s' hcall
  have hi := h.invariant hind
  refine ⟨hi.owned, fun trap p t hsafe hp _ => ?_⟩
  have ho := fileCall_outcome (t := t) hi hsafe hp
  refine ⟨ho.defined, ho.failed, ?_⟩
  have hlt : trap.process < s.sched.processes.length := (List.getElem?_eq_some_iff.mp hp).1
  obtain ⟨i, j, call⟩ := trap
  rintro fd newFd s' (rfl | ⟨mem, rfl⟩) hcall
  · exact (sysMovefd_spec hi hlt hsafe).2 s' hcall
  · exact (sysDup2_spec hi hlt hsafe).2 s' hcall

def bootThread : Thread :=
  ⟨0, archCreateInitialKernelStack 0 (sub32 (userStackStart 0) 8) 0xc0010000 true, .runnable, none⟩

def proc1Files : Process := { proc1 with openfiles := standardFiles 0 1 2, threads := [bootThread] }

def bootFiles : FileTables :=
  ⟨⟨1, [some (0, 0)], [proc1Files]⟩, fun a => if _h : a < 3 then some ⟨9, 0, 0⟩ else none, 3⟩

lemma bootFiles_init : fileTables.Init bootFiles :=
  ⟨bootAlloc, fun _ => ⟨9, 0, 0⟩, 0xc0010000, rfl, fun _ => rfl, rfl⟩

theorem fileDescriptors_owned_dup2 : ∃ s, fileTables.Step bootFiles ⟨0, 0, .dup2 1 5 true⟩ s ∧
    s.slot (0, 5) = some 3 ∧ Owned s.slot s.custodies := by
  obtain ⟨s, hs, hslot⟩ : ∃ s, fileTables.Step bootFiles ⟨0, 0, .dup2 1 5 true⟩ s ∧ s.slot (0, 5) = some 3 :=
    ⟨_, ⟨_, proc1Files, _, rfl, rfl, rfl⟩, rfl⟩
  refine ⟨s, hs, hslot, (fileDescriptors_owned (.step (.init bootFiles_init) ⟨hs, ?_⟩)).1⟩
  intro k k' hacc
  refine ⟨?_, rfl⟩
  rintro rfl
  have hfd := descriptor_val hacc.fd
  have hnew := descriptor_val hacc.newFd
  omega

lemma not_targetOpen {i : ℕ} {fd newFd : ℤ} {k : Fin 16} (hk : (k : ℤ) = newFd)
    (hclosed : s'.inodeAt (i, k) = none) : ¬ TargetOpen s i fd newFd s' := by
  rintro ⟨_, k', -, hk', hopen, -⟩
  obtain rfl : k' = k := Fin.ext (by omega)
  rw [hclosed] at hopen
  cases hopen

/-- The first process calls `movefd(0, 0)`, `dup2(0, 0)`, and `dup2(0, 5)` without memory for the copy. -/
theorem equal_descriptors_lose_file : fileTables.Init bootFiles ∧
    (∃ s, fileCall bootFiles 0 proc1Files bootThread (.movefd 0 0) = .ok (0, s) ∧
      ¬ TargetOpen bootFiles 0 0 0 s) ∧
    fileCall bootFiles 0 proc1Files bootThread (.dup2 0 0 true) = .error (.undefined "null custody") ∧
    ∃ s, fileCall bootFiles 0 proc1Files bootThread (.dup2 0 5 false) = .ok (0, s) ∧
      ¬ TargetOpen bootFiles 0 0 5 s :=
  ⟨bootFiles_init, ⟨_, rfl, not_targetOpen (k := 0) rfl rfl⟩, rfl, ⟨_, rfl, not_targetOpen (k := 5) rfl rfl⟩⟩

end Runs

end Pi0Os.Task
