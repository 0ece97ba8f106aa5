import Pi0Os.Task.DescriptorRuns
import Pi0Os.Vfs.InodeBalance
import Pi0Os.Vfs.PipeRuns

/-! `sys$create_pipe` over the file tables and the `pipefs` under them: the two ends in the two lowest free slots, or
nothing at all. -/

namespace Pi0Os.Task

open Kernel

/-- The custodies of `files` are on inodes of `pipes.vfs`; those in the list of `pipes.vfs` are of other owners. -/
structure PipeTables where
  files : FileTables
  pipes : Vfs.PipeFS

namespace PipeTables

variable (s : PipeTables)

def setVfs (vfs : Vfs.VfsState) : PipeTables := { s with pipes := { s.pipes with vfs := vfs } }

/-- `free_custody`. -/
def vfsClose (a : FileCustody) : Except Panic PipeTables := do
  let files ← Task.vfsClose s.files (some a)
  let vfs ← Vfs.closeInode s.pipes.vfs ((s.files.custodies a).map fun c => c.inode)
  return { s.setVfs vfs with files := files }

def vfsDuplicate (mem : Bool) (a : FileCustody) : Except Panic (Option FileCustody × PipeTables) := do
  let (dup, files) ← Task.vfsDuplicate s.files mem (some a)
  match dup.bind files.custodies with
  | none => return (dup, { s with files := files })
  | some c =>
    let inode := s.pipes.vfs.inodes c.inode
    return (dup, { s.setVfs (s.pipes.vfs.setInode c.inode { inode with refcount := inode.refcount + 1 }) with
      files := files })

/-- The custody that `vfs_open` allocates is the last of the list. -/
def vfsOpenPipe (env : Vfs.PipeEnv) : Except Panic (Except ℤ FileCustody × PipeTables) := do
  let (rc, pipes) ← Vfs.openPipe s.pipes env
  if rc ≠ 0 then return (.error rc, { s with pipes := pipes })
  match pipes.vfs.custodies.getLast? with
  | none => .error (.undefined "no custody")
  | some c => return (.ok s.files.nextCustody, ⟨s.files.allocCustody c,
      { pipes with vfs := { pipes.vfs with custodies := pipes.vfs.custodies.dropLast } }⟩)

def vfsCreatePipe (env : Vfs.PipeEnv) : Except Panic (Except ℤ (FileCustody × FileCustody) × PipeTables) := do
  match ← s.vfsOpenPipe env with
  | (.error rc, s) => return (.error rc, s)
  | (.ok sender, s) =>
    match ← s.vfsDuplicate env.duplicateMem sender with
    | (none, s) => return (.error (-Err.noMem), ← s.vfsClose sender)
    | (some receiver, s) =>
      return (.ok (sender, receiver),
        { s with files := (s.files.setFlags sender Vfs.ofWronly).setFlags receiver Vfs.ofRdonly })

def setFile (k : ℕ × Fin 16) (file : Option FileCustody) : PipeTables := { s with files := s.files.setFile k file }

/-- The return value with the descriptors stored through `write_fd` and `read_fd`. -/
def sysCreatePipe (i : ℕ) (env : Vfs.PipeEnv) : Except Panic (ℤ × Option (Fin 16 × Fin 16) × PipeTables) := do
  match ← s.vfsCreatePipe env with
  | (.error rc, s) => return (rc, none, s)
  | (.ok (sender, receiver), s) =>
    match firstFree s.files i with
    | none =>
      let s ← s.vfsClose receiver
      let s ← s.vfsClose sender
      return (-Err.nFile, none, s)
    | some readFd =>
      let s := s.setFile (i, readFd) (some receiver)
      match firstFree s.files i with
      | none =>
        let s ← s.vfsClose receiver
        let s ← s.vfsClose sender
        return (-Err.nFile, none, s.setFile (i, readFd) none)
      | some writeFd => return (0, some (writeFd, readFd), s.setFile (i, writeFd) (some sender))

end PipeTables

/-- `pipefs` is mounted, the open files are on inodes that exist, and no custody has an address still to come. -/
structure PipeTables.Ready (s : PipeTables) (root : ℕ) : Prop where
  pipefs : Vfs.PipefsAt s.pipes.vfs s.pipes.fs root s.pipes.nextPipeId
  fresh : ∀ a, s.files.nextCustody ≤ a → s.files.custodies a = none
  held : ∀ a c, s.files.custodies a = some c → c.inode < s.pipes.vfs.nextInode

/-- `readFd` and `writeFd` are the two lowest free slots. -/
structure LowestFree (s : FileTables) (i : ℕ) (readFd writeFd : Fin 16) : Prop where
  read : s.slot (i, readFd) = none
  write : s.slot (i, writeFd) = none
  order : readFd < writeFd
  taken : ∀ k < writeFd, k ≠ readFd → (s.slot (i, k)).isSome

/-- The ends of one new pipe at the addresses `a` and `a + 1`, in the two lowest free slots. -/
structure EndsOpen (s s' : PipeTables) (i : ℕ) (writeFd readFd : Fin 16) (a inode : ℕ) : Prop where
  free : LowestFree s.files i readFd writeFd
  slot : s'.files.slot =
    Function.update (Function.update s.files.slot (i, readFd) (some (a + 1))) (i, writeFd) (some a)
  unused : s.files.custodies a = none ∧ s.files.custodies (a + 1) = none
  custodies : s'.files.custodies = withEnds s.files.custodies a ⟨inode, Vfs.ofWronly, 0⟩ ⟨inode, Vfs.ofRdonly, 0⟩
  pipe : Vfs.IsPipe s'.pipes.vfs inode
  apart : ∀ b c, s.files.custodies b = some c → c.inode ≠ inode

/-- No slot has changed and no custody is left. -/
structure NothingOpen (s s' : PipeTables) : Prop where
  slot : s'.files.slot = s.files.slot
  custodies : s'.files.custodies = s.files.custodies
  listed : s'.pipes.vfs.custodies = s.pipes.vfs.custodies

/-- What every step of a creation keeps. -/
structure PipesKept (root : ℕ) (s s' : PipeTables) : Prop where
  pipefs : Vfs.PipefsAt s'.pipes.vfs s'.pipes.fs root s'.pipes.nextPipeId
  next : s.pipes.vfs.nextInode ≤ s'.pipes.vfs.nextInode
  listed : s'.pipes.vfs.custodies = s.pipes.vfs.custodies

section Slots

variable {s : FileTables} {i : ℕ} {fd : Fin 16}

lemma firstFree_lowest (h : firstFree s i = some fd) : ∀ k < fd, (s.slot (i, k)).isSome := by
  obtain ⟨-, n, hn, hfd, hbefore⟩ := List.find?_eq_some_iff_getElem.mp h
  rw [List.getElem_finRange] at hfd
  intro k hk
  have hlt : k.val < n := by
    rw [← hfd] at hk
    exact hk
  have hb := hbefore k.val hlt
  rw [List.getElem_finRange] at hb
  simpa [Option.isSome_iff_ne_none] using hb

lemma firstFree_congr {s' : FileTables} (h : s.slot = s'.slot) : firstFree s i = firstFree s' i := by
  simp only [firstFree, h]

lemma lowestFree {s' : FileTables} {file : FileCustody} {writeFd : Fin 16} (hread : firstFree s i = some fd)
    (hwrite : firstFree s' i = some writeFd) (hslot : s'.slot = Function.update s.slot (i, fd) (some file)) :
    LowestFree s i fd writeFd := by
  have hother : ∀ k, k ≠ fd → s'.slot (i, k) = s.slot (i, k) := fun k hk => by
    rw [hslot, Function.update_of_ne fun he => hk (congrArg Prod.snd he)]
  have hw := firstFree_some hwrite
  have hne : writeFd ≠ fd := by
    rintro rfl
    rw [hslot, Function.update_self] at hw
    cases hw
  rw [hother writeFd hne] at hw
  refine ⟨firstFree_some hread, hw, ?_, fun k hk hkfd => ?_⟩
  · -- the slots below the first free one stay taken
    by_contra hle
    have ht := firstFree_lowest hread writeFd (lt_of_le_of_ne (not_lt.mp hle) hne)
    rw [hw] at ht
    cases ht
  · rw [← hother k hkfd]
    exact firstFree_lowest hwrite k hk

end Slots

section Creation

variable {s s' s'' : PipeTables} {root i : ℕ}

lemma PipesKept.trans (h : PipesKept root s s') (h' : PipesKept root s' s'') : PipesKept root s s'' :=
  ⟨h'.pipefs, h.next.trans h'.next, h'.listed.trans h.listed⟩

lemma vfsOpenPipe_spec (h : s.Ready root) (env : Vfs.PipeEnv) :
    ∃ r s', s.vfsOpenPipe env = .ok (r, s') ∧ PipesKept root s s' ∧
      ((∃ rc, r = .error rc ∧ rc < 0) ∧ s'.files = s.files ∨
        r = .ok s.files.nextCustody ∧ Vfs.IsPipe s'.pipes.vfs s.pipes.vfs.nextInode ∧
          s'.files = s.files.allocCustody ⟨s.pipes.vfs.nextInode, Vfs.ofCreate, 0⟩) := by
  obtain ⟨rc, pipes, ho, hp, hnext, -, -, hends⟩ := Vfs.openPipe_spec h.pipefs env
  rcases hends with ⟨hrc, hcust⟩ | ⟨rfl, hcust, hpipe⟩
  · refine ⟨.error rc, { s with pipes := pipes }, ?_, ⟨hp, hnext, hcust⟩, Or.inl ⟨⟨rc, rfl, hrc⟩, rfl⟩⟩
    simp only [PipeTables.vfsOpenPipe, ho, ok_bind, ne_eq, hrc.ne, not_false_eq_true, if_true, pure_eq_ok]
  · have hlast : pipes.vfs.custodies.getLast? = some ⟨s.pipes.vfs.nextInode, Vfs.ofCreate, 0⟩ := by
      rw [hcust, List.getLast?_concat]
    have hr : s.vfsOpenPipe env = .ok (.ok s.files.nextCustody,
        ⟨s.files.allocCustody ⟨s.pipes.vfs.nextInode, Vfs.ofCreate, 0⟩,
          { pipes with vfs := { pipes.vfs with custodies := pipes.vfs.custodies.dropLast } }⟩) := by
      simp only [PipeTables.vfsOpenPipe, ho, ok_bind, ne_eq, not_true_eq_false, if_false, hlast, pure_eq_ok]
    refine ⟨_, _, hr, ⟨{ hp with }, hnext, ?_⟩, Or.inr ⟨rfl, hpipe, rfl⟩⟩
    · change pipes.vfs.custodies.dropLast = _
      rw [hcust, List.dropLast_concat]

lemma vfsClose_ok {b : FileCustody} {c : Vfs.FileCustody} {files : FileTables} {vfs : Vfs.VfsState}
    (hc : s.files.custodies b = some c) (hfiles : vfsClose s.files (some b) = .ok files)
    (hvfs : Vfs.closeInode s.pipes.vfs (some c.inode) = .ok vfs) :
    s.vfsClose b = .ok { s.setVfs vfs with files := files } := by
  simp only [PipeTables.vfsClose, hfiles, hc, Option.map_some, hvfs, ok_bind, pure_eq_ok]

lemma vfsClose_kept {b : FileCustody} {c : Vfs.FileCustody} {files : FileTables}
    (hp : Vfs.PipefsAt s.pipes.vfs s.pipes.fs root s.pipes.nextPipeId) (hc : s.files.custodies b = some c)
    (hfiles : vfsClose s.files (some b) = .ok files) (hpos : 0 < (s.pipes.vfs.inodes c.inode).refcount) :
    ∃ s', s.vfsClose b = .ok s' ∧ s'.files = files ∧ PipesKept root s s' ∧
      (1 < (s.pipes.vfs.inodes c.inode).refcount → 0 < (s'.pipes.vfs.inodes c.inode).refcount) := by
  obtain ⟨vfs, hvfs, hp', hframe, -⟩ := hp.closeInode 0 (Or.inr (Nat.zero_le _)) hpos
  refine ⟨_, vfsClose_ok hc hfiles hvfs, rfl, ⟨{ hp' with }, hframe.next, hframe.custodies⟩, fun hshared => ?_⟩
  rw [Vfs.closeInode_shared hshared] at hvfs
  cases hvfs
  change 0 < ((s.pipes.vfs.setInode c.inode _).inodes c.inode).refcount
  rw [Vfs.VfsState.setInode_self]
  exact Nat.sub_pos_of_lt hshared

/-- `vfs_create_pipe` has succeeded with the two ends at the addresses `a` and `a + 1`. -/
structure EndsMade (s s' : PipeTables) (a inode : ℕ) : Prop where
  sched : s'.files.sched = s.files.sched
  custodies : s'.files.custodies = withEnds s.files.custodies a ⟨inode, Vfs.ofWronly, 0⟩ ⟨inode, Vfs.ofRdonly, 0⟩
  next : s'.files.nextCustody = a + 2
  pipe : Vfs.IsPipe s'.pipes.vfs inode
  shared : 1 < (s'.pipes.vfs.inodes inode).refcount

lemma vfsCreatePipe_ends (h : s.Ready root) (env : Vfs.PipeEnv) :
    ∃ r s', s.vfsCreatePipe env = .ok (r, s') ∧ PipesKept root s s' ∧ s.files.nextCustody ≤ s'.files.nextCustody ∧
      ((∃ rc, r = .error rc ∧ rc < 0) ∧ s'.files.sched = s.files.sched ∧ s'.files.custodies = s.files.custodies ∨
        r = .ok (s.files.nextCustody, s.files.nextCustody + 1) ∧
          EndsMade s s' s.files.nextCustody s.pipes.vfs.nextInode) := by
  obtain ⟨r, s₁, ho, hk, hends⟩ := vfsOpenPipe_spec h env
  rcases hends with ⟨⟨rc, rfl, hrc⟩, hfiles⟩ | ⟨rfl, hpipe, hfiles⟩
  · refine ⟨.error rc, s₁, ?_, hk, (congrArg _ hfiles).ge, Or.inl ⟨⟨rc, rfl, hrc⟩, ?_⟩⟩
    · simp only [PipeTables.vfsCreatePipe, ho, ok_bind, pure_eq_ok]
    · rw [hfiles]
      exact ⟨rfl, rfl⟩
  · set a := s.files.nextCustody with ha
    set inode := s.pipes.vfs.nextInode with hinode
    have hsender : s₁.files.custodies a = some ⟨inode, Vfs.ofCreate, 0⟩ := by rw [hfiles, allocCustody_self]
    have hn₁ : s₁.files.nextCustody = a + 1 := by rw [hfiles]; rfl
    cases hmem : env.duplicateMem with
    | false =>
      obtain ⟨s₂, hc, hf₂, hk₂, -⟩ := vfsClose_kept hk.pipefs hsender (vfsClose_live hsender) hpipe.2.2.2
      refine ⟨.error (-Err.noMem), s₂, ?_, hk.trans hk₂, ?_, Or.inl ⟨⟨_, rfl, by decide⟩, ?_, ?_⟩⟩
      · simp only [PipeTables.vfsCreatePipe, ho, ok_bind, PipeTables.vfsDuplicate, hmem, vfsDuplicate,
          Bool.false_eq_true, not_false_eq_true, if_true, Option.bind_none, pure_eq_ok, hc]
      · rw [hf₂]
        exact hn₁ ▸ Nat.le_succ a
      · rw [hf₂, hfiles]
        rfl
      · rw [hf₂, hfiles]
        change Function.update (Function.update s.files.custodies a _) a none = _
        rw [Function.update_idem, ← h.fresh a le_rfl, Function.update_eq_self]
    | true =>
      have hreceiver : (s₁.files.allocCustody ⟨inode, Vfs.ofCreate, 0⟩).custodies (a + 1) =
          some ⟨inode, Vfs.ofCreate, 0⟩ := hn₁ ▸ allocCustody_self _
      set node := s₁.pipes.vfs.inodes inode with hnode
      have hdup : s₁.vfsDuplicate true a = .ok (some (a + 1),
          { s₁.setVfs (s₁.pipes.vfs.setInode inode { node with refcount := node.refcount + 1 }) with
            files := s₁.files.allocCustody ⟨inode, Vfs.ofCreate, 0⟩ }) := by
        simp only [PipeTables.vfsDuplicate, vfsDuplicate_live hsender, hn₁, ok_bind, Option.bind_some, hreceiver]
        rfl
      refine ⟨.ok (a, a + 1), { s₁.setVfs (s₁.pipes.vfs.setInode inode { node with refcount := node.refcount + 1 }) with
        files := ((s₁.files.allocCustody ⟨inode, Vfs.ofCreate, 0⟩).setFlags a Vfs.ofWronly).setFlags (a + 1)
          Vfs.ofRdonly }, ?_, hk.trans ⟨?_, le_rfl, rfl⟩, ?_, Or.inr ⟨rfl, ?_, ?_, ?_, ?_, ?_⟩⟩
      · simp only [PipeTables.vfsCreatePipe, ho, ok_bind, hmem, hdup, pure_eq_ok]
      · exact { hk.pipefs.setInode (fun he => absurd he h.pipefs.root_lt.ne') with }
      · change a ≤ s₁.files.nextCustody + 1
        omega
      · change s₁.files.sched = _
        rw [hfiles]
        rfl
      · rw [hfiles]
        exact withEnds_alloc s.files ⟨inode, Vfs.ofCreate, 0⟩
      · change s₁.files.nextCustody + 1 = a + 2
        rw [hn₁]
      · change _ ∧ ((s₁.pipes.vfs.setInode inode _).inodes inode).type = _ ∧
          ((s₁.pipes.vfs.setInode inode _).inodes inode).live ∧
          0 < ((s₁.pipes.vfs.setInode inode _).inodes inode).refcount
        rw [Vfs.VfsState.setInode_self]
        exact ⟨hpipe.1, hpipe.2.1, hpipe.2.2.1, Nat.succ_pos _⟩
      · change 1 < ((s₁.pipes.vfs.setInode inode _).inodes inode).refcount
        rw [Vfs.VfsState.setInode_self]
        exact Nat.succ_lt_succ hpipe.2.2.2

lemma closeEnds_kept {custodies : ℕ → Option Vfs.FileCustody} {a : ℕ} {c c' : Vfs.FileCustody}
    (hp : Vfs.PipefsAt s.pipes.vfs s.pipes.fs root s.pipes.nextPipeId) (hfresh : ∀ b, a ≤ b → custodies b = none)
    (hends : s.files.custodies = withEnds custodies a c c') (hinode : c'.inode = c.inode)
    (hshared : 1 < (s.pipes.vfs.inodes c.inode).refcount) :
    ∃ s₁ s₂, s.vfsClose (a + 1) = .ok s₁ ∧ s₁.vfsClose a = .ok s₂ ∧
      s₂.files = { s.files with custodies := custodies } ∧ PipesKept root s s₂ := by
  obtain ⟨files, hc₁, hsender, hc₂⟩ := closeEnds hfresh hends
  have hreceiver : s.files.custodies (a + 1) = some c' := by
    rw [hends, withEnds, Function.update_of_ne (by omega), Function.update_self]
  obtain ⟨s₁, h₁, hf₁, hk₁, hleft⟩ := vfsClose_kept hp hreceiver hc₁ (by rw [hinode]; omega)
  rw [hinode] at hleft
  rw [← hf₁] at hsender hc₂
  obtain ⟨s₂, h₂, hf₂, hk₂, -⟩ := vfsClose_kept hk₁.pipefs hsender hc₂ (hleft hshared)
  exact ⟨s₁, s₂, h₁, h₂, hf₂, hk₁.trans hk₂⟩

/-- What `sys$create_pipe` has done when it returns `rc`. -/
inductive CreateOutcome (s : PipeTables) (i : ℕ) : ℤ → Option (Fin 16 × Fin 16) → PipeTables → Prop
  | failed {rc s'} : rc < 0 → NothingOpen s s' → CreateOutcome s i rc none s'
  | created {writeFd readFd a inode s'} : EndsOpen s s' i writeFd readFd a inode →
    CreateOutcome s i 0 (some (writeFd, readFd)) s'

lemma PipeTables.Ready.unchanged (h : s.Ready root) (hk : PipesKept root s s')
    (hc : s'.files.custodies = s.files.custodies) (hn : s.files.nextCustody ≤ s'.files.nextCustody) :
    s'.Ready root where
  pipefs := hk.pipefs
  fresh a ha := by
    rw [hc]
    exact h.fresh a (hn.trans ha)
  held a c ha := (h.held a c (by rwa [← hc])).trans_le hk.next

lemma PipeTables.Ready.withEnds (h : s.Ready root) (hk : PipesKept root s s') {inode : ℕ}
    (hc : s'.files.custodies = withEnds s.files.custodies s.files.nextCustody ⟨inode, Vfs.ofWronly, 0⟩
      ⟨inode, Vfs.ofRdonly, 0⟩)
    (hn : s'.files.nextCustody = s.files.nextCustody + 2) (hi : inode < s'.pipes.vfs.nextInode) : s'.Ready root where
  pipefs := hk.pipefs
  fresh a ha := by
    rw [hc]
    exact withEnds_fresh h.fresh _ _ a (hn ▸ ha)
  held a c ha := by
    rw [hc, Task.withEnds] at ha
    by_cases ha₁ : a = s.files.nextCustody
    · subst ha₁
      rw [Function.update_self] at ha
      cases ha
      exact hi
    · rw [Function.update_of_ne ha₁] at ha
      by_cases ha₂ : a = s.files.nextCustody + 1
      · subst ha₂
        rw [Function.update_self] at ha
        cases ha
        exact hi
      · rw [Function.update_of_ne ha₂] at ha
        exact (h.held a c ha).trans_le hk.next

theorem sysCreatePipe_allOrNothing (h : s.Ready root) (hi : i < s.files.sched.processes.length) (env : Vfs.PipeEnv) :
    ∃ rc fds s', s.sysCreatePipe i env = .ok (rc, fds, s') ∧ s'.Ready root ∧ CreateOutcome s i rc fds s' ∧
      ((∀ k k', s.files.slot (i, k) = none → s.files.slot (i, k') = none → k = k') → rc < 0) := by
  obtain ⟨r, s₁, hp, hk, hn, hends⟩ := vfsCreatePipe_ends h env
  rcases hends with ⟨⟨rc, rfl, hrc⟩, hsched, hcust⟩ | ⟨rfl, hm⟩
  · refine ⟨rc, none, s₁, ?_, h.unchanged hk hcust hn, .failed hrc ⟨?_, hcust, hk.listed⟩, fun _ => hrc⟩
    · simp only [PipeTables.sysCreatePipe, hp, ok_bind, pure_eq_ok]
    · unfold FileTables.slot
      rw [hsched]
  · have hslot₁ : s₁.files.slot = s.files.slot := by
      unfold FileTables.slot
      rw [hm.sched]
    have hi₁ : i < s₁.files.sched.processes.length := by rwa [hm.sched]
    simp only [PipeTables.sysCreatePipe, hp, ok_bind]
    cases hread : firstFree s₁.files i with
    | none => -- no slot is free
      obtain ⟨s₂, s₃, hc₂, hc₃, hf₃, hk₃⟩ := closeEnds_kept hk.pipefs h.fresh hm.custodies rfl hm.shared
      have hk' := hk.trans hk₃
      refine ⟨-Err.nFile, none, s₃, ?_, h.unchanged hk' (by rw [hf₃]) (by rw [hf₃]; exact hn),
        .failed (by decide) ⟨?_, by rw [hf₃], hk'.listed⟩, fun _ => by decide⟩
      · simp only [hc₂, hc₃, ok_bind, pure_eq_ok]
      · rw [hf₃]
        exact hslot₁
    | some readFd =>
      dsimp only
      generalize hs₂ : s₁.setFile (i, readFd) (some (s.files.nextCustody + 1)) = s₂
      have hf₂ : s₂.files = s₁.files.setFile (i, readFd) (some (s.files.nextCustody + 1)) := by rw [← hs₂]; rfl
      have hp₂ : s₂.pipes = s₁.pipes := by rw [← hs₂]; rfl
      have hslot₂ : s₂.files.slot =
          Function.update s.files.slot (i, readFd) (some (s.files.nextCustody + 1)) := by
        rw [hf₂, slot_setFile hi₁, hslot₁]
      have hi₂ : i < s₂.files.sched.processes.length := by rwa [hf₂, length_setFile]
      have hcust₂ : s₂.files.custodies = s₁.files.custodies := by rw [hf₂]; rfl
      have hk₂ : PipesKept root s s₂ :=
        ⟨by rw [hp₂]; exact hk.pipefs, by rw [hp₂]; exact hk.next, by rw [hp₂]; exact hk.listed⟩
      have hfree : s.files.slot (i, readFd) = none := hslot₁ ▸ firstFree_some hread
      cases hwrite : firstFree s₂.files i with
      | none => -- one slot is free, and the reading end gives it back
        obtain ⟨s₃, s₄, hc₃, hc₄, hf₄, hk₄⟩ := closeEnds_kept hk₂.pipefs h.fresh (hcust₂.trans hm.custodies) rfl
          (by rw [hp₂]; exact hm.shared)
        have hk' := hk₂.trans hk₄
        have hcust : (s₄.setFile (i, readFd) none).files.custodies = s.files.custodies := by
          change s₄.files.custodies = _
          rw [hf₄]
        have hi₄ : i < s₄.files.sched.processes.length := by rwa [hf₄]
        refine ⟨-Err.nFile, none, s₄.setFile (i, readFd) none, ?_,
          h.unchanged ⟨hk'.pipefs, hk'.next, hk'.listed⟩ hcust ?_,
          .failed (by decide) ⟨?_, hcust, hk'.listed⟩, fun _ => by decide⟩
        · simp only [hc₃, hc₄, ok_bind, pure_eq_ok]
        · change s.files.nextCustody ≤ s₄.files.nextCustody
          rw [hf₄, hf₂]
          exact hn
        · have hslot₄ : s₄.files.slot = s₂.files.slot := by rw [hf₄]; rfl
          change (s₄.files.setFile (i, readFd) none).slot = _
          rw [slot_setFile hi₄, hslot₄, hslot₂, Function.update_idem, ← hfree, Function.update_eq_self]
      | some writeFd =>
        have hl : LowestFree s.files i readFd writeFd := by
          rw [firstFree_congr hslot₁] at hread
          exact lowestFree hread hwrite hslot₂
        have hcust : (s₂.setFile (i, writeFd) (some s.files.nextCustody)).files.custodies = _ :=
          hcust₂.trans hm.custodies
        have hnext : s₂.files.nextCustody = s.files.nextCustody + 2 := by
          rw [hf₂]
          exact hm.next
        have hpipe : Vfs.IsPipe s₂.pipes.vfs s.pipes.vfs.nextInode := by
          rw [hp₂]
          exact hm.pipe
        refine ⟨0, some (writeFd, readFd), s₂.setFile (i, writeFd) (some s.files.nextCustody), rfl, ?_, .created
          ⟨hl, ?_, ⟨h.fresh _ le_rfl, h.fresh _ (Nat.le_succ _)⟩, hcust, hpipe, fun b c hb => (h.held b c hb).ne⟩, ?_⟩
        · exact h.withEnds ⟨hk₂.pipefs, hk₂.next, hk₂.listed⟩ hcust hnext hpipe.1
        · change (s₂.files.setFile (i, writeFd) (some s.files.nextCustody)).slot = _
          rw [slot_setFile hi₂, hslot₂]
        · exact fun hone => absurd (hone _ _ hl.read hl.write) hl.order.ne

/-- The first process has opened the kernel log three times and nothing else. -/
def logTables : PipeTables where
  files := ⟨⟨1, [], [⟨1, 0, 0, [], 0, standardFiles 0 1 2, [], []⟩]⟩,
    fun a => if a < 3 then some ⟨0, Vfs.ofRdonly, 0⟩ else none, 3⟩
  pipes := Vfs.pipeBoot.fs

lemma logTables_ready : ∃ root, logTables.Ready root := by
  obtain ⟨root, hp⟩ := Vfs.pipeBoot_init.1
  refine ⟨root, hp, fun a ha => if_neg (not_lt.mpr ha), fun a c hc => ?_⟩
  change (if a < 3 then _ else none) = some c at hc
  split at hc
  · cases hc
    exact Nat.one_pos
  · cases hc

theorem sysCreatePipe_allOrNothing_log : ∃ root rc fds s', logTables.sysCreatePipe 0 Vfs.roomyEnv = .ok (rc, fds, s') ∧
    s'.Ready root ∧ CreateOutcome logTables 0 rc fds s' := by
  obtain ⟨root, hroot⟩ := logTables_ready
  obtain ⟨rc, fds, s', hrun, hready, ho, -⟩ := sysCreatePipe_allOrNothing hroot (i := 0) Nat.one_pos Vfs.roomyEnv
  exact ⟨root, rc, fds, s', hrun, hready, ho⟩

end Creation

end Pi0Os.Task
