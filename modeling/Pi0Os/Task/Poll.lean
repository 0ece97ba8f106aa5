import Mathlib.Data.Nat.Bitwise
import Pi0Os.Drivers.Tty
import Pi0Os.Library.Rounds
import Pi0Os.Task.FileDescriptors
import Pi0Os.Vfs.Pipefs
import Pi0Os.Vfs.SequentialReads

/-! `sys$poll` over every kind of open file, and what the rounds of its loop report. -/

namespace Pi0Os.Task

open Kernel Library Drivers

variable {ε : Type}

structure InputEvent where
  type : ℕ
  code : ℕ
  value : ℕ

/-- `InputDevice::poll`. -/
def inputPoll (ring : RingBuffer 32 InputEvent) (events outRevents : ℕ) : ℕ :=
  let outRevents := if events &&& fPollIn ≠ 0 ∧ ¬ ring.isEmpty then outRevents ||| fPollIn else outRevents
  if events &&& fPollOut ≠ 0 ∧ ¬ ring.isFull then outRevents ||| fPollOut else outRevents

/-- The inode of an open file, with the state that its `poll` reads. -/
inductive PollInode (ε : Type) where
  | directory
  | file -- of `tempfs` or FAT32
  | pipe (fs : Vfs.PipeFS) (a : ℕ)
  | device -- of a class with the `poll` of `FileDevice`
  | input (ring : RingBuffer 32 InputEvent)
  | tty (tty : TTY ε)
  | ptyMaster (pty : PtyMaster)

/-- `vfs_poll`, with `*out_revents` cleared before. -/
def vfsPoll (events : ℕ) : PollInode ε → ℤ × ℕ
  | .directory => (1, 0)
  | .file => Vfs.pollAlwaysReady events
  | .pipe fs a => Vfs.pipefsFileInodePoll fs a events
  | .device => (0, events &&& (fPollIn ||| fPollOut))
  | .input ring => (0, inputPoll ring events 0)
  | .tty tty => (0, tty.poll events 0)
  | .ptyMaster pty => (0, pty.poll events 0)

structure PollFd where
  fd : ℤ
  events : ℕ
  revents : ℕ

/-- `openfiles`, by the inodes. -/
abbrev OpenInodes (ε : Type) := Fin 16 → Option (PollInode ε)

def OpenInodes.at (files : OpenInodes ε) (fd : ℤ) : Option (PollInode ε) := (descriptor fd).bind files

/-- The `for` loop from the `i`-th entry on: the entries it leaves, and the status of `goto failed` or
`available_fd`. -/
def pollScan (files : OpenInodes ε) : ℕ → List PollFd → List PollFd × Except ℤ (Option ℕ)
  | _, [] => ([], .ok none)
  | i, p :: fds =>
    if p.fd < 0 then
      let (fds, r) := pollScan files (i + 1) fds
      (p :: fds, r)
    else
      match files.at p.fd with
      | none => (p :: fds, .error (-Err.badF))
      | some inode =>
        let (rc, revents) := vfsPoll p.events inode
        let p := { p with revents := revents }
        if rc ≠ 0 then (p :: fds, .error rc)
        else if revents ≠ 0 then (p :: fds, .ok (some i))
        else
          let (fds, r) := pollScan files (i + 1) fds
          (p :: fds, r)

structure SystemTimer where
  ticks : ℕ
  ticksPerMs : ℕ

def getTicksMs : Option SystemTimer → ℕ
  | none => 0
  | some timer => timer.ticks / timer.ticksPerMs % 2 ^ 32

/-- What the thread finds in one round: its open files, and the system timer when the round ends. -/
structure PollRound (ε : Type) where
  files : OpenInodes ε
  timer : Option SystemTimer

/-- `(int64_t) (get_ticks_ms() - starttime)`. -/
def waited (now starttime : ℕ) : ℤ := (BitVec.ofNat 64 now - BitVec.ofNat 64 starttime).toInt

/-- One pass of the `do` loop, with the value that `sys$poll` returns after it. -/
def pollPass (timeout : ℤ) (starttime : ℕ) (round : PollRound ε) (fds : List PollFd) : Option ℤ × List PollFd :=
  match pollScan round.files 0 fds with
  | (fds, .error rc) => (some rc, fds)
  | (fds, .ok (some i)) => (some i, fds)
  | (fds, .ok none) =>
    if 0 < timeout ∧ timeout < waited (getTicksMs round.timer) starttime then (some (-Err.timedOut), fds)
    else (none, fds)

/-- `sys$poll` if it returns within `fuel` rounds; `fds` holds the entries below `nfds`. -/
def sysPoll (round : ℕ → PollRound ε) (start : Option SystemTimer) (fds : List PollFd) (timeout : ℤ) (fuel : ℕ) :
    Option (ℤ × List PollFd) :=
  rounds (fun k => pollPass timeout (getTicksMs start) (round k)) fuel 0 fds

/-- `sys$poll` returns `rc` in its round `n`, with `fds'` in the array. -/
def PollReturns (round : ℕ → PollRound ε) (start : Option SystemTimer) (fds : List PollFd) (timeout : ℤ) (n : ℕ)
    (rc : ℤ) (fds' : List PollFd) : Prop :=
  sysPoll round start fds timeout n = none ∧ sysPoll round start fds timeout (n + 1) = some (rc, fds')

section Readiness

def readyMask (canRead canWrite : Bool) : ℕ := (if canRead then fPollIn else 0) ||| if canWrite then fPollOut else 0

/-- The events that an open file is ready for. -/
def PollInode.ready : PollInode ε → ℕ
  | .directory => 0
  | .file => readyMask true true
  | .pipe fs a => readyMask (! (fs.data a).isEmpty) (! (fs.data a).isFull)
  | .device => readyMask true true
  | .input ring => readyMask (! ring.isEmpty) (! ring.isFull)
  | .tty t => readyMask (if t.termios.canonical then 0 < t.availableLines else ! t.inputBuffer.isEmpty) true
  | .ptyMaster pty => readyMask (! pty.output.isEmpty) true

lemma and_fPollIn (events : ℕ) : events &&& fPollIn = 0 ∨ events &&& fPollIn = fPollIn := by
  have h : events &&& fPollIn = (events.testBit 0).toNat * 2 ^ 0 := Nat.and_two_pow events 0
  rw [h]
  cases events.testBit 0
  · exact Or.inl rfl
  · exact Or.inr rfl

lemma and_fPollOut (events : ℕ) : events &&& fPollOut = 0 ∨ events &&& fPollOut = fPollOut := by
  have h : events &&& fPollOut = (events.testBit 2).toNat * 2 ^ 2 := Nat.and_two_pow events 2
  rw [h]
  cases events.testBit 2
  · exact Or.inl rfl
  · exact Or.inr rfl

lemma and_readyMask (events : ℕ) (canRead canWrite : Bool) :
    (if events &&& fPollOut ≠ 0 ∧ canWrite then (if events &&& fPollIn ≠ 0 ∧ canRead then fPollIn else 0) ||| fPollOut
      else if events &&& fPollIn ≠ 0 ∧ canRead then fPollIn else 0) = events &&& readyMask canRead canWrite := by
  rw [readyMask, Nat.and_or_distrib_left]
  rcases and_fPollIn events with hin | hin <;> rcases and_fPollOut events with hout | hout <;>
    cases canRead <;> cases canWrite <;> simp [hin, hout]

lemma vfsPoll_of_ne (events : ℕ) {inode : PollInode ε} (h : inode ≠ .directory) :
    vfsPoll events inode = (0, events &&& inode.ready) := by
  cases inode with
  | directory => exact absurd rfl h
  | file => rfl
  | device => rfl
  | pipe fs a =>
    rw [PollInode.ready, ← and_readyMask]
    simp [vfsPoll, Vfs.pipefsFileInodePoll]
  | input ring =>
    rw [PollInode.ready, ← and_readyMask]
    simp [vfsPoll, inputPoll]
  | tty t =>
    rw [PollInode.ready, ← and_readyMask]
    cases hc : t.termios.canonical <;> simp [vfsPoll, TTY.poll, hc]
  | ptyMaster pty =>
    rw [PollInode.ready, ← and_readyMask]
    simp [vfsPoll, PtyMaster.poll, TTY.poll]

end Readiness

/-- What the caller asks for with an entry. -/
def PollFd.request (p : PollFd) : PollFd := { p with revents := 0 }

/-- The scan goes on behind the entry. -/
def PollFd.Idle (files : OpenInodes ε) (p : PollFd) : Prop :=
  p.fd < 0 ∨ ∃ inode, files.at p.fd = some inode ∧ inode ≠ .directory ∧ p.events &&& inode.ready = 0

/-- The descriptor of the entry is invalid, or its poll fails. -/
def PollFd.Fails (files : OpenInodes ε) (p : PollFd) : Prop :=
  0 ≤ p.fd ∧ ∀ inode, files.at p.fd = some inode → (vfsPoll p.events inode).1 ≠ 0

/-- The entry `i` is `p`, and the scan comes to it. -/
def ScanReaches (files : OpenInodes ε) (fds : List PollFd) (i : ℕ) (p : PollFd) : Prop :=
  fds[i]? = some p ∧ ∀ q ∈ fds.take i, q.Idle files

section Scan

variable {files : OpenInodes ε} {fds : List PollFd} {p : PollFd} {i j : ℕ}

lemma at_neg {fd : ℤ} (h : fd < 0) : files.at fd = none := by
  rw [OpenInodes.at, descriptor, dif_neg fun hfd => absurd hfd.1 (not_le.mpr h)]
  rfl

/-- An entry that the scan has passed. -/
def PollFd.passed (p : PollFd) : PollFd := if p.fd < 0 then p else p.request

lemma pollScan_idle (hp : p.Idle files) :
    pollScan files i (p :: fds) = (p.passed :: (pollScan files (i + 1) fds).1, (pollScan files (i + 1) fds).2) := by
  rcases hp with hneg | ⟨inode, hat, hdir, hnot⟩
  · rw [pollScan, if_pos hneg, PollFd.passed, if_pos hneg]
  · have hnonneg : ¬ p.fd < 0 := fun hneg => by
      rw [at_neg hneg] at hat
      cases hat
    rw [pollScan, if_neg hnonneg, hat, PollFd.passed, if_neg hnonneg]
    simp only [vfsPoll_of_ne p.events hdir, hnot, ne_eq, not_true_eq_false, if_false]
    rfl

lemma pollScan_append {pre : List PollFd} (hpre : ∀ p ∈ pre, p.Idle files) :
    pollScan files i (pre ++ fds) =
      (pre.map PollFd.passed ++ (pollScan files (i + pre.length) fds).1, (pollScan files (i + pre.length) fds).2) := by
  induction pre generalizing i with
  | nil => rfl
  | cons p pre ih =>
    rw [List.cons_append, pollScan_idle (hpre p List.mem_cons_self), ih fun q hq => hpre q (List.mem_cons_of_mem _ hq),
      List.length_cons, Nat.add_assoc, Nat.add_comm 1, List.map_cons, List.cons_append]

/-- What `sys$poll` returns for an entry that is not idle, with the entry behind it. -/
inductive ScanStop (files : OpenInodes ε) (i : ℕ) (p : PollFd) : PollFd → ℤ → Except ℤ (Option ℕ) → Prop
  | closed : files.at p.fd = none → ScanStop files i p p (-Err.badF) (.error (-Err.badF))
  | directory : files.at p.fd = some .directory → ScanStop files i p p.request 1 (.error 1)
  | ready {inode} : files.at p.fd = some inode → inode ≠ .directory → p.events &&& inode.ready ≠ 0 →
    ScanStop files i p { p with revents := p.events &&& inode.ready } i (.ok (some i))

lemma pollScan_stop (hp : ¬ p.Idle files) :
    0 ≤ p.fd ∧ ∃ p' rc r, pollScan files i (p :: fds) = (p' :: fds, r) ∧ ScanStop files i p p' rc r := by
  rw [PollFd.Idle, not_or, not_lt] at hp
  obtain ⟨hfd, hbusy⟩ := hp
  refine ⟨hfd, ?_⟩
  rw [pollScan, if_neg (not_lt.mpr hfd)]
  cases hat : files.at p.fd with
  | none => exact ⟨p, _, _, rfl, .closed hat⟩
  | some inode =>
    by_cases hdir : inode = .directory
    · subst hdir
      exact ⟨p.request, _, _, rfl, .directory hat⟩
    · have hready : p.events &&& inode.ready ≠ 0 := fun hz => hbusy ⟨inode, hat, hdir, hz⟩
      refine ⟨_, _, _, ?_, .ready hat hdir hready⟩
      simp only [vfsPoll_of_ne p.events hdir, ne_eq, not_true_eq_false, if_false, hready, not_false_eq_true, if_true]

lemma exists_stop (h : ¬ ∀ p ∈ fds, p.Idle files) : ∃ i p, ScanReaches files fds i p ∧ ¬ p.Idle files := by
  induction fds with
  | nil => exact absurd (fun p hp => absurd hp List.not_mem_nil) h
  | cons p fds ih =>
    by_cases hp : p.Idle files
    · obtain ⟨i, q, ⟨hq, hbefore⟩, hbusy⟩ := ih fun hall => h (List.forall_mem_cons.mpr ⟨hp, hall⟩)
      exact ⟨i + 1, q, ⟨hq, List.forall_mem_cons.mpr ⟨hp, hbefore⟩⟩, hbusy⟩
    · exact ⟨0, p, ⟨rfl, fun q hq => absurd hq List.not_mem_nil⟩, hp⟩

lemma ScanReaches.mem_take (h : ScanReaches files fds i p) (hij : i < j) : p ∈ fds.take j := by
  refine List.mem_of_getElem? (i := i) ?_
  rw [List.getElem?_take_of_lt hij]
  exact h.1

/-- The scan comes to only one entry that is not idle. -/
lemma ScanReaches.unique {q : PollFd} (h : ScanReaches files fds i p) (hp : ¬ p.Idle files)
    (h' : ScanReaches files fds j q) (hq : ¬ q.Idle files) : i = j ∧ p = q := by
  rcases lt_trichotomy i j with hij | rfl | hij
  · exact absurd (h'.2 p (h.mem_take hij)) hp
  · exact ⟨rfl, Option.some_injective _ (h.1.symm.trans h'.1)⟩
  · exact absurd (h.2 q (h'.mem_take hij)) hq

end Scan

section Pass

variable {round : PollRound ε} {fds fds' : List PollFd} {timeout : ℤ} {starttime i : ℕ} {p : PollFd} {rc : ℤ}

lemma pollPass_idle (h : ∀ p ∈ fds, p.Idle round.files) : pollPass timeout starttime round fds =
    (if 0 < timeout ∧ timeout < waited (getTicksMs round.timer) starttime then some (-Err.timedOut) else none,
      fds.map PollFd.passed) := by
  have hscan := @pollScan_append _ _ [] 0 _ h
  rw [List.append_nil] at hscan
  simp only [pollPass, hscan, pollScan, List.append_nil]
  split <;> rfl

lemma pollPass_stop (h : ScanReaches round.files fds i p) (hp : ¬ p.Idle round.files) :
    0 ≤ p.fd ∧ ∃ p' rc r, pollPass timeout starttime round fds =
      (some rc, (fds.take i).map PollFd.passed ++ p' :: fds.drop (i + 1)) ∧ ScanStop round.files i p p' rc r := by
  obtain ⟨hi, hget⟩ := List.getElem?_eq_some_iff.mp h.1
  have hsplit : fds.take i ++ p :: fds.drop (i + 1) = fds := by
    rw [← hget, List.cons_getElem_drop_succ, List.take_append_drop]
  obtain ⟨hfd, p', rc, r, hs, hstop⟩ := @pollScan_stop _ _ (fds.drop (i + 1)) _ i hp
  have hscan := @pollScan_append _ _ (p :: fds.drop (i + 1)) 0 _ h.2
  rw [hsplit, Nat.zero_add, List.length_take_of_le hi.le, hs] at hscan
  refine ⟨hfd, p', rc, r, ?_, hstop⟩
  cases hstop with
  | closed => simp only [pollPass, hscan]
  | directory => simp only [pollPass, hscan]
  | ready => simp only [pollPass, hscan]

end Pass

/-- A value that `sys$poll` may return for `fds` over the open `files`, with `fds'` left in the array. -/
structure PollCorrect (files : OpenInodes ε) (fds fds' : List PollFd) (rc : ℤ) : Prop where
  requests : fds'.map PollFd.request = fds.map PollFd.request
  failure : ∀ i p, ScanReaches files fds i p → p.Fails files → rc < 0
  index : 0 ≤ rc → ∃ r p inode, rc = (r : ℕ) ∧ r < fds.length ∧ fds'[r]? = some p ∧ 0 ≤ p.fd ∧
    files.at p.fd = some inode ∧ p.revents ≠ 0 ∧ p.revents &&& p.events = p.revents ∧
    ∀ q ∈ fds.take r, ∀ inode, files.at q.fd = some inode → q.events &&& inode.ready = 0

/-- The scan comes to a directory. -/
def MeetsDirectory (files : OpenInodes ε) (fds : List PollFd) : Prop :=
  ∃ i p, ScanReaches files fds i p ∧ files.at p.fd = some .directory

/-- Nothing is ready in a round and no timeout is over. -/
def Waits (start : Option SystemTimer) (fds : List PollFd) (timeout : ℤ) (round : PollRound ε) : Prop :=
  (∀ p ∈ fds, p.Idle round.files) ∧ ¬ (0 < timeout ∧ timeout < waited (getTicksMs round.timer) (getTicksMs start))

section Requests

variable {files : OpenInodes ε} {fds fds' t : List PollFd} {p : PollFd} {i : ℕ} {rc : ℤ}

lemma request_eq {q : PollFd} (h : q.request = p.request) : q.fd = p.fd ∧ q.events = p.events := by
  rw [PollFd.request, PollFd.request, PollFd.mk.injEq] at h
  exact ⟨h.1, h.2.1⟩

lemma request_passed (p : PollFd) : p.passed.request = p.request := by
  rw [PollFd.passed]
  split <;> rfl

lemma map_passed (fds : List PollFd) : (fds.map PollFd.passed).map PollFd.request = fds.map PollFd.request := by
  rw [List.map_map]
  exact List.map_congr_left fun p _ => request_passed p

lemma ScanStop.request {p' : PollFd} {r : Except ℤ (Option ℕ)} (h : ScanStop files i p p' rc r) :
    p'.request = p.request := by
  cases h <;> rfl

lemma idle_congr (h : t.map PollFd.request = fds.map PollFd.request) :
    (∀ p ∈ t, p.Idle files) ↔ ∀ p ∈ fds, p.Idle files := by
  have hmap : ∀ l : List PollFd, (∀ p ∈ l.map PollFd.request, p.Idle files) ↔ ∀ p ∈ l, p.Idle files :=
    fun l => List.forall_mem_map
  rw [← hmap t, h, hmap]

lemma take_congr (h : t.map PollFd.request = fds.map PollFd.request) (i : ℕ) :
    (t.take i).map PollFd.request = (fds.take i).map PollFd.request := by
  rw [List.map_take, h, List.map_take]

lemma ScanReaches.congr (h : t.map PollFd.request = fds.map PollFd.request) (hr : ScanReaches files fds i p) :
    ∃ q, ScanReaches files t i q ∧ q.request = p.request := by
  have hget : (t.map PollFd.request)[i]? = some p.request := by
    rw [h, List.getElem?_map, hr.1]
    rfl
  rw [List.getElem?_map, Option.map_eq_some_iff] at hget
  obtain ⟨q, hq, hqp⟩ := hget
  exact ⟨q, ⟨hq, (idle_congr (take_congr h i)).mpr hr.2⟩, hqp⟩

lemma PollCorrect.congr (h : t.map PollFd.request = fds.map PollFd.request) (hc : PollCorrect files t fds' rc) :
    PollCorrect files fds fds' rc where
  requests := hc.requests.trans h
  failure i p hr hf := by
    obtain ⟨q, hq, hqp⟩ := hr.congr h
    obtain ⟨hfd, hev⟩ := request_eq hqp
    exact hc.failure i q hq (by rwa [PollFd.Fails, hfd, hev])
  index hrc := by
    obtain ⟨r, p, inode, hr, hlt, hget, hfd, hat, hne, hsub, hbefore⟩ := hc.index hrc
    have hlen : t.length = fds.length := by simpa using congrArg List.length h
    refine ⟨r, p, inode, hr, hlen ▸ hlt, hget, hfd, hat, hne, hsub, fun q hq => ?_⟩
    have hmem : q.request ∈ (t.take r).map PollFd.request := by
      rw [take_congr h]
      exact List.mem_map_of_mem hq
    obtain ⟨q', hq', hqq⟩ := List.mem_map.mp hmem
    obtain ⟨hfd', hev⟩ := request_eq hqq
    rw [← hfd', ← hev]
    exact hbefore q' hq'

end Requests

section Runs

variable {round : ℕ → PollRound ε} {start : Option SystemTimer} {fds fds' t : List PollFd} {timeout : ℤ}
  {n : ℕ} {rc : ℤ}

lemma PollFd.Fails.not_idle {files : OpenInodes ε} {p : PollFd} (h : p.Fails files) : ¬ p.Idle files := by
  rintro (hneg | ⟨inode, hat, hdir, -⟩)
  · exact absurd h.1 (not_le.mpr hneg)
  · refine h.2 inode hat ?_
    rw [vfsPoll_of_ne _ hdir]

lemma MeetsDirectory.fails {files : OpenInodes ε} {p : PollFd} (h : files.at p.fd = some .directory) :
    p.Fails files := by
  refine ⟨not_lt.mp fun hneg => ?_, fun inode hat => ?_⟩
  · rw [at_neg hneg] at h
    cases h
  · rw [h] at hat
    cases hat
    exact one_ne_zero

lemma pollPass_correct {round : PollRound ε} {starttime : ℕ} (hdir : ¬ MeetsDirectory round.files t)
    (h : pollPass timeout starttime round t = (some rc, fds')) : PollCorrect round.files t fds' rc := by
  by_cases hidle : ∀ p ∈ t, p.Idle round.files
  · rw [pollPass_idle hidle] at h
    split at h
    · cases h
      exact ⟨map_passed t, fun _ _ _ _ => by decide, fun hrc => absurd hrc (by decide)⟩
    · cases h
  · obtain ⟨i, p, hreach, hbusy⟩ := exists_stop hidle
    obtain ⟨hfd, p', rc', r, hpass, hstop⟩ := @pollPass_stop _ _ _ timeout starttime _ _ hreach hbusy
    rw [hpass] at h
    cases h
    obtain ⟨hi, hget⟩ := List.getElem?_eq_some_iff.mp hreach.1
    have hreq : ((t.take i).map PollFd.passed ++ p' :: t.drop (i + 1)).map PollFd.request =
        t.map PollFd.request := by
      rw [List.map_append, map_passed, List.map_cons, hstop.request, ← List.map_cons, ← List.map_append, ← hget,
        List.cons_getElem_drop_succ, List.take_append_drop]
    cases hstop with
    | closed => exact ⟨hreq, fun _ _ _ _ => by decide, fun hrc => absurd hrc (by decide)⟩
    | directory hat => exact absurd ⟨i, p, hreach, hat⟩ hdir
    | @ready inode hat hne hready =>
      refine ⟨hreq, fun j q hq hfails => ?_, fun _ =>
        ⟨i, { p with revents := p.events &&& inode.ready }, inode, rfl, hi, ?_, hfd, hat, hready, ?_, ?_⟩⟩
      · obtain ⟨-, rfl⟩ := hreach.unique hbusy hq hfails.not_idle
        refine absurd ?_ (hfails.2 inode hat)
        rw [vfsPoll_of_ne _ hne]
      · have hlen : ((t.take i).map PollFd.passed).length = i := by
          rw [List.length_map, List.length_take_of_le hi.le]
        rw [List.getElem?_append_right hlen.le, hlen, Nat.sub_self]
        rfl
      · change p.events &&& inode.ready &&& p.events = p.events &&& inode.ready
        rw [Nat.and_right_comm, Nat.and_self]
      · intro q hq inode' hat'
        rcases hreach.2 q hq with hneg | ⟨inode'', hat'', -, hnot⟩
        · rw [at_neg hneg] at hat'
          cases hat'
        · rw [hat'] at hat''
          cases hat''
          exact hnot

lemma poll_steady : Steady (fun k => pollPass timeout (getTicksMs start) (round k))
    (fun t => t.map PollFd.request = fds.map PollFd.request) (fun k => Waits start fds timeout (round k)) where
  goes_iff k t ht := by
    rw [Waits, ← idle_congr ht]
    by_cases hidle : ∀ p ∈ t, p.Idle (round k).files
    · rw [pollPass_idle hidle]
      dsimp only
      split
      · rename_i hover
        exact ⟨nofun, fun hw => absurd hover hw.2⟩
      · rename_i hover
        exact ⟨fun _ => ⟨hidle, hover⟩, fun _ => rfl⟩
    · obtain ⟨i, p, hreach, hbusy⟩ := exists_stop hidle
      obtain ⟨-, p', rc, r, hpass, -⟩ := @pollPass_stop _ _ _ timeout (getTicksMs start) _ _ hreach hbusy
      rw [hpass]
      exact ⟨nofun, fun hw => absurd hw.1 hidle⟩
  keeps k t ht hw := by
    rw [pollPass_idle ((idle_congr ht).mpr hw.1)]
    exact (map_passed t).trans ht

theorem sysPoll_correct_iff (round : ℕ → PollRound ε) (start : Option SystemTimer) (fds : List PollFd) (timeout : ℤ) :
    (∀ n rc fds', PollReturns round start fds timeout n rc fds' → PollCorrect (round n).files fds fds' rc) ↔
      ∀ n, (∀ k < n, Waits start fds timeout (round k)) → ¬ MeetsDirectory (round n).files fds := by
  constructor
  · rintro hall n hwaits ⟨i, p, hreach, hat⟩
    have hbusy := (MeetsDirectory.fails hat).not_idle
    have hends : ¬ Waits start fds timeout (round n) := fun hw => by
      obtain ⟨hi, hget⟩ := List.getElem?_eq_some_iff.mp hreach.1
      exact hbusy (hget ▸ hw.1 _ (List.getElem_mem hi))
    obtain ⟨hnone, t, rc, fds', ht, hpass, hrun⟩ := poll_steady.ends_at rfl hwaits hends
    -- the status of `vfs_poll` for the directory is taken for an index
    have hneg := (hall n rc fds' ⟨hnone, hrun⟩).failure i p hreach (MeetsDirectory.fails hat)
    obtain ⟨q, hq, hqp⟩ := hreach.congr ht
    rw [← (request_eq hqp).1] at hat
    obtain ⟨-, p', rc', r, hpass', hstop⟩ := pollPass_stop hq (MeetsDirectory.fails hat).not_idle
    rw [hpass'] at hpass
    cases hpass
    cases hstop with
    | closed hc =>
      rw [hat] at hc
      cases hc
    | directory => exact absurd hneg (by decide)
    | ready hc hne =>
      rw [hat] at hc
      cases hc
      exact hne rfl
  · rintro hdir n rc fds' ⟨hnone, hrun⟩
    obtain ⟨hwaits, t, ht, hpass⟩ := poll_steady.ended rfl hnone hrun
    refine (pollPass_correct ?_ hpass).congr ht
    rintro ⟨i, p, hreach, hat⟩
    obtain ⟨q, hq, hqp⟩ := hreach.congr ht.symm
    exact hdir n hwaits ⟨i, q, hq, by rwa [(request_eq hqp).1]⟩

/-- `sys$poll` of one open directory returns 1. -/
theorem sysPoll_directory :
    PollReturns (ε := Unit) (fun _ => ⟨fun _ => some .directory, none⟩) none [⟨3, fPollIn, 0⟩] 0 0 1 [⟨3, fPollIn, 0⟩] ∧
      ¬ PollCorrect (ε := Unit) (fun _ => some .directory) [⟨3, fPollIn, 0⟩] [⟨3, fPollIn, 0⟩] 1 := by
  refine ⟨⟨rfl, rfl⟩, fun h => ?_⟩
  obtain ⟨r, p, inode, hr, hlt, -⟩ := h.index (by decide)
  have hr' : r = 1 := by omega
  rw [hr'] at hlt
  exact absurd hlt (by decide)

end Runs

end Pi0Os.Task
