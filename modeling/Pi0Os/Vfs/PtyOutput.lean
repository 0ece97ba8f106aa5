import Pi0Os.Library.TransitionSystem
import Pi0Os.Drivers.Tty
import Pi0Os.Vfs.FileIo

/-! The output of a pseudo-terminal: what the writers of the slave hand over against what the
readers of the master get, through the files of `ptyfs.cpp`. -/

namespace Pi0Os.Vfs

open Kernel Library Drivers Drivers.Termios Drivers.Ascii

def ptyMasterOps : FileOps PtyMaster where
  read pty _ size :=
    let (out, pty) := pty.read size
    .ok (out.length, out, pty)
  write pty _ buffer := .ok (pty.write buffer)
  seekCur _ _ _ := 0
  poll pty events := (0, pty.poll events 0)

def ptySlaveOps : FileOps PtyMaster where
  read pty _ size := do
    let (out, pty) ← TTY.read pty size
    return (out.length, out, pty)
  write pty _ buffer := .ok (TTY.write PtySlave.echoRaw pty buffer)
  seekCur _ _ _ := 0
  poll pty events := (0, TTY.poll pty events 0)

/-- The bytes that a terminal shows for the bytes written to it. -/
def expand (t : Termios) (bytes : List UInt8) : List UInt8 :=
  bytes.flatMap fun ch => if t.cOflag &&& onlcr ≠ 0 ∧ ch = newline then [carriageReturn, ch] else [ch]

/-- A pseudo-terminal with the bytes that the slave has accepted and the master has returned. -/
structure PtyTraffic where
  pty : PtyMaster
  accepted : List UInt8
  returned : List UInt8

/-- Calls that have come through the loops in which they wait. -/
inductive PtyCall where
  | slaveWrite (custody : FileCustody) (buffer : List UInt8)
  | masterRead (custody : FileCustody) (size : ℕ)

inductive PtyStep : PtyTraffic → PtyCall → PtyTraffic → Prop
  | slaveWrite {s custody buffer rc custody' pty'} :
      vfsWrite ptySlaveOps s.pty custody buffer = .ok (some (rc, custody', pty')) →
      PtyStep s (.slaveWrite custody buffer)
        { s with pty := pty', accepted := s.accepted ++ buffer.take rc.toNat }
  | masterRead {s custody size rc out custody' pty'} :
      vfsRead ptyMasterOps s.pty custody size = .ok (some (rc, out, custody', pty')) →
      PtyStep s (.masterRead custody size) { s with pty := pty', returned := s.returned ++ out.take rc.toNat }

def ptyTraffic : TransitionSystem PtyTraffic PtyCall where
  Init s := s.pty.output.contents = [] ∧ s.accepted = [] ∧ s.returned = []
  Step := PtyStep

/-- What the master has returned and what it still stores is all that the slave has accepted. -/
def NoOutputLost (s : PtyTraffic) : Prop :=
  s.returned ++ s.pty.output.contents = expand s.pty.termios s.accepted

/-- A write that is let through expands to no more than there is room for. -/
def WriteFits (s : PtyTraffic) : PtyCall → Prop
  | .slaveWrite custody buffer => custody.flags &&& ofAccmode ≠ ofRdonly →
      s.pty.output.contents.length + (expand s.pty.termios buffer).length ≤ 4096
  | .masterRead .. => True

section Echo

lemma expand_append (t : Termios) (l m : List UInt8) : expand t (l ++ m) = expand t l ++ expand t m :=
  List.flatMap_append

lemma length_le_expand (t : Termios) (l : List UInt8) : l.length ≤ (expand t l).length := by
  induction l with
  | nil => exact le_refl _
  | cons ch l ih =>
    rw [expand, List.flatMap_cons, List.length_append, List.length_cons]
    have hone : 1 ≤ (if t.cOflag &&& onlcr ≠ 0 ∧ ch = newline then [carriageReturn, ch] else [ch]).length := by
      split <;> simp
    change l.length + 1 ≤ _ + (expand t l).length
    omega

lemma echo_contents (pty : PtyMaster) (ch : UInt8) :
    (TTY.echo PtySlave.echoRaw pty ch).termios = pty.termios ∧
      (TTY.echo PtySlave.echoRaw pty ch).output.contents =
        (pty.output.contents ++ expand pty.termios [ch]).rtake 4096 := by
  unfold TTY.echo
  by_cases h : pty.termios.cOflag &&& onlcr ≠ 0 ∧ ch = newline
  · refine ⟨by rw [if_pos h]; rfl, ?_⟩
    rw [if_pos h, expand, List.flatMap_singleton, if_pos h]
    simp only [TTY.echoRaw, PtySlave.echoRaw, RingBuffer.contents_push]
    rw [rtake_rtake_append, List.append_assoc]
    rfl
  · refine ⟨by rw [if_neg h]; rfl, ?_⟩
    rw [if_neg h, expand, List.flatMap_singleton, if_neg h]
    simp only [TTY.echoRaw, PtySlave.echoRaw, RingBuffer.contents_push]

lemma write_contents (buffer : List UInt8) (pty : PtyMaster) :
    (TTY.write PtySlave.echoRaw pty buffer).2.termios = pty.termios ∧
      (TTY.write PtySlave.echoRaw pty buffer).2.output.contents =
        (pty.output.contents ++ expand pty.termios buffer).rtake 4096 := by
  change (buffer.foldl _ pty).termios = _ ∧ (buffer.foldl _ pty).output.contents = _
  induction buffer generalizing pty with
  | nil =>
    refine ⟨rfl, ?_⟩
    rw [expand, List.flatMap_nil, List.append_nil, rtake_of_length_le (RingBuffer.length_contents_le _)]
    rfl
  | cons ch buffer ih =>
    obtain ⟨ht, hc⟩ := echo_contents pty ch
    obtain ⟨ht', hc'⟩ := ih (TTY.echo PtySlave.echoRaw pty ch)
    refine ⟨ht'.trans ht, ?_⟩
    rw [List.foldl_cons, hc', hc, ht, rtake_rtake_append, List.append_assoc, ← expand_append,
      List.singleton_append]

end Echo

section Runs

variable {s s' : PtyTraffic} {call : PtyCall}

lemma masterRead_kept (h : NoOutputLost s) {custody : FileCustody} {size : ℕ}
    (hs : PtyStep s (.masterRead custody size) s') : NoOutputLost s' := by
  cases hs with
  | masterRead hr =>
    rcases vfsRead_some hr with ⟨rfl, rfl, rfl⟩ | ⟨rc', hread, rfl⟩
    · rw [NoOutputLost, List.take_nil, List.append_nil]
      exact h
    · obtain ⟨hout, hrest⟩ := s.pty.output.popUpTo_spec size
      cases hread
      have hlen : (s.pty.output.popUpTo size).1.length < 2 ^ 31 := by
        have := s.pty.output.length_contents_le
        rw [hout, List.length_take]
        omega
      have htake : (s.pty.output.popUpTo size).1.take
          (ssize ((s.pty.output.popUpTo size).1.length : ℤ)).toNat = (s.pty.output.popUpTo size).1 := by
        rw [ssize_of_lt hlen, Int.toNat_natCast, List.take_length]
      change (s.returned ++ List.take _ (s.pty.output.popUpTo size).1) ++ (s.pty.output.popUpTo size).2.contents =
        expand s.pty.termios s.accepted
      rw [htake, hout, hrest, List.append_assoc, List.take_append_drop]
      exact h

lemma denied_kept (h : NoOutputLost s) (buffer : List UInt8) :
    NoOutputLost { s with accepted := s.accepted ++ buffer.take (-Err.perm).toNat } := by
  rw [NoOutputLost, show (-Err.perm).toNat = 0 from rfl, List.take_zero, List.append_nil]
  exact h

lemma slaveWrite_iff (h : NoOutputLost s) {custody : FileCustody} {buffer : List UInt8}
    (hlt : buffer.length < 2 ^ 31) (hs : PtyStep s (.slaveWrite custody buffer) s') :
    NoOutputLost s' ↔ WriteFits s (.slaveWrite custody buffer) := by
  cases hs with
  | slaveWrite hw =>
    rcases vfsWrite_some hw with ⟨hro, rfl, rfl⟩ | ⟨hrw, rc', hwrite, rfl⟩
    · exact iff_of_true (denied_kept h buffer) fun hn => absurd hro hn
    · obtain ⟨ht, hc⟩ := write_contents buffer s.pty
      cases hwrite
      have hall : buffer.take (ssize (buffer.length : ℤ)).toNat = buffer := by
        rw [ssize_of_lt hlt, Int.toNat_natCast, List.take_length]
      have hexp : expand s.pty.termios (s.accepted ++ buffer) =
          s.returned ++ (s.pty.output.contents ++ expand s.pty.termios buffer) := by
        rw [expand_append, ← h, List.append_assoc]
      have hgoal : NoOutputLost { s with
            pty := (TTY.write PtySlave.echoRaw s.pty buffer).2
            accepted := s.accepted ++ buffer.take (ssize (buffer.length : ℤ)).toNat } ↔
          (s.pty.output.contents ++ expand s.pty.termios buffer).rtake 4096 =
            s.pty.output.contents ++ expand s.pty.termios buffer := by
        rw [NoOutputLost, hall, hc, ht, hexp, List.append_right_inj]
      refine hgoal.trans ⟨fun he _ => ?_, fun hf => rtake_of_length_le ?_⟩
      · rw [← List.length_append, ← he, length_rtake]
        exact Nat.min_le_left _ _
      · rw [List.length_append]
        exact hf hrw

lemma restrict_inductive : (ptyTraffic.restrict WriteFits).Inductive NoOutputLost := by
  constructor
  · rintro s ⟨hc, ha, hr⟩
    rw [NoOutputLost, hc, ha, hr]
    rfl
  · rintro s call s' h ⟨hs, hf⟩
    cases call with
    | masterRead custody size => exact masterRead_kept h hs
    | slaveWrite custody buffer =>
      by_cases hro : custody.flags &&& ofAccmode = ofRdonly
      · cases hs with
        | slaveWrite hw =>
          rcases vfsWrite_some hw with ⟨-, rfl, rfl⟩ | ⟨hrw, -⟩
          · exact denied_kept h buffer
          · exact absurd hro hrw
      · have hlen := length_le_expand s.pty.termios buffer
        have hfit := hf hro
        exact (slaveWrite_iff h (by omega) hs).mpr hf

/-- Runs whose writes all fit lose no output; and a write that does not fit always loses some. -/
theorem ptyOutput_kept (s : PtyTraffic) :
    ((ptyTraffic.restrict WriteFits).Reachable s → NoOutputLost s) ∧
    ∀ custody buffer s', NoOutputLost s → buffer.length < 2 ^ 31 →
      ptyTraffic.Step s (.slaveWrite custody buffer) s' →
      (NoOutputLost s' ↔ WriteFits s (.slaveWrite custody buffer)) :=
  ⟨fun h => h.invariant restrict_inductive, fun _ _ _ h hlt hs => slaveWrite_iff h hlt hs⟩

lemma slaveWrite_proceeds (s : PtyTraffic) (custody : FileCustody) (buffer : List UInt8)
    (hrw : custody.flags &&& ofAccmode ≠ ofRdonly) : ∃ s', PtyStep s (.slaveWrite custody buffer) s' := by
  have hready : waitsFor ptySlaveOps s.pty fPollOut = false := by
    simp [waitsFor, ptySlaveOps, TTY.poll]
  have hw : ∃ r, vfsWrite ptySlaveOps s.pty custody buffer = .ok (some r) := by
    rw [vfsWrite, if_neg hrw, hready, if_neg (by simp)]
    exact ⟨_, rfl⟩
  obtain ⟨⟨rc, custody', pty'⟩, hw⟩ := hw
  exact ⟨_, .slaveWrite hw⟩

def newTraffic : PtyTraffic := ⟨PtyMaster.new, [], []⟩

def writer : FileCustody := ⟨0, ofWronly, 0⟩

theorem ptyOutput_kept_line : ∃ s, ptyTraffic.Step newTraffic (.slaveWrite writer [0x61, 0x0a]) s ∧ NoOutputLost s := by
  have hfit : WriteFits newTraffic (.slaveWrite writer [0x61, 0x0a]) := fun _ => by decide
  obtain ⟨s, hs⟩ := slaveWrite_proceeds newTraffic writer [0x61, 0x0a] (by decide)
  obtain ⟨hkept, hwrite⟩ := ptyOutput_kept newTraffic
  exact ⟨s, hs, (hwrite writer [0x61, 0x0a] s (hkept (.init ⟨rfl, rfl, rfl⟩)) (by decide) hs).mpr hfit⟩

/-- One write of 4097 bytes: the first of them is dropped. -/
theorem slaveWrite_overruns : ptyTraffic.Init newTraffic ∧ ∃ s,
    ptyTraffic.Step newTraffic (.slaveWrite writer (List.replicate 4097 0x61)) s ∧ ¬ NoOutputLost s := by
  refine ⟨⟨rfl, rfl, rfl⟩, ?_⟩
  obtain ⟨s, hs⟩ := slaveWrite_proceeds newTraffic writer (List.replicate 4097 0x61) (by decide)
  have hkept : NoOutputLost newTraffic := rfl
  refine ⟨s, hs, fun h => ?_⟩
  have hfit := (slaveWrite_iff hkept (by rw [List.length_replicate]; norm_num) hs).mp h (by decide)
  have hlen := length_le_expand newTraffic.pty.termios (List.replicate 4097 0x61)
  rw [List.length_replicate] at hlen
  omega

end Runs

end Pi0Os.Vfs
