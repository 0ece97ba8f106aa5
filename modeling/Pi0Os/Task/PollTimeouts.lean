import Mathlib.Order.Monotone.Basic
import Pi0Os.Task.Poll

/-! The timeout of `sys$poll` over the milliseconds that the system timer has really counted. -/

namespace Pi0Os.Task

open Kernel Library Drivers

variable {ε : Type}

/-- The system timer when `sys$poll` is called and at the end of each round. -/
structure PollClock where
  ticksPerMs : ℕ
  start : ℕ
  ticks : ℕ → ℕ
  start_le : start ≤ ticks 0
  monotone : Monotone ticks

namespace PollClock

variable (c : PollClock)

/-- The milliseconds since the call, which no counter cuts off. -/
def elapsed (k : ℕ) : ℕ := c.ticks k / c.ticksPerMs - c.start / c.ticksPerMs

def starttime : Option SystemTimer := some ⟨c.start, c.ticksPerMs⟩

def timer (k : ℕ) : Option SystemTimer := some ⟨c.ticks k, c.ticksPerMs⟩

def rounds (files : ℕ → OpenInodes ε) (k : ℕ) : PollRound ε := ⟨files k, c.timer k⟩

/-- `get_ticks_ms` starts again at zero between the call and the end of the round. -/
def Wraps (k : ℕ) : Prop := 2 ^ 32 ≤ getTicksMs c.starttime + c.elapsed k

end PollClock

/-- `sys$poll` returns `-ERR_TIMEDOUT` in its round `n`. -/
def GivesUpAt (c : PollClock) (files : ℕ → OpenInodes ε) (fds : List PollFd) (timeout : ℤ) (n : ℕ) : Prop :=
  ∃ fds', PollReturns (c.rounds files) c.starttime fds timeout n (-Err.timedOut) fds'

/-- In the rounds up to the `n`-th no descriptor is ready, and the `n`-th is the first behind the timeout. -/
structure FirstOver (c : PollClock) (files : ℕ → OpenInodes ε) (fds : List PollFd) (timeout : ℤ) (n : ℕ) : Prop where
  idle : ∀ k ≤ n, ∀ p ∈ fds, p.Idle (files k)
  before : ∀ k < n, c.elapsed k ≤ timeout
  exceeded : timeout < c.elapsed n

section Counter

variable {c : PollClock} {k n : ℕ}

lemma getTicksMs_lt (timer : Option SystemTimer) : getTicksMs timer < 2 ^ 32 := by
  cases timer with
  | none => exact Nat.two_pow_pos 32
  | some timer => exact Nat.mod_lt _ (Nat.two_pow_pos 32)

lemma waited_eq {now starttime : ℕ} (hn : now < 2 ^ 32) (hs : starttime < 2 ^ 32) :
    waited now starttime = (now : ℤ) - starttime := by
  have hmod : ∀ x : ℤ, -2 ^ 32 < x → x < 2 ^ 32 → x.bmod (2 ^ 64) = x := fun x hlo hhi =>
    Int.bmod_eq_of_le (by omega) (by omega)
  rw [waited, BitVec.toInt_sub, BitVec.toInt_ofNat', BitVec.toInt_ofNat', hmod now (by omega) (by omega),
    hmod starttime (by omega) (by omega), hmod _ (by omega) (by omega)]

lemma getTicksMs_timer (c : PollClock) (k : ℕ) :
    getTicksMs (c.timer k) = (getTicksMs c.starttime + c.elapsed k) % 2 ^ 32 := by
  have hle : c.start / c.ticksPerMs ≤ c.ticks k / c.ticksPerMs :=
    Nat.div_le_div_right (c.start_le.trans (c.monotone (Nat.zero_le k)))
  change c.ticks k / c.ticksPerMs % 2 ^ 32 = (c.start / c.ticksPerMs % 2 ^ 32 +
    (c.ticks k / c.ticksPerMs - c.start / c.ticksPerMs)) % 2 ^ 32
  rw [Nat.mod_add_mod, Nat.add_sub_cancel' hle]

lemma waited_of_wraps (h : c.Wraps k) (he : c.elapsed k < 2 ^ 31) :
    waited (getTicksMs (c.timer k)) (getTicksMs c.starttime) < 0 := by
  have hs := getTicksMs_lt c.starttime
  rw [waited_eq (getTicksMs_lt _) hs, getTicksMs_timer]
  rw [PollClock.Wraps] at h
  omega

lemma waited_of_not_wraps (h : ¬ c.Wraps k) :
    waited (getTicksMs (c.timer k)) (getTicksMs c.starttime) = c.elapsed k := by
  rw [PollClock.Wraps, not_le] at h
  rw [waited_eq (getTicksMs_lt _) (getTicksMs_lt _), getTicksMs_timer, Nat.mod_eq_of_lt h]
  omega

lemma PollClock.Wraps.mono (h : c.Wraps k) (hkn : k ≤ n) : c.Wraps n := by
  refine h.trans (Nat.add_le_add_left ?_ _)
  exact Nat.sub_le_sub_right (Nat.div_le_div_right (c.monotone hkn)) _

end Counter

section Timeout

variable {c : PollClock} {files : ℕ → OpenInodes ε} {fds t fds' : List PollFd} {timeout : ℤ} {n k : ℕ}

lemma pollPass_timedOut {round : PollRound ε} {starttime : ℕ}
    (h : pollPass timeout starttime round t = (some (-Err.timedOut), fds')) :
    (∀ p ∈ t, p.Idle round.files) ∧ timeout < waited (getTicksMs round.timer) starttime := by
  by_cases hidle : ∀ p ∈ t, p.Idle round.files
  · rw [pollPass_idle hidle] at h
    split at h
    · rename_i hover
      exact ⟨hidle, hover.2⟩
    · cases h
  · obtain ⟨i, p, hreach, hbusy⟩ := exists_stop hidle
    obtain ⟨-, p', rc, r, hpass, hstop⟩ := @pollPass_stop _ _ _ timeout starttime _ _ hreach hbusy
    rw [hpass] at h
    obtain ⟨hrc, -⟩ := Prod.mk.inj h
    cases hstop with
    | closed => cases hrc
    | directory => cases hrc
    | ready => cases hrc

lemma GivesUpAt.not_wraps (hpos : 0 < timeout) (he : c.elapsed n < 2 ^ 31) (h : GivesUpAt c files fds timeout n) :
    ¬ c.Wraps n := by
  obtain ⟨fds', hnone, hrun⟩ := h
  obtain ⟨-, t, -, hpass⟩ := poll_steady.ended rfl hnone hrun
  -- a counter that has started again makes the difference negative
  exact fun hw => absurd (hpos.trans (pollPass_timedOut hpass).2) (not_lt.mpr (waited_of_wraps hw he).le)

lemma GivesUpAt.firstOver (hpos : 0 < timeout) (h : GivesUpAt c files fds timeout n) (hn : ¬ c.Wraps n) :
    FirstOver c files fds timeout n := by
  obtain ⟨fds', hnone, hrun⟩ := h
  obtain ⟨hwaits, t, ht, hpass⟩ := poll_steady.ended rfl hnone hrun
  obtain ⟨hidle, hover⟩ := pollPass_timedOut hpass
  refine ⟨fun k hk => ?_, fun k hk => ?_, ?_⟩
  · rcases hk.eq_or_lt with rfl | hlt
    · exact (idle_congr ht).mp hidle
    · exact (hwaits k hlt).1
  · have hle := (hwaits k hk).2
    rw [not_and] at hle
    rw [← waited_of_not_wraps fun hw => hn (hw.mono hk.le)]
    exact not_lt.mp (hle hpos)
  · rw [← waited_of_not_wraps hn]
    exact hover

lemma FirstOver.givesUpAt (hpos : 0 < timeout) (h : FirstOver c files fds timeout n) (hn : ¬ c.Wraps n) :
    GivesUpAt c files fds timeout n := by
  have hover : 0 < timeout ∧ timeout < waited (getTicksMs (c.timer n)) (getTicksMs c.starttime) := by
    rw [waited_of_not_wraps hn]
    exact ⟨hpos, h.exceeded⟩
  have hwaits : ∀ k < n, Waits c.starttime fds timeout (c.rounds files k) := fun k hk => by
    refine ⟨h.idle k hk.le, fun hlate => ?_⟩
    have hlt : timeout < waited (getTicksMs (c.timer k)) (getTicksMs c.starttime) := hlate.2
    rw [waited_of_not_wraps fun hw => hn (hw.mono hk.le)] at hlt
    exact absurd (h.before k hk) (not_le.mpr hlt)
  obtain ⟨hnone, t, rc, fds', ht, hpass, hrun⟩ := poll_steady.ends_at rfl hwaits fun hw => hw.2 hover
  rw [pollPass_idle ((idle_congr ht).mpr (h.idle n le_rfl))] at hpass
  have hrc : (if 0 < timeout ∧ timeout < waited (getTicksMs (c.timer n)) (getTicksMs c.starttime)
      then some (-Err.timedOut) else none) = some rc := congrArg Prod.fst hpass
  rw [if_pos hover] at hrc
  cases hrc
  exact ⟨fds', hnone, hrun⟩

theorem givesUpAt_iff_firstOver (c : PollClock) (files : ℕ → OpenInodes ε) (fds : List PollFd) (timeout : ℤ)
    (hpos : 0 < timeout) :
    (∀ n, c.elapsed n < 2 ^ 31 → (GivesUpAt c files fds timeout n ↔ FirstOver c files fds timeout n)) ↔
      ∀ n, c.elapsed n < 2 ^ 31 → FirstOver c files fds timeout n → ¬ c.Wraps n := by
  constructor
  · exact fun hall n he hf => ((hall n he).mpr hf).not_wraps hpos he
  · exact fun hall n he => ⟨fun hg => hg.firstOver hpos (hg.not_wraps hpos he),
      fun hf => hf.givesUpAt hpos (hall n he hf)⟩

/-- The counter stands at `ms` when `sys$poll` is called, and each round takes 20 milliseconds. -/
def slowRounds (ms : ℕ) : PollClock where
  ticksPerMs := 1
  start := ms
  ticks k := ms + 20 * (k + 1)
  start_le := Nat.le_add_right ms 20
  monotone _ _ hkn := Nat.add_le_add_left (Nat.mul_le_mul_left 20 (Nat.succ_le_succ hkn)) ms

lemma elapsed_slowRounds (ms k : ℕ) : (slowRounds ms).elapsed k = 20 * (k + 1) := by
  change (ms + 20 * (k + 1)) / 1 - ms / 1 = 20 * (k + 1)
  rw [Nat.div_one, Nat.div_one, Nat.add_sub_cancel_left]

/-- The reading end of an empty pseudo-terminal. -/
def idleFiles (_ : ℕ) : OpenInodes Unit := fun _ => some (.ptyMaster PtyMaster.new)

lemma firstOver_slowRounds (ms : ℕ) : FirstOver (slowRounds ms) idleFiles [⟨0, fPollIn, 0⟩] 10 0 where
  idle k _ p hp := by
    cases List.mem_singleton.mp hp
    exact Or.inr ⟨_, rfl, nofun, rfl⟩
  before k hk := absurd hk (Nat.not_lt_zero k)
  exceeded := by
    rw [elapsed_slowRounds]
    decide

theorem givesUpAt_iff_firstOver_slow : GivesUpAt (slowRounds 5) idleFiles [⟨0, fPollIn, 0⟩] 10 0 := by
  refine ((givesUpAt_iff_firstOver (slowRounds 5) idleFiles [⟨0, fPollIn, 0⟩] 10 (by decide)).mpr ?_ 0 ?_).mpr
    (firstOver_slowRounds 5)
  · intro n he _ hw
    rw [PollClock.Wraps] at hw
    have hs : getTicksMs (slowRounds 5).starttime = 5 := rfl
    omega
  · rw [elapsed_slowRounds]
    decide

/-- The counter starts again 10 milliseconds after the call, and the timeout of 10 is not noticed after 20. -/
theorem sysPoll_wrapped : (slowRounds (2 ^ 32 - 10)).elapsed 0 < 2 ^ 31 ∧
    FirstOver (slowRounds (2 ^ 32 - 10)) idleFiles [⟨0, fPollIn, 0⟩] 10 0 ∧
    ¬ GivesUpAt (slowRounds (2 ^ 32 - 10)) idleFiles [⟨0, fPollIn, 0⟩] 10 0 := by
  have he : (slowRounds (2 ^ 32 - 10)).elapsed 0 < 2 ^ 31 := by
    rw [elapsed_slowRounds]
    decide
  refine ⟨he, firstOver_slowRounds _, fun h => h.not_wraps (by decide) he ?_⟩
  have hs : getTicksMs (slowRounds (2 ^ 32 - 10)).starttime = 2 ^ 32 - 10 := rfl
  rw [PollClock.Wraps, hs, elapsed_slowRounds]
  decide

end Timeout

end Pi0Os.Task
