import Pi0Os.Library.TransitionSystem
import Pi0Os.Drivers.Tty

/-! The line counter of a terminal against the newlines in its input buffer, over every run of
input bytes, reads and changes of the terminal attributes. -/

namespace Pi0Os.Drivers

open Kernel Library Termios Ascii

/-- The newline bytes that went past the line counter: stored in raw mode, taken in raw mode,
and overwritten in a full buffer. -/
structure LineLedger where
  stored : ℕ
  taken : ℕ
  overwritten : ℕ

/-- The counter of lines is a `size_t` of 32 bits. -/
def LineLedger.Balanced (l : LineLedger) : Prop := l.stored ≡ l.taken + l.overwritten [MOD 2 ^ 32]

instance (l : LineLedger) : Decidable l.Balanced := inferInstanceAs (Decidable (_ % _ = _ % _))

namespace TTY

variable {ε : Type} (raw : UInt8 → ε → ε) (tty : TTY ε)

def newlines : ℕ := tty.inputBuffer.contents.count newline

/-- The bytes that `emit` puts into the input buffer. -/
def pushed (ch : UInt8) : List UInt8 :=
  let ch := translate tty.termios ch
  if ¬ tty.termios.canonical then [ch]
  else if ch = newline ∧ tty.linebuffer.length < 256 then tty.linebuffer ++ [ch]
  else []

def recordEmit (ch : UInt8) (l : LineLedger) : LineLedger :=
  let all := tty.inputBuffer.contents ++ tty.pushed ch
  { l with
    stored := if tty.termios.canonical then l.stored else l.stored + (tty.pushed ch).count newline
    overwritten := l.overwritten + (all.take (all.length - 4096)).count newline }

def recordRead (size : ℕ) (l : LineLedger) : LineLedger :=
  if tty.termios.canonical then l
  else { l with taken := l.taken + (tty.inputBuffer.contents.take size).count newline }

end TTY

section Emit

variable {ε : Type} {raw : UInt8 → ε → ε} {tty tty' : TTY ε}

open TTY

/-- Nothing that the line counter is about has changed. -/
structure SameInput (tty tty' : TTY ε) : Prop where
  termios : tty'.termios = tty.termios
  inputBuffer : tty'.inputBuffer = tty.inputBuffer
  availableLines : tty'.availableLines = tty.availableLines

lemma echo_frame (raw : UInt8 → ε → ε) (tty : TTY ε) (ch : UInt8) :
    SameInput tty (tty.echo raw ch) ∧ (tty.echo raw ch).linebuffer = tty.linebuffer := by
  unfold TTY.echo
  split <;> exact ⟨⟨rfl, rfl, rfl⟩, rfl⟩

lemma emitRaw_frame (raw : UInt8 → ε → ε) (tty : TTY ε) (ch : UInt8) :
    (tty.emitRaw raw ch).inputBuffer = tty.inputBuffer.push ch ∧
    (tty.emitRaw raw ch).linebuffer = tty.linebuffer ∧
    (tty.emitRaw raw ch).availableLines = tty.availableLines := by
  unfold TTY.emitRaw
  dsimp only
  split
  · obtain ⟨hs, hl⟩ := echo_frame raw { tty with inputBuffer := tty.inputBuffer.push ch } ch
    exact ⟨hs.inputBuffer, hl, hs.availableLines⟩
  · exact ⟨rfl, rfl, rfl⟩

lemma emitCanonical_cases (raw : UInt8 → ε → ε) (tty : TTY ε) (ch : UInt8) :
    (¬ (ch = newline ∧ tty.linebuffer.length < 256) ∧ SameInput tty (tty.emitCanonical raw ch) ∧
      ∀ b ∈ (tty.emitCanonical raw ch).linebuffer, b ∈ tty.linebuffer ∨ b = ch ∧ ch ≠ newline) ∨
    (ch = newline ∧ tty.linebuffer.length < 256 ∧ (tty.emitCanonical raw ch).linebuffer = [] ∧
      (tty.emitCanonical raw ch).inputBuffer = (tty.linebuffer ++ [ch]).foldl RingBuffer.push tty.inputBuffer ∧
      (tty.emitCanonical raw ch).availableLines = add32 tty.availableLines 1) := by
  unfold TTY.emitCanonical
  split
  · rename_i hdel
    refine Or.inl ⟨fun h => absurd (hdel.symm.trans h.1) (by decide), ?_⟩
    split
    · exact ⟨⟨rfl, rfl, rfl⟩, fun b hb => Or.inl (List.mem_of_mem_dropLast hb)⟩
    · exact ⟨⟨rfl, rfl, rfl⟩, fun b hb => Or.inl hb⟩
  · split
    · rename_i hlen
      dsimp only
      split
      · rename_i hnl
        refine Or.inr ⟨hnl, hlen, rfl, ?_⟩
        split
        · obtain ⟨hs, hl⟩ := echo_frame raw { tty with
            linebuffer := tty.linebuffer ++ [ch]
            linebuffer_le := by rw [List.length_append]; exact hlen } newline
          exact ⟨by rw [flushLine, hs.inputBuffer, hl], by rw [flushLine, hs.availableLines]⟩
        · exact ⟨rfl, rfl⟩
      · rename_i hnl
        have hline : ∀ b ∈ tty.linebuffer ++ [ch], b ∈ tty.linebuffer ∨ b = ch ∧ ch ≠ newline := by
          intro b hb
          rcases List.mem_append.mp hb with hb | hb
          · exact Or.inl hb
          · exact Or.inr ⟨List.mem_singleton.mp hb, hnl⟩
        refine Or.inl ⟨fun h => hnl h.1, ?_⟩
        split
        · obtain ⟨hs, hl⟩ := echo_frame raw { tty with
            linebuffer := tty.linebuffer ++ [ch]
            linebuffer_le := by rw [List.length_append]; exact hlen } ch
          exact ⟨⟨hs.termios, hs.inputBuffer, hs.availableLines⟩, by rw [hl]; exact hline⟩
        · exact ⟨⟨rfl, rfl, rfl⟩, hline⟩
    · rename_i hlen
      exact Or.inl ⟨fun h => hlen h.2, ⟨rfl, rfl, rfl⟩, fun b hb => Or.inl hb⟩

end Emit

section Accounting

variable {ε : Type} {raw : UInt8 → ε → ε} {tty tty' : TTY ε} {l l' : LineLedger}

open TTY

/-- Every newline in the buffer is one of an available line, but for those on the ledger. -/
structure LineInv (tty : TTY ε) (l : LineLedger) : Prop where
  line : newline ∉ tty.linebuffer
  lines_lt : tty.availableLines < 2 ^ 32
  counted : tty.newlines + l.taken + l.overwritten ≡ tty.availableLines + l.stored [MOD 2 ^ 32]

lemma new_inv (inputBuffer : RingBuffer 4096 UInt8) (output : ε) :
    LineInv (TTY.new inputBuffer output) ⟨0, 0, 0⟩ where
  line := List.not_mem_nil
  lines_lt := Nat.two_pow_pos 32
  counted := Nat.ModEq.refl 0

lemma newlines_push (ch : UInt8) (l : LineLedger)
    (hb : tty'.inputBuffer.contents = (tty.inputBuffer.contents ++ tty.pushed ch).rtake 4096) :
    tty'.newlines + (tty.recordEmit ch l).overwritten =
      tty.newlines + l.overwritten + (tty.pushed ch).count newline := by
  have hc := count_rtake newline 4096 (tty.inputBuffer.contents ++ tty.pushed ch)
  rw [List.count_append] at hc
  simp only [recordEmit, newlines, hb]
  omega

lemma LineInv.counted_push (h : LineInv tty l) {ch : UInt8} {lines : ℕ}
    (hb : tty'.inputBuffer.contents = (tty.inputBuffer.contents ++ tty.pushed ch).rtake 4096)
    (hl : lines + (tty.recordEmit ch l).stored ≡
      tty.availableLines + l.stored + (tty.pushed ch).count newline [MOD 2 ^ 32]) :
    tty'.newlines + (tty.recordEmit ch l).taken + (tty.recordEmit ch l).overwritten ≡
      lines + (tty.recordEmit ch l).stored [MOD 2 ^ 32] := by
  have hp := newlines_push ch l hb
  have heq : tty'.newlines + (tty.recordEmit ch l).taken + (tty.recordEmit ch l).overwritten =
      tty.newlines + l.taken + l.overwritten + (tty.pushed ch).count newline := by
    change tty'.newlines + l.taken + _ = _
    omega
  rw [heq]
  exact (h.counted.add_right _).trans hl.symm

lemma emit_inv (h : LineInv tty l) (ch : UInt8) : LineInv (tty.emit raw ch) (tty.recordEmit ch l) := by
  unfold TTY.emit
  cases hcan : tty.termios.canonical with
  | true =>
    have hpushed : tty.pushed ch = if translate tty.termios ch = newline ∧ tty.linebuffer.length < 256
        then tty.linebuffer ++ [translate tty.termios ch] else [] := by simp [TTY.pushed, hcan]
    have hstored : (tty.recordEmit ch l).stored = l.stored := by simp [TTY.recordEmit, hcan]
    simp only [if_true]
    rcases emitCanonical_cases raw tty (translate tty.termios ch) with
      ⟨hno, hs, hline⟩ | ⟨hnl, hlen, hline, hbuf, hlines⟩
    · rw [if_neg hno] at hpushed
      refine ⟨fun hm => ?_, hs.availableLines ▸ h.lines_lt, h.counted_push ?_ ?_⟩
      · rcases hline _ hm with hm | ⟨hm, hne⟩
        · exact h.line hm
        · exact hne hm.symm
      · rw [hs.inputBuffer, hpushed, List.append_nil, rtake_of_length_le (RingBuffer.length_contents_le _)]
      · rw [hs.availableLines, hstored, hpushed, List.count_nil, add_zero]
    · rw [if_pos ⟨hnl, hlen⟩] at hpushed
      have hone : (tty.pushed ch).count newline = 1 := by
        rw [hpushed, List.count_append, List.count_eq_zero.mpr h.line, hnl]
        rfl
      refine ⟨hline ▸ List.not_mem_nil, hlines ▸ Nat.mod_lt _ (Nat.two_pow_pos 32), h.counted_push ?_ ?_⟩
      · rw [hbuf, RingBuffer.contents_foldl_push, hpushed]
      · rw [hlines, hstored, hone, add_right_comm]
        exact (Nat.mod_modEq _ _).add_right _
  | false =>
    have hpushed : tty.pushed ch = [translate tty.termios ch] := by simp [TTY.pushed, hcan]
    have hstored : (tty.recordEmit ch l).stored = l.stored + (tty.pushed ch).count newline := by
      simp [TTY.recordEmit, hcan]
    obtain ⟨hbuf, hline, hlines⟩ := emitRaw_frame raw tty (translate tty.termios ch)
    rw [if_neg Bool.false_ne_true]
    refine ⟨hline ▸ h.line, hlines ▸ h.lines_lt, h.counted_push ?_ ?_⟩
    · rw [hbuf, RingBuffer.contents_push, hpushed]
    · rw [hlines, hstored, add_assoc]

/-- A read takes the first bytes of the buffer; in canonical mode it takes a line from the counter
for each newline among them, in raw mode it takes all the bytes that fit. -/
lemma readLoop_spec (canon : Bool) (n : ℕ) {lines lines' : ℕ} {b b' : RingBuffer 4096 UInt8} {out : List UInt8}
    (h : readLoop canon n lines b = .ok (out, lines', b')) :
    b.contents = out ++ b'.contents ∧ (canon = true → lines' + out.count newline = lines) ∧
      (canon = false → lines' = lines ∧ out = b.contents.take n) := by
  induction n generalizing lines lines' b b' out with
  | zero =>
    cases h
    exact ⟨rfl, fun _ => rfl, fun _ => ⟨rfl, rfl⟩⟩
  | succ n ih =>
    rw [readLoop] at h
    split at h
    · rename_i hp
      cases h
      exact ⟨rfl, fun _ => rfl, fun _ => ⟨rfl, by rw [RingBuffer.pop_eq_none _ |>.mp hp]; rfl⟩⟩
    · rename_i ch b₁ hp
      have hb := b.contents_pop hp
      split at h
      · rename_i hnl
        obtain ⟨hpos, h⟩ := kassert_bind_eq_ok.mp h
        cases h
        refine ⟨hb, fun _ => ?_, fun hc => absurd hnl.1 (by simp [hc])⟩
        rw [hnl.2, List.count_singleton_self]
        omega
      · rename_i hnl
        obtain ⟨⟨out₁, lines₁, b₂⟩, hr, h⟩ := bind_eq_ok.mp h
        cases h
        obtain ⟨hc, hcan, hraw⟩ := ih hr
        refine ⟨by rw [hb, hc, List.cons_append], fun hcanon => ?_, fun hcanon => ?_⟩
        · rw [List.count_cons_of_ne (fun he => hnl ⟨hcanon, he⟩)]
          exact hcan hcanon
        · rw [hb, List.take_succ_cons, ← (hraw hcanon).2]
          exact ⟨(hraw hcanon).1, rfl⟩

lemma readLoop_ok (canon : Bool) (n : ℕ) {lines : ℕ} {b : RingBuffer 4096 UInt8}
    (h : canon = true → newline ∈ b.contents → 0 < lines) : ∃ r, readLoop canon n lines b = .ok r := by
  induction n generalizing b with
  | zero => exact ⟨_, rfl⟩
  | succ n ih =>
    rw [readLoop]
    split
    · exact ⟨_, rfl⟩
    · rename_i ch b₁ hp
      have hb := b.contents_pop hp
      split
      · rename_i hnl
        have hpos : 0 < lines := h hnl.1 (by rw [hb, hnl.2]; exact List.mem_cons_self)
        rw [kassert_of hpos, ok_bind]
        exact ⟨_, rfl⟩
      · obtain ⟨r, hr⟩ := ih (b := b₁) fun hc hm => h hc (by rw [hb]; exact List.mem_cons_of_mem _ hm)
        rw [hr, ok_bind]
        exact ⟨_, rfl⟩

lemma read_inv (h : LineInv tty l) {size : ℕ} {out : List UInt8} (hr : tty.read size = .ok (out, tty')) :
    LineInv tty' (tty.recordRead size l) := by
  obtain ⟨⟨out₁, lines, b⟩, hloop, hr⟩ := bind_eq_ok.mp hr
  obtain ⟨hb, hcan, hraw⟩ := readLoop_spec _ _ hloop
  cases hr
  have hcount : tty.newlines = out.count newline + b.contents.count newline := by
    rw [newlines, hb, List.count_append]
  have hc := h.counted
  have hlt := h.lines_lt
  cases hc₁ : tty.termios.canonical with
  | true =>
    have hlines := hcan hc₁
    refine ⟨h.line, by dsimp only; omega, ?_⟩
    rw [recordRead, if_pos hc₁]
    apply Nat.ModEq.add_right_cancel' (out.count newline)
    have h₁ : b.contents.count newline + l.taken + l.overwritten + out.count newline =
        tty.newlines + l.taken + l.overwritten := by omega
    have h₂ : lines + l.stored + out.count newline = tty.availableLines + l.stored := by omega
    change b.contents.count newline + l.taken + l.overwritten + _ ≡ lines + l.stored + _ [MOD 2 ^ 32]
    rw [h₁, h₂]
    exact hc
  | false =>
    obtain ⟨hlines, hout⟩ := hraw hc₁
    refine ⟨h.line, by dsimp only; omega, ?_⟩
    rw [recordRead, if_neg (by simp [hc₁])]
    have h₁ : b.contents.count newline + (l.taken + (tty.inputBuffer.contents.take size).count newline) +
        l.overwritten = tty.newlines + l.taken + l.overwritten := by
      rw [← hout]
      omega
    change b.contents.count newline + (l.taken + _) + l.overwritten ≡ lines + l.stored [MOD 2 ^ 32]
    rw [h₁, hlines]
    exact hc

end Accounting

/-- The calls of a run. `PtyMaster::write` hands its bytes to `emit` one by one. -/
inductive TtyCall where
  | emit (ch : UInt8)
  | read (size : ℕ)
  | masterWrite (buffer : List UInt8)
  | ioctl (request : ℕ) (argp : Termios)

section Runs

variable {ε : Type} (raw : UInt8 → ε → ε)

open TTY

def emitRecorded (c : TTY ε × LineLedger) (ch : UInt8) : TTY ε × LineLedger :=
  (c.1.emit raw ch, c.1.recordEmit ch c.2)

inductive TtyStep : TTY ε × LineLedger → TtyCall → TTY ε × LineLedger → Prop
  | emit {c ch} : TtyStep c (.emit ch) (emitRecorded raw c ch)
  | read {tty l size out tty'} : TTY.read tty size = .ok (out, tty') →
      TtyStep (tty, l) (.read size) (tty', tty.recordRead size l)
  | masterWrite {c buffer} : TtyStep c (.masterWrite buffer) (buffer.foldl (emitRecorded raw) c)
  | ioctl {tty l request argp rc argp' tty'} : TTY.ioctl tty request argp = (rc, argp', tty') →
      TtyStep (tty, l) (.ioctl request argp) (tty', l)

def ttySystem : TransitionSystem (TTY ε × LineLedger) TtyCall where
  Init c := ∃ inputBuffer output, c = (TTY.new inputBuffer output, ⟨0, 0, 0⟩)
  Step := TtyStep raw

/-- While `ICANON` is set the counter is the number of newlines stored, `poll` reports `POLLIN` exactly
when a complete line can be read, and no read trips its assertion. -/
def LinesAccounted (tty : TTY ε) : Prop :=
  tty.termios.canonical = true → tty.availableLines = tty.newlines ∧
    (tty.poll fPollIn 0 &&& fPollIn ≠ 0 ↔ newline ∈ tty.inputBuffer.contents) ∧
    ∀ size, ∃ r, tty.read size = .ok r

variable {raw} {tty : TTY ε} {l : LineLedger}

lemma foldl_emit_inv (buffer : List UInt8) (c : TTY ε × LineLedger) (h : LineInv c.1 c.2) :
    LineInv (buffer.foldl (emitRecorded raw) c).1 (buffer.foldl (emitRecorded raw) c).2 := by
  induction buffer generalizing c with
  | nil => exact h
  | cons ch buffer ih => exact ih _ (emit_inv h ch)

lemma ttySystem_inductive : (ttySystem raw).Inductive fun c => LineInv c.1 c.2 := by
  constructor
  · rintro c ⟨inputBuffer, output, rfl⟩
    exact new_inv inputBuffer output
  · intro c call c' h hs
    cases hs with
    | emit => exact emit_inv h _
    | read hr => exact read_inv h hr
    | masterWrite => exact foldl_emit_inv _ _ h
    | ioctl hi =>
      unfold TTY.ioctl at hi
      split at hi
      · cases hi
        exact h
      · split at hi
        · cases hi
          exact ⟨h.line, h.lines_lt, h.counted⟩
        · cases hi
          exact h

lemma LineInv.balanced_iff (h : LineInv tty l) : l.Balanced ↔ tty.availableLines = tty.newlines := by
  have hle : tty.newlines < 2 ^ 32 :=
    (List.count_le_length.trans (RingBuffer.length_contents_le _)).trans_lt (by norm_num)
  have hc := h.counted
  rw [add_assoc] at hc
  constructor
  · intro hb
    have he : tty.newlines ≡ tty.availableLines [MOD 2 ^ 32] :=
      Nat.ModEq.add_right_cancel hb.symm hc
    exact (Nat.ModEq.eq_of_lt_of_lt he hle h.lines_lt).symm
  · intro he
    rw [he] at hc
    exact (Nat.ModEq.add_left_cancel' _ hc).symm

lemma poll_canonical (hc : tty.termios.canonical = true) :
    tty.poll fPollIn 0 &&& fPollIn ≠ 0 ↔ 0 < tty.availableLines := by
  unfold TTY.poll
  by_cases h : 0 < tty.availableLines <;> simp [hc, h]

/-- In every state that a terminal reaches, its lines are accounted for in canonical mode exactly
when the newlines that went past the counter balance. -/
theorem lines_accounted_iff (h : (ttySystem raw).Reachable (tty, l)) :
    LinesAccounted tty ↔ (tty.termios.canonical = true → l.Balanced) := by
  have hinv : LineInv tty l := h.invariant ttySystem_inductive
  refine ⟨fun ha hc => hinv.balanced_iff.mpr (ha hc).1, fun hb hc => ?_⟩
  have he := hinv.balanced_iff.mp (hb hc)
  have hmem : newline ∈ tty.inputBuffer.contents ↔ 0 < tty.availableLines := by
    rw [he, newlines, List.count_pos_iff]
  refine ⟨he, (poll_canonical hc).trans hmem.symm, fun size => ?_⟩
  obtain ⟨r, hr⟩ := readLoop_ok tty.termios.canonical size fun _ hm => hmem.mp hm
  exact ⟨_, by rw [TTY.read, hr]; rfl⟩

abbrev ptySystem := ttySystem PtySlave.echoRaw

lemma newPty_reachable : ptySystem.Reachable (PtyMaster.new, ⟨0, 0, 0⟩) :=
  .init ⟨PtyMaster.emptyBuffer, PtyMaster.emptyBuffer, rfl⟩

/-- The line `"a\n"` typed into a new terminal. -/
theorem lines_accounted_iff_typed :
    LinesAccounted ([0x61, 0x0a].foldl (emitRecorded PtySlave.echoRaw) (PtyMaster.new, ⟨0, 0, 0⟩)).1 :=
  (lines_accounted_iff
    (.step (a := TtyCall.masterWrite [0x61, 0x0a]) newPty_reachable .masterWrite)).mpr fun _ => by decide

/-- A newline stored in raw mode and left there when canonical mode is switched on. -/
theorem raw_newline_uncounted : ∃ pty l, ptySystem.Reachable (pty, l) ∧ ¬ LinesAccounted pty ∧
    pty.read 1 = .error (.assertion "m_available_lines > 0") := by
  have h₁ := newPty_reachable.step (a := TtyCall.ioctl TTY.tcSetAttr ⟨0, 0, 0, 0⟩) (.ioctl rfl)
  have h₂ := h₁.step (a := TtyCall.emit newline) .emit
  have h₃ := h₂.step (a := TtyCall.ioctl TTY.tcSetAttr resetTermios) (.ioctl rfl)
  refine ⟨_, _, h₃, fun h => ?_, rfl⟩
  exact absurd (h rfl).1 (by decide)

end Runs

end Pi0Os.Drivers
