import Pi0Os.Drivers.CanonicalLines

/-! When a newline completes the line of a terminal in canonical mode. -/

namespace Pi0Os.Drivers

open Kernel Library Termios Ascii TTY

variable {ε : Type} (raw : UInt8 → ε → ε) {t : Termios} {tty : TTY ε} {ch : UInt8}

/-- A terminal whose attributes are `t` from the first byte on. -/
def typedOn (t : Termios) (inputBuffer : RingBuffer 4096 UInt8) (output : ε) (typed : List UInt8) : TTY ε :=
  typed.foldl (TTY.emit raw) { TTY.new inputBuffer output with termios := t }

/-- The edited line and its newline have gone to the input buffer, behind what it held. -/
structure Completes (tty tty' : TTY ε) : Prop where
  linebuffer : tty'.linebuffer = []
  availableLines : tty'.availableLines = tty.availableLines + 1
  inputBuffer : tty'.inputBuffer.contents = tty.inputBuffer.contents ++ (tty.linebuffer ++ [newline])

variable {raw}

lemma termios_emit (ht : tty.termios.canonical = true) (ch : UInt8) : (tty.emit raw ch).termios = tty.termios := by
  rw [TTY.emit, if_pos ht]
  exact termios_emitCanonical

lemma termios_foldl_emit (ht : tty.termios.canonical = true) (typed : List UInt8) :
    (typed.foldl (TTY.emit raw) tty).termios = tty.termios := by
  induction typed generalizing tty with
  | nil => rfl
  | cons ch typed ih =>
    have hch : (tty.emit raw ch).termios = tty.termios := termios_emit ht ch
    rw [List.foldl_cons, ih (hch ▸ ht), hch]

lemma termios_typedOn {inputBuffer : RingBuffer 4096 UInt8} {output : ε} (ht : t.canonical = true)
    (typed : List UInt8) : (typedOn raw t inputBuffer output typed).termios = t := by
  rw [typedOn, termios_foldl_emit ht]

/-- A line that is full takes nothing but erasures. -/
lemma emit_full (ht : tty.termios.canonical = true) (hfull : tty.linebuffer.length = 256)
    (hch : translate tty.termios ch ≠ delete) : tty.emit raw ch = tty.echoRaw raw bell := by
  rw [TTY.emit, if_pos ht, emitCanonical, if_neg hch, dif_neg (by omega)]

lemma not_completes_full (ht : tty.termios.canonical = true) (hfull : tty.linebuffer.length = 256)
    (hch : translate tty.termios ch ≠ delete) : ¬ Completes tty (tty.emit raw ch) := by
  intro h
  rw [emit_full ht hfull hch] at h
  have hline : tty.linebuffer = [] := h.linebuffer
  rw [hline] at hfull
  simp at hfull

/-- No bytes but erasures complete a line again. -/
lemma foldl_emit_full (typed : List UInt8) (ht : tty.termios.canonical = true) (hfull : tty.linebuffer.length = 256)
    (htyped : ∀ ch ∈ typed, translate tty.termios ch ≠ delete) :
    SameInput tty (typed.foldl (TTY.emit raw) tty) := by
  induction typed generalizing tty with
  | nil => exact ⟨rfl, rfl, rfl⟩
  | cons ch typed ih =>
    rw [List.foldl_cons, emit_full ht hfull (htyped ch List.mem_cons_self)]
    have hrest : SameInput (tty.echoRaw raw bell) (typed.foldl (TTY.emit raw) (tty.echoRaw raw bell)) :=
      ih ht hfull fun c hc => htyped c (List.mem_cons_of_mem ch hc)
    exact ⟨hrest.termios, hrest.inputBuffer, hrest.availableLines⟩

lemma add32_one_eq_iff {n : ℕ} : add32 n 1 = n + 1 ↔ n + 1 < 2 ^ 32 := by
  refine ⟨fun h => ?_, add32_of_lt⟩
  have hlt := Nat.mod_lt (n + 1) (by decide : 0 < 2 ^ 32)
  rw [add32] at h
  omega

lemma contents_foldl_push_iff {b : RingBuffer 4096 UInt8} {line : List UInt8} :
    (line.foldl RingBuffer.push b).contents = b.contents ++ line ↔ b.contents.length + line.length ≤ 4096 := by
  rw [RingBuffer.contents_foldl_push, ← List.length_append]
  refine ⟨fun h => ?_, rtake_of_length_le⟩
  have hlen := congrArg List.length h
  rw [length_rtake] at hlen
  omega

theorem newline_completes_iff {inputBuffer : RingBuffer 4096 UInt8} {output : ε} {typed : List UInt8}
    (ht : t.canonical = true) (hs : tty = typedOn raw t inputBuffer output typed) (hch : translate t ch = newline) :
    Completes tty (tty.emit raw ch) ↔
      tty.linebuffer.length < 256 ∧ tty.inputBuffer.contents.length + (tty.linebuffer.length + 1) ≤ 4096 ∧
        tty.availableLines + 1 < 2 ^ 32 := by
  have htermios : tty.termios = t := by rw [hs, termios_typedOn ht]
  have hemit : tty.emit raw ch = tty.emitCanonical raw newline := by
    rw [TTY.emit, htermios, if_pos ht, hch]
  rw [hemit]
  obtain ⟨hno, hsame, -⟩ | ⟨-, hlen, hline, hbuf, hlines⟩ := emitCanonical_cases raw tty newline
  · refine iff_of_false (fun h => ?_) fun h => hno ⟨rfl, h.1⟩
    have hcount := h.availableLines
    rw [hsame.availableLines] at hcount
    omega
  · have hiff := @contents_foldl_push_iff tty.inputBuffer (tty.linebuffer ++ [newline])
    rw [List.length_append, List.length_singleton, ← hbuf] at hiff
    rw [← hiff, ← add32_one_eq_iff, ← hlines]
    exact ⟨fun h => ⟨hlen, h.inputBuffer, h.availableLines⟩, fun h => ⟨hline, h.2.2, h.2.1⟩⟩

/-- What is typed on a new pseudo-terminal. -/
def typedOnPty (typed : List UInt8) : PtyMaster :=
  typedOn PtySlave.echoRaw resetTermios PtyMaster.emptyBuffer PtyMaster.emptyBuffer typed

theorem newline_completes_ab :
    Completes (typedOnPty [0x61, 0x62]) ((typedOnPty [0x61, 0x62]).emit PtySlave.echoRaw carriageReturn) :=
  (newline_completes_iff (t := resetTermios) rfl rfl rfl).mpr
    ⟨by decide, by rw [RingBuffer.length_contents]; decide, by decide⟩

/-- As many bytes `c` as the line buffer takes. -/
lemma linebuffer_typedOn {inputBuffer : RingBuffer 4096 UInt8} {output : ε} (ht : t.canonical = true) {c : UInt8}
    (hc : translate t c = c) (hdelete : c ≠ delete) (hnewline : c ≠ newline) {n : ℕ} (hn : n ≤ 256) :
    (typedOn raw t inputBuffer output (List.replicate n c)).linebuffer = List.replicate n c := by
  induction n with
  | zero => rfl
  | succ n ih =>
    have hline := ih (Nat.le_of_succ_le hn)
    have htermios := @termios_typedOn ε raw t inputBuffer output ht (List.replicate n c)
    have hlen : (typedOn raw t inputBuffer output (List.replicate n c)).linebuffer.length < 256 := by
      rw [hline, List.length_replicate]
      omega
    rw [typedOn] at hline htermios hlen
    rw [typedOn, List.replicate_succ', List.foldl_append, List.foldl_cons, List.foldl_nil, TTY.emit, htermios,
      if_pos ht, hc, linebuffer_emitCanonical hnewline hlen, if_neg hdelete, hline]

/-- 256 times the letter `a` and the return key. -/
theorem newline_after_256 :
    ¬ Completes (typedOnPty (List.replicate 256 0x61))
      ((typedOnPty (List.replicate 256 0x61)).emit PtySlave.echoRaw carriageReturn) := by
  intro h
  have hfull : (typedOnPty (List.replicate 256 0x61)).linebuffer = List.replicate 256 0x61 := by
    rw [typedOnPty]
    exact linebuffer_typedOn rfl (by decide) (by decide) (by decide) le_rfl
  have htermios : (typedOnPty (List.replicate 256 0x61)).termios = resetTermios := by
    rw [typedOnPty, termios_typedOn rfl]
  have hlen : (typedOnPty (List.replicate 256 0x61)).linebuffer.length = 256 := by
    rw [hfull, List.length_replicate]
  exact not_completes_full (by rw [htermios]; rfl) hlen (by rw [htermios]; decide) h

end Pi0Os.Drivers
