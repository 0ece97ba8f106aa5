import Pi0Os.Kernel.RingBuffer

/-! The terminals of `device.cpp`: `TTY` over any `echo_raw`, and the pseudo-terminal whose
slave echoes into the buffer of its master. -/

namespace Pi0Os.Drivers

open Kernel

structure Termios where
  cIflag : ℕ
  cOflag : ℕ
  cCflag : ℕ
  cLflag : ℕ
deriving DecidableEq

namespace Termios

abbrev inlcr : ℕ := 0x40
abbrev icrnl : ℕ := 0x100
abbrev onlcr : ℕ := 0x4
abbrev icanon : ℕ := 0x2
abbrev echoFlag : ℕ := 0x8
abbrev echok : ℕ := 0x20
abbrev echonl : ℕ := 0x40

def canonical (t : Termios) : Bool := t.cLflag &&& icanon ≠ 0

end Termios

namespace Ascii

def bell : UInt8 := 0x07
def backspace : UInt8 := 0x08
def newline : UInt8 := 0x0a
def carriageReturn : UInt8 := 0x0d
def space : UInt8 := 0x20
def delete : UInt8 := 0x7f

end Ascii

open Termios Ascii

/-- `output` is what `echo_raw` writes to: the wire of a UART, the master's buffer of a pty. -/
structure TTY (ε : Type) where
  termios : Termios
  linebuffer : List UInt8
  linebuffer_le : linebuffer.length ≤ 256
  availableLines : ℕ
  inputBuffer : RingBuffer 4096 UInt8
  output : ε

def resetTermios : Termios := ⟨icrnl, onlcr, 0, icanon ||| echoFlag ||| echok⟩

namespace TTY

variable {ε : Type}

def new (inputBuffer : RingBuffer 4096 UInt8) (output : ε) : TTY ε :=
  ⟨resetTermios, [], Nat.zero_le _, 0, inputBuffer.clear, output⟩

variable (raw : UInt8 → ε → ε) (tty : TTY ε)

def echoRaw (ch : UInt8) : TTY ε := { tty with output := raw ch tty.output }

def echo (ch : UInt8) : TTY ε :=
  let tty := if tty.termios.cOflag &&& onlcr ≠ 0 ∧ ch = newline then tty.echoRaw raw carriageReturn else tty
  tty.echoRaw raw ch

def flushLine : TTY ε :=
  { tty with
    inputBuffer := tty.linebuffer.foldl RingBuffer.push tty.inputBuffer
    linebuffer := []
    linebuffer_le := Nat.zero_le _
    availableLines := add32 tty.availableLines 1 }

/-- The translation of `\r` and `\n` that `emit` begins with. -/
def translate (t : Termios) (ch : UInt8) : UInt8 :=
  if ch = carriageReturn ∧ t.cIflag &&& icrnl ≠ 0 then newline
  else if ch = newline ∧ t.cIflag &&& inlcr ≠ 0 then carriageReturn
  else ch

def emitCanonical (ch : UInt8) : TTY ε :=
  if ch = delete then
    if tty.linebuffer ≠ [] then
      let tty := { tty with
        linebuffer := tty.linebuffer.dropLast
        linebuffer_le := tty.linebuffer.length_dropLast.trans_le ((Nat.sub_le _ _).trans tty.linebuffer_le) }
      ((tty.echoRaw raw backspace).echoRaw raw space).echoRaw raw backspace
    else tty
  else if h : tty.linebuffer.length < 256 then
    let tty := { tty with
      linebuffer := tty.linebuffer ++ [ch]
      linebuffer_le := by rw [List.length_append]; exact h }
    if ch = newline then
      let tty := if tty.termios.cLflag &&& echoFlag ≠ 0 ∨ tty.termios.cLflag &&& echonl ≠ 0
        then tty.echo raw newline else tty
      tty.flushLine
    else if tty.termios.cLflag &&& echoFlag ≠ 0 then tty.echo raw ch
    else tty
  else tty.echoRaw raw bell

def emitRaw (ch : UInt8) : TTY ε :=
  let tty := { tty with inputBuffer := tty.inputBuffer.push ch }
  if tty.termios.cLflag &&& echoFlag ≠ 0 then tty.echo raw ch else tty

def emit (ch : UInt8) : TTY ε :=
  let ch := translate tty.termios ch
  if tty.termios.canonical then tty.emitCanonical raw ch else tty.emitRaw raw ch

/-- The loop of `TTY::read`, with room for `n` more bytes. -/
def readLoop (canon : Bool) : ℕ → ℕ → RingBuffer 4096 UInt8 →
    Except Panic (List UInt8 × ℕ × RingBuffer 4096 UInt8)
  | 0, lines, b => .ok ([], lines, b)
  | n + 1, lines, b =>
    match b.pop with
    | none => .ok ([], lines, b)
    | some (ch, b) =>
      if canon ∧ ch = newline then do
        kassert "m_available_lines > 0" (0 < lines)
        return ([ch], lines - 1, b)
      else do
        let (out, lines, b) ← readLoop canon n lines b
        return (ch :: out, lines, b)

def read (size : ℕ) : Except Panic (List UInt8 × TTY ε) := do
  let (out, lines, b) ← readLoop tty.termios.canonical size tty.availableLines tty.inputBuffer
  return (out, { tty with availableLines := lines, inputBuffer := b })

def write (buffer : List UInt8) : ℤ × TTY ε := (buffer.length, buffer.foldl (echo raw) tty)

abbrev tcGetAttr : ℕ := 1
abbrev tcSetAttr : ℕ := 2

/-- `argp` points to a `termios`, which is read or written. -/
def ioctl (request : ℕ) (argp : Termios) : ℤ × Termios × TTY ε :=
  if request = tcGetAttr then (0, tty.termios, tty)
  else if request = tcSetAttr then (0, argp, { tty with termios := argp })
  else (-Err.notSup, argp, tty)

/-- The terminals do not override `can_echo`, which is always true. -/
def poll (events outRevents : ℕ) : ℕ :=
  let canRead := if tty.termios.canonical then 0 < tty.availableLines else ¬ tty.inputBuffer.isEmpty
  let outRevents := if events &&& fPollIn ≠ 0 ∧ canRead then outRevents ||| fPollIn else outRevents
  if events &&& fPollOut ≠ 0 then outRevents ||| fPollOut else outRevents

end TTY

/-- A master with the slave inside it; `output` of the slave is the `m_buf` of the master. -/
abbrev PtyMaster := TTY (RingBuffer 4096 UInt8)

namespace PtySlave

def echoRaw (ch : UInt8) (mBuf : RingBuffer 4096 UInt8) : RingBuffer 4096 UInt8 := mBuf.push ch

end PtySlave

namespace PtyMaster

def emptyBuffer : RingBuffer 4096 UInt8 := RingBuffer.zeroed 4096

def new : PtyMaster := TTY.new emptyBuffer emptyBuffer

variable (pty : PtyMaster)

def read (size : ℕ) : List UInt8 × PtyMaster :=
  let (out, mBuf) := pty.output.popUpTo size
  (out, { pty with output := mBuf })

def write (buffer : List UInt8) : ℤ × PtyMaster :=
  (buffer.length, buffer.foldl (TTY.emit PtySlave.echoRaw) pty)

def poll (events outRevents : ℕ) : ℕ :=
  let outRevents := if events &&& fPollIn ≠ 0 ∧ ¬ pty.output.isEmpty then outRevents ||| fPollIn else outRevents
  if events &&& fPollOut ≠ 0 then outRevents ||| (TTY.poll pty fPollOut 0 &&& fPollOut) else outRevents

end PtyMaster

end Pi0Os.Drivers
