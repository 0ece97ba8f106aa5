import Pi0Os.Library.ChunkQueue
import Pi0Os.Drivers.TtyLines

/-! A terminal in canonical mode against the line discipline it implements: what is typed is
edited into lines, and the readers get the completed lines in order. -/

namespace Pi0Os.Drivers

open Kernel Library Termios Ascii

/-- The lines typed so far, the newline of each included, and the line still being edited. -/
structure LineDiscipline where
  completed : List (List UInt8)
  line : List UInt8

namespace LineDiscipline

def input (t : Termios) (d : LineDiscipline) (ch : UInt8) : LineDiscipline :=
  let ch := TTY.translate t ch
  if ch = delete then { d with line := d.line.dropLast }
  else if ch = newline then ⟨d.completed ++ [d.line ++ [newline]], []⟩
  else { d with line := d.line ++ [ch] }

def ofTyped (t : Termios) (typed : List UInt8) : LineDiscipline := typed.foldl (input t) ⟨[], []⟩

lemma ofTyped_append (t : Termios) (typed : List UInt8) (ch : UInt8) :
    ofTyped t (typed ++ [ch]) = (ofTyped t typed).input t ch := by simp [ofTyped]

end LineDiscipline

/-- A terminal with the bytes typed on it and the bytes its readers have got. -/
structure TypedTty (ε : Type) where
  tty : TTY ε
  typed : List UInt8
  returned : List UInt8

namespace TypedTty

variable {ε : Type} (s : TypedTty ε)

def discipline : LineDiscipline := .ofTyped s.tty.termios s.typed

/-- The completed lines, less what the readers have already got of them. -/
def unread : List (List UInt8) := remaining s.discipline.completed s.returned.length

end TypedTty

inductive TypedCall where
  | emit (ch : UInt8)
  | read (size : ℕ)

section Runs

variable {ε : Type} (raw : UInt8 → ε → ε)

inductive TypedStep : TypedTty ε → TypedCall → TypedTty ε → Prop
  | emit {s ch} : TypedStep s (.emit ch) { s with tty := s.tty.emit raw ch, typed := s.typed ++ [ch] }
  | read {s size out tty'} : s.tty.read size = .ok (out, tty') →
      TypedStep s (.read size) { s with tty := tty', returned := s.returned ++ out }

/-- The attributes are set before the first byte and stay. -/
def canonicalTty : TransitionSystem (TypedTty ε) TypedCall where
  Init s := ∃ t inputBuffer output, t.canonical = true ∧
    s = ⟨{ TTY.new inputBuffer output with termios := t }, [], []⟩
  Step := TypedStep raw

/-- The unfinished line holds 255 bytes at most, and the unread bytes fit into the input buffer. -/
def WithinLimits (s : TypedTty ε) : TypedCall → Prop
  | .emit ch =>
    let d := LineDiscipline.ofTyped s.tty.termios (s.typed ++ [ch])
    d.line.length ≤ 255 ∧ d.completed.flatten.length ≤ s.returned.length + 4096
  | .read size => 1 ≤ size

instance (s : TypedTty ε) : (call : TypedCall) → Decidable (WithinLimits s call)
  | .emit _ => inferInstanceAs (Decidable (_ ∧ _))
  | .read size => inferInstanceAs (Decidable (1 ≤ size))

end Runs

/-- A newline at its end and nowhere else. -/
def IsLine (c : List UInt8) : Prop := ∃ body, newline ∉ body ∧ c = body ++ [newline]

lemma IsLine.ne_nil {c : List UInt8} (h : IsLine c) : c ≠ [] := by
  obtain ⟨body, -, rfl⟩ := h
  simp

lemma IsLine.of_suffix {c d : List UInt8} (h : IsLine c) (hd : d <:+ c) (hne : d ≠ []) : IsLine d := by
  obtain ⟨body, hb, rfl⟩ := h
  rcases List.suffix_concat_iff.mp hd with rfl | ⟨t, rfl, ht⟩
  · exact absurd rfl hne
  · exact ⟨t, fun hm => hb (ht.subset hm), rfl⟩

section Editing

variable {ε : Type} {raw : UInt8 → ε → ε} {tty : TTY ε} {ch : UInt8}

open TTY

lemma linebuffer_emitCanonical (hnl : ch ≠ newline) (hlen : tty.linebuffer.length < 256) :
    (tty.emitCanonical raw ch).linebuffer =
      if ch = delete then tty.linebuffer.dropLast else tty.linebuffer ++ [ch] := by
  unfold TTY.emitCanonical
  split
  · split
    · rfl
    · rename_i hline
      rw [not_not.mp hline]
      rfl
  · dsimp only
    split
    · exact (echo_frame raw _ ch).2
    · rfl

lemma termios_emitCanonical : (tty.emitCanonical raw ch).termios = tty.termios := by
  unfold TTY.emitCanonical
  split
  · split <;> rfl
  · split
    · dsimp only
      split
      · split
        · exact (echo_frame raw _ newline).1.termios
        · rfl
      · split
        · exact (echo_frame raw _ ch).1.termios
        · rfl
    · rfl

lemma readLoop_line {c rest : List UInt8} (hc : IsLine c) (n : ℕ) {lines : ℕ} (hlines : 0 < lines)
    {b : RingBuffer 4096 UInt8} (hb : b.contents = c ++ rest) :
    ∃ b', readLoop true n lines b = .ok (c.take n, if c.length ≤ n then lines - 1 else lines, b') ∧
      b'.contents = c.drop n ++ rest := by
  induction n generalizing c b with
  | zero =>
    refine ⟨b, ?_, hb⟩
    rw [if_neg (by simpa using hc.ne_nil)]
    rfl
  | succ n ih =>
    obtain ⟨body, hbody, rfl⟩ := hc
    cases hp : b.pop with
    | none =>
      have he := b.pop_eq_none.mp hp
      rw [hb] at he
      simp at he
    | some r =>
      obtain ⟨x, b₁⟩ := r
      have hpop := b.contents_pop hp
      rw [hb] at hpop
      rw [readLoop, hp]
      cases body with
      | nil =>
        obtain ⟨rfl, hrest⟩ := List.cons_eq_cons.mp hpop
        refine ⟨b₁, ?_, by simpa using hrest.symm⟩
        simp [hlines]
      | cons y body =>
        obtain ⟨rfl, hrest⟩ := List.cons_eq_cons.mp hpop
        have hy : y ≠ newline := fun he => hbody (he ▸ List.mem_cons_self)
        obtain ⟨b', hr, hb'⟩ := ih ⟨body, fun hm => hbody (List.mem_cons_of_mem _ hm), rfl⟩ hrest.symm
        refine ⟨b', ?_, by simpa using hb'⟩
        dsimp only
        rw [if_neg (by simp [hy]), hr]
        simp

end Editing

section Reference

variable {ε : Type} {raw : UInt8 → ε → ε} {s s' : TypedTty ε}

open TTY TypedTty

/-- The input buffer holds the unread lines and the line buffer the unfinished one. -/
structure DisciplineInv (s : TypedTty ε) : Prop where
  canonical : s.tty.termios.canonical = true
  line : s.tty.linebuffer = s.discipline.line
  line_le : s.discipline.line.length ≤ 255
  editing : newline ∉ s.discipline.line
  completed : ∀ c ∈ s.discipline.completed, IsLine c
  accounted : s.returned ++ s.tty.inputBuffer.contents = s.discipline.completed.flatten
  lines : s.tty.availableLines = s.unread.length

namespace DisciplineInv

variable (h : DisciplineInv s)

include h

lemma nil_notMem : [] ∉ s.discipline.completed := fun hm => (h.completed _ hm).ne_nil rfl

lemma contents : s.tty.inputBuffer.contents = s.unread.flatten := by
  rw [unread, flatten_remaining, ← h.accounted, List.drop_left]

lemma returned_le : s.returned.length ≤ s.discipline.completed.flatten.length := by
  rw [← h.accounted, List.length_append]
  exact Nat.le_add_right _ _

lemma unread_lines : ∀ c ∈ s.unread, IsLine c := by
  intro c hc
  obtain ⟨d, hd, hs⟩ := mem_remaining hc
  exact (h.completed d hd).of_suffix hs fun he => nil_notMem_remaining h.nil_notMem _ (he ▸ hc)

lemma lines_le : s.tty.availableLines ≤ 4096 := by
  have hle : s.unread.length ≤ s.unread.flatten.length := by
    have hall := h.unread_lines
    generalize s.unread = lines at hall
    induction lines with
    | nil => exact Nat.le_refl _
    | cons c lines ih =>
      have hc := List.length_pos_of_ne_nil (hall c List.mem_cons_self).ne_nil
      have hrest := ih fun d hd => hall d (List.mem_cons_of_mem _ hd)
      rw [List.length_cons, List.flatten_cons, List.length_append]
      omega
  rw [h.lines]
  exact hle.trans (h.contents ▸ RingBuffer.length_contents_le _)

lemma emit (ch : UInt8) (hlim : WithinLimits s (.emit ch)) :
    DisciplineInv { s with tty := s.tty.emit raw ch, typed := s.typed ++ [ch] } := by
  have hemit : s.tty.emit raw ch = s.tty.emitCanonical raw (translate s.tty.termios ch) := by
    rw [TTY.emit, if_pos h.canonical]
  obtain ⟨hline, hroom⟩ := hlim
  rw [LineDiscipline.ofTyped_append] at hline hroom
  change (s.discipline.input s.tty.termios ch).line.length ≤ 255 at hline
  change (s.discipline.input s.tty.termios ch).completed.flatten.length ≤ _ at hroom
  have hd : discipline { s with tty := s.tty.emit raw ch, typed := s.typed ++ [ch] } =
      s.discipline.input s.tty.termios ch := by
    rw [discipline, hemit, termios_emitCanonical, LineDiscipline.ofTyped_append]
    rfl
  have hlen : s.tty.linebuffer.length < 256 := by
    rw [h.line]
    exact Nat.lt_succ_of_le h.line_le
  rw [LineDiscipline.input] at hline hroom hd
  generalize hch : translate s.tty.termios ch = c at *
  rcases emitCanonical_cases raw s.tty c with ⟨hno, hs, -⟩ | ⟨rfl, -, hempty, hbuf, hlines⟩
  · -- the line is edited, the completed lines stay
    have hnl : c ≠ newline := fun he => hno ⟨he, hlen⟩
    have hlb : (s.tty.emitCanonical raw c).linebuffer =
        if c = delete then s.tty.linebuffer.dropLast else s.tty.linebuffer ++ [c] := linebuffer_emitCanonical hnl hlen
    have hcomp : (discipline { s with tty := s.tty.emit raw ch, typed := s.typed ++ [ch] }).completed =
        s.discipline.completed := by
      rw [hd]
      split <;> rfl
    have hun : unread { s with tty := s.tty.emit raw ch, typed := s.typed ++ [ch] } = s.unread := by
      rw [unread, hcomp]
      rfl
    refine ⟨?_, ?_, ?_, ?_, ?_, ?_, ?_⟩
    · rw [hemit, hs.termios]
      exact h.canonical
    · rw [hd, hemit, hlb, h.line]
      split <;> rfl
    · rw [hd]
      exact hline
    · rw [hd]
      split
      · exact fun hm => h.editing (List.mem_of_mem_dropLast hm)
      · simp [h.editing, hnl.symm]
    · rw [hcomp]
      exact h.completed
    · rw [hcomp, ← h.accounted, hemit, hs.inputBuffer]
    · rw [hun, hemit, hs.availableLines]
      exact h.lines
  · -- the line is completed
    have hdel : newline ≠ delete := by decide
    rw [if_neg hdel, if_pos rfl] at hd hroom
    have hcl : IsLine (s.discipline.line ++ [newline]) := ⟨_, h.editing, rfl⟩
    have hacc := congrArg List.length h.accounted
    have hun : unread { s with tty := s.tty.emit raw ch, typed := s.typed ++ [ch] } =
        s.unread ++ [s.discipline.line ++ [newline]] := by
      rw [unread, hd]
      exact remaining_append h.returned_le hcl.ne_nil
    have hcont : (s.tty.emit raw ch).inputBuffer.contents =
        s.tty.inputBuffer.contents ++ (s.discipline.line ++ [newline]) := by
      rw [hemit, hbuf, RingBuffer.contents_foldl_push, h.line, rtake_of_length_le]
      simp only [List.flatten_append, List.flatten_singleton, List.length_append] at hroom hacc ⊢
      omega
    refine ⟨?_, ?_, ?_, ?_, ?_, ?_, ?_⟩
    · rw [hemit, termios_emitCanonical]
      exact h.canonical
    · rw [hd, hemit, hempty]
    · simp [hd]
    · simp [hd]
    · rw [hd]
      intro c hc
      rcases List.mem_append.mp hc with hc | hc
      · exact h.completed c hc
      · exact List.mem_singleton.mp hc ▸ hcl
    · rw [hd, hcont, ← List.append_assoc, h.accounted]
      simp
    · rw [hun, hemit, hlines, add32_of_lt (by have := h.lines_le; omega), h.lines]
      simp

lemma read_unread (size : ℕ) : ∃ b, s.tty.read size = .ok ((s.unread.headD []).take size,
    { s.tty with
      inputBuffer := b
      availableLines := (remaining s.unread ((s.unread.headD []).take size).length).length }) ∧
    (s.unread.headD []).take size ++ b.contents = s.tty.inputBuffer.contents := by
  have hlines := h.lines
  have hcont := h.contents
  have hall := h.unread_lines
  rw [TTY.read, h.canonical]
  cases hun : s.unread with
  | nil =>
    rw [hun] at hcont hlines
    have hr : readLoop true size s.tty.availableLines s.tty.inputBuffer =
        .ok ([], s.tty.availableLines, s.tty.inputBuffer) := by
      cases size with
      | zero => rfl
      | succ n => rw [readLoop, (RingBuffer.pop_eq_none _).mpr hcont]
    refine ⟨s.tty.inputBuffer, ?_, by simp⟩
    rw [hr, ok_bind]
    simp [remaining, hlines]
  | cons c rest =>
    rw [hun] at hcont hlines hall
    have hc := hall c List.mem_cons_self
    have hrest : [] ∉ rest := fun hm => (hall [] (List.mem_cons_of_mem _ hm)).ne_nil rfl
    have hpos : 0 < s.tty.availableLines := hlines ▸ Nat.succ_pos _
    obtain ⟨b, hr, hb⟩ := readLoop_line hc size hpos hcont
    refine ⟨b, ?_, ?_⟩
    · rw [hr, ok_bind]
      have hcount : (remaining (c :: rest) ((c.take size).length)).length =
          if c.length ≤ size then s.tty.availableLines - 1 else s.tty.availableLines := by
        rw [remaining, List.length_take, hlines]
        by_cases hle : c.length ≤ size
        · rw [Nat.min_eq_right hle, if_neg (Nat.lt_irrefl _), Nat.sub_self, remaining_zero hrest, if_pos hle]
          rfl
        · rw [if_pos (by omega), if_neg hle]
          rfl
      simp only [List.headD_cons, hcount]
      rfl
    · rw [hb, ← List.append_assoc, List.headD_cons, List.take_append_drop, hcont]
      rfl

lemma read {size : ℕ} {out : List UInt8} {tty' : TTY ε} (hr : s.tty.read size = .ok (out, tty')) :
    DisciplineInv { s with tty := tty', returned := s.returned ++ out } := by
  obtain ⟨b, hread, hb⟩ := h.read_unread size
  obtain ⟨rfl, rfl⟩ := Prod.mk.inj (Except.ok.inj (hread.symm.trans hr))
  refine ⟨h.canonical, h.line, h.line_le, h.editing, h.completed, ?_, ?_⟩
  · rw [List.append_assoc, hb]
    exact h.accounted
  · have hun : remaining s.discipline.completed (s.returned ++ (s.unread.headD []).take size).length =
        remaining s.unread ((s.unread.headD []).take size).length := by
      rw [List.length_append, remaining_add h.nil_notMem, unread]
    exact congrArg List.length hun.symm

end DisciplineInv

lemma canonicalTty_inductive : ((canonicalTty raw).restrict WithinLimits).Inductive DisciplineInv := by
  constructor
  · rintro s ⟨t, inputBuffer, output, ht, rfl⟩
    exact ⟨ht, rfl, Nat.zero_le _, List.not_mem_nil, fun c hc => absurd hc List.not_mem_nil, rfl, rfl⟩
  · rintro s call s' h ⟨hs, hlim⟩
    cases hs with
    | emit => exact h.emit _ hlim
    | read hr => exact h.read hr

lemma poll_in {tty : TTY ε} (hc : tty.termios.canonical = true) {events : ℕ} (he : events &&& fPollIn ≠ 0) :
    tty.poll events 0 &&& fPollIn ≠ 0 ↔ 0 < tty.availableLines := by
  have hodd : events % 2 = 1 := by simpa using he
  unfold TTY.poll
  by_cases h : 0 < tty.availableLines
  · by_cases hout : events &&& fPollOut = 0 <;> simp [hc, h, hodd, hout]
  · by_cases hout : events &&& fPollOut = 0 <;> simp [hc, h, hout]

end Reference

section Typing

/-- The bytes of "ab", erased to "a", and a carriage return, typed into a new terminal and read in part. -/
def typedLine : TypedTty (RingBuffer 4096 UInt8) :=
  [0x61, 0x62, delete, carriageReturn].foldl
    (fun s ch => { s with tty := s.tty.emit PtySlave.echoRaw ch, typed := s.typed ++ [ch] })
    ⟨PtyMaster.new, [], []⟩

lemma typedLine_reachable : ((canonicalTty PtySlave.echoRaw).restrict WithinLimits).Reachable typedLine :=
  have h₀ : ((canonicalTty PtySlave.echoRaw).restrict WithinLimits).Reachable ⟨PtyMaster.new, [], []⟩ :=
    .init ⟨resetTermios, PtyMaster.emptyBuffer, PtyMaster.emptyBuffer, rfl, rfl⟩
  (((h₀.step (a := TypedCall.emit 0x61) ⟨.emit, by decide⟩).step (a := TypedCall.emit 0x62) ⟨.emit, by decide⟩).step
    (a := TypedCall.emit delete) ⟨.emit, by decide⟩).step (a := TypedCall.emit carriageReturn) ⟨.emit, by decide⟩

end Typing

end Pi0Os.Drivers
