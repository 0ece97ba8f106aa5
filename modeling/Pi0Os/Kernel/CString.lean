import Pi0Os.Kernel.Base

/-! Byte buffers as C code sees them: reads and writes at an index, `memset`, `memmove`
and `strlen` over one allocated block. An access outside the block is undefined. -/

namespace Pi0Os.Kernel

abbrev Buffer := List UInt8

/-- A C string without its terminator. -/
abbrev CString := List UInt8

namespace Byte

def nul : UInt8 := 0x00
def dot : UInt8 := 0x2e
def slash : UInt8 := 0x2f

@[simp] lemma dot_ne_nul : dot ≠ nul := by decide

@[simp] lemma nul_ne_dot : nul ≠ dot := by decide

@[simp] lemma slash_ne_nul : slash ≠ nul := by decide

@[simp] lemma nul_ne_slash : nul ≠ slash := by decide

@[simp] lemma dot_ne_slash : dot ≠ slash := by decide

@[simp] lemma slash_ne_dot : slash ≠ dot := by decide

end Byte

open Byte

namespace Buffer

def load (buf : Buffer) (i : ℕ) : Except Panic UInt8 :=
  match buf[i]? with
  | some c => .ok c
  | none => .error (.undefined "read outside the block")

def store (buf : Buffer) (i : ℕ) (c : UInt8) : Except Panic Buffer :=
  if i < buf.length then .ok (buf.set i c) else .error (.undefined "write outside the block")

def memset (buf : Buffer) (dst : ℕ) (c : UInt8) (n : ℕ) : Except Panic Buffer :=
  if dst + n ≤ buf.length then .ok (buf.take dst ++ List.replicate n c ++ buf.drop (dst + n))
  else .error (.undefined "memset outside the block")

def memmove (buf : Buffer) (dst src n : ℕ) : Except Panic Buffer :=
  if dst + n ≤ buf.length ∧ src + n ≤ buf.length then
    .ok (buf.take dst ++ (buf.drop src).take n ++ buf.drop (dst + n))
  else .error (.undefined "memmove outside the block")

/-- `memcpy` of bytes that lie in another block. -/
def memcpy (buf : Buffer) (dst : ℕ) (bytes : List UInt8) : Except Panic Buffer :=
  if dst + bytes.length ≤ buf.length then
    .ok (buf.take dst ++ bytes ++ buf.drop (dst + bytes.length))
  else .error (.undefined "memcpy outside the block")

/-- The number of bytes before the first NUL at or after the pointer. -/
def strlen : Buffer → Except Panic ℕ
  | [] => .error (.undefined "unterminated string")
  | c :: r => if c = nul then .ok 0 else do return (← strlen r) + 1

variable {pre r : Buffer} {c d : UInt8}

@[simp] lemma load_mid : load (pre ++ c :: r) pre.length = .ok c := by
  simp [load]

@[simp] lemma load_mid_succ : load (pre ++ c :: d :: r) (pre.length + 1) = .ok d := by
  simp [load]

@[simp] lemma store_mid : store (pre ++ c :: r) pre.length d = .ok (pre ++ d :: r) := by
  simp [store]

@[simp] lemma store_mid_succ {e : UInt8} :
    store (pre ++ c :: d :: r) (pre.length + 1) e = .ok (pre ++ c :: e :: r) := by
  simp [store, List.set_append_right]

lemma memset_mid (pre w : Buffer) : memset (pre ++ (w ++ r)) pre.length c w.length =
    .ok (pre ++ (List.replicate w.length c ++ r)) := by
  simp [memset, List.drop_append]

lemma memcpy_mid (pre bytes : Buffer) (h : bytes.length ≤ r.length) :
    memcpy (pre ++ r) pre.length bytes = .ok (pre ++ bytes ++ r.drop bytes.length) := by
  rw [memcpy, if_pos (by simpa using h)]
  simp [List.drop_append]

/-- Moving the end of a block down leaves the old last bytes behind. -/
lemma memmove_down (pre gap tail : Buffer) :
    ∃ left : Buffer, memmove (pre ++ (gap ++ tail)) pre.length (pre.length + gap.length) tail.length =
      .ok (pre ++ (tail ++ left)) := by
  refine ⟨(gap ++ tail).drop tail.length, ?_⟩
  have hs : (pre ++ (gap ++ tail)).drop (pre.length + gap.length) = tail := by
    rw [← List.append_assoc, ← List.length_append, List.drop_left]
  rw [memmove, if_pos ⟨by simp, by simp [add_assoc]⟩, hs, List.take_length]
  simp [List.drop_append]

lemma strlen_append {s : CString} (hs : nul ∉ s) : strlen (s ++ nul :: r) = .ok s.length := by
  induction s with
  | nil => simp [strlen]
  | cons c s ih =>
    have hc : c ≠ nul := fun h => hs (by simp [h])
    simp [strlen, hc, ih (fun h => hs (List.mem_cons_of_mem c h))]

lemma exists_of_strlen {src : Buffer} {n : ℕ} (h : src.strlen = .ok n) :
    ∃ str rest, src = str ++ nul :: rest ∧ nul ∉ str ∧ str.length = n := by
  induction src generalizing n with
  | nil => cases h
  | cons c r ih =>
    rw [strlen] at h
    split_ifs at h with hc
    · cases h
      exact ⟨[], r, hc ▸ rfl, List.not_mem_nil, rfl⟩
    · obtain ⟨m, hm, h⟩ := bind_eq_ok.mp h
      cases h
      obtain ⟨str, rest, hr, hstr, hlen⟩ := ih hm
      refine ⟨c :: str, rest, congrArg (c :: ·) hr, ?_, congrArg (· + 1) hlen⟩
      intro hmem
      rcases List.mem_cons.mp hmem with heq | hmem
      · exact hc heq.symm
      · exact hstr hmem

end Buffer

section Case

/-- In the C locale. -/
def tolower (c : UInt8) : UInt8 := if 0x41 ≤ c ∧ c ≤ 0x5a then c + 0x20 else c

def strcasecmp : CString → CString → ℤ
  | c :: s, d :: t =>
    let diff : ℤ := (tolower c).toNat - (tolower d).toNat
    if diff ≠ 0 then diff else strcasecmp s t
  | s, t => (tolower (s.headD nul)).toNat - (tolower (t.headD nul)).toNat

lemma tolower_eq_nul {c : UInt8} : tolower c = nul ↔ c = nul := by
  rw [tolower, nul, ← UInt8.toNat_inj, ← UInt8.toNat_inj]
  split_ifs with h
  · obtain ⟨hlo, hhi⟩ := h
    rw [UInt8.le_iff_toNat_le] at hlo hhi
    rw [UInt8.toNat_add]
    simp only [UInt8.reduceToNat] at *
    omega
  · rfl

lemma tolower_diff_eq_zero {c d : UInt8} : ((tolower c).toNat : ℤ) - (tolower d).toNat = 0 ↔ tolower c = tolower d := by
  rw [sub_eq_zero, Nat.cast_inj, UInt8.toNat_inj]

lemma strcasecmp_eq_zero {s t : CString} (hs : nul ∉ s) (ht : nul ∉ t) :
    strcasecmp s t = 0 ↔ s.map tolower = t.map tolower := by
  induction s generalizing t with
  | nil =>
    cases t with
    | nil => exact ⟨fun _ => rfl, fun _ => rfl⟩
    | cons d t =>
      have hd : d ≠ nul := fun h => ht (h ▸ List.mem_cons_self)
      refine ⟨fun h => ?_, fun h => (List.cons_ne_nil _ _ h.symm).elim⟩
      have hnul : tolower nul = nul := rfl
      have heq := tolower_diff_eq_zero.mp h
      rw [List.headD_nil, List.headD_cons, hnul] at heq
      exact absurd (tolower_eq_nul.mp heq.symm) hd
  | cons c s ih =>
    cases t with
    | nil =>
      have hc : c ≠ nul := fun h => hs (h ▸ List.mem_cons_self)
      refine ⟨fun h => ?_, fun h => (List.cons_ne_nil _ _ h).elim⟩
      have hnul : tolower nul = nul := rfl
      have heq := tolower_diff_eq_zero.mp h
      rw [List.headD_nil, List.headD_cons, hnul] at heq
      exact absurd (tolower_eq_nul.mp heq) hc
    | cons d t =>
      have hrest := ih (fun h => hs (List.mem_cons_of_mem c h)) fun h => ht (List.mem_cons_of_mem d h)
      rw [strcasecmp, List.map_cons, List.map_cons, List.cons.injEq]
      simp only [ne_eq, tolower_diff_eq_zero]
      split_ifs with h
      · rw [hrest]
        exact ⟨fun hz => ⟨h, hz⟩, fun hz => hz.2⟩
      · exact ⟨fun hz => absurd (tolower_diff_eq_zero.mp hz) h, fun hz => absurd hz.1 h⟩

end Case

end Pi0Os.Kernel
