import Pi0Os.Vfs.CanonicalPaths
import Pi0Os.Vfs.MountResolution

/-! The tracing of a path in `traverse`: `log_canonicalized_path` is called for the argument of each log line, whether
the line is printed or not. -/

namespace Pi0Os.Vfs

open Kernel Byte Buffer

/-- The length of the static buffer of `log_canonicalized_path`. -/
abbrev logBufferSize : ℕ := 256

/-- The loop of `log_canonicalized_path`; the result has the final `i`. -/
def logLoop (path : Buffer) : ℕ → Buffer → ℕ → Except Panic (Buffer × ℕ)
  | 0, _, _ => .error pathPassStuck
  | fuel + 1, buf, i => do
    let c ← load path i
    if c ≠ nul then logLoop path fuel (← store buf i c) (i + 1)
    else if (← load path (i + 1)) ≠ nul then logLoop path fuel (← store buf i slash) (i + 1)
    else return (buf, i)

def logCanonicalizedPath (buf path : Buffer) : Except Panic Buffer := do
  let (buf, i) ← logLoop path path.length buf 0
  store buf i nul

/-- The log lines of `traverse`, on the static buffer. -/
def traverseTrace {F : Type} (malloc : ℕ → Bool) (mounts : List (MountPoint F)) (path : CString) (buf : Buffer) :
    Except Panic Buffer := do
  match ← canonicalizePath malloc path with
  | none => return buf
  | some cpath =>
    let buf ← logCanonicalizedPath buf cpath
    match ← findFirst (fun mp => canonicalizedPathStartswith cpath mp.path) mounts with
    | none => return buf
    | some (_, mp, _) => logCanonicalizedPath buf mp.path

section Log

variable {path buf pre rest : Buffer} {n fuel i : ℕ}

lemma canonicalizedPathStrlen_cons {a b : UInt8} {r : Buffer} (h : canonicalizedPathStrlen (a :: b :: r) = .ok n) :
    a = nul ∧ b = nul ∧ n = 0 ∨
      ¬ (a = nul ∧ b = nul) ∧ ∃ m, canonicalizedPathStrlen (b :: r) = .ok m ∧ n = m + 1 := by
  rw [canonicalizedPathStrlen] at h
  by_cases hab : a = nul ∧ b = nul
  · rw [if_pos hab] at h
    exact .inl ⟨hab.1, hab.2, (Except.ok.inj h).symm⟩
  · rw [if_neg hab] at h
    obtain ⟨m, hm, h⟩ := bind_eq_ok.mp h
    exact .inr ⟨hab, m, hm, (Except.ok.inj h).symm⟩

lemma logLoop_end {r : Buffer} :
    logLoop (pre ++ nul :: nul :: r) (fuel + 1) buf pre.length = .ok (buf, pre.length) := by
  rw [logLoop, load_mid, ok_bind, if_neg (not_not_intro rfl), load_mid_succ, ok_bind, if_neg (not_not_intro rfl)]
  rfl

lemma logLoop_step {a b : UInt8} {r : Buffer} (hab : ¬ (a = nul ∧ b = nul)) :
    ∃ c, logLoop (pre ++ a :: b :: r) (fuel + 1) buf pre.length =
      (store buf pre.length c >>= fun buf => logLoop (pre ++ [a] ++ b :: r) fuel buf (pre ++ [a]).length) := by
  rw [List.append_assoc, List.length_append]
  by_cases ha : a = nul
  · have hb : b ≠ nul := fun hb => hab ⟨ha, hb⟩
    refine ⟨slash, ?_⟩
    rw [logLoop, load_mid, ok_bind, if_neg (not_not_intro ha), load_mid_succ, ok_bind, if_pos hb]
    rfl
  · refine ⟨a, ?_⟩
    rw [logLoop, load_mid, ok_bind, if_pos ha]
    rfl

/-- The loop writes one byte for each of the path. -/
lemma logLoop_room (hlen : canonicalizedPathStrlen rest = .ok n) (pre : Buffer) (hf : n < fuel)
    (hroom : pre.length + n ≤ buf.length) :
    ∃ buf', logLoop (pre ++ rest) fuel buf pre.length = .ok (buf', pre.length + n) ∧ buf'.length = buf.length := by
  induction fuel generalizing n pre rest buf with
  | zero => omega
  | succ fuel ih =>
    obtain _ | ⟨a, _ | ⟨b, r⟩⟩ := rest
    · cases hlen
    · cases hlen
    obtain ⟨rfl, rfl, rfl⟩ | ⟨hab, m, hm, rfl⟩ := canonicalizedPathStrlen_cons hlen
    · exact ⟨buf, logLoop_end, rfl⟩
    · obtain ⟨c, hstep⟩ := @logLoop_step buf pre fuel a b r hab
      have hlt : pre.length < buf.length := by omega
      have hpre : (pre ++ [a]).length = pre.length + 1 := by simp
      obtain ⟨buf', hrun, hlen'⟩ := @ih (buf.set pre.length c) _ _ hm (pre ++ [a]) (by omega)
        (by rw [List.length_set]; omega)
      rw [hpre, Nat.add_assoc, Nat.add_comm 1] at hrun
      exact ⟨buf', by rw [hstep, store, if_pos hlt, ok_bind, hpre, hrun], hlen'.trans List.length_set⟩

lemma logLoop_full (hlen : canonicalizedPathStrlen rest = .ok n) (pre : Buffer) (hf : n < fuel)
    (hpre : pre.length ≤ buf.length) (hfull : buf.length < pre.length + n) :
    logLoop (pre ++ rest) fuel buf pre.length = .error (.undefined "write outside the block") := by
  induction fuel generalizing n pre rest buf with
  | zero => omega
  | succ fuel ih =>
    obtain _ | ⟨a, _ | ⟨b, r⟩⟩ := rest
    · cases hlen
    · cases hlen
    obtain ⟨rfl, rfl, rfl⟩ | ⟨hab, m, hm, rfl⟩ := canonicalizedPathStrlen_cons hlen
    · omega
    · obtain ⟨c, hstep⟩ := @logLoop_step buf pre fuel a b r hab
      rw [hstep, store]
      by_cases hlt : pre.length < buf.length
      · have hpre' : (pre ++ [a]).length = pre.length + 1 := by simp
        rw [if_pos hlt, ok_bind]
        exact ih hm (pre ++ [a]) (by omega) (by rw [List.length_set]; omega) (by rw [List.length_set]; omega)
      · rw [if_neg hlt]
        rfl

lemma lt_length_of_strlen (hlen : canonicalizedPathStrlen path = .ok n) : n < path.length := by
  induction path generalizing n with
  | nil => cases hlen
  | cons a path ih =>
    obtain _ | ⟨b, r⟩ := path
    · cases hlen
    · obtain ⟨-, -, rfl⟩ | ⟨-, m, hm, rfl⟩ := canonicalizedPathStrlen_cons hlen
      · exact Nat.succ_pos _
      · exact Nat.succ_lt_succ (ih hm)

/-- The buffer keeps its length and holds a terminated string. -/
def Traced (buf : Buffer) (run : Except Panic Buffer) : Prop :=
  ∃ buf', run = .ok buf' ∧ buf'.length = buf.length ∧ nul ∈ buf'

lemma logCanonicalizedPath_room (hlen : canonicalizedPathStrlen path = .ok n) (hroom : n < buf.length) :
    Traced buf (logCanonicalizedPath buf path) := by
  obtain ⟨buf', hrun, hlen'⟩ := logLoop_room hlen [] (lt_length_of_strlen hlen) (by simpa using hroom.le)
  rw [List.nil_append, List.length_nil, Nat.zero_add] at hrun
  have hlt : n < buf'.length := by rwa [hlen']
  refine ⟨buf'.set n nul, ?_, List.length_set.trans hlen', List.mem_set hlt nul⟩
  rw [logCanonicalizedPath, hrun, ok_bind]
  exact if_pos hlt

lemma logCanonicalizedPath_full (hlen : canonicalizedPathStrlen path = .ok n) (hfull : buf.length ≤ n) :
    logCanonicalizedPath buf path = .error (.undefined "write outside the block") := by
  rw [logCanonicalizedPath]
  rcases hfull.lt_or_eq with hlt | rfl
  · have hrun := logLoop_full hlen [] (lt_length_of_strlen hlen) (Nat.zero_le _) (by simpa using hlt)
    rw [List.nil_append, List.length_nil] at hrun
    rw [hrun, error_bind]
  · obtain ⟨buf', hrun, hlen'⟩ := @logLoop_room buf path _ _ hlen [] (lt_length_of_strlen hlen) (by simp)
    rw [List.nil_append, List.length_nil, Nat.zero_add] at hrun
    rw [hrun, ok_bind]
    exact if_neg (not_lt.mpr hlen'.le)

/-- Two NULs in a row end the path. -/
lemma exists_strlen (pre r : Buffer) : ∃ n, canonicalizedPathStrlen (pre ++ nul :: nul :: r) = .ok n := by
  induction pre with
  | nil => exact ⟨0, if_pos ⟨rfl, rfl⟩⟩
  | cons a pre ih =>
    obtain ⟨n, hn⟩ := ih
    obtain ⟨b, t, ht⟩ : ∃ b t, pre ++ nul :: nul :: r = b :: t := by
      cases pre with
      | nil => exact ⟨_, _, rfl⟩
      | cons b pre => exact ⟨_, _, rfl⟩
    rw [List.cons_append, ht, canonicalizedPathStrlen]
    by_cases hab : a = nul ∧ b = nul
    · exact ⟨0, if_pos hab⟩
    · rw [if_neg hab, ← ht, hn]
      exact ⟨n + 1, rfl⟩

lemma strlen_terminated {buf₄ buf₅ : Buffer} (h₄ : store buf n nul = .ok buf₄)
    (h₅ : store buf₄ (n + 1) nul = .ok buf₅) :
    ∃ k, canonicalizedPathStrlen buf₅ = .ok k := by
  rw [store] at h₄ h₅
  split_ifs at h₄ with hn
  split_ifs at h₅ with hn'
  obtain rfl := Except.ok.inj h₄
  obtain rfl := Except.ok.inj h₅
  rw [List.length_set] at hn'
  obtain ⟨pre, a, b, r, rfl, rfl⟩ : ∃ pre a b r, buf = pre ++ a :: b :: r ∧ pre.length = n :=
    ⟨buf.take n, buf[n], buf[n + 1], buf.drop (n + 2), by simp, by simp [hn.le]⟩
  have hmid : ((pre ++ a :: b :: r).set pre.length nul).set (pre.length + 1) nul = pre ++ nul :: nul :: r := by
    simp [List.set_append_right]
  rw [hmid]
  exact exists_strlen pre r

end Log

section Traverse

variable {F : Type} {malloc : ℕ → Bool} {mounts : List (MountPoint F)} {path : CString} {buf cpath : Buffer} {n : ℕ}

/-- What `canonicalize_path` returns ends in two NULs. -/
lemma strlen_canonicalizePath (h : canonicalizePath malloc path = .ok (some cpath)) :
    ∃ n, canonicalizedPathStrlen cpath = .ok n := by
  rw [canonicalizePath] at h
  dsimp only at h
  split_ifs at h
  · obtain ⟨buf₁, -, h⟩ := bind_eq_ok.mp h
    obtain ⟨buf₂, -, h⟩ := bind_eq_ok.mp h
    obtain ⟨buf₃, -, h⟩ := bind_eq_ok.mp h
    obtain ⟨k, -, h⟩ := bind_eq_ok.mp h
    obtain ⟨buf₄, h₄, h⟩ := bind_eq_ok.mp h
    obtain ⟨buf₅, h₅, h⟩ := bind_eq_ok.mp h
    cases h
    exact strlen_terminated h₄ h₅
  · cases h

/-- The mount point found has a path that is no longer. -/
lemma traverseTrace_room (h : canonicalizePath malloc path = .ok (some cpath))
    (hlen : canonicalizedPathStrlen cpath = .ok n) (hroom : n < buf.length) :
    Traced buf (traverseTrace malloc mounts path buf) := by
  obtain ⟨buf₁, hlog, hlen₁, hnul⟩ := logCanonicalizedPath_room hlen hroom
  rw [traverseTrace, h, ok_bind]
  dsimp only
  rw [hlog, ok_bind]
  rcases findFirst_spec (fun mp _ => mp.startswith hlen) (l := mounts) with
    ⟨hnone, -⟩ | ⟨x, mp, y, -, hsome, -, hmp⟩
  · rw [hnone]
    exact ⟨buf₁, rfl, hlen₁, hnul⟩
  · rw [hsome]
    have hle : mp.pathSkip ≤ n + 1 := (of_decide_eq_true hmp).1
    obtain ⟨buf₂, hlog₂, hlen₂, hnul₂⟩ := @logCanonicalizedPath_room mp.path buf₁ _ mp.strlen_path (by omega)
    exact ⟨buf₂, hlog₂, hlen₂.trans hlen₁, hnul₂⟩

/-- Traversing a path stays in the buffer of the trace exactly when the canonicalized path leaves room for its end. -/
theorem traverseTrace_inBounds_iff (mounts : List (MountPoint F))
    (h : canonicalizePath malloc path = .ok (some cpath)) (hbuf : buf.length = logBufferSize) :
    Traced buf (traverseTrace malloc mounts path buf) ↔
      ∃ n < logBufferSize, canonicalizedPathStrlen cpath = .ok n := by
  obtain ⟨n, hlen⟩ := strlen_canonicalizePath h
  constructor
  · rintro ⟨buf', hrun, -⟩
    by_contra hn
    have hfull : buf.length ≤ n := by
      by_contra hlt
      exact hn ⟨n, by omega, hlen⟩
    rw [traverseTrace, h, ok_bind] at hrun
    dsimp only at hrun
    rw [logCanonicalizedPath_full hlen hfull] at hrun
    cases hrun
  · rintro ⟨m, hm, hlen'⟩
    exact traverseTrace_room h hlen' (by omega)

/-- `/init`, with no mount point. -/
theorem traverseTrace_inBounds_init : ∃ cpath,
    canonicalizePath (fun _ => true) [slash, 105, 110, 105, 116] = .ok (some cpath) ∧
    Traced (List.replicate logBufferSize nul)
      (traverseTrace (fun _ => true) ([] : List (MountPoint ℕ)) [slash, 105, 110, 105, 116]
        (List.replicate logBufferSize nul)) :=
  ⟨_, rfl, (traverseTrace_inBounds_iff [] rfl List.length_replicate).mpr ⟨5, by decide, rfl⟩⟩

lemma canonicalName_letters {k : ℕ} (hk : 0 < k) : CanonicalName (List.replicate k 97) := by
  refine ⟨fun hnil => ?_, fun hmem => ?_, fun hmem => ?_, fun hhead => ?_, fun hd => ?_⟩
  · rw [List.replicate_eq_nil_iff] at hnil
    omega
  · exact absurd (List.eq_of_mem_replicate hmem) (by decide)
  · exact absurd (List.eq_of_mem_replicate hmem) (by decide)
  · exact absurd (List.eq_of_mem_replicate (List.mem_of_mem_head? hhead)) (by decide)
  · exact absurd (List.eq_of_mem_replicate (hd.subset List.mem_cons_self)) (by decide)

/-- An absolute path of one name. -/
lemma not_traced_letters {k : ℕ} (hk : logBufferSize ≤ k) (mounts : List (MountPoint F))
    (hbuf : buf.length = logBufferSize) :
    ∃ cpath, canonicalizePath (fun _ => true) (slash :: List.replicate k 97) = .ok (some cpath) ∧
      ¬ Traced buf (traverseTrace (fun _ => true) mounts (slash :: List.replicate k 97) buf) := by
  have hname : CanonicalName (List.replicate k 97) := canonicalName_letters (Nat.lt_of_lt_of_le (by decide) hk)
  obtain ⟨habs, hcs⟩ := canonicalComponents_joined (fun d hd => List.mem_singleton.mp hd ▸ hname)
  have hpath : joined [List.replicate k 97] = slash :: List.replicate k 97 := by simp [joined]
  rw [hpath] at habs hcs
  obtain ⟨cpath, hcpath, he, -⟩ := @canonicalizePath_components _ (fun _ => true) habs rfl
  rw [hcs] at he
  refine ⟨cpath, hcpath, ?_⟩
  rintro ⟨buf', hrun, -⟩
  have hfull : buf.length ≤ (encode [List.replicate k 97]).length := by
    simp only [encode, List.flatMap_cons, List.flatMap_nil, List.append_nil, List.length_cons, List.length_replicate]
    omega
  rw [traverseTrace, hcpath, ok_bind] at hrun
  dsimp only at hrun
  rw [logCanonicalizedPath_full he.strlen hfull] at hrun
  cases hrun

/-- A slash and 256 letters. -/
theorem traverseTrace_overrun : ∃ cpath,
    canonicalizePath (fun _ => true) (slash :: List.replicate 256 97) = .ok (some cpath) ∧
    ¬ Traced (List.replicate logBufferSize nul) (traverseTrace (fun _ => true) ([] : List (MountPoint ℕ))
      (slash :: List.replicate 256 97) (List.replicate logBufferSize nul)) :=
  not_traced_letters le_rfl [] List.length_replicate

end Traverse

end Pi0Os.Vfs
