import Pi0Os.Library.TransitionSystem
import Pi0Os.Task.Scheduler
import Pi0Os.Vfs.CanonicalPaths
import Pi0Os.Vfs.InodeCache

/-! The working directory of a process: `sys$setcwd` and `sys$getcwd`, and `pathjoin` with the block it writes. -/

namespace Pi0Os.Task

open Kernel Byte Buffer Vfs Library

/-- The part of `pathjoin` that puts a separator behind the first path. -/
def appendSlash (result : Buffer) (len1 : ℕ) : Except Panic (Buffer × ℕ) := do
  if len1 > 0 then
    if (← result.load (len1 - 1)) ≠ slash then return (← result.store len1 slash, len1 + 1)
  return (result, len1)

/-- `pathjoin` over the block that `malloc` gives, whatever it holds. -/
def pathjoinBlock (malloc : ℕ → Option Buffer) (path1 path2 : CString) : Except Panic (Option Buffer) := do
  let len1 := min path1.length maxPathLen
  let len2 := min path2.length maxPathLen
  if len1 + len2 + 2 > maxPathLen then return none
  match malloc (len1 + len2 + 2) with
  | none => return none
  | some result =>
    let result ← result.memcpy 0 (path1.take len1)
    let (result, len1) ← appendSlash result len1
    let result ← result.memcpy len1 (path2.take len2)
    return some (← result.store (len1 + len2) nul)

/-- What `malloc` answers to `pathjoin` and to `canonicalize_path`. -/
structure CwdEnv where
  join : ℕ → Option Buffer
  malloc : ℕ → Bool

def createcwd (env : CwdEnv) (workdir userpath : CString) : Except Panic (Except ℤ Buffer) := do
  if userpath.head? = some slash then
    if min userpath.length maxPathLen ≥ maxPathLen then return .error (-Err.tooBig)
    match ← canonicalizePath env.malloc userpath with
    | none => return .error (-Err.noMem)
    | some path => return .ok (← decanonicalizePath path)
  match ← pathjoinBlock env.join workdir userpath with
  | none => return .error (-Err.noMem)
  | some temp =>
    match ← canonicalizePath env.malloc (cString temp) with
    | none => return .error (-Err.noMem)
    | some path => return .ok (← decanonicalizePath path)

def sysSetcwd (env : CwdEnv) (p : Process) (path : CString) : Except Panic (ℤ × Process) := do
  match ← createcwd env p.workingDirectory path with
  | .error rc => return (rc, p)
  | .ok workdir => return (0, { p with workingDirectory := cString workdir })

def sysGetcwd (p : Process) (buf : Buffer) (buflen : ℕ) : Except Panic (ℤ × Buffer) := do
  let len := min p.workingDirectory.length maxPathLen
  if len ≥ buflen then return (-Err.tooBig, buf)
  let buf ← strncpy buf p.workingDirectory (buflen - 1)
  return (0, ← buf.store (buflen - 1) nul)

/-- The blocks of `malloc` have the size that was asked for. -/
def Sized (malloc : ℕ → Option Buffer) : Prop := ∀ n block, malloc n = some block → block.length = n

/-- The calls of `sys$setcwd` of one process. -/
def cwdCalls : TransitionSystem Process (CwdEnv × CString) where
  Init p := p.workingDirectory = [slash]
  Step p call p' := Sized call.1.join ∧ nul ∉ call.2 ∧ ∃ rc, sysSetcwd call.1 p call.2 = .ok (rc, p')

section Join

variable {malloc : ℕ → Option Buffer} {path1 path2 : CString}

lemma appendSlash_eq (path1 : CString) {rest : Buffer} (h : rest ≠ []) :
    ∃ pre left, appendSlash (path1 ++ rest) path1.length = .ok (pre ++ left, pre.length) ∧
      rest.length ≤ left.length + 1 ∧
      pre = if path1 ≠ [] ∧ path1.getLast? ≠ some slash then path1 ++ [slash] else path1 := by
  rcases List.eq_nil_or_concat' path1 with rfl | ⟨init, c, rfl⟩
  · exact ⟨[], rest, rfl, by omega, by simp⟩
  · have hload : load (init ++ [c] ++ rest) ((init ++ [c]).length - 1) = .ok c := by simp [load]
    by_cases hc : c = slash
    · refine ⟨init ++ [c], rest, ?_, by omega, by simp [hc]⟩
      rw [appendSlash, if_pos (by simp), hload, ok_bind, if_neg (by simpa using hc)]
      rfl
    · obtain ⟨d, rest, rfl⟩ := List.exists_cons_of_ne_nil h
      refine ⟨init ++ [c] ++ [slash], rest, ?_, by simp, by simp [hc]⟩
      rw [appendSlash, if_pos (by simp), hload, ok_bind, if_pos hc, store_mid, ok_bind]
      simp

lemma pathjoinBlock_eq (hs : Sized malloc) (h1 : nul ∉ path1) (h2 : nul ∉ path2) :
    ∃ result, pathjoinBlock malloc path1 path2 = .ok result ∧
      result.map cString = pathjoin (fun n => (malloc n).isSome) path1 path2 := by
  by_cases hlong : min path1.length maxPathLen + min path2.length maxPathLen + 2 > maxPathLen
  · refine ⟨none, ?_, ?_⟩
    · rw [pathjoinBlock, if_pos hlong]
      rfl
    · rw [pathjoin, if_pos hlong]
      rfl
  · have hl1 : min path1.length maxPathLen = path1.length := by omega
    have hl2 : min path2.length maxPathLen = path2.length := by omega
    rw [hl1, hl2] at hlong
    rw [pathjoinBlock, pathjoin, hl1, hl2, if_neg hlong, if_neg hlong]
    cases hblock : malloc (path1.length + path2.length + 2) with
    | none => exact ⟨none, rfl, by simp⟩
    | some block =>
      have hlen := hs _ _ hblock
      have hfirst : memcpy block 0 path1 = .ok (path1 ++ block.drop path1.length) := by
        simpa using memcpy_mid (r := block) [] path1 (by omega)
      obtain ⟨pre, left, happ, hroom, hpre⟩ := @appendSlash_eq path1 (block.drop path1.length)
        (by rw [Ne, List.drop_eq_nil_iff]; omega)
      rw [List.length_drop, hlen] at hroom
      have hsecond := memcpy_mid (r := left) pre path2 (by omega)
      obtain ⟨c, left', hleft⟩ := List.exists_cons_of_ne_nil (l := left.drop path2.length)
        (by rw [Ne, List.drop_eq_nil_iff]; omega)
      have hstore := @store_mid (pre ++ path2) left' c nul
      rw [List.length_append] at hstore
      have hn : nul ∉ pre ++ path2 := by
        rw [hpre]
        split_ifs <;> simp [h1, h2]
      refine ⟨some (pre ++ path2 ++ nul :: left'), ?_, ?_⟩
      · simp only [List.take_length, hfirst, ok_bind, happ, hsecond, hleft, hstore]
        rfl
      · rw [Option.map_some, cString_append hn, hpre]
        by_cases hsep : path1 ≠ [] ∧ path1.getLast? ≠ some slash
        · simp [if_pos hsep]
        · simp [if_neg hsep]

end Join

section Calls

variable {env : CwdEnv} {p p' : Process} {path : CString} {cs : List CString}

lemma pathjoin_absolute {malloc : ℕ → Bool} {path1 path2 joint : CString} (h : path1.head? = some slash)
    (h1 : nul ∉ path1) (h2 : nul ∉ path2) (hj : pathjoin malloc path1 path2 = some joint) :
    AbsolutePath joint ∧ joint.length < maxPathLen := by
  obtain ⟨path1, rfl⟩ := List.head?_eq_some_iff.mp h
  rw [pathjoin] at hj
  split_ifs at hj with hlong hm hsep
  · obtain rfl := Option.some.inj hj
    refine ⟨⟨rfl, ?_⟩, ?_⟩
    · simp_all
    · simp at hlong ⊢
      omega
  · obtain rfl := Option.some.inj hj
    refine ⟨⟨rfl, ?_⟩, ?_⟩
    · simp_all
    · simp at hlong ⊢
      omega

/-- What the working directory of a process is, as the string of a component list. -/
structure WorkingAt (wd : CString) (cs : List CString) : Prop where
  text : wd = joined cs
  names : ∀ c ∈ cs, CanonicalName c
  length : wd.length < maxPathLen

lemma WorkingAt.head (h : WorkingAt path cs) : path.head? = some slash := by
  rw [h.text]
  cases cs <;> rfl

lemma WorkingAt.nul (h : WorkingAt path cs) : nul ∉ path := by
  rw [h.text]
  exact nul_notMem_joined fun c hc => (h.names c hc).nul

lemma length_joined (cs : List CString) : (joined cs).length ≤ max 1 (encode cs).length := by
  rw [joined]
  split_ifs
  · simp
  · simp [encode]

lemma length_skipSlashes_le (hp : AbsolutePath path) : (skipSlashes path).length ≤ path.length := by
  obtain ⟨q, rfl⟩ := List.head?_eq_some_iff.mp hp.absolute
  obtain ⟨q', hq, n, hpath⟩ := skipSlashes_absolute q
  rw [hq, hpath, List.length_append]
  omega

/-- `canonicalize_path` and `decanonicalize_path` of an absolute path that is not too long. -/
lemma canonicalizePath_workingAt {malloc : ℕ → Bool} (hp : AbsolutePath path) (hlen : path.length < maxPathLen) :
    (canonicalizePath malloc path = .ok none) ∨
      ∃ cpath text, canonicalizePath malloc path = .ok (some cpath) ∧ decanonicalizePath cpath = .ok text ∧
        WorkingAt (cString text) (canonicalComponents path) := by
  by_cases hm : malloc ((skipSlashes path).length + 2) = true
  · obtain ⟨cpath, hc, he, hcs⟩ := canonicalizePath_components hp hm
    obtain ⟨text, htext, -, hstring⟩ := he.decanonicalize
    refine .inr ⟨cpath, text, hc, htext, hstring, hcs, ?_⟩
    obtain ⟨left, hlayout⟩ := he.layout
    have hl := length_canonicalizePath hc
    rw [hlayout, List.length_append] at hl
    have hskip := length_skipSlashes_le hp
    have hj := length_joined (canonicalComponents path)
    rw [hstring]
    simp only [List.length_cons] at hl
    have : 1 < maxPathLen := by decide
    omega
  · refine .inl ?_
    rw [canonicalizePath, if_pos hm]
    rfl

/-- What `createcwd` makes of a working directory and a path: the string of a canonicalized path, or an error. -/
lemma createcwd_spec {wd : CString} (hw : WorkingAt wd cs) (hs : Sized env.join) (hn : nul ∉ path) :
    (∃ rc, createcwd env wd path = .ok (.error rc) ∧ rc < 0) ∨
      ∃ text ds, createcwd env wd path = .ok (.ok text) ∧ WorkingAt (cString text) ds := by
  by_cases habs : path.head? = some slash
  · rw [createcwd, if_pos habs]
    by_cases hlong : min path.length maxPathLen ≥ maxPathLen
    · exact .inl ⟨_, by rw [if_pos hlong]; rfl, by decide⟩
    · rw [if_neg hlong]
      rcases @canonicalizePath_workingAt _ env.malloc ⟨habs, hn⟩ (by omega) with hc | ⟨cpath, text, hc, ht, hw'⟩
      · exact .inl ⟨_, by rw [hc]; rfl, by decide⟩
      · exact .inr ⟨text, _, by simp only [hc, ok_bind, ht]; rfl, hw'⟩
  · rw [createcwd, if_neg habs]
    obtain ⟨result, hj, hstring⟩ := pathjoinBlock_eq hs hw.nul hn
    cases result with
    | none => exact .inl ⟨_, by rw [hj]; rfl, by decide⟩
    | some temp =>
      rw [Option.map_some] at hstring
      obtain ⟨hp, hlen⟩ := pathjoin_absolute hw.head hw.nul hn hstring.symm
      rcases @canonicalizePath_workingAt _ env.malloc hp hlen with hc | ⟨cpath, text, hc, ht, hw'⟩
      · exact .inl ⟨_, by simp only [hj, ok_bind, hc]; rfl, by decide⟩
      · exact .inr ⟨text, _, by simp only [hj, ok_bind, hc, ht]; rfl, hw'⟩

lemma sysSetcwd_spec (hw : WorkingAt p.workingDirectory cs) (hs : Sized env.join) (hn : nul ∉ path) :
    (∃ rc, sysSetcwd env p path = .ok (rc, p) ∧ rc < 0) ∨
      ∃ wd ds, sysSetcwd env p path = .ok (0, { p with workingDirectory := wd }) ∧ WorkingAt wd ds := by
  rcases createcwd_spec hw hs hn with ⟨rc, hc, hrc⟩ | ⟨text, ds, hc, hw'⟩
  · exact .inl ⟨rc, by rw [sysSetcwd, hc]; rfl, hrc⟩
  · exact .inr ⟨cString text, ds, by rw [sysSetcwd, hc]; rfl, hw'⟩

lemma workingAt_reachable (h : cwdCalls.Reachable p) : ∃ cs, WorkingAt p.workingDirectory cs := by
  refine h.invariant (I := fun p => ∃ cs, WorkingAt p.workingDirectory cs) ⟨fun p hp => ?_, ?_⟩
  · exact ⟨[], hp, by simp, by rw [show p.workingDirectory = [slash] from hp]; decide⟩
  · rintro p ⟨env, path⟩ p' ⟨cs, hw⟩ ⟨hs, hn, rc, hcall⟩
    rcases sysSetcwd_spec hw hs hn with ⟨rc', hc, -⟩ | ⟨wd, ds, hc, hw'⟩
    · rw [hc] at hcall
      cases hcall
      exact ⟨cs, hw⟩
    · rw [hc] at hcall
      cases hcall
      exact ⟨ds, hw'⟩

lemma sysGetcwd_spec (hw : WorkingAt p.workingDirectory cs) {buf : Buffer} (hb : buf.length = maxPathLen) :
    ∃ buf', sysGetcwd p buf maxPathLen = .ok (0, buf') ∧ cString buf' = p.workingDirectory := by
  have hwd := hw.length
  obtain ⟨k, hk⟩ : ∃ k, maxPathLen - 1 = p.workingDirectory.length + k := Nat.exists_eq_add_of_le (by omega)
  have hbytes : (p.workingDirectory ++ List.replicate (maxPathLen - 1) nul).take (maxPathLen - 1) =
      p.workingDirectory ++ List.replicate k nul := by
    rw [hk, List.take_length_add_append, List.take_replicate, Nat.min_eq_left (by omega)]
  have hcopy := memcpy_mid (r := buf) [] (p.workingDirectory ++ List.replicate k nul)
    (by rw [List.length_append, List.length_replicate]; omega)
  obtain ⟨c, left, hleft⟩ := List.exists_cons_of_ne_nil (l := buf.drop (maxPathLen - 1))
    (by rw [Ne, List.drop_eq_nil_iff]; omega)
  have hlen : (p.workingDirectory ++ List.replicate k nul).length = maxPathLen - 1 := by
    rw [List.length_append, List.length_replicate, hk]
  have hstore := @store_mid (p.workingDirectory ++ List.replicate k nul) left c nul
  rw [hlen] at hstore hcopy
  refine ⟨p.workingDirectory ++ List.replicate k nul ++ nul :: left, ?_, ?_⟩
  · rw [sysGetcwd, if_neg (by omega), strncpy, hbytes]
    simp only [List.nil_append, List.length_nil, hleft] at hcopy
    rw [hcopy, ok_bind, hstore]
    rfl
  · have hnuls : List.replicate k nul ++ nul :: left = nul :: (List.replicate k nul ++ left) := by
      rw [← List.cons_append, ← List.replicate_succ, List.replicate_succ', List.append_assoc]
      rfl
    rw [List.append_assoc, hnuls, cString_append hw.nul]

/-- The working directory after any calls of `sys$setcwd`, and what the next calls make of it. -/
theorem workingDirectory_runs (h : cwdCalls.Reachable p) :
    p.workingDirectory.head? = some slash ∧ p.workingDirectory.length ≤ 255 ∧
      (∃ cs, p.workingDirectory = joined cs ∧ ∀ c ∈ cs, c ≠ [] ∧ slash ∉ c ∧ c ≠ [dot] ∧ c ≠ dotDot) ∧
      (∀ env path, Sized env.join → nul ∉ path →
        ∃ rc p', sysSetcwd env p path = .ok (rc, p') ∧ rc ≤ 0 ∧ (rc < 0 → p' = p)) ∧
      (∀ buf : Buffer, buf.length = 256 →
        ∃ buf', sysGetcwd p buf 256 = .ok (0, buf') ∧ cString buf' = p.workingDirectory) ∧
      ∀ malloc path, Sized malloc → nul ∉ path →
        ∃ result, pathjoinBlock malloc p.workingDirectory path = .ok result ∧
          result.map cString = pathjoin (fun n => (malloc n).isSome) p.workingDirectory path := by
  obtain ⟨cs, hw⟩ := workingAt_reachable h
  refine ⟨hw.head, Nat.le_of_lt_succ hw.length, ⟨cs, hw.text, fun c hc => ?_⟩, fun env path hs hn => ?_,
    fun buf hb => sysGetcwd_spec hw hb, fun malloc path hs hn => pathjoinBlock_eq hs hw.nul hn⟩
  · have hname := hw.names c hc
    refine ⟨hname.ne_nil, hname.slash, ?_, ?_⟩
    · rintro rfl
      exact hname.head rfl
    · rintro rfl
      exact hname.head rfl
  · rcases sysSetcwd_spec hw hs hn with ⟨rc, hc, hrc⟩ | ⟨wd, ds, hc, -⟩
    · exact ⟨rc, p, hc, hrc.le, fun _ => rfl⟩
    · exact ⟨0, _, hc, le_rfl, fun h => absurd h (lt_irrefl 0)⟩

end Calls

def cwdProcess (wd : CString) : Process := ⟨1, 0, 0, [], 0, fun _ => none, wd, []⟩

def cwdEnv : CwdEnv := ⟨fun n => some (List.replicate n 0xaa), fun _ => true⟩

/-- `sys$setcwd("a/..b")` in `/`. -/
theorem workingDirectory_runs_relative : ∃ p, cwdCalls.Reachable p ∧ p.workingDirectory = [slash, 0x62] ∧
    p.workingDirectory.length ≤ 255 := by
  have h : cwdCalls.Reachable (cwdProcess [slash, 0x62]) := by
    refine .step (.init (s := cwdProcess [slash]) rfl) (a := (cwdEnv, [0x61, slash, dot, dot, 0x62]))
      ⟨fun n block hb => ?_, by decide, 0, rfl⟩
    obtain rfl := Option.some.inj hb
    exact List.length_replicate
  exact ⟨_, h, rfl, (workingDirectory_runs h).2.1⟩

end Pi0Os.Task
