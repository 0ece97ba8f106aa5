import Mathlib.Data.List.ReduceOption
import Pi0Os.Library.BlockLedger
import Pi0Os.Task.Scheduler

/-! `sys$execve` with all that it allocates, and what its failure paths and its success do with it. A block of the heap,
an address space and a file custody are all named alike, and what was never set has no value. -/

namespace Pi0Os.Task.ExecveCleanup

open Kernel Library

/-- `free` and `vfs_close`, which do nothing for the null pointer. -/
def free (p : Option ℕ) (h : BlockHeap) : Except Panic BlockHeap :=
  match p with
  | none => .ok h
  | some p =>
    match h.release p with
    | some h => .ok h
    | none => .error (.undefined "free of what is not allocated")

/-- The slots of an array of which the first ones have been set. -/
structure StringArray where
  array : Option ℕ
  size : ℕ
  slots : List (Option ℕ)

def StringArray.null : StringArray := ⟨none, 0, []⟩

/-- The loop that frees the strings, with the number of slots to go. -/
def freeSlots : ℕ → List (Option ℕ) → BlockHeap → Except Panic BlockHeap
  | 0, _, h => .ok h
  | _ + 1, [], _ => .error (.undefined "free of an unset array slot")
  | n + 1, p :: slots, h => do
    let h ← free p h
    freeSlots n slots h

/-- `free_array_of_strings`, and the label `failed` of `clone_user_array_of_strings`. -/
def freeArrayOfStrings (a : StringArray) (h : BlockHeap) : Except Panic BlockHeap :=
  match a.array with
  | none => .ok h
  | some p => do
    let h ← freeSlots a.size a.slots h
    free (some p) h

/-- The loop of `clone_user_array_of_strings` after the slots that it has set, with the code that it leaves. -/
def cloneStrings (strdup : ℕ → Bool) : List CString → List (Option ℕ) → BlockHeap → ℤ × List (Option ℕ) × BlockHeap
  | [], slots, h => (0, slots, h)
  | str :: rest, slots, h =>
    if 256 ≤ str.length then (-Err.tooBig, slots, h)
    else
      let (copy, h) := h.malloc (strdup slots.length)
      if copy = none then (-Err.noMem, slots ++ [copy], h) else cloneStrings strdup rest (slots ++ [copy]) h

def cloneUserArrayOfStrings (env : CloneEnv) (userArray : List CString) (h : BlockHeap) :
    Except Panic (ℤ × StringArray × BlockHeap) :=
  if 128 ≤ userArray.length then .ok (-Err.tooBig, .null, h)
  else
    match h.malloc env.array with
    | (none, h) => .ok (-Err.noMem, .null, h)
    | (some array, h) =>
      let (rc, slots, h) := cloneStrings env.strdup userArray [] h
      if rc = 0 then .ok (0, ⟨some array, userArray.length, slots⟩, h)
      else do
        let h ← freeArrayOfStrings ⟨some array, userArray.length, slots⟩ h
        return (rc, .null, h)

/-- The answers that `elf_load_into_address_space` gets: the code of `vfs_open`, whether there is a buffer, what
`vfs_read` returns, and the code and the entry point from `try_load_elf`. -/
structure ElfEnv where
  openRc : ℤ
  malloc : Bool
  readRc : ℤ
  tryLoad : Except Panic (ℤ × ℕ)

/-- The label `cleanup` of `elf_load_into_address_space`. -/
def elfCleanup (binary custody : Option ℕ) (rc : ℤ) (entrypoint : ℕ) (h : BlockHeap) :
    Except Panic (ℤ × ℕ × BlockHeap) := do
  let h ← free binary h
  let h ← free custody h
  return (rc, entrypoint, h)

def elfLoadIntoAddressSpace (env : ElfEnv) (h : BlockHeap) : Except Panic (ℤ × ℕ × BlockHeap) :=
  let (custody, h) := h.malloc (env.openRc = 0)
  if env.openRc ≠ 0 then elfCleanup none custody env.openRc 0 h
  else
    let (binary, h) := h.malloc env.malloc
    if binary = none then elfCleanup binary custody (-Err.noMem) 0 h
    else if env.readRc < 0 then elfCleanup binary custody env.readRc 0 h
    else do
      let (rc, entrypoint) ← env.tryLoad
      elfCleanup binary custody rc entrypoint h

structure ExecveEnv where
  argv : CloneEnv
  envp : CloneEnv
  addressSpace : Bool
  elf : ElfEnv
  userStackPages : Bool
  stackWrites : Except Panic Unit -- what comes of the writes of `push_process_args`

/-- The process and the thread that make the call, and the address space that is loaded. -/
structure Machine where
  heap : BlockHeap
  current : Process
  thread : Thread
  loaded : ℕ

def vmFree (addressSpace : Option ℕ) (h : BlockHeap) : Except Panic BlockHeap :=
  match addressSpace with
  | none => .error (.undefined "vm_free before vm_create_address_space")
  | some root => free (some root) h

/-- The label `cleanup` of `sys$execve`. -/
def cleanup (s : Machine) (argv envp : StringArray) (newAs : Option ℕ) (rc : ℤ) (h : BlockHeap) :
    Except Panic (ℤ × Machine) := do
  let h ← freeArrayOfStrings argv h
  let h ← freeArrayOfStrings envp h
  let h ← vmFree newAs h
  return (rc, { s with heap := h })

/-- The rest of `sys$execve` once nothing more can fail. -/
def startProgram (env : ExecveEnv) (path : CString) (userArgv userEnvp : List CString) (newAs entrypoint : ℕ)
    (s : Machine) (h : BlockHeap) : Except Panic (ℤ × Machine) := do
  panicIf (.message "execve for multiple threads not implemented") (1 < s.current.threads.length)
  let name ← strncpy s.current.name path 63
  let oldAs := s.current.addressSpace
  let h ← vmFree (some oldAs) h
  env.stackWrites
  let userstack := pushProcessArgs (sub32 (userStackStart 0) 8) userArgv userEnvp
  kassert "(uintptr_t) userstack % ARCH_STACK_ALIGNMENT == 0" (userstack % archStackAlignment = 0)
  return (0, {
    heap := h
    current := { s.current with name := name, addressSpace := newAs }
    thread := { s.thread with
      iframe := s.thread.iframe.setThreadStartValues entrypoint userstack
      program := some entrypoint }
    loaded := newAs })

/-- `sys$execve` from `elf_load_into_address_space` on. -/
def loadProgram (env : ExecveEnv) (path : CString) (userArgv userEnvp : List CString) (s : Machine)
    (argv envp : StringArray) (newAs : ℕ) (h : BlockHeap) : Except Panic (ℤ × Machine) := do
  let (rc, entrypoint, h) ← elfLoadIntoAddressSpace env.elf h
  if rc ≠ 0 then cleanup s argv envp (some newAs) rc h
  else if ¬ env.userStackPages then cleanup s argv envp (some newAs) (-Err.noMem) h
  else startProgram env path userArgv userEnvp newAs entrypoint s h

def sysExecve (env : ExecveEnv) (path : CString) (userArgv userEnvp : List CString) (s : Machine) :
    Except Panic (ℤ × Machine) := do
  let (rc, argv, h) ← cloneUserArrayOfStrings env.argv userArgv s.heap
  if rc ≠ 0 then cleanup s argv .null none rc h
  else
    let (rc, envp, h) ← cloneUserArrayOfStrings env.envp userEnvp h
    if rc ≠ 0 then cleanup s argv envp none rc h
    else
      match h.malloc env.addressSpace with
      | (none, h) => cleanup s argv envp none (-Err.noMem) h
      | (some newAs, h) => loadProgram env path userArgv userEnvp s argv envp newAs h

/-- The call returns; after a failure all is as it was, and after a success what has come to the heap is the new address
space and what has gone is the old one. -/
def AllOrNothing (env : ExecveEnv) (path : CString) (userArgv userEnvp : List CString) (s : Machine) : Prop :=
  ∃ rc s', sysExecve env path userArgv userEnvp s = .ok (rc, s') ∧
    (rc ≠ 0 → s' = { s with heap := s'.heap } ∧ s'.heap.live = s.heap.live) ∧
    (rc = 0 → s'.heap.live = insert s'.current.addressSpace (s.heap.live.erase s.current.addressSpace))

/-- All of the array can be copied. -/
def Clonable (env : CloneEnv) (userArray : List CString) : Prop :=
  userArray.length < 128 ∧ env.array = true ∧
    ∀ i (hi : i < userArray.length), userArray[i].length < 256 ∧ env.strdup i = true

/-- The program can not be loaded. -/
def ElfEnv.Fails (env : ElfEnv) : Prop :=
  env.openRc ≠ 0 ∨ env.malloc = false ∨ env.readRc < 0 ∨ ∃ rc entrypoint, env.tryLoad = .ok (rc, entrypoint) ∧ rc ≠ 0

/-- Both lists are copied and the address space is created, and then the program can not be loaded or has no stack. -/
def FailsLate (env : ExecveEnv) (userArgv userEnvp : List CString) : Prop :=
  Clonable env.argv userArgv ∧ Clonable env.envp userEnvp ∧ env.addressSpace = true ∧
    (env.elf.Fails ∨ (∃ entrypoint, env.elf.tryLoad = .ok (0, entrypoint)) ∧ env.userStackPages = false)

variable {base h : BlockHeap} {owned qs : List ℕ} {p : ℕ} {cenv : CloneEnv} {userArray : List CString}

section Heap

lemma malloc_true (h : BlockHeap) : h.malloc true = (some h.next, h.alloc) := rfl

lemma malloc_false (h : BlockHeap) : h.malloc false = (none, h) := rfl

lemma free_holding (hh : Holding base (p :: owned) h) :
    ∃ h', free (some p) h = .ok h' ∧ Holding base owned h' := by
  obtain ⟨hrelease, hh'⟩ := hh.release
  refine ⟨h.erase p, ?_, hh'⟩
  rw [free, hrelease]

lemma free_live {h' : BlockHeap} (hrun : free (some p) h = .ok h') : h'.live = h.live.erase p := by
  rw [free, BlockHeap.release] at hrun
  by_cases hp : p ∈ h.live
  · rw [if_pos hp] at hrun
    cases hrun
    rfl
  · rw [if_neg hp] at hrun
    cases hrun

/-- The strings are freed, and the slots that have none are passed over. -/
lemma freeSlots_holding {slots : List (Option ℕ)} (hh : Holding base (slots.reduceOption ++ owned) h) :
    ∃ h', freeSlots slots.length slots h = .ok h' ∧ Holding base owned h' := by
  induction slots generalizing h with
  | nil => exact ⟨h, rfl, hh⟩
  | cons slot slots ih =>
    cases slot with
    | none =>
      rw [List.reduceOption_cons_of_none] at hh
      obtain ⟨h₁, hrest, hh₁⟩ := ih hh
      exact ⟨h₁, hrest, hh₁⟩
    | some q =>
      rw [List.reduceOption_cons_of_some] at hh
      obtain ⟨h₁, hfree, hh₁⟩ := free_holding hh
      obtain ⟨h₂, hrest, hh₂⟩ := ih hh₁
      refine ⟨h₂, ?_, hh₂⟩
      rw [List.length_cons, freeSlots, hfree, ok_bind, hrest]

lemma freeSlots_unset {slots : List (Option ℕ)} {n : ℕ} (hn : slots.length < n)
    (hh : Holding base (slots.reduceOption ++ owned) h) :
    freeSlots n slots h = .error (.undefined "free of an unset array slot") := by
  obtain ⟨n, rfl⟩ := Nat.exists_eq_succ_of_ne_zero (Nat.ne_zero_of_lt hn)
  induction slots generalizing n h with
  | nil => rfl
  | cons slot slots ih =>
    have hn' := Nat.lt_of_succ_lt_succ hn
    obtain ⟨n, rfl⟩ := Nat.exists_eq_succ_of_ne_zero (Nat.ne_zero_of_lt hn')
    cases slot with
    | none =>
      rw [List.reduceOption_cons_of_none] at hh
      exact ih hh n hn'
    | some q =>
      rw [List.reduceOption_cons_of_some] at hh
      obtain ⟨h₁, hfree, hh₁⟩ := free_holding hh
      rw [freeSlots, hfree, ok_bind]
      exact ih hh₁ n hn'

lemma reduceOption_map_some (qs : List ℕ) : (qs.map some).reduceOption = qs := by
  induction qs with
  | nil => rfl
  | cons q qs ih => rw [List.map_cons, List.reduceOption_cons_of_some, ih]

/-- An array with its strings. -/
def filledArray (p : ℕ) (qs : List ℕ) : StringArray := ⟨some p, qs.length, qs.map some⟩

lemma freeArrayOfStrings_holding (hh : Holding base (p :: qs ++ owned) h) :
    ∃ h', freeArrayOfStrings (filledArray p qs) h = .ok h' ∧ Holding base owned h' := by
  have hmiddle : (p :: qs ++ owned).Perm (qs ++ p :: owned) := List.perm_middle.symm
  have hh₀ := hh.perm hmiddle
  rw [← reduceOption_map_some qs] at hh₀
  obtain ⟨h₁, hslots, hh₁⟩ := freeSlots_holding hh₀
  rw [List.length_map] at hslots
  obtain ⟨h₂, hfree, hh₂⟩ := free_holding hh₁
  refine ⟨h₂, ?_, hh₂⟩
  rw [freeArrayOfStrings, filledArray]
  dsimp only
  rw [hslots, ok_bind, hfree]

end Heap

section Clone

variable {strdup : ℕ → Bool} {strs : List CString}

lemma cloneStrings_holding (hstrs : ∀ i (hi : i < strs.length), strs[i].length < 256 ∧ strdup (qs.length + i) = true)
    (hh : Holding base owned h) : ∃ qs' h', cloneStrings strdup strs (qs.map some) h = (0, (qs ++ qs').map some, h') ∧
      qs'.length = strs.length ∧ Holding base (qs' ++ owned) h' := by
  induction strs generalizing qs owned h with
  | nil => exact ⟨[], h, by rw [List.append_nil, cloneStrings], rfl, hh⟩
  | cons str rest ih =>
    obtain ⟨hlen, hdup⟩ := hstrs 0 (Nat.succ_pos _)
    rw [List.getElem_cons_zero] at hlen
    rw [Nat.add_zero] at hdup
    have hrest : ∀ i (hi : i < rest.length), rest[i].length < 256 ∧ strdup ((qs ++ [h.next]).length + i) = true := by
      intro i hi
      have hnext := hstrs (i + 1) (Nat.succ_lt_succ hi)
      rw [List.length_append, List.length_singleton, Nat.add_assoc, Nat.add_comm 1]
      exact hnext
    obtain ⟨qs', h', hrun, hlen', hh'⟩ := ih hrest hh.alloc
    refine ⟨h.next :: qs', h', ?_, by rw [List.length_cons, hlen', List.length_cons], hh'.perm List.perm_middle⟩
    rw [cloneStrings, if_neg (not_le.mpr hlen), List.length_map, hdup, malloc_true]
    dsimp only
    rw [if_neg (Option.some_ne_none _), ← List.map_singleton (f := some), ← List.map_append, hrun]
    simp

lemma cloneStrings_zero {slots slots' : List (Option ℕ)} {h' : BlockHeap}
    (hrun : cloneStrings strdup strs slots h = (0, slots', h')) :
    ∀ i (hi : i < strs.length), strs[i].length < 256 ∧ strdup (slots.length + i) = true := by
  induction strs generalizing slots h with
  | nil => exact fun i hi => absurd hi (Nat.not_lt_zero i)
  | cons str rest ih =>
    rw [cloneStrings] at hrun
    by_cases hlen : 256 ≤ str.length
    · rw [if_pos hlen] at hrun
      cases hrun
    rw [if_neg hlen] at hrun
    cases hdup : strdup slots.length with
    | false =>
      rw [hdup, malloc_false] at hrun
      dsimp only at hrun
      rw [if_pos rfl] at hrun
      cases hrun
    | true =>
      rw [hdup, malloc_true] at hrun
      dsimp only at hrun
      rw [if_neg (Option.some_ne_none _)] at hrun
      have hrest := ih hrun
      rintro (_ | i) hi
      · exact ⟨not_le.mp hlen, hdup⟩
      · have hnext := hrest i (Nat.lt_of_succ_lt_succ hi)
        rw [List.length_append, List.length_singleton, Nat.add_assoc, Nat.add_comm 1] at hnext
        exact hnext

/-- What can be copied is copied, and what is held afterwards are the array and the strings. -/
lemma clone_of_clonable (hc : Clonable cenv userArray) (hh : Holding base owned h) :
    ∃ p qs h', cloneUserArrayOfStrings cenv userArray h = .ok (0, filledArray p qs, h') ∧
      Holding base (p :: qs ++ owned) h' := by
  obtain ⟨hlen, harray, hstrs⟩ := hc
  obtain ⟨qs, h', hrun, hlen', hh'⟩ := @cloneStrings_holding base h.alloc (h.next :: owned) [] cenv.strdup userArray
    (by simpa using hstrs) hh.alloc
  refine ⟨h.next, qs, h', ?_, hh'.perm List.perm_middle⟩
  rw [List.map_nil, List.nil_append] at hrun
  rw [cloneUserArrayOfStrings, if_neg (not_le.mpr hlen), harray, malloc_true]
  dsimp only
  rw [hrun]
  dsimp only
  rw [if_pos rfl, filledArray, hlen']

/-- A code of 0 tells that all has been copied, and with another one there is no array. -/
lemma clone_cases {rc : ℤ} {a : StringArray} {h' : BlockHeap}
    (hrun : cloneUserArrayOfStrings cenv userArray h = .ok (rc, a, h')) : rc = 0 → Clonable cenv userArray := by
  rintro rfl
  rw [cloneUserArrayOfStrings] at hrun
  by_cases hlen : 128 ≤ userArray.length
  · rw [if_pos hlen] at hrun
    cases hrun
  rw [if_neg hlen] at hrun
  cases harray : cenv.array with
  | false =>
    rw [harray, malloc_false] at hrun
    cases hrun
  | true =>
    rw [harray, malloc_true] at hrun
    dsimp only at hrun
    generalize hloop : cloneStrings cenv.strdup userArray [] h.alloc = r at hrun
    obtain ⟨rc, slots, h₁⟩ := r
    dsimp only at hrun
    by_cases hrc : rc = 0
    · subst hrc
      have hstrs := cloneStrings_zero hloop
      exact ⟨not_le.mp hlen, harray, by simpa using hstrs⟩
    · rw [if_neg hrc] at hrun
      obtain ⟨h₂, -, hrun⟩ := bind_eq_ok.mp hrun
      cases hrun
      exact absurd rfl hrc

/-- What is left of the loop's result when the heap is forgotten. -/
def cloneResult (p n : ℕ) (copies : List CString) (r : ℤ × List (Option ℕ) × BlockHeap) :
    Except Panic (Except ℤ (List CString)) :=
  if r.1 = 0 then .ok (.ok copies) else (freeArrayOfStrings ⟨some p, n, r.2.1⟩ r.2.2).map fun _ => .error r.1

lemma cloneResult_error {n : ℕ} {rc : ℤ} {slots : List (Option ℕ)} (hrc : rc ≠ 0) :
    cloneResult p n strs (rc, slots, h) = (freeArrayOfStrings ⟨some p, n, slots⟩ h).map fun _ => .error rc := if_neg hrc

lemma cloneResult_cons {n : ℕ} {str : CString} {r : ℤ × List (Option ℕ) × BlockHeap} :
    cloneResult p n (str :: strs) r = (do
      match ← cloneResult p n strs r with
      | .ok copies => return .ok (str :: copies)
      | .error rc => return .error rc) := by
  unfold cloneResult
  by_cases hrc : r.1 = 0
  · rw [if_pos hrc, if_pos hrc]
    rfl
  · rw [if_neg hrc, if_neg hrc]
    cases freeArrayOfStrings ⟨some p, n, r.2.1⟩ r.2.2 <;> rfl

lemma cloneStrings_forget (hh : Holding base (qs ++ p :: owned) h) :
    cloneResult p (qs.length + strs.length) strs (cloneStrings strdup strs (qs.map some) h) =
      Task.cloneStrings strdup qs.length strs := by
  induction strs generalizing qs h with
  | nil => rfl
  | cons str rest ih =>
    have hslots : Holding base ((qs.map some).reduceOption ++ p :: owned) h := by rwa [reduceOption_map_some]
    rw [cloneStrings, Task.cloneStrings, List.length_map]
    by_cases hlen : 256 ≤ str.length
    · have hshort : (qs.map some).length < qs.length + (str :: rest).length := by simp
      have hbig : (-Err.tooBig : ℤ) ≠ 0 := by decide
      rw [if_pos hlen, panicIf, if_pos hlen, cloneResult_error hbig, freeArrayOfStrings]
      dsimp only
      rw [freeSlots_unset hshort hslots]
      rfl
    rw [if_neg hlen, panicIf, if_neg hlen, ok_bind]
    cases hdup : strdup qs.length with
    | true =>
      have hnext : Holding base ((qs ++ [h.next]) ++ p :: owned) h.alloc :=
        hh.alloc.perm (by rw [List.append_assoc]; exact List.perm_middle.symm)
      have hrest := ih hnext
      rw [List.map_append, List.map_singleton, List.length_append, List.length_singleton, Nat.add_assoc,
        Nat.add_comm 1] at hrest
      rw [malloc_true, if_pos rfl, ← hrest]
      dsimp only
      rw [if_neg (Option.some_ne_none _)]
      exact cloneResult_cons
    | false =>
      have hmem : (-Err.noMem : ℤ) ≠ 0 := by decide
      have hslots' : Holding base ((qs.map some ++ [none]).reduceOption ++ p :: owned) h := by
        rwa [List.reduceOption_append, reduceOption_map_some, List.reduceOption_cons_of_none, List.reduceOption_nil,
          List.append_nil]
      rw [malloc_false, if_neg Bool.false_ne_true]
      dsimp only
      rw [if_pos rfl, cloneResult_error hmem]
      cases rest with
      | nil =>
        obtain ⟨h₁, hfree₁, hh₁⟩ := freeSlots_holding hslots'
        obtain ⟨h₂, hfree₂, -⟩ := free_holding hh₁
        rw [List.length_append, List.length_map] at hfree₁
        rw [freeArrayOfStrings]
        dsimp only
        rw [List.length_singleton, if_neg (not_not_intro rfl)]
        rw [List.length_singleton] at hfree₁
        rw [hfree₁, ok_bind, hfree₂]
        rfl
      | cons str' rest =>
        have hshort : (qs.map some ++ [none]).length < qs.length + (str :: str' :: rest).length := by simp
        rw [freeArrayOfStrings]
        dsimp only
        rw [freeSlots_unset hshort hslots', if_pos (List.cons_ne_nil _ _)]
        rfl

/-- Without the heap, the copying is that of the scheduler's model. -/
lemma cloneUserArrayOfStrings_forget (env : CloneEnv) (userArray : List CString) (h : BlockHeap) :
    (cloneUserArrayOfStrings env userArray h).map (fun r => if r.1 = 0 then .ok userArray else .error r.1) =
      Task.cloneUserArrayOfStrings env userArray := by
  rw [cloneUserArrayOfStrings, Task.cloneUserArrayOfStrings]
  by_cases hlen : 128 ≤ userArray.length
  · rw [if_pos hlen, if_pos hlen]
    rfl
  rw [if_neg hlen, if_neg hlen]
  cases harray : env.array with
  | false =>
    rw [malloc_false, if_pos Bool.false_ne_true]
    rfl
  | true =>
    rw [malloc_true, if_neg (not_not_intro rfl)]
    dsimp only
    have hloop := @cloneStrings_forget h h.alloc [] [] h.next env.strdup userArray (Holding.refl h).alloc
    rw [List.length_nil, Nat.zero_add] at hloop
    rw [← hloop, List.map_nil]
    generalize cloneStrings env.strdup userArray [] h.alloc = r
    obtain ⟨rc, slots, h₁⟩ := r
    dsimp only
    by_cases hrc : rc = 0
    · subst hrc
      rfl
    · rw [if_neg hrc, cloneResult_error hrc]
      cases freeArrayOfStrings ⟨some h.next, userArray.length, slots⟩ h₁ with
      | error e => rfl
      | ok h₂ => exact congrArg Except.ok (if_neg hrc)

end Clone

section Elf

variable {elf : ElfEnv}

lemma elfCleanup_holding {binary custody : ℕ} (hh : Holding base (binary :: custody :: owned) h) (rc : ℤ)
    (entrypoint : ℕ) : ∃ h', elfCleanup (some binary) (some custody) rc entrypoint h = .ok (rc, entrypoint, h') ∧
      Holding base owned h' := by
  obtain ⟨h₁, hfree₁, hh₁⟩ := free_holding hh
  obtain ⟨h₂, hfree₂, hh₂⟩ := free_holding hh₁
  refine ⟨h₂, ?_, hh₂⟩
  rw [elfCleanup, hfree₁, ok_bind, hfree₂]
  rfl

/-- The load fails, it ends with the entry point, or `try_load_elf` does not return; what it has allocated it frees. -/
lemma elfLoad_cases (elf : ElfEnv) (hh : Holding base owned h) :
    (elf.Fails ∧ ∃ rc entrypoint h', elfLoadIntoAddressSpace elf h = .ok (rc, entrypoint, h') ∧ rc ≠ 0 ∧
        Holding base owned h') ∨
      ¬ elf.Fails ∧ ((∃ entrypoint h', elf.tryLoad = .ok (0, entrypoint) ∧
        elfLoadIntoAddressSpace elf h = .ok (0, entrypoint, h') ∧ Holding base owned h') ∨
      ∃ e, elf.tryLoad = .error e ∧ elfLoadIntoAddressSpace elf h = .error e) := by
  obtain ⟨openRc, malloc, readRc, tryLoad⟩ := elf
  unfold elfLoadIntoAddressSpace
  dsimp only
  by_cases hopen : openRc = 0
  swap
  · rw [decide_eq_false hopen, malloc_false]
    dsimp only
    rw [if_pos hopen]
    exact .inl ⟨.inl hopen, openRc, 0, h, rfl, hopen, hh⟩
  rw [decide_eq_true hopen, malloc_true]
  dsimp only
  rw [if_neg (not_not_intro hopen)]
  cases malloc with
  | false =>
    rw [malloc_false]
    dsimp only
    rw [if_pos rfl]
    obtain ⟨h', hfree, hh'⟩ := free_holding hh.alloc
    refine .inl ⟨.inr (.inl rfl), -Err.noMem, 0, h', ?_, by decide, hh'⟩
    rw [elfCleanup, free, ok_bind, hfree]
    rfl
  | true =>
    rw [malloc_true]
    dsimp only
    rw [if_neg (Option.some_ne_none _)]
    by_cases hread : readRc < 0
    · obtain ⟨h', hrun, hh'⟩ := elfCleanup_holding hh.alloc.alloc readRc 0
      rw [if_pos hread]
      exact .inl ⟨.inr (.inr (.inl hread)), readRc, 0, h', hrun, hread.ne, hh'⟩
    rw [if_neg hread]
    cases tryLoad with
    | error e => exact .inr ⟨by simp [ElfEnv.Fails, hopen, hread], .inr ⟨e, rfl, rfl⟩⟩
    | ok r =>
      obtain ⟨rc, entrypoint⟩ := r
      obtain ⟨h', hrun, hh'⟩ := elfCleanup_holding hh.alloc.alloc rc entrypoint
      rw [ok_bind]
      dsimp only
      by_cases hrc : rc = 0
      · subst hrc
        exact .inr ⟨by simp [ElfEnv.Fails, hopen, hread], .inl ⟨entrypoint, h', rfl, hrun, hh'⟩⟩
      · exact .inl ⟨.inr (.inr (.inr ⟨rc, entrypoint, rfl, hrc⟩)), rc, entrypoint, h', hrun, hrc, hh'⟩

end Elf

section Execve

variable {env : ExecveEnv} {path : CString} {userArgv userEnvp : List CString} {s s' : Machine} {rc : ℤ}
  {argv envp : StringArray} {q newAs : ℕ} {rs : List ℕ}

/-- The address space was never created. -/
lemma cleanup_none {r : ℤ × Machine} (hrun : cleanup s argv envp none rc h = .ok r) : False := by
  obtain ⟨h₁, -, hrun⟩ := bind_eq_ok.mp hrun
  obtain ⟨h₂, -, hrun⟩ := bind_eq_ok.mp hrun
  obtain ⟨h₃, hfree, -⟩ := bind_eq_ok.mp hrun
  cases hfree

lemma cleanup_holding (hh : Holding s.heap (p :: qs ++ (q :: rs ++ [newAs])) h) (rc : ℤ) :
    ∃ h', cleanup s (filledArray p qs) (filledArray q rs) (some newAs) rc h = .ok (rc, { s with heap := h' }) ∧
      h'.live = s.heap.live := by
  obtain ⟨h₁, hfree₁, hh₁⟩ := freeArrayOfStrings_holding hh
  obtain ⟨h₂, hfree₂, hh₂⟩ := freeArrayOfStrings_holding hh₁
  obtain ⟨h₃, hfree₃, hh₃⟩ := free_holding hh₂
  refine ⟨h₃, ?_, hh₃.live_eq⟩
  rw [cleanup, hfree₁, ok_bind, hfree₂, ok_bind, vmFree, hfree₃]
  rfl

lemma sysExecve_acquired (hargv : Clonable env.argv userArgv) (henvp : Clonable env.envp userEnvp)
    (has : env.addressSpace = true) (path : CString) (s : Machine) :
    ∃ p qs q rs newAs h, Holding s.heap (p :: qs ++ (q :: rs ++ [newAs])) h ∧
      sysExecve env path userArgv userEnvp s =
        loadProgram env path userArgv userEnvp s (filledArray p qs) (filledArray q rs) newAs h := by
  obtain ⟨p, qs, h₁, hrun₁, hh₁⟩ := clone_of_clonable hargv (.refl s.heap)
  obtain ⟨q, rs, h₂, hrun₂, hh₂⟩ := clone_of_clonable henvp hh₁
  refine ⟨p, qs, q, rs, h₂.next, h₂.alloc, hh₂.alloc.perm ?_, ?_⟩
  · rw [List.append_nil, ← List.append_assoc]
    exact (List.perm_append_singleton _ _).symm.trans (List.perm_append_comm.append_right _)
  · rw [sysExecve, hrun₁, ok_bind]
    dsimp only
    rw [if_neg (not_not_intro rfl), hrun₂, ok_bind]
    dsimp only
    rw [if_neg (not_not_intro rfl), has, malloc_true]

lemma acquired_of_ok (hrun : sysExecve env path userArgv userEnvp s = .ok (rc, s')) :
    Clonable env.argv userArgv ∧ Clonable env.envp userEnvp ∧ env.addressSpace = true := by
  obtain ⟨⟨rc₁, argv, h₁⟩, hclone₁, hrun⟩ := bind_eq_ok.mp hrun
  dsimp only at hrun
  by_cases hrc₁ : rc₁ = 0
  swap
  · rw [if_pos hrc₁] at hrun
    exact (cleanup_none hrun).elim
  rw [if_neg (not_not_intro hrc₁)] at hrun
  obtain ⟨⟨rc₂, envp, h₂⟩, hclone₂, hrun⟩ := bind_eq_ok.mp hrun
  dsimp only at hrun
  by_cases hrc₂ : rc₂ = 0
  swap
  · rw [if_pos hrc₂] at hrun
    exact (cleanup_none hrun).elim
  rw [if_neg (not_not_intro hrc₂)] at hrun
  cases has : env.addressSpace with
  | false =>
    rw [has, malloc_false] at hrun
    exact (cleanup_none hrun).elim
  | true => exact ⟨clone_cases hclone₁ hrc₁, clone_cases hclone₂ hrc₂, rfl⟩

/-- The copies stay behind. -/
lemma not_freed_of_started {entrypoint : ℕ} (hh : Holding s.heap (p :: qs ++ (q :: rs ++ [newAs])) h)
    (hrun : startProgram env path userArgv userEnvp newAs entrypoint s h = .ok (rc, s')) :
    rc = 0 ∧ s'.heap.live ≠ insert s'.current.addressSpace (s.heap.live.erase s.current.addressSpace) := by
  obtain ⟨-, hrun⟩ := panicIf_bind_eq_ok.mp hrun
  obtain ⟨name, -, hrun⟩ := bind_eq_ok.mp hrun
  obtain ⟨h', hfree, hrun⟩ := bind_eq_ok.mp hrun
  obtain ⟨-, -, hrun⟩ := bind_eq_ok.mp hrun
  obtain ⟨-, hrun⟩ := kassert_bind_eq_ok.mp hrun
  cases hrun
  refine ⟨rfl, fun hlive => ?_⟩
  dsimp only at hlive
  obtain ⟨a, ha, hne, hold⟩ : ∃ a ∈ p :: qs ++ (q :: rs ++ [newAs]), a ≠ newAs ∧ a ≠ s.current.addressSpace := by
    obtain ⟨hp, hnodup⟩ := List.nodup_cons.mp hh.nodup
    obtain ⟨hq, -⟩ := List.nodup_cons.mp (List.nodup_append.mp hnodup).2.1
    by_cases hold : p = s.current.addressSpace
    · refine ⟨q, by simp, fun he => hq (by simp [he]), fun he => hp ?_⟩
      rw [hold, ← he]
      simp
    · exact ⟨p, by simp, fun he => hp (by simp [he]), hold⟩
  have hkept : a ∈ h'.live := by
    rw [free_live hfree]
    exact Finset.mem_erase.mpr ⟨hold, (hh.live a).mpr (.inr ha)⟩
  rw [hlive] at hkept
  rcases Finset.mem_insert.mp hkept with he | hmem
  · exact hne he
  · exact hh.new a ha (Finset.mem_of_mem_erase hmem)

end Execve

/-- A shell of one thread, with its address space in the heap. -/
def shell : Machine where
  heap := ⟨1, {0}, by simp⟩
  current := ⟨1, 1, 0, List.replicate 64 Byte.nul, 0, fun _ => none, [Byte.slash],
    [⟨0, archCreateInitialKernelStack 0 0 0 false, .runnable, none⟩]⟩
  thread := ⟨0, archCreateInitialKernelStack 0 0 0 false, .runnable, none⟩
  loaded := 0

/-- Nothing fails. -/
def allSucceed : ExecveEnv :=
  ⟨⟨true, fun _ => true⟩, ⟨true, fun _ => true⟩, true, ⟨0, true, 0, .ok (0, 0x8000)⟩, true, .ok ()⟩

end Pi0Os.Task.ExecveCleanup
