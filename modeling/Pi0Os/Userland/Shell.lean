import Pi0Os.Kernel.CString
import Pi0Os.Library.Runs

/-! How the shell (`userland/shell/main.c`) makes the vector of arguments of a line. Pointers into the line are indices
of its buffer. -/

namespace Pi0Os.Userland

open Kernel Library Byte Buffer

abbrev maxArgs : ℕ := 16
abbrev maxLineLen : ℕ := 256

def space : UInt8 := 0x20

def scanStuck : Panic := .undefined "the scan left the line"

/-- `while (p(*line)) line++`. -/
def skipWhile (p : UInt8 → Bool) (line : Buffer) : ℕ → ℕ → Except Panic ℕ
  | 0, _ => .error scanStuck
  | fuel + 1, i => do
    if p (← load line i) then skipWhile p line fuel (i + 1) else return i

def tokenizeLoop : ℕ → Buffer → ℕ → ℕ → Except Panic (Buffer × ℕ)
  | 0, _, _, _ => .error scanStuck
  | fuel + 1, line, i, count => do
    if (← load line i) = nul then return (line, count)
    else
      let i ← skipWhile (· = space) line line.length i
      if (← load line i) = nul then return (line, count)
      else
        let i ← skipWhile (fun c => c ≠ nul ∧ c ≠ space) line line.length i
        if (← load line i) = space then tokenizeLoop fuel (← store line i nul) (i + 1) (count + 1)
        else tokenizeLoop fuel line i (count + 1)

def tokenize (line : Buffer) : Except Panic (Buffer × ℕ) := tokenizeLoop line.length line 0 0

/-- The array `argv`, whose null pointers are `none`. -/
abbrev Argv := List (Option ℕ)

def Argv.store (argv : Argv) (i : ℕ) (ptr : Option ℕ) : Except Panic Argv :=
  if i < argv.length then .ok (argv.set i ptr) else .error (.undefined "write outside the array")

/-- The loop of `argv_from_tokenized_line` from the `i`-th argument on, with `n` to go. -/
def argvLoop (tokenizedLine : Buffer) : ℕ → ℕ → ℕ → Argv → Except Panic Argv
  | 0, _, _, argv => .ok argv
  | n + 1, i, ptr, argv => do
    let argv ← argv.store i (some ptr)
    let len ← strlen (tokenizedLine.drop ptr)
    argvLoop tokenizedLine n (i + 1) (ptr + (len + 1)) argv

def argvFromTokenizedLine (tokenizedLine : Buffer) (tokens : ℕ) (argv : Argv) (maxArgs : ℕ) :
    Except Panic (ℕ × Argv) := do
  let argc := if tokens < maxArgs then tokens else maxArgs
  let argv ← argvLoop tokenizedLine argc 0 0 argv
  return (argc, ← argv.store argc none)

/-- What `main` does with a line that it has read. -/
def commandArgv (line : Buffer) (argv : Argv) : Except Panic (Buffer × ℕ × Argv) := do
  let (line, tokens) ← tokenize line
  return (line, ← argvFromTokenizedLine line tokens argv maxArgs)

section Tokenize

variable {p : UInt8 → Bool} {pre s w text post : Buffer} {c : UInt8} {fuel count : ℕ}

lemma skipWhile_mid (hs : ∀ x ∈ s, p x) (hc : p c = false) (hf : s.length < fuel) :
    skipWhile p (pre ++ s ++ c :: post) fuel pre.length = .ok (pre ++ s).length := by
  induction fuel generalizing pre s with
  | zero => omega
  | succ fuel ih =>
    cases s with
    | nil => simp [skipWhile, hc]
    | cons x s =>
      have hx : p x = true := hs x List.mem_cons_self
      have hrest : skipWhile p (pre ++ [x] ++ s ++ c :: post) fuel (pre ++ [x]).length = .ok (pre ++ [x] ++ s).length :=
        ih (fun y hy => hs y (List.mem_cons_of_mem x hy)) (by simpa using hf)
      simp only [List.append_assoc, List.cons_append, List.nil_append, List.length_append, List.length_cons,
        List.length_nil] at hrest ⊢
      rw [skipWhile, load_mid, ok_bind, if_pos hx]
      exact hrest.trans (congrArg _ (by omega))

/-- As many steps as the block has bytes are enough. -/
lemma skipWhile_block (pre s post : Buffer) (hs : ∀ x ∈ s, p x) (hc : p c = false) :
    skipWhile p (pre ++ s ++ c :: post) (pre ++ s ++ c :: post).length pre.length = .ok (pre ++ s).length := by
  refine skipWhile_mid hs hc ?_
  simp only [List.length_append, List.length_cons]
  omega

/-- What the loop makes of a text: the space behind each word becomes a NUL. -/
def cut : Bool → CString → Buffer
  | _, [] => []
  | inWord, c :: text =>
    if c = space then (if inWord then nul else space) :: cut false text else c :: cut true text

lemma cut_blank_append (hs : ∀ x ∈ s, x = space) (text : CString) : cut false (s ++ text) = s ++ cut false text := by
  induction s with
  | nil => rfl
  | cons x s ih =>
    obtain rfl := hs x List.mem_cons_self
    rw [List.cons_append, cut, if_pos rfl, ih fun y hy => hs y (List.mem_cons_of_mem _ hy)]
    rfl

lemma cut_word_append (hw : space ∉ w) (text : CString) : cut true (w ++ text) = w ++ cut true text := by
  induction w with
  | nil => rfl
  | cons x w ih =>
    obtain ⟨hx, hw⟩ := not_or.mp (List.mem_cons.not.mp hw)
    rw [List.cons_append, cut, if_neg (Ne.symm hx), ih hw]
    rfl

lemma cut_word (hne : w ≠ []) (hw : space ∉ w) (text : CString) : cut false (w ++ text) = w ++ cut true text := by
  cases w with
  | nil => exact absurd rfl hne
  | cons x w =>
    obtain ⟨hx, hw⟩ := not_or.mp (List.mem_cons.not.mp hw)
    rw [List.cons_append, cut, if_neg (Ne.symm hx), cut_word_append hw]
    rfl

lemma cut_blank (hs : ∀ x ∈ s, x = space) : cut false s = s := by
  simpa [cut] using cut_blank_append hs []

lemma cut_last (hs : ∀ x ∈ s, x = space) (hne : w ≠ []) (hw : space ∉ w) : cut false (s ++ w) = s ++ w := by
  rw [cut_blank_append hs]
  simpa [cut] using cut_word hne hw []

lemma cut_step (hs : ∀ x ∈ s, x = space) (hne : w ≠ []) (hw : space ∉ w) (text : CString) :
    cut false (s ++ w ++ space :: text) = s ++ w ++ nul :: cut false text := by
  rw [List.append_assoc, cut_blank_append hs, cut_word hne hw, List.append_assoc]
  rfl

/-- A turn that finds no word. -/
lemma tokenizeLoop_blank (hs : ∀ x ∈ s, x = space) :
    tokenizeLoop (fuel + 1) (pre ++ s ++ nul :: post) pre.length count = .ok (pre ++ s ++ nul :: post, count) := by
  have hskip := skipWhile_block pre s post (fun x hx => decide_eq_true (hs x hx))
    (by decide : decide (nul = space) = false)
  rw [tokenizeLoop]
  cases s with
  | nil =>
    rw [List.append_nil, load_mid, ok_bind, if_pos rfl]
    rfl
  | cons x s =>
    obtain rfl := hs x List.mem_cons_self
    have hload : load (pre ++ space :: s ++ nul :: post) pre.length = .ok space := by simp
    rw [hload, ok_bind, if_neg (by decide), hskip, ok_bind, load_mid, ok_bind, if_pos rfl]
    rfl

/-- A turn that finds a word. -/
lemma tokenizeLoop_word (hs : ∀ x ∈ s, x = space) (hne : w ≠ []) (hw : space ∉ w) (hn : nul ∉ w)
    (hc : c = nul ∨ c = space) :
    tokenizeLoop (fuel + 1) (pre ++ s ++ w ++ c :: post) pre.length count =
      if c = space then tokenizeLoop fuel (pre ++ s ++ w ++ nul :: post) ((pre ++ s ++ w).length + 1) (count + 1)
      else tokenizeLoop fuel (pre ++ s ++ w ++ c :: post) (pre ++ s ++ w).length (count + 1) := by
  obtain ⟨x, w, rfl⟩ := List.exists_cons_of_ne_nil hne
  have hx : x ≠ nul ∧ x ≠ space :=
    ⟨fun h => hn (h ▸ List.mem_cons_self), fun h => hw (h ▸ List.mem_cons_self)⟩
  have hword : ∀ y ∈ x :: w, y ≠ nul ∧ y ≠ space :=
    fun y hy => ⟨fun h => hn (h ▸ hy), fun h => hw (h ▸ hy)⟩
  set line := pre ++ s ++ (x :: w) ++ c :: post with hline
  have hsplit : line = pre ++ s ++ x :: (w ++ c :: post) := by simp [hline]
  have hblank : skipWhile (· = space) line line.length pre.length = .ok (pre ++ s).length := by
    rw [hsplit]
    exact skipWhile_block pre s _ (fun y hy => decide_eq_true (hs y hy)) (decide_eq_false hx.2)
  have hrun : skipWhile (fun c => c ≠ nul ∧ c ≠ space) line line.length (pre ++ s).length =
      .ok (pre ++ s ++ x :: w).length :=
    skipWhile_block (pre ++ s) (x :: w) post (fun y hy => decide_eq_true (hword y hy))
      (by rcases hc with rfl | rfl <;> simp)
  have hfirst : ∃ y, load line pre.length = .ok y ∧ y ≠ nul := by
    cases s with
    | nil => exact ⟨x, by rw [hsplit, List.append_nil, load_mid], hx.1⟩
    | cons y s =>
      obtain rfl := hs y List.mem_cons_self
      exact ⟨space, by simp [hline], by decide⟩
  obtain ⟨y, hload, hy⟩ := hfirst
  rw [tokenizeLoop, hload, ok_bind, if_neg hy, hblank, ok_bind, hsplit, load_mid, ok_bind, if_neg hx.1, ← hsplit, hrun,
    ok_bind, hline, load_mid, ok_bind, store_mid, ok_bind]

lemma tokenizeLoop_spec (hn : nul ∉ text) (pre post : Buffer) (count : ℕ) (hf : text.length < fuel) :
    tokenizeLoop fuel (pre ++ text ++ nul :: post) pre.length count =
      .ok (pre ++ cut false text ++ nul :: post, count + (runs space text).length) := by
  induction text using runs_induction space generalizing pre fuel count with
  | blank s hs =>
    obtain ⟨fuel, rfl⟩ := Nat.exists_eq_succ_of_ne_zero (Nat.ne_zero_of_lt hf)
    rw [tokenizeLoop_blank hs, cut_blank hs, runs_blank hs]
    rfl
  | last s w hs hne hw =>
    have hlen := List.length_pos_of_ne_nil hne
    rw [List.length_append] at hf
    obtain ⟨fuel, rfl⟩ : ∃ n, fuel = n + 2 := ⟨fuel - 2, by omega⟩
    have hnw : nul ∉ w := fun h => hn (List.mem_append_right s h)
    have hend := @tokenizeLoop_blank (pre ++ s ++ w) [] post fuel (count + 1) nofun
    rw [List.append_nil] at hend
    rw [← List.append_assoc, tokenizeLoop_word hs hne hw hnw (.inl rfl), if_neg (by decide), hend, cut_last hs hne hw,
      runs_blank_append hs, runs_of_notMem hw, if_neg hne, List.append_assoc pre]
    rfl
  | step s w rest hs hne hw ih =>
    rw [List.length_append, List.length_cons] at hf
    obtain ⟨fuel, rfl⟩ := Nat.exists_eq_succ_of_ne_zero (Nat.ne_zero_of_lt hf)
    have hnw : nul ∉ w := fun h => hn (by simp [h])
    have hnr : nul ∉ rest := fun h => hn (by simp [h])
    have hrest := ih hnr (pre ++ s ++ w ++ [nul]) (count + 1) (by omega : rest.length < fuel)
    have hruns : runs space (s ++ w ++ space :: rest) = w :: runs space rest := by
      rw [runs_append_sep, runs_blank_append hs, runs_of_notMem hw, if_neg hne, List.singleton_append]
    have hturn := @tokenizeLoop_word pre s w (rest ++ nul :: post) space fuel count hs hne hw hnw (.inr rfl)
    rw [if_pos rfl] at hturn
    rw [hruns, cut_step hs hne hw, List.length_cons, Nat.add_comm _ 1, ← Nat.add_assoc]
    simp only [List.append_assoc, List.cons_append, List.nil_append, List.length_append, List.length_cons,
      List.length_nil] at hrest hturn ⊢
    exact hturn.trans (by simpa only [Nat.add_assoc] using hrest)

end Tokenize

section Arguments

variable {line pre s w text post : Buffer} {ptr i : ℕ} {argv : Argv} {strings : List CString}

/-- The C string at a pointer into the line. -/
def StringAt (line : Buffer) (ptr : ℕ) (s : CString) : Prop := ∃ post, line.drop ptr = s ++ nul :: post ∧ nul ∉ s

lemma StringAt.unique {s' : CString} (h : StringAt line ptr s) (h' : StringAt line ptr s') : s = s' := by
  obtain ⟨post, hdrop, hs⟩ := h
  obtain ⟨post', hdrop', hs'⟩ := h'
  have hlen := strlen_append (r := post) hs
  rw [← hdrop, hdrop', strlen_append hs'] at hlen
  exact (List.append_inj (hdrop.symm.trans hdrop') (Except.ok.inj hlen).symm).1

lemma rightUnique_stringAt (line : Buffer) : Relator.RightUnique (StringAt line) := fun _ _ _ h h' => h.unique h'

/-- The loop over strings that lie one behind the other. -/
lemma argvLoop_strings (i : ℕ) (argv : Argv) (hline : line.drop ptr = strings.flatMap (· ++ [nul]) ++ post)
    (hn : ∀ s ∈ strings, nul ∉ s) (hi : i + strings.length ≤ argv.length) :
    ∃ ptrs, argvLoop line strings.length i ptr argv =
        .ok (argv.take i ++ ptrs.map some ++ argv.drop (i + strings.length)) ∧
      List.Forall₂ (StringAt line) ptrs strings := by
  induction strings generalizing ptr i argv with
  | nil => exact ⟨[], by simp [argvLoop], .nil⟩
  | cons s strings ih =>
    have hs : nul ∉ s := hn s List.mem_cons_self
    have hat : line.drop ptr = s ++ nul :: (strings.flatMap (· ++ [nul]) ++ post) := by
      rw [hline, List.flatMap_cons]
      simp
    have hrest : line.drop (ptr + (s.length + 1)) = strings.flatMap (· ++ [nul]) ++ post := by
      rw [← List.drop_drop, hat, ← List.drop_drop, List.drop_left]
      rfl
    rw [List.length_cons] at hi
    obtain ⟨ptrs, hrun, hptrs⟩ := ih (i + 1) (argv.set i (some ptr)) hrest
      (fun t ht => hn t (List.mem_cons_of_mem s ht)) (by rw [List.length_set]; omega)
    refine ⟨ptr :: ptrs, ?_, .cons ⟨_, hat, hs⟩ hptrs⟩
    have hlt : i < argv.length := by omega
    have htake : (argv.set i (some ptr)).take (i + 1) = argv.take i ++ [some ptr] := by
      rw [List.set_eq_take_append_cons_drop, if_pos hlt, List.take_append, List.take_of_length_le (by simp),
        List.length_take_of_le hlt.le]
      simp
    have hdrop : (argv.set i (some ptr)).drop (i + 1 + strings.length) = argv.drop (i + (strings.length + 1)) := by
      rw [List.drop_set_of_lt (by omega), Nat.add_assoc, Nat.add_comm 1]
    rw [List.length_cons, argvLoop, Argv.store, if_pos hlt, ok_bind, hat, strlen_append hs, ok_bind, hrun, htake, hdrop]
    simp

/-- The words of the line with one space between each two, and spaces behind them. -/
def SingleSpaced (text : CString) : Prop :=
  ∃ s, (∀ x ∈ s, x = space) ∧ text = [space].intercalate (runs space text) ++ s

lemma eq_nil_of_word (hs : ∀ x ∈ s, x = space) (hne : w ≠ []) (hw : space ∉ w) {u v : CString}
    (h : s ++ u = w ++ v) : s = [] := by
  cases s with
  | nil => rfl
  | cons x s =>
    obtain ⟨y, w, rfl⟩ := List.exists_cons_of_ne_nil hne
    obtain rfl := hs x List.mem_cons_self
    obtain rfl := (List.cons.inj h).1
    exact absurd List.mem_cons_self hw

lemma runs_last (hs : ∀ x ∈ s, x = space) (hne : w ≠ []) (hw : space ∉ w) : runs space (s ++ w) = [w] := by
  rw [runs_blank_append hs, runs_of_notMem hw, if_neg hne]

lemma runs_step (hs : ∀ x ∈ s, x = space) (hne : w ≠ []) (hw : space ∉ w) (text : CString) :
    runs space (s ++ w ++ space :: text) = w :: runs space text := by
  rw [runs_append_sep, runs_last hs hne hw, List.singleton_append]

lemma singleSpaced_blank (hs : ∀ x ∈ s, x = space) : SingleSpaced s :=
  ⟨s, hs, by rw [runs_blank hs]; rfl⟩

lemma singleSpaced_last (hs : ∀ x ∈ s, x = space) (hne : w ≠ []) (hw : space ∉ w) :
    SingleSpaced (s ++ w) ↔ s = [] := by
  constructor
  · rintro ⟨t, -, ht⟩
    rw [runs_last hs hne hw, List.intercalate_singleton] at ht
    exact eq_nil_of_word hs hne hw ht
  · rintro rfl
    exact ⟨[], nofun, by rw [runs_last hs hne hw, List.intercalate_singleton, List.append_nil]; rfl⟩

lemma singleSpaced_step (hs : ∀ x ∈ s, x = space) (hne : w ≠ []) (hw : space ∉ w) (text : CString) :
    SingleSpaced (s ++ w ++ space :: text) ↔ s = [] ∧ SingleSpaced text := by
  rw [SingleSpaced, runs_step hs hne hw, List.append_assoc]
  cases hruns : runs space text with
  | nil =>
    rw [List.intercalate_singleton]
    constructor
    · rintro ⟨t, ht, heq⟩
      obtain rfl := eq_nil_of_word hs hne hw heq
      obtain rfl : space :: text = t := List.append_cancel_left heq
      exact ⟨rfl, singleSpaced_blank fun x hx => ht x (List.mem_cons_of_mem _ hx)⟩
    · rintro ⟨rfl, t, ht, heq⟩
      rw [hruns] at heq
      exact ⟨space :: text, List.forall_mem_cons.mpr ⟨rfl, by rwa [heq]⟩, rfl⟩
  | cons v vs =>
    have hjoin : [space].intercalate (w :: v :: vs) = w ++ space :: [space].intercalate (v :: vs) := by
      rw [List.intercalate_cons_cons, List.append_assoc, List.singleton_append]
    rw [hjoin]
    constructor
    · rintro ⟨t, ht, heq⟩
      rw [List.append_assoc] at heq
      obtain rfl := eq_nil_of_word hs hne hw heq
      exact ⟨rfl, t, ht, by rw [hruns]; exact (List.cons.inj (List.append_cancel_left heq)).2⟩
    · rintro ⟨rfl, t, ht, heq⟩
      rw [hruns] at heq
      exact ⟨t, ht, by rw [List.nil_append, List.append_assoc, List.cons_append, ← heq]⟩

/-- The strings of the rewritten line: each word with the spaces that are left before it. -/
lemma exists_arguments (hn : nul ∉ text) :
    ∃ strings left, strings.length = (runs space text).length ∧ (∀ s ∈ strings, nul ∉ s) ∧
      cut false text ++ [nul] = strings.flatMap (· ++ [nul]) ++ left ∧
      (strings = runs space text ↔ SingleSpaced text) := by
  induction text using runs_induction space with
  | blank s hs =>
    refine ⟨[], s ++ [nul], by rw [runs_blank hs], nofun, by rw [cut_blank hs]; rfl, ?_⟩
    rw [runs_blank hs]
    exact iff_of_true rfl (singleSpaced_blank hs)
  | last s w hs hne hw =>
    rw [runs_last hs hne hw, singleSpaced_last hs hne hw, cut_last hs hne hw]
    exact ⟨[s ++ w], [], rfl, List.forall_mem_singleton.mpr hn, by simp, by simp⟩
  | step s w rest hs hne hw ih =>
    obtain ⟨strings, left, hlen, hnul, hcut, hiff⟩ := ih fun h => hn (by simp [h])
    rw [runs_step hs hne hw, singleSpaced_step hs hne hw, cut_step hs hne hw]
    refine ⟨(s ++ w) :: strings, left, congrArg Nat.succ hlen, ?_, ?_, ?_⟩
    · exact List.forall_mem_cons.mpr ⟨fun h => hn (List.mem_append_left _ h), hnul⟩
    · rw [List.flatMap_cons, List.append_assoc _ _ left, ← hcut]
      simp
    · rw [List.cons.injEq, hiff, List.append_left_eq_self]

lemma tokenize_eq (hn : nul ∉ text) (post : Buffer) :
    tokenize (text ++ nul :: post) = .ok (cut false text ++ nul :: post, (runs space text).length) := by
  have hlen : text.length < (text ++ nul :: post).length := by
    rw [List.length_append, List.length_cons]
    omega
  have hrun := tokenizeLoop_spec hn [] post 0 hlen
  rw [Nat.zero_add] at hrun
  exact hrun

/-- With room for the null pointer the vector holds the strings of the rewritten line. -/
lemma commandArgv_room (hn : nul ∉ text) (hargs : (runs space text).length < maxArgs) (hargv : argv.length = maxArgs)
    (post : Buffer) :
    ∃ argv' strings ptrs, commandArgv (text ++ nul :: post) argv =
        .ok (cut false text ++ nul :: post, (runs space text).length, argv') ∧
      argv'.take ((runs space text).length + 1) = ptrs.map some ++ [none] ∧
      List.Forall₂ (StringAt (cut false text ++ nul :: post)) ptrs strings ∧
      (strings = runs space text ↔ SingleSpaced text) := by
  obtain ⟨strings, left, hlen, hnul, hcut, hiff⟩ := exists_arguments hn
  have hline : (cut false text ++ nul :: post).drop 0 = strings.flatMap (· ++ [nul]) ++ (left ++ post) := by
    rw [← List.append_assoc, ← hcut, List.append_assoc]
    rfl
  obtain ⟨ptrs, hrun, hptrs⟩ := argvLoop_strings 0 argv hline hnul (by omega)
  have hcount : (ptrs.map some).length = (runs space text).length := by rw [List.length_map, hptrs.length_eq, hlen]
  rw [hlen, List.take_zero, List.nil_append, Nat.zero_add] at hrun
  refine ⟨ptrs.map some ++ (argv.drop (runs space text).length).set 0 none, strings, ptrs, ?_, ?_, hptrs, hiff⟩
  · have hstore : (ptrs.map some ++ argv.drop (runs space text).length).set (runs space text).length none =
        ptrs.map some ++ (argv.drop (runs space text).length).set 0 none := by
      rw [List.set_append_right _ _ hcount.le, hcount, Nat.sub_self]
    have hroom : (runs space text).length < (ptrs.map some ++ argv.drop (runs space text).length).length := by
      rw [List.length_append, hcount, List.length_drop]
      omega
    rw [commandArgv, tokenize_eq hn, ok_bind]
    simp only [argvFromTokenizedLine, if_pos hargs, hrun, ok_bind, Argv.store, if_pos hroom, hstore]
    rfl
  · obtain ⟨old, rest, hdrop⟩ := List.exists_cons_of_length_pos (by rw [List.length_drop]; omega :
      0 < (argv.drop (runs space text).length).length)
    rw [hdrop, ← hcount, List.take_length_add_append]
    rfl

lemma commandArgv_full (hn : nul ∉ text) (hargs : maxArgs ≤ (runs space text).length) (hargv : argv.length = maxArgs)
    (post : Buffer) :
    commandArgv (text ++ nul :: post) argv = .error (.undefined "write outside the array") := by
  obtain ⟨strings, left, hlen, hnul, hcut, -⟩ := exists_arguments hn
  have hline : (cut false text ++ nul :: post).drop 0 =
      (strings.take maxArgs).flatMap (· ++ [nul]) ++ ((strings.drop maxArgs).flatMap (· ++ [nul]) ++ left ++ post) := by
    rw [List.append_assoc _ left, ← List.append_assoc, ← List.flatMap_append, List.take_append_drop,
      ← List.append_assoc, ← hcut, List.append_assoc]
    rfl
  have htake : (strings.take maxArgs).length = maxArgs := List.length_take_of_le (hlen.symm ▸ hargs)
  obtain ⟨ptrs, hrun, hptrs⟩ := argvLoop_strings 0 argv hline
    (fun s hs => hnul s (List.mem_of_mem_take hs)) (by omega)
  rw [htake, List.take_zero, List.nil_append, Nat.zero_add, List.drop_of_length_le hargv.le, List.append_nil] at hrun
  have hcount : (ptrs.map some).length = maxArgs := by rw [List.length_map, hptrs.length_eq, htake]
  rw [commandArgv, tokenize_eq hn, ok_bind]
  simp only [argvFromTokenizedLine, if_neg (not_lt.mpr hargs), hrun, ok_bind, Argv.store, hcount, lt_irrefl, if_false]
  rfl

/-- The vector is that of the words of the line, with the null pointer behind them. -/
def SplitsIntoWords (text : CString) (post : Buffer) (argv : Argv) : Prop :=
  ∃ line argc argv' ptrs, commandArgv (text ++ nul :: post) argv = .ok (line, argc, argv') ∧
    argc = (runs space text).length ∧ argv'.take (argc + 1) = ptrs.map some ++ [none] ∧
    List.Forall₂ (StringAt line) ptrs (runs space text)

theorem splitsIntoWords_iff (hn : nul ∉ text) (hargs : (runs space text).length < maxArgs)
    (hargv : argv.length = maxArgs) : SplitsIntoWords text post argv ↔ SingleSpaced text := by
  obtain ⟨argv', strings, ptrs, hrun, htake, hptrs, hiff⟩ := commandArgv_room hn hargs hargv post
  rw [← hiff]
  constructor
  · rintro ⟨line, argc, argv₁, ptrs₁, hrun₁, rfl, htake₁, hptrs₁⟩
    rw [hrun] at hrun₁
    cases hrun₁
    have hsame : ptrs = ptrs₁ :=
      List.map_injective_iff.mpr (Option.some_injective ℕ) (List.append_cancel_right (htake.symm.trans htake₁))
    subst hsame
    exact List.right_unique_forall₂' (rightUnique_stringAt _) hptrs hptrs₁
  · rintro rfl
    exact ⟨_, _, argv', ptrs, hrun, rfl, htake, hptrs⟩

theorem commandArgv_inBounds_iff (hn : nul ∉ text) (hargv : argv.length = maxArgs) :
    (∃ r, commandArgv (text ++ nul :: post) argv = .ok r) ↔ (runs space text).length < maxArgs := by
  constructor
  · rintro ⟨r, hr⟩
    by_contra hargs
    rw [commandArgv_full hn (not_lt.mp hargs) hargv] at hr
    cases hr
  · intro hargs
    obtain ⟨argv', -, -, hrun, -⟩ := commandArgv_room hn hargs hargv post
    exact ⟨_, hrun⟩

end Arguments

def noArgs : Argv := List.replicate maxArgs none

/-- `ls -l `. -/
def singleSpacedLine : CString := [0x6c, 0x73, space, 0x2d, 0x6c, space]

theorem splitsIntoWords_singleSpaced :
    SplitsIntoWords singleSpacedLine [0x7f] noArgs ↔ SingleSpaced singleSpacedLine :=
  splitsIntoWords_iff (by decide) (by decide) (by decide)

/-- Of `a  b` the second argument is ` b`. -/
theorem doubleSpace_not_splitsIntoWords :
    (runs space [0x61, space, space, 0x62]).length < maxArgs ∧
      ¬ SplitsIntoWords [0x61, space, space, 0x62] [] noArgs := by
  refine ⟨by decide, ?_⟩
  rintro ⟨line, argc, argv', ptrs, hrun, rfl, htake, hptrs⟩
  have hargv : commandArgv ([0x61, space, space, 0x62] ++ nul :: []) noArgs =
      .ok ([0x61, nul, space, 0x62, nul], 2, some 0 :: some 2 :: List.replicate 14 none) := rfl
  rw [hargv] at hrun
  cases hrun
  have hruns : runs space [0x61, space, space, 0x62] = [[0x61], [0x62]] := by decide
  rw [hruns] at htake hptrs
  obtain ⟨p, q, rfl⟩ : ∃ p q, ptrs = [p, q] := List.length_eq_two.mp hptrs.length_eq
  obtain ⟨rfl, rfl⟩ : 0 = p ∧ 2 = q := by simpa using htake
  cases hptrs with
  | cons _ h =>
    cases h with
    | cons h _ =>
      obtain ⟨post, hdrop, -⟩ := h
      cases hdrop

/-- A line of `n` words. -/
def manyWords (n : ℕ) : CString := (List.replicate n [0x61, space]).flatten

theorem commandArgv_inBounds_ls :
    (∃ r, commandArgv (singleSpacedLine ++ nul :: List.replicate 249 0x7f) noArgs = .ok r) ↔
      (runs space singleSpacedLine).length < maxArgs :=
  commandArgv_inBounds_iff (by decide) (by decide)

/-- The null pointer behind sixteen arguments. -/
theorem commandArgv_sixteen :
    (manyWords 16 ++ nul :: List.replicate 223 0x7f).length = maxLineLen ∧
      commandArgv (manyWords 16 ++ nul :: List.replicate 223 0x7f) noArgs =
        .error (.undefined "write outside the array") := by
  constructor
  · decide +kernel
  · decide +kernel

end Pi0Os.Userland
