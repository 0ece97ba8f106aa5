import Pi0Os.Library.LittleEndian
import Pi0Os.Library.Stores
import Pi0Os.Task.ProcessPages

/-! What `push_process_args` writes to the user stack, how the start code of the C runtime reads it back, and whether
it lies in the pages of the stack. -/

namespace Pi0Os.Task

open Kernel Library Byte

structure ArmCrt0InitialStackState where
  argc : ℕ
  argv : ℕ
  envc : ℕ
  envp : ℕ

/-- `sizeof(ArmCrt0InitialStackState)`. -/
abbrev initialStackStateSize : ℕ := 16

def ArmCrt0InitialStackState.content (state : ArmCrt0InitialStackState) : List UInt8 :=
  toBytes 4 state.argc ++ toBytes 4 state.argv ++ toBytes 4 state.envc ++ toBytes 4 state.envp

@[simp] lemma length_content (state : ArmCrt0InitialStackState) : state.content.length = initialStackStateSize := by
  simp [ArmCrt0InitialStackState.content]

def userArray (userstack : ℕ) (array : List CString) : ℕ := sub32 userstack (4 * array.length)

/-- The loop of `push_string_array_to_stack` from the `i`-th string on: the string, and the pointer to it. -/
def stringStores (userArray : ℕ) : ℕ → ℕ → List CString → List (Store UInt8)
  | _, _, [] => []
  | i, userstack, str :: array =>
    let userstack := sub32 userstack (str.length + 1)
    ⟨userstack, str ++ [nul]⟩ :: ⟨add32 userArray (4 * i), toBytes 4 userstack⟩ ::
      stringStores userArray (i + 1) userstack array

/-- What `push_string_array_to_stack` writes. -/
def stringArrayStores (userstack : ℕ) (array : List CString) : List (Store UInt8) :=
  stringStores (userArray userstack array) 0 (userArray userstack array) array

/-- What `push_process_args` writes. -/
def processArgsStores (userstack : ℕ) (argv envp : List CString) : List (Store UInt8) :=
  let userArgv := userArray userstack argv
  let argvStores := stringArrayStores userstack argv
  let userstack := pushStringArrayToStack userstack argv
  let userEnvp := userArray userstack envp
  let envpStores := stringArrayStores userstack envp
  let userstack := pushStringArrayToStack userstack envp
  let userstack := sub32 userstack initialStackStateSize
  argvStores ++ envpStores ++
    [⟨userstack, ArmCrt0InitialStackState.content ⟨argv.length, userArgv, envp.length, userEnvp⟩⟩]

/-- The addresses of the pages that `alloc_thread_user_stack` maps. -/
def stackPages (tid : ℕ) : List ℕ := (List.range 4).map fun i => sub32 (userStackStart tid) ((i + 1) * size4KB)

/-- The address lies in one of these pages. -/
def InUserStack (tid a : ℕ) : Prop := ∃ virt ∈ stackPages tid, virt ≤ a ∧ a < virt + size4KB

/-- The string at an address of the process. -/
def stringAt (m : ℕ → UInt8) (p : ℕ) : CString := (slice m p (2 ^ 32 - p)).takeWhile (· ≠ nul)

def pointersAt (m : ℕ → UInt8) (a n : ℕ) : List ℕ := (List.range n).map fun i => word m (a + 4 * i) 4

def initialStackStateAt (m : ℕ → UInt8) (sp : ℕ) : ArmCrt0InitialStackState :=
  ⟨word m sp 4, word m (sp + 4) 4, word m (sp + 8) 4, word m (sp + 12) 4⟩

/-- The arguments and the environment that `_cstart` finds at its stack pointer. -/
def cstartArgs (m : ℕ → UInt8) (sp : ℕ) : List CString × List CString :=
  let state := initialStackStateAt m sp
  ((pointersAt m state.argv state.argc).map (stringAt m), (pointersAt m state.envp state.envc).map (stringAt m))

/-- A pointer array of the process and the strings that it leads to. -/
def spansAt (m : ℕ → UInt8) (a n : ℕ) : List Span :=
  ⟨a, 4 * n⟩ :: (pointersAt m a n).map fun p => ⟨p, (stringAt m p).length + 1⟩

/-- The arrays, the strings and the state that `_cstart` finds at its stack pointer. -/
def cstartSpans (m : ℕ → UInt8) (sp : ℕ) : List Span :=
  let state := initialStackStateAt m sp
  spansAt m state.argv state.argc ++ spansAt m state.envp state.envc ++ [⟨sp, initialStackStateSize⟩]

/-- The bytes of the strings, with their ends. -/
def stringBytes (array : List CString) : ℕ := (array.map (fun str => str.length + 1)).sum

/-- What an array takes from the stack. -/
def stringArraySize (array : List CString) : ℕ := (4 * array.length + stringBytes array + 7) / 8 * 8

/-- What the arguments and the environment take from the stack. -/
def processArgsSize (argv envp : List CString) : ℕ :=
  stringArraySize argv + stringArraySize envp + initialStackStateSize

/-- Where the strings come to lie. -/
def stringSpans : ℕ → List CString → List Span
  | _, [] => []
  | userstack, str :: array =>
    ⟨sub32 userstack (str.length + 1), str.length + 1⟩ :: stringSpans (sub32 userstack (str.length + 1)) array

variable {m : ℕ → UInt8} {userstack i k p a n : ℕ} {str : CString} {array argv envp : List CString}

section Array

@[simp] lemma stringBytes_nil : stringBytes [] = 0 := rfl

@[simp] lemma stringBytes_cons : stringBytes (str :: array) = str.length + 1 + stringBytes array := rfl

lemma pushStrings_eq (h : stringBytes array ≤ userstack) (hsp : userstack < 2 ^ 32) :
    pushStrings userstack array = userstack - stringBytes array := by
  induction array generalizing userstack with
  | nil => rfl
  | cons str array ih =>
    rw [stringBytes_cons] at h ⊢
    rw [pushStrings, sub32_of_le (by omega) hsp, ih (by omega) (by omega)]
    omega

lemma pushStringArrayToStack_eq (halign : userstack % 8 = 0) (h : stringArraySize array ≤ userstack)
    (hsp : userstack < 2 ^ 32) :
    pushStringArrayToStack userstack array = userstack - stringArraySize array := by
  unfold stringArraySize at h ⊢
  rw [pushStringArrayToStack, sub32_of_le (by omega) hsp, pushStrings_eq (by omega) (by omega), roundDown]
  dsimp only [archStackAlignment]
  omega

@[simp] lemma length_stringSpans : (stringSpans userstack array).length = array.length := by
  induction array generalizing userstack with
  | nil => rfl
  | cons str array ih => rw [stringSpans, List.length_cons, List.length_cons, ih]

lemma packed_stringSpans (h : stringBytes array ≤ userstack) (hsp : userstack < 2 ^ 32) :
    Span.Packed (stringSpans userstack array) (userstack - stringBytes array) userstack := by
  induction array generalizing userstack with
  | nil => exact .nil
  | cons str array ih =>
    rw [stringBytes_cons] at h ⊢
    rw [stringSpans, sub32_of_le (by omega) hsp]
    have hrest := @ih (userstack - (str.length + 1)) (by omega) (by omega)
    rw [Nat.sub_sub] at hrest
    exact hrest.cons (by omega) le_rfl (by omega)

lemma mem_stringStores {s : Store UInt8} (hroom : a + 4 * (i + array.length) < 2 ^ 32 + 4)
    (hs : s ∈ stringStores a i userstack array) :
    s.span ∈ stringSpans userstack array ∨ s.span.Within (a + 4 * i) (a + 4 * (i + array.length)) := by
  induction array generalizing i userstack with
  | nil => exact absurd hs List.not_mem_nil
  | cons str array ih =>
    rw [List.length_cons] at hroom ⊢
    rcases List.mem_cons.mp hs with rfl | hs
    · refine .inl (List.mem_cons.mpr (.inl ?_))
      simp
    rcases List.mem_cons.mp hs with rfl | hs
    · refine .inr ?_
      rw [add32_of_lt (by omega)]
      exact ⟨le_rfl, by simp only [length_toBytes]; omega⟩
    · refine (ih (by omega) hs).imp (List.mem_cons_of_mem _) fun h => h.mono (by omega) (by omega)

/-- The strings lie below their array. -/
lemma pairwise_stringStores (h : stringBytes array ≤ userstack) (ha : userstack ≤ a + 4 * i)
    (hroom : a + 4 * (i + array.length) < 2 ^ 32 + 4) (hsp : userstack < 2 ^ 32) :
    ((stringStores a i userstack array).map Store.span).Pairwise Span.Apart := by
  induction array generalizing i userstack with
  | nil => exact .nil
  | cons str array ih =>
    rw [stringBytes_cons] at h
    rw [List.length_cons] at hroom
    rw [stringStores, sub32_of_le (by omega) hsp, add32_of_lt (by omega)]
    have hrest := (@packed_stringSpans (userstack - (str.length + 1)) array (by omega) (by omega)).within
    have hstr : Span.Within ⟨userstack - (str.length + 1), (str ++ [nul]).length⟩ (userstack - (str.length + 1))
        userstack := ⟨le_rfl, by simp; omega⟩
    have hslot : Span.Within ⟨a + 4 * i, (toBytes 4 (userstack - (str.length + 1))).length⟩ (a + 4 * i)
        (a + 4 * (i + 1)) := ⟨le_rfl, by simp; omega⟩
    refine List.pairwise_map.mpr (List.pairwise_cons.mpr ⟨fun s hs => ?_,
      List.pairwise_cons.mpr ⟨fun s hs => ?_, ?_⟩⟩)
    · rcases List.mem_cons.mp hs with rfl | hs
      · exact hstr.apart (hslot.mono ha le_rfl)
      rcases mem_stringStores (by omega) hs with hs | hs
      · exact ((hrest _ hs).apart hstr).symm
      · exact hstr.apart (hs.mono (by omega) le_rfl)
    · rcases mem_stringStores (by omega) hs with hs | hs
      · exact ((hrest _ hs).apart (hslot.mono (by omega) le_rfl)).symm
      · exact hslot.apart hs
    · exact List.pairwise_map.mp (ih (by omega) (by omega) (by omega) (by omega))

/-- Each string is stored, and a pointer to it in the array. -/
lemma stores_of_lt (h : stringBytes array ≤ userstack) (hroom : a + 4 * (i + array.length) < 2 ^ 32 + 4)
    (hsp : userstack < 2 ^ 32) (hk : k < array.length) :
    ∃ p, (stringSpans userstack array)[k]? = some ⟨p, array[k].length + 1⟩ ∧ p < 2 ^ 32 ∧
      ⟨p, array[k] ++ [nul]⟩ ∈ stringStores a i userstack array ∧
      ⟨a + 4 * (i + k), toBytes 4 p⟩ ∈ stringStores a i userstack array := by
  induction array generalizing i k userstack with
  | nil => exact absurd hk (Nat.not_lt_zero k)
  | cons str array ih =>
    rw [stringBytes_cons] at h
    rw [List.length_cons] at hroom
    rw [stringStores, stringSpans, sub32_of_le (by omega) hsp, add32_of_lt (by omega)]
    cases k with
    | zero => exact ⟨_, rfl, by omega, List.mem_cons_self, List.mem_cons_of_mem _ List.mem_cons_self⟩
    | succ k =>
      obtain ⟨p, hspan, hp, hstr, hslot⟩ := @ih (userstack - (str.length + 1)) (i + 1) k (by omega) (by omega)
        (by omega) (Nat.lt_of_succ_lt_succ hk)
      refine ⟨p, hspan, hp, List.mem_cons_of_mem _ (List.mem_cons_of_mem _ hstr), ?_⟩
      rw [Nat.add_assoc, Nat.add_comm 1] at hslot
      exact List.mem_cons_of_mem _ (List.mem_cons_of_mem _ hslot)

end Array

/-- The array fits below an aligned stack pointer. -/
structure ArrayFits (userstack : ℕ) (array : List CString) : Prop where
  aligned : userstack % archStackAlignment = 0
  bound : userstack < 2 ^ 32
  size : stringArraySize array ≤ userstack

/-- The stores of the array are in memory. -/
def ArrayStored (m : ℕ → UInt8) (userstack : ℕ) (array : List CString) : Prop :=
  ∀ s ∈ stringArrayStores userstack array, slice m s.addr s.content.length = s.content

section Fits

lemma ArrayFits.bytes (h : ArrayFits userstack array) :
    4 * array.length + stringBytes array ≤ stringArraySize array ∧ stringArraySize array ≤ userstack ∧
      userstack < 2 ^ 32 ∧ stringArraySize array % 8 = 0 := by
  refine ⟨?_, h.size, h.bound, ?_⟩ <;> unfold stringArraySize <;> omega

lemma ArrayFits.userArray_eq (h : ArrayFits userstack array) :
    userArray userstack array = userstack - 4 * array.length := by
  obtain ⟨hbytes, hsize, hbound, -⟩ := h.bytes
  exact sub32_of_le (by omega) hbound

lemma ArrayFits.words (h : ArrayFits userstack array) : array.length < 2 ^ 32 ∧ userArray userstack array < 2 ^ 32 := by
  obtain ⟨hbytes, hsize, hbound, -⟩ := h.bytes
  have harray := h.userArray_eq
  omega

lemma ArrayFits.below (h : ArrayFits userstack array) :
    pushStringArrayToStack userstack array = userstack - stringArraySize array :=
  pushStringArrayToStack_eq h.aligned h.size h.bound

lemma ArrayFits.packed_strings (h : ArrayFits userstack array) :
    Span.Packed (stringSpans (userArray userstack array) array) (pushStringArrayToStack userstack array)
      (userArray userstack array) := by
  obtain ⟨hbytes, hsize, hbound, -⟩ := h.bytes
  have harray := h.userArray_eq
  have hpacked := @packed_stringSpans (userArray userstack array) array (by omega) (by omega)
  rw [h.below]
  exact ⟨hpacked.apart, fun s hs => (hpacked.within s hs).mono (by omega) le_rfl⟩

/-- The pointers lie above the strings. -/
lemma ArrayFits.packed_spans (h : ArrayFits userstack array) :
    Span.Packed (⟨userArray userstack array, 4 * array.length⟩ :: stringSpans (userArray userstack array) array)
      (pushStringArrayToStack userstack array) userstack := by
  obtain ⟨hbytes, hsize, -⟩ := h.bytes
  have harray := h.userArray_eq
  have hbelow := h.below
  exact h.packed_strings.cons (by omega) le_rfl (by omega)

lemma ArrayFits.packed_stores (h : ArrayFits userstack array) :
    Span.Packed ((stringArrayStores userstack array).map Store.span) (pushStringArrayToStack userstack array)
      userstack := by
  obtain ⟨hbytes, hsize, hbound, -⟩ := h.bytes
  have harray := h.userArray_eq
  have hbelow := h.below
  refine ⟨pairwise_stringStores (by omega) (by omega) (by omega) (by omega), List.forall_mem_map.mpr fun s hs => ?_⟩
  rcases mem_stringStores (by omega) hs with hs | hs
  · exact (h.packed_strings.within _ hs).mono le_rfl (by omega)
  · exact hs.mono (by omega) (by omega)

lemma word_of_stored (h : slice m a 4 = toBytes 4 n) (hn : n < 2 ^ 32) : word m a 4 = n := by
  rw [word, h, ofBytes_toBytes]
  exact Nat.mod_eq_of_lt hn

lemma stringAt_of_stored (h : slice m a (str.length + 1) = str ++ [nul]) (hnul : nul ∉ str)
    (ha : a + str.length < 2 ^ 32) : stringAt m a = str := by
  have hrest : 2 ^ 32 - a = str.length + 1 + (2 ^ 32 - a - (str.length + 1)) := by omega
  have hstr : ∀ c ∈ str, decide (c ≠ nul) = true := fun c hc => decide_eq_true fun he => hnul (he ▸ hc)
  rw [stringAt, hrest, ← slice_append, h, List.append_assoc, List.takeWhile_append_of_pos hstr]
  simp

/-- What is read in the place of the array. -/
lemma ArrayFits.read (h : ArrayFits userstack array) (hm : ArrayStored m userstack array)
    (hnul : ∀ str ∈ array, nul ∉ str) :
    (pointersAt m (userArray userstack array) array.length).map (stringAt m) = array ∧
      spansAt m (userArray userstack array) array.length =
        ⟨userArray userstack array, 4 * array.length⟩ :: stringSpans (userArray userstack array) array := by
  obtain ⟨hbytes, hsize, hbound, -⟩ := h.bytes
  have harray := h.userArray_eq
  have hslot : ∀ k (hk : k < array.length), ∃ p,
      (stringSpans (userArray userstack array) array)[k]? = some ⟨p, array[k].length + 1⟩ ∧
        word m (userArray userstack array + 4 * k) 4 = p ∧ stringAt m p = array[k] := by
    intro k hk
    obtain ⟨p, hspan, hp, hstr, hptr⟩ := @stores_of_lt (userArray userstack array) 0 k (userArray userstack array)
      array (by omega) (by omega) (by omega) hk
    have hstored := hm _ hptr
    rw [Nat.zero_add] at hstored
    have hend : p + (array[k].length + 1) ≤ userArray userstack array :=
      (h.packed_strings.within _ (List.mem_of_getElem? hspan)).2
    refine ⟨p, hspan, word_of_stored hstored hp, stringAt_of_stored ?_ (hnul _ (List.getElem_mem hk)) (by omega)⟩
    simpa using hm _ hstr
  constructor
  · refine List.ext_getElem (by simp [pointersAt]) fun k hk hk' => ?_
    obtain ⟨p, -, hword, hstr⟩ := hslot k hk'
    simp [pointersAt, hword, hstr]
  · refine congrArg (List.cons _) (List.ext_getElem (by simp [pointersAt]) fun k hk hk' => ?_)
    rw [length_stringSpans] at hk'
    obtain ⟨p, hspan, hword, hstr⟩ := hslot k hk'
    rw [(List.getElem_eq_iff _).mpr hspan]
    simp [pointersAt, hword, hstr]

end Fits

section Process

lemma initialStackStateAt_of_stored {state : ArmCrt0InitialStackState} (h : slice m a 16 = state.content)
    (hc : state.argc < 2 ^ 32) (hv : state.argv < 2 ^ 32) (hec : state.envc < 2 ^ 32) (hep : state.envp < 2 ^ 32) :
    initialStackStateAt m a = state := by
  have hfield : ∀ j n, j + 4 ≤ 16 → (state.content.drop j).take 4 = toBytes 4 n → n < 2 ^ 32 →
      word m (a + j) 4 = n := by
    intro j n hj hn hlt
    rw [word_field h hj, hn, ofBytes_toBytes]
    exact Nat.mod_eq_of_lt hlt
  obtain ⟨argc, argv, envc, envp⟩ := state
  have hargc := hfield 0 argc (by omega) rfl hc
  rw [Nat.add_zero] at hargc
  rw [initialStackStateAt, hargc, hfield 4 argv (by omega) rfl hv, hfield 8 envc (by omega) rfl hec,
    hfield 12 envp (by omega) rfl hep]

/-- Both arrays and the state fit below an aligned stack pointer. -/
structure ArgsFit (userstack : ℕ) (argv envp : List CString) : Prop where
  aligned : userstack % archStackAlignment = 0
  bound : userstack < 2 ^ 32
  size : processArgsSize argv envp ≤ userstack

lemma ArgsFit.argvFits (h : ArgsFit userstack argv envp) : ArrayFits userstack argv := by
  have hsize := h.size
  exact ⟨h.aligned, h.bound, by simp only [processArgsSize] at hsize; omega⟩

lemma ArgsFit.envpFits (h : ArgsFit userstack argv envp) :
    ArrayFits (pushStringArrayToStack userstack argv) envp := by
  have haligned := h.aligned
  have hbound := h.bound
  have hsize := h.size
  obtain ⟨-, -, -, hmod⟩ := h.argvFits.bytes
  simp only [processArgsSize, archStackAlignment] at hsize haligned
  rw [h.argvFits.below]
  exact ⟨by dsimp only [archStackAlignment]; omega, by omega, by omega⟩

/-- The stack pointer that is returned is the address of the state. -/
lemma ArgsFit.layout (h : ArgsFit userstack argv envp) :
    pushStringArrayToStack (pushStringArrayToStack userstack argv) envp = pushProcessArgs userstack argv envp + 16 ∧
      sub32 (pushStringArrayToStack (pushStringArrayToStack userstack argv) envp) 16 =
        pushProcessArgs userstack argv envp ∧
      pushProcessArgs userstack argv envp = userstack - processArgsSize argv envp := by
  have haligned := h.aligned
  have hbound := h.bound
  have hsize := h.size
  obtain ⟨-, -, -, hmod⟩ := h.argvFits.bytes
  obtain ⟨-, -, -, hmod'⟩ := h.envpFits.bytes
  have hbelow := h.envpFits.below
  rw [h.argvFits.below] at hbelow ⊢
  simp only [processArgsSize, archStackAlignment, initialStackStateSize] at hsize haligned ⊢
  have hsub : sub32 (pushStringArrayToStack (userstack - stringArraySize argv) envp) 16 =
      userstack - (stringArraySize argv + stringArraySize envp + 16) := by
    rw [hbelow, sub32_of_le (by omega) (by omega)]
    omega
  have hpush : pushProcessArgs userstack argv envp =
      userstack - (stringArraySize argv + stringArraySize envp + 16) := by
    rw [pushProcessArgs, h.argvFits.below, hsub, roundDown]
    dsimp only [archStackAlignment]
    omega
  exact ⟨by omega, hsub.trans hpush.symm, hpush⟩

lemma ArgsFit.ordered (h : ArgsFit userstack argv envp) :
    pushProcessArgs userstack argv envp + 16 ≤ pushStringArrayToStack userstack argv ∧
      pushStringArrayToStack userstack argv ≤ userstack := by
  rw [← h.layout.1, h.envpFits.below, h.argvFits.below]
  exact ⟨Nat.sub_le _ _, Nat.sub_le _ _⟩

/-- The state lies below the environment, and that below the arguments. -/
lemma ArgsFit.packed (h : ArgsFit userstack argv envp) {l l' : List Span}
    (hl : Span.Packed l (pushStringArrayToStack userstack argv) userstack)
    (hl' : Span.Packed l' (pushStringArrayToStack (pushStringArrayToStack userstack argv) envp)
      (pushStringArrayToStack userstack argv)) :
    Span.Packed (l ++ l' ++ [⟨pushProcessArgs userstack argv envp, 16⟩]) (pushProcessArgs userstack argv envp)
      userstack := by
  obtain ⟨hlow, hhigh⟩ := h.ordered
  rw [h.layout.1] at hl'
  exact (hl.append hl' hlow hhigh).append (.singleton ⟨le_rfl, le_rfl⟩) (by omega) (by omega)

lemma ArgsFit.packed_stores (h : ArgsFit userstack argv envp) :
    Span.Packed ((processArgsStores userstack argv envp).map Store.span) (pushProcessArgs userstack argv envp)
      userstack := by
  have hpacked := h.packed h.argvFits.packed_stores h.envpFits.packed_stores
  have hstate : Span.mk (sub32 (pushStringArrayToStack (pushStringArrayToStack userstack argv) envp) 16) 16 =
      ⟨pushProcessArgs userstack argv envp, 16⟩ := congrArg (Span.mk · 16) h.layout.2.1
  rw [← hstate] at hpacked
  rw [processArgsStores, List.map_append, List.map_append]
  exact hpacked

end Process

section Clone

lemma cloneStrings_ok {strdup : ℕ → Bool} {copies : List CString} (h : cloneStrings strdup i array = .ok (.ok copies)) :
    copies = array ∧ ∀ str ∈ array, str.length < 256 := by
  induction array generalizing i copies with
  | nil =>
    cases h
    exact ⟨rfl, by simp⟩
  | cons str rest ih =>
    rw [cloneStrings] at h
    obtain ⟨hlen, h⟩ := panicIf_bind_eq_ok.mp h
    split_ifs at h with hdup hrest
    · obtain ⟨r, hr, h⟩ := bind_eq_ok.mp h
      cases r with
      | error rc => cases h
      | ok copies' =>
        cases h
        obtain ⟨rfl, hall⟩ := ih hr
        exact ⟨rfl, List.forall_mem_cons.mpr ⟨by omega, hall⟩⟩
    · cases h

/-- What `clone_user_array_of_strings` accepts, and gives on. -/
lemma cloneUserArrayOfStrings_ok {env : CloneEnv} {copies : List CString}
    (h : cloneUserArrayOfStrings env array = .ok (.ok copies)) :
    copies = array ∧ array.length < 128 ∧ ∀ str ∈ array, str.length < 256 := by
  rw [cloneUserArrayOfStrings] at h
  by_cases hlen : 128 ≤ array.length
  · rw [if_pos hlen] at h
    cases h
  rw [if_neg hlen] at h
  by_cases hmalloc : env.array = true
  · rw [if_neg (not_not_intro hmalloc)] at h
    obtain ⟨hcopies, hall⟩ := cloneStrings_ok h
    exact ⟨hcopies, not_le.mp hlen, hall⟩
  · rw [if_pos hmalloc] at h
    cases h

end Clone

/-- The start code finds the arguments and the environment as they were given to the call. -/
theorem pushProcessArgs_decodes {argvEnv envpEnv : CloneEnv} {userArgv userEnvp : List CString}
    (hargv : cloneUserArrayOfStrings argvEnv userArgv = .ok (.ok argv))
    (henvp : cloneUserArrayOfStrings envpEnv userEnvp = .ok (.ok envp))
    (hnul : ∀ str ∈ userArgv ++ userEnvp, nul ∉ str) (hfits : ArgsFit userstack userArgv userEnvp) (m : ℕ → UInt8) :
    pushProcessArgs userstack argv envp % archStackAlignment = 0 ∧
      cstartArgs (applyStores m (processArgsStores userstack argv envp)) (pushProcessArgs userstack argv envp) =
        (userArgv, userEnvp) ∧
      (cstartSpans (applyStores m (processArgsStores userstack argv envp))
        (pushProcessArgs userstack argv envp)).Pairwise Span.Apart ∧
      ∀ s ∈ cstartSpans (applyStores m (processArgsStores userstack argv envp)) (pushProcessArgs userstack argv envp),
        s.Within (pushProcessArgs userstack argv envp) userstack := by
  obtain ⟨rfl, -⟩ := cloneUserArrayOfStrings_ok hargv
  obtain ⟨rfl, -⟩ := cloneUserArrayOfStrings_ok henvp
  have hstored : ∀ s ∈ processArgsStores userstack argv envp,
      slice (applyStores m (processArgsStores userstack argv envp)) s.addr s.content.length = s.content :=
    fun s hs => slice_applyStores hfits.packed_stores.apart hs
  generalize applyStores m (processArgsStores userstack argv envp) = m' at hstored ⊢
  obtain ⟨hstrings, hspans⟩ := hfits.argvFits.read (m := m')
    (fun s hs => hstored s (List.mem_append_left _ (List.mem_append_left _ hs)))
    fun str hs => hnul str (List.mem_append_left _ hs)
  obtain ⟨hstrings', hspans'⟩ := hfits.envpFits.read (m := m')
    (fun s hs => hstored s (List.mem_append_left _ (List.mem_append_right _ hs)))
    fun str hs => hnul str (List.mem_append_right _ hs)
  obtain ⟨hargc, hargv⟩ := hfits.argvFits.words
  obtain ⟨henvc, henvp⟩ := hfits.envpFits.words
  have hstate : initialStackStateAt m' (pushProcessArgs userstack argv envp) =
      ⟨argv.length, userArray userstack argv, envp.length,
        userArray (pushStringArrayToStack userstack argv) envp⟩ := by
    have hstate := hstored _ (List.mem_append_right _ (List.mem_singleton_self _))
    dsimp only at hstate
    rw [length_content, hfits.layout.2.1] at hstate
    exact initialStackStateAt_of_stored hstate hargc hargv henvc henvp
  have hpacked := hfits.packed hfits.argvFits.packed_spans hfits.envpFits.packed_spans
  rw [← hspans, ← hspans'] at hpacked
  refine ⟨Nat.mod_eq_zero_of_dvd (dvd_roundDown _ _), ?_, ?_, ?_⟩
  · rw [cstartArgs, hstate]
    dsimp only
    rw [hstrings, hstrings']
  · rw [cstartSpans, hstate]
    exact hpacked.apart
  · rw [cstartSpans, hstate]
    exact hpacked.within

/-- `ls -l`, with one variable in the environment. -/
theorem pushProcessArgs_decodes_ls :
    cstartArgs (applyStores (fun _ => 0) (processArgsStores 4096 [[108, 115], [45, 108]] [[88, 61]]))
        (pushProcessArgs 4096 [[108, 115], [45, 108]] [[88, 61]]) = ([[108, 115], [45, 108]], [[88, 61]]) ∧
      (cstartSpans (applyStores (fun _ => 0) (processArgsStores 4096 [[108, 115], [45, 108]] [[88, 61]]))
        (pushProcessArgs 4096 [[108, 115], [45, 108]] [[88, 61]])).Pairwise Span.Apart := by
  obtain ⟨-, hargs, hspans, -⟩ := @pushProcessArgs_decodes 4096 [[108, 115], [45, 108]] [[88, 61]]
    ⟨true, fun _ => true⟩ ⟨true, fun _ => true⟩ [[108, 115], [45, 108]] [[88, 61]] rfl rfl (by decide)
    ⟨by decide, by decide, by decide⟩ (fun _ => 0)
  exact ⟨hargs, hspans⟩

section Stack

/-- The second loop of `alloc_thread_user_stack` maps a page at each of these addresses. -/
lemma mapStackPages_stackPages {pages : List ℕ} (hpages : pages.length = 4) (as tid : ℕ) (s : Memory.Vm) :
    mapStackPages as (userStackStart tid) 0 pages s =
      (pages.zip (stackPages tid)).foldlM (fun s p => Memory.vmMap s as p.1 p.2 .userFullAccess) s := by
  obtain ⟨p₀, p₁, p₂, p₃, rfl⟩ := List.length_eq_four.mp hpages
  simp [mapStackPages, stackPages, List.range_succ]

lemma inUserStack_iff : InUserStack 0 a ↔ 0xbfffc000 ≤ a ∧ a < 0xc0000000 := by
  have hpages : stackPages 0 = [0xbffff000, 0xbfffe000, 0xbfffd000, 0xbfffc000] := by decide
  simp only [InUserStack, hpages, List.mem_cons, List.not_mem_nil, or_false, exists_eq_or_imp, exists_eq_left, size4KB]
  omega

/-- The state is the lowest of what is written. -/
lemma writes_inUserStack_iff (h : ArgsFit 0xbffffff8 argv envp) :
    (∀ s ∈ processArgsStores 0xbffffff8 argv envp, ∀ a, s.addr ≤ a → a < s.addr + s.content.length → InUserStack 0 a) ↔
      processArgsSize argv envp + 8 ≤ 4 * size4KB := by
  have hsize := h.size
  obtain ⟨-, hstate, hpush⟩ := h.layout
  simp only [inUserStack_iff]
  constructor
  · intro hall
    have hlow := (hall _ (List.mem_append_right _ (List.mem_singleton_self _)) _ le_rfl (by simp)).1
    dsimp only at hlow
    rw [hstate, hpush] at hlow
    simp only [size4KB]
    omega
  · intro hle s hs a hlo hhi
    obtain ⟨hlow, hhigh⟩ := h.packed_stores.within _ (List.mem_map_of_mem hs)
    rw [hpush] at hlow
    simp only [size4KB] at hle
    dsimp only at hlow hhigh
    omega

lemma stringBytes_le (h : ∀ str ∈ array, str.length < 256) : stringBytes array ≤ 256 * array.length := by
  induction array with
  | nil => exact le_rfl
  | cons str array ih =>
    obtain ⟨hstr, hall⟩ := List.forall_mem_cons.mp h
    have hrest := ih hall
    rw [stringBytes_cons, List.length_cons]
    omega

lemma argsFit_of_limits (hargv : argv.length < 128 ∧ ∀ str ∈ argv, str.length < 256)
    (henvp : envp.length < 128 ∧ ∀ str ∈ envp, str.length < 256) : ArgsFit 0xbffffff8 argv envp := by
  have hbytes := stringBytes_le hargv.2
  have hbytes' := stringBytes_le henvp.2
  refine ⟨by decide, by decide, ?_⟩
  simp only [processArgsSize, stringArraySize, initialStackStateSize]
  omega

end Stack

/-- All that is written for an accepted call lies in the stack exactly when it and the 8 bytes above it take no more
than the four pages. -/
theorem processArgs_inUserStack_iff {argvEnv envpEnv : CloneEnv} {userArgv userEnvp : List CString}
    (hargv : cloneUserArrayOfStrings argvEnv userArgv = .ok (.ok argv))
    (henvp : cloneUserArrayOfStrings envpEnv userEnvp = .ok (.ok envp))
    (hstack : allocThreadUserStack true 0 = some userstack) :
    (∀ s ∈ processArgsStores userstack argv envp, ∀ a, s.addr ≤ a → a < s.addr + s.content.length → InUserStack 0 a) ↔
      processArgsSize userArgv userEnvp + 8 ≤ 4 * size4KB := by
  obtain ⟨rfl, hlimits⟩ := cloneUserArrayOfStrings_ok hargv
  obtain ⟨rfl, hlimits'⟩ := cloneUserArrayOfStrings_ok henvp
  cases hstack
  exact writes_inUserStack_iff (argsFit_of_limits hlimits hlimits')

theorem processArgs_inUserStack_ls :
    (∀ s ∈ processArgsStores 0xbffffff8 [[108, 115], [45, 108]] [[88, 61]], ∀ a, s.addr ≤ a →
      a < s.addr + s.content.length → InUserStack 0 a) ∧ processArgsSize [[108, 115], [45, 108]] [[88, 61]] = 40 :=
  ⟨(@processArgs_inUserStack_iff 0xbffffff8 [[108, 115], [45, 108]] [[88, 61]] ⟨true, fun _ => true⟩
    ⟨true, fun _ => true⟩ [[108, 115], [45, 108]] [[88, 61]] rfl rfl rfl).mpr (by decide), rfl⟩

lemma cloneStrings_all (h : ∀ str ∈ array, str.length < 256) (i : ℕ) :
    cloneStrings (fun _ => true) i array = .ok (.ok array) := by
  induction array generalizing i with
  | nil => rfl
  | cons str rest ih =>
    obtain ⟨hstr, hall⟩ := List.forall_mem_cons.mp h
    rw [cloneStrings, panicIf, if_neg (not_le.mpr hstr), ok_bind, if_pos rfl, ih hall]
    rfl

/-- 64 arguments of 255 letters. -/
theorem processArgs_below_stack : ∃ argv userstack,
    cloneUserArrayOfStrings ⟨true, fun _ => true⟩ argv = .ok (.ok argv) ∧
      cloneUserArrayOfStrings ⟨true, fun _ => true⟩ [] = .ok (.ok []) ∧
      allocThreadUserStack true 0 = some userstack ∧
      ∃ s ∈ processArgsStores userstack argv [], ∃ a, s.addr ≤ a ∧ a < s.addr + s.content.length ∧
        ¬ InUserStack 0 a := by
  have hall : ∀ str ∈ List.replicate 64 (List.replicate 255 (97 : UInt8)), str.length < 256 := by
    intro str hstr
    rw [List.eq_of_mem_replicate hstr, List.length_replicate]
    decide
  have hbytes : stringBytes (List.replicate 64 (List.replicate 255 97)) = 16384 := by
    rw [stringBytes, List.map_replicate, List.sum_replicate, List.length_replicate]
    rfl
  have hfits : ArgsFit 0xbffffff8 (List.replicate 64 (List.replicate 255 97)) [] :=
    argsFit_of_limits ⟨by rw [List.length_replicate]; decide, hall⟩ ⟨by decide, by simp⟩
  refine ⟨List.replicate 64 (List.replicate 255 97), _, ?_, rfl, rfl, ?_⟩
  · rw [cloneUserArrayOfStrings, List.length_replicate, if_neg (by decide), if_neg (by decide)]
    exact cloneStrings_all hall 0
  · by_contra hnone
    push Not at hnone
    have hle := (writes_inUserStack_iff hfits).mp hnone
    rw [processArgsSize, stringArraySize, hbytes, List.length_replicate] at hle
    exact absurd hle (by decide)

end Pi0Os.Task
