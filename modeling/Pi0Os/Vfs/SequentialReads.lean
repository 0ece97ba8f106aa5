import Pi0Os.Vfs.FileIo

/-! Runs of `vfs_read` through the custodies of one regular file whose filesystem reads exact slices. -/

namespace Pi0Os.Vfs

open Kernel

inductive Whence where
  | set
  | cur
  | «end»
deriving DecidableEq

/-- The new offset is computed at `uint64_t`, so a negative one is above every file size. -/
def defaultCheckedSeek (filesize current : ℕ) (whence : Whence) (offset : ℤ) : ℕ :=
  let newoff : ℤ := match whence with
    | .set => offset % 2 ^ 64
    | .cur => (current + offset) % 2 ^ 64
    | .end => (filesize - offset) % 2 ^ 64
  (clamp 0 newoff filesize).toNat

lemma defaultCheckedSeek_le (filesize current : ℕ) (whence : Whence) (offset : ℤ) :
    defaultCheckedSeek filesize current whence offset ≤ filesize := by
  unfold defaultCheckedSeek clamp
  rw [Int.toNat_le]
  exact max_le (by omega) (min_le_left _ _)

lemma defaultCheckedSeek_cur {filesize current n : ℕ} (h : current + n ≤ filesize) (hf : filesize < 2 ^ 64) :
    defaultCheckedSeek filesize current .cur n = current + n := by
  unfold defaultCheckedSeek clamp
  have hm : ((current : ℤ) + n) % 2 ^ 64 = current + n := Int.emod_eq_of_lt (by omega) (by omega)
  dsimp only
  rw [hm]
  omega

/-- What `lseek` counts an offset from. -/
def seekBase (filesize current : ℕ) : Whence → ℤ
  | .set => 0
  | .cur => current
  | .end => filesize

/-- The targets that `default_checked_seek` gets right in a file that is not empty. -/
def SeekServed (filesize current : ℕ) (offset : ℤ) : Whence → Prop
  | .end => offset = 0 ∨ filesize < offset
  | whence => 0 ≤ seekBase filesize current whence + offset

theorem defaultCheckedSeek_clamps_iff {filesize current : ℕ} {offset : ℤ} (hsize : filesize ≤ 2 ^ 62)
    (hcur : current ≤ filesize) (hlo : -2 ^ 31 ≤ offset) (hhi : offset < 2 ^ 31) (whence : Whence) :
    (defaultCheckedSeek filesize current whence offset : ℤ) =
        clamp 0 (seekBase filesize current whence + offset) filesize ↔
      filesize = 0 ∨ SeekServed filesize current offset whence := by
  -- a negative number of `uint64_t` lies above every file size
  have hwrap : ∀ x : ℤ, -2 ^ 62 ≤ x → x < 2 ^ 63 →
      max 0 (min (filesize : ℤ) (x % 2 ^ 64)) = if x < 0 then (filesize : ℤ) else min (filesize : ℤ) x := by
    intro x hlo hhi
    split
    · omega
    · omega
  unfold defaultCheckedSeek clamp
  cases whence with
  | set =>
    simp only [seekBase, SeekServed]
    rw [Int.toNat_of_nonneg (le_max_left _ _), hwrap offset (by omega) (by omega)]
    split <;> omega
  | cur =>
    simp only [seekBase, SeekServed]
    rw [Int.toNat_of_nonneg (le_max_left _ _), hwrap (current + offset) (by omega) (by omega)]
    split <;> omega
  | «end» =>
    simp only [seekBase, SeekServed]
    rw [Int.toNat_of_nonneg (le_max_left _ _), hwrap (filesize - offset) (by omega) (by omega)]
    split <;> omega

theorem defaultCheckedSeek_clamps_hello :
    (defaultCheckedSeek 5 3 .cur (-2) : ℤ) = clamp 0 (seekBase 5 3 .cur + -2) 5 :=
  (defaultCheckedSeek_clamps_iff (by decide) (by decide) (by decide) (by decide) .cur).mpr
    (Or.inr (show (0 : ℤ) ≤ 3 + -2 by decide))

/-- Three bytes before the start of a file are its end, and three bytes before its end are its end too. -/
theorem defaultCheckedSeek_not_clamps :
    (defaultCheckedSeek 5 0 .set (-3) : ℤ) ≠ clamp 0 (seekBase 5 0 .set + -3) 5 ∧
      (defaultCheckedSeek 5 2 .cur (-3) : ℤ) ≠ clamp 0 (seekBase 5 2 .cur + -3) 5 ∧
      (defaultCheckedSeek 5 5 .end (-3) : ℤ) ≠ clamp 0 (seekBase 5 5 .end + -3) 5 := by
  decide

/-- `fs_file_inode_poll_always_ready`, with `F_POLLMASK`. -/
def pollAlwaysReady (events : ℕ) : ℤ × ℕ := (0, events &&& (fPollIn ||| fPollOut))

/-- The file of an inode with `contents`: its filesystem reads exact slices of them, seeks by
`default_checked_seek` and never blocks a reader, in every state that `Inv` admits. -/
structure ExactSlices {σ : Type} (ops : FileOps σ) (Inv : σ → Prop) (contents : List UInt8) : Prop where
  read : ∀ s, Inv s → ∀ offset size, ∃ s', Inv s' ∧ ops.read s offset size =
    .ok (((contents.drop offset).take size).length, (contents.drop offset).take size, s')
  seek : ∀ s, Inv s → ∀ current offset,
    ops.seekCur s current offset = defaultCheckedSeek contents.length current .cur offset
  poll : ∀ s, Inv s → ∀ events, ops.poll s events = pollAlwaysReady events

/-- One completed `vfs_read`, with the custodies before and after it. -/
structure ReadCall (ι : Type) where
  custody : ι
  rc : ℤ
  out : List UInt8
  before : ι → FileCustody
  after : ι → FileCustody

section Calls

variable {σ ι : Type} [DecidableEq ι]

/-- A sequence of `vfs_read` calls, each on one of the custodies of the file. -/
def readCalls (ops : FileOps σ) : σ → (ι → FileCustody) → List (ι × ℕ) → Except Panic (Option (List (ReadCall ι)))
  | _, _, [] => .ok (some [])
  | s, custodies, (i, size) :: calls => do
    match ← vfsRead ops s (custodies i) size with
    | none => return none
    | some (rc, out, custody, s) =>
      let after := Function.update custodies i custody
      let rest ← readCalls ops s after calls
      return rest.map (⟨i, rc, out, custodies, after⟩ :: ·)

/-- What the calls on custody `i` have put into its reader's buffers. -/
def returned (i : ι) (calls : List (ReadCall ι)) : List UInt8 :=
  (calls.filter (fun call => call.custody = i)).flatMap (fun call => call.out.take call.rc.toNat)

def ReadCall.Advances (call : ReadCall ι) : Prop :=
  0 < call.rc → ((call.after call.custody).offset : ℤ) = (call.before call.custody).offset + call.rc

structure Consecutive (contents : List UInt8) (custodies : ι → FileCustody) (calls : List (ReadCall ι)) : Prop where
  advances : ∀ call ∈ calls, call.Advances
  concatenate : ∀ i, returned i calls <+: contents.drop (custodies i).offset
  undisturbed : ∀ call ∈ calls, ∀ i, i ≠ call.custody → call.after i = call.before i

/-- The bytes requested by the calls on custody `i`. -/
def requested (i : ι) (calls : List (ι × ℕ)) : ℕ := ((calls.filter (fun call => call.1 = i)).map Prod.snd).sum

/-- Requests of `total` bytes through the custody end before byte 2^31 of the file,
unless they deliver no byte at all. -/
def StaysBelow (contents : List UInt8) (custody : FileCustody) (total : ℕ) : Prop :=
  custody.flags &&& ofAccmode ≠ ofWronly → custody.offset < contents.length → 0 < total →
    min (custody.offset + total) contents.length < 2 ^ 31

lemma requested_cons (i : ι) (call : ι × ℕ) (calls : List (ι × ℕ)) :
    requested i (call :: calls) = (if call.1 = i then call.2 else 0) + requested i calls := by
  unfold requested
  split <;> simp [*]

/-- The call and the custody after it, of a `vfs_read` that is given the slice `contents` has for it. -/
def servedRead (contents : List UInt8) (custody : FileCustody) (size : ℕ) : ℤ × List UInt8 × FileCustody :=
  if custody.flags &&& ofAccmode = ofWronly then (-Err.perm, [], custody)
  else
    let out := (contents.drop custody.offset).take size
    (out.length, out,
      if 0 < out.length ∧ custody.offset + out.length < 2 ^ 31 then
        { custody with offset := custody.offset + out.length }
      else custody)

def servedCalls (contents : List UInt8) : (ι → FileCustody) → List (ι × ℕ) → List (ReadCall ι)
  | _, [] => []
  | custodies, (i, size) :: calls =>
    let (rc, out, custody) := servedRead contents (custodies i) size
    let after := Function.update custodies i custody
    ⟨i, rc, out, custodies, after⟩ :: servedCalls contents after calls

section Serving

variable {ops : FileOps σ} {Inv : σ → Prop} {contents : List UInt8}

lemma vfsSeekCur_advance (hops : ExactSlices ops Inv contents) (hlen : contents.length < 2 ^ 32) {s : σ}
    (hs : Inv s) {custody : FileCustody} {n : ℕ} (hn : custody.offset + n ≤ contents.length) :
    vfsSeekCur ops s custody n =
      if custody.offset + n < 2 ^ 31 then { custody with offset := custody.offset + n } else custody := by
  have hseek : ops.seekCur s custody.offset n = (custody.offset + n : ℕ) := by
    rw [hops.seek s hs, defaultCheckedSeek_cur hn (by omega)]
  rw [vfsSeekCur, hseek]
  by_cases hb : custody.offset + n < 2 ^ 31
  · rw [ssize_of_lt hb, if_pos hb]
    exact if_neg (by omega)
  · -- the conversion to `ssize_t` takes the new offset below zero
    have hneg : ssize (custody.offset + n : ℕ) < 0 := by
      rw [ssize, Int.bmod_def, Int.emod_eq_of_lt (by omega) (by omega)]
      split <;> omega
    rw [if_neg hb]
    exact if_pos hneg

lemma vfsRead_served (hops : ExactSlices ops Inv contents) (hlen : contents.length < 2 ^ 32) {s : σ}
    (hs : Inv s) (custody : FileCustody) {size : ℕ} (hsize : size < 2 ^ 31) :
    ∃ s', Inv s' ∧ vfsRead ops s custody size = .ok (some ((servedRead contents custody size).1,
      (servedRead contents custody size).2.1, (servedRead contents custody size).2.2, s')) := by
  by_cases hw : custody.flags &&& ofAccmode = ofWronly
  · exact ⟨s, hs, by simp [vfsRead, servedRead, hw]⟩
  · obtain ⟨s', hs', hread⟩ := hops.read s hs custody.offset size
    refine ⟨s', hs', ?_⟩
    have hready : waitsFor ops s fPollIn = false := by simp [waitsFor, hops.poll s hs, pollAlwaysReady]
    have hout : ((contents.drop custody.offset).take size).length = min size (contents.length - custody.offset) := by
      simp
    rw [vfsRead, servedRead, if_neg hw, if_neg hw, if_neg (by simp [hready]), hread, ok_bind]
    generalize (contents.drop custody.offset).take size = out at hout ⊢
    dsimp only [pure_eq_ok]
    rw [ssize_of_lt (by omega : out.length < 2 ^ 31)]
    by_cases hpos : 0 < out.length
    · rw [if_pos (by omega), vfsSeekCur_advance hops hlen hs' (by omega)]
      simp only [hpos, true_and]
    · rw [if_neg (by omega), if_neg (by omega)]

lemma readCalls_served (hops : ExactSlices ops Inv contents) (hlen : contents.length < 2 ^ 32)
    {calls : List (ι × ℕ)} (hsizes : ∀ call ∈ calls, call.2 < 2 ^ 31) {s : σ} (hs : Inv s)
    (custodies : ι → FileCustody) :
    readCalls ops s custodies calls = .ok (some (servedCalls contents custodies calls)) := by
  induction calls generalizing s custodies with
  | nil => rfl
  | cons call calls ih =>
    obtain ⟨i, size⟩ := call
    obtain ⟨s', hs', hread⟩ := vfsRead_served hops hlen hs (custodies i) (hsizes (i, size) (by simp))
    rw [readCalls, hread, ok_bind]
    dsimp only
    rw [ih (fun call hc => hsizes call (by simp [hc])) hs']
    rfl

end Serving

section Served

variable {contents : List UInt8}

lemma staysBelow_zero (custody : FileCustody) : StaysBelow contents custody 0 := fun _ _ h => absurd h (by simp)

lemma staysBelow_add (custody : FileCustody) (a b : ℕ) :
    StaysBelow contents custody (a + b) ↔
      StaysBelow contents custody a ∧ StaysBelow contents (servedRead contents custody a).2.2 b := by
  by_cases hw : custody.flags &&& ofAccmode = ofWronly
  · simp [StaysBelow, servedRead, hw]
  · have hout : ((contents.drop custody.offset).take a).length = min a (contents.length - custody.offset) := by simp
    rw [servedRead, if_neg hw]
    generalize (contents.drop custody.offset).take a = out at hout
    dsimp only
    split
    · simp only [StaysBelow, ne_eq, hw, not_false_eq_true, true_implies]
      omega
    · simp only [StaysBelow, ne_eq, hw, not_false_eq_true, true_implies]
      omega

lemma servedRead_advances_iff (custody : FileCustody) (size : ℕ) :
    (0 < (servedRead contents custody size).1 →
      ((servedRead contents custody size).2.2.offset : ℤ) = custody.offset + (servedRead contents custody size).1) ↔
      StaysBelow contents custody size := by
  by_cases hw : custody.flags &&& ofAccmode = ofWronly
  · simp [StaysBelow, servedRead, hw]
  · have hout : ((contents.drop custody.offset).take size).length = min size (contents.length - custody.offset) := by
      simp
    rw [servedRead, if_neg hw]
    generalize (contents.drop custody.offset).take size = out at hout
    dsimp only
    split
    · simp only [StaysBelow, ne_eq, hw, not_false_eq_true, true_implies]
      omega
    · simp only [StaysBelow, ne_eq, hw, not_false_eq_true, true_implies]
      omega

lemma servedCalls_advance_iff (custodies : ι → FileCustody) (calls : List (ι × ℕ)) :
    (∀ call ∈ servedCalls contents custodies calls, call.Advances) ↔
      ∀ i, StaysBelow contents (custodies i) (requested i calls) := by
  induction calls generalizing custodies with
  | nil => simp [servedCalls, requested, staysBelow_zero]
  | cons call calls ih =>
    obtain ⟨i, size⟩ := call
    rw [servedCalls, List.forall_mem_cons, ih]
    simp only [ReadCall.Advances, Function.update_self, servedRead_advances_iff, requested_cons]
    constructor
    · rintro ⟨hi, hall⟩ j
      by_cases hj : i = j
      · obtain rfl := hj
        rw [if_pos rfl, staysBelow_add]
        exact ⟨hi, by simpa using hall i⟩
      · simpa [hj, Ne.symm hj] using hall j
    · intro hall
      have hi := hall i
      rw [if_pos rfl, staysBelow_add] at hi
      refine ⟨hi.1, fun j => ?_⟩
      by_cases hj : i = j
      · obtain rfl := hj
        simpa using hi.2
      · simpa [hj, Ne.symm hj] using hall j

lemma servedRead_prefix {custody : FileCustody} {size : ℕ} (h : StaysBelow contents custody size) :
    (servedRead contents custody size).2.1.take (servedRead contents custody size).1.toNat ++
      contents.drop (servedRead contents custody size).2.2.offset = contents.drop custody.offset := by
  by_cases hw : custody.flags &&& ofAccmode = ofWronly
  · simp [servedRead, hw]
  · have hout : ((contents.drop custody.offset).take size).length = min size (contents.length - custody.offset) := by
      simp
    have happ : (contents.drop custody.offset).take size ++
        contents.drop (custody.offset + ((contents.drop custody.offset).take size).length) =
        contents.drop custody.offset := by
      rw [← List.drop_drop]
      exact List.prefix_iff_eq_append.mp (List.take_prefix size _)
    have hb := h hw
    rw [servedRead, if_neg hw]
    generalize (contents.drop custody.offset).take size = out at hout happ ⊢
    dsimp only
    rw [Int.toNat_natCast, List.take_length]
    split
    · exact happ
    · obtain rfl : out = [] := List.length_eq_zero_iff.mp (by omega)
      rfl

lemma returned_servedCalls_prefix (i : ι) {custodies : ι → FileCustody} {calls : List (ι × ℕ)}
    (h : StaysBelow contents (custodies i) (requested i calls)) :
    returned i (servedCalls contents custodies calls) <+: contents.drop (custodies i).offset := by
  induction calls generalizing custodies with
  | nil => simp [servedCalls, returned]
  | cons call calls ih =>
    obtain ⟨j, size⟩ := call
    rw [requested_cons] at h
    rw [servedCalls, returned, List.filter_cons]
    by_cases hj : j = i
    · obtain rfl := hj
      rw [if_pos rfl, staysBelow_add] at h
      have hbelow : StaysBelow contents (Function.update custodies j (servedRead contents (custodies j) size).2.2 j)
          (requested j calls) := by simpa using h.2
      have hrest := ih hbelow
      rw [Function.update_self] at hrest
      rw [if_pos (by simp), List.flatMap_cons, ← servedRead_prefix h.1]
      exact List.prefix_append_right_inj _ |>.mpr hrest
    · rw [if_neg hj, zero_add] at h
      have hbelow : StaysBelow contents (Function.update custodies j (servedRead contents (custodies j) size).2.2 i)
          (requested i calls) := by simpa [Ne.symm hj] using h
      have hrest := ih hbelow
      rw [if_neg (by simpa using hj)]
      simpa only [returned, Function.update_of_ne (Ne.symm hj)] using hrest

lemma servedCalls_undisturbed {custodies : ι → FileCustody} {calls : List (ι × ℕ)} :
    ∀ call ∈ servedCalls contents custodies calls, ∀ i, i ≠ call.custody → call.after i = call.before i := by
  induction calls generalizing custodies with
  | nil => simp [servedCalls]
  | cons call calls ih =>
    rw [servedCalls, List.forall_mem_cons]
    exact ⟨fun i hi => Function.update_of_ne hi _ _, ih⟩

lemma servedCalls_consecutive_iff (custodies : ι → FileCustody) (calls : List (ι × ℕ)) :
    Consecutive contents custodies (servedCalls contents custodies calls) ↔
      ∀ i, StaysBelow contents (custodies i) (requested i calls) :=
  ⟨fun h => (servedCalls_advance_iff custodies calls).mp h.advances,
    fun h => ⟨(servedCalls_advance_iff custodies calls).mpr h, fun i => returned_servedCalls_prefix i (h i),
      servedCalls_undisturbed⟩⟩

end Served

/-- The reads of a sequence of `vfs_read` calls are consecutive on every custody exactly when the calls
on each of them end before byte 2^31 of the file. -/
theorem readCalls_consecutive_iff {ops : FileOps σ} {Inv : σ → Prop} {contents : List UInt8}
    (hops : ExactSlices ops Inv contents) (hlen : contents.length < 2 ^ 32) {s : σ} (hs : Inv s)
    (custodies : ι → FileCustody) (calls : List (ι × ℕ)) (hsizes : ∀ call ∈ calls, call.2 < 2 ^ 31) :
    ∃ trace, readCalls ops s custodies calls = .ok (some trace) ∧
      (Consecutive contents custodies trace ↔ ∀ i, StaysBelow contents (custodies i) (requested i calls)) :=
  ⟨_, readCalls_served hops hlen hsizes hs custodies, servedCalls_consecutive_iff custodies calls⟩

/-- A file kept as its contents. -/
def contentsOps : FileOps (List UInt8) where
  read contents offset size :=
    .ok (((contents.drop offset).take size).length, (contents.drop offset).take size, contents)
  write contents _ _ := .ok (-Err.notSup, contents)
  seekCur contents current offset := defaultCheckedSeek contents.length current .cur offset
  poll _ events := pollAlwaysReady events

lemma contentsOps_exactSlices (contents : List UInt8) :
    ExactSlices contentsOps (fun s => s = contents) contents where
  read := by
    rintro s rfl offset size
    exact ⟨s, rfl, rfl⟩
  seek := by
    rintro s rfl current offset
    rfl
  poll _ _ _ := rfl

/-- Two custodies of one file, "Hello" and the rest of it read through the first. -/
theorem readCalls_consecutive_iff_hello : ∃ trace,
    readCalls contentsOps [72, 101, 108, 108, 111, 33] (fun _ : Bool => ⟨1, ofRdonly, 0⟩)
      [(false, 5), (true, 100), (false, 100)] = .ok (some trace) ∧
    (Consecutive [72, 101, 108, 108, 111, 33] (fun _ => ⟨1, ofRdonly, 0⟩) trace ↔
      ∀ i, StaysBelow [72, 101, 108, 108, 111, 33] ⟨1, ofRdonly, 0⟩
        (requested i [(false, 5), (true, 100), (false, 100)])) :=
  readCalls_consecutive_iff (contentsOps_exactSlices _) (by decide) rfl _ _ (by decide)

lemma not_consecutive_of_length {contents : List UInt8} (hlen : contents.length = 2 ^ 31 + 1) : ∃ trace,
    readCalls contentsOps contents (fun _ : Unit => ⟨1, ofRdonly, 0⟩) [((), 2 ^ 31 - 1), ((), 1)] = .ok (some trace) ∧
    ¬ Consecutive contents (fun _ => ⟨1, ofRdonly, 0⟩) trace := by
  refine ⟨_, readCalls_served (contentsOps_exactSlices _) (by omega) (by simp) rfl _, fun h => ?_⟩
  have hbelow := (servedCalls_consecutive_iff _ _).mp h () (by decide) (by rw [hlen]; decide) (by decide)
  have hreq : requested () [((), 2 ^ 31 - 1), ((), 1)] = 2 ^ 31 := by decide
  rw [hlen, hreq] at hbelow
  omega

/-- The second read of a file of 2^31 + 1 bytes, at offset 2^31 - 1, does not move the custody. -/
theorem readCalls_not_consecutive : ∃ trace,
    readCalls contentsOps (List.replicate (2 ^ 31 + 1) 0) (fun _ : Unit => ⟨1, ofRdonly, 0⟩)
      [((), 2 ^ 31 - 1), ((), 1)] = .ok (some trace) ∧
    ¬ Consecutive (List.replicate (2 ^ 31 + 1) 0) (fun _ => ⟨1, ofRdonly, 0⟩) trace :=
  not_consecutive_of_length List.length_replicate

end Calls

end Pi0Os.Vfs
