import Pi0Os.Library.FlatMemory
import Pi0Os.Library.LittleEndian

/-! `memset` and `memcpy` of the boot code, which store whole words where the pointers are aligned. -/

namespace Pi0Os.Boot

open Library

def Unaligned (p : ℕ) : Prop := p % 4 ≠ 0

instance decidable_unaligned (p : ℕ) : Decidable (Unaligned p) := inferInstanceAs (Decidable (_ ≠ _))

section Memset

/-- The pointer `p` or `p32`, the bytes that remain and the memory. -/
structure Filling where
  p : ℕ
  n : ℕ
  mem : ℕ → UInt8

/-- `*p++ = (uint8_t) c; n--` -/
def Filling.setByte (st : Filling) (c : BitVec 32) : Filling :=
  ⟨st.p + 1, st.n - 1, overwrite st.mem st.p [UInt8.ofNat c.toNat]⟩

/-- `*p32++ = c32; n -= 4` -/
def Filling.setWord (st : Filling) (c32 : BitVec 32) : Filling :=
  ⟨st.p + 4, st.n - 4, overwrite st.mem st.p (toBytes 4 c32.toNat)⟩

def setUnaligned (c : BitVec 32) (st : Filling) : Filling :=
  if 0 < st.n ∧ Unaligned st.p then setUnaligned c (st.setByte c) else st
termination_by st.n
decreasing_by simp only [Filling.setByte]; omega

def setWords (c32 : BitVec 32) (st : Filling) : Filling :=
  if 4 ≤ st.n then setWords c32 (st.setWord c32) else st
termination_by st.n
decreasing_by simp only [Filling.setWord]; omega

def setBytes (c : BitVec 32) (st : Filling) : Filling :=
  if 0 < st.n then setBytes c (st.setByte c) else st
termination_by st.n
decreasing_by simp only [Filling.setByte]; omega

def fillWord (c : BitVec 32) : BitVec 32 := c ||| c <<< 8 ||| c <<< 16 ||| c <<< 24

def memset (mem : ℕ → UInt8) (s : ℕ) (c : BitVec 32) (n : ℕ) : ℕ → UInt8 :=
  let st := setUnaligned c ⟨s, n, mem⟩
  let st := if 4 ≤ st.n then setWords (fillWord c) st else st
  (setBytes c st).mem

/-- The bytes before the next word boundary. -/
def wordGap (p : ℕ) : ℕ := (4 - p % 4) % 4

/-- The bytes `w` are written from `s` on, and `n` bytes of `total` remain. -/
structure Filled (mem : ℕ → UInt8) (s total : ℕ) (w : List UInt8) (st : Filling) : Prop where
  p : st.p = s + w.length
  n : w.length + st.n = total
  mem : st.mem = overwrite mem s w

variable {mem : ℕ → UInt8} {s total : ℕ} {w : List UInt8} {st : Filling} {c : BitVec 32}

lemma Filled.setByte (h : Filled mem s total w st) (hn : 0 < st.n) :
    Filled mem s total (w ++ [UInt8.ofNat c.toNat]) (st.setByte c) := by
  obtain ⟨hp, hlen, hmem⟩ := h
  refine ⟨?_, ?_, ?_⟩
  · rw [List.length_append, List.length_singleton, Filling.setByte, hp, Nat.add_assoc]
  · rw [List.length_append, List.length_singleton]
    simp only [Filling.setByte]
    omega
  · rw [Filling.setByte, hp, hmem, overwrite_append]

lemma Filled.setWord (h : Filled mem s total w st) (hn : 4 ≤ st.n) :
    Filled mem s total (w ++ toBytes 4 c.toNat) (st.setWord c) := by
  obtain ⟨hp, hlen, hmem⟩ := h
  refine ⟨?_, ?_, ?_⟩
  · rw [List.length_append, length_toBytes, Filling.setWord, hp, Nat.add_assoc]
  · rw [List.length_append, length_toBytes]
    simp only [Filling.setWord]
    omega
  · rw [Filling.setWord, hp, hmem, overwrite_append]

lemma wordGap_of_unaligned {p : ℕ} (h : Unaligned p) : wordGap p = wordGap (p + 1) + 1 := by
  rw [Unaligned] at h
  rw [wordGap, wordGap]
  omega

lemma wordGap_of_aligned {p : ℕ} (h : ¬ Unaligned p) : wordGap p = 0 := by
  rw [Unaligned, not_not] at h
  rw [wordGap, h]

/-- The head ends at a word boundary, or all bytes are written before one. -/
lemma Filled.setUnaligned (h : Filled mem s total w st) : ∃ k,
    Filled mem s total (w ++ List.replicate k (UInt8.ofNat c.toNat)) (setUnaligned c st) ∧
      (setUnaligned c st).n = st.n - wordGap st.p := by
  fun_induction Boot.setUnaligned c st generalizing w with
  | case1 st hst ih =>
    obtain ⟨k, hk, hn⟩ := ih (h.setByte hst.1)
    refine ⟨k + 1, ?_, ?_⟩
    · rwa [List.append_assoc] at hk
    · rw [hn, wordGap_of_unaligned hst.2]
      simp only [Filling.setByte]
      omega
  | case2 st hst =>
    refine ⟨0, by rwa [List.replicate_zero, List.append_nil], ?_⟩
    rcases Nat.eq_zero_or_pos st.n with h0 | hpos
    · omega
    · rw [wordGap_of_aligned fun hu => hst ⟨hpos, hu⟩, Nat.sub_zero]

lemma Filled.setWords (h : Filled mem s total w st) :
    Filled mem s total (w ++ (List.replicate (st.n / 4) (toBytes 4 c.toNat)).flatten) (setWords c st) ∧
      (setWords c st).n < 4 := by
  fun_induction Boot.setWords c st generalizing w with
  | case1 st hst ih =>
    obtain ⟨hfilled, hn⟩ := ih (h.setWord hst)
    refine ⟨?_, hn⟩
    have hdiv : st.n / 4 = (st.setWord c).n / 4 + 1 := by
      simp only [Filling.setWord]
      omega
    rwa [List.append_assoc, ← List.flatten_cons, ← List.replicate_succ, ← hdiv] at hfilled
  | case2 st hst =>
    have hdiv : st.n / 4 = 0 := Nat.div_eq_of_lt (Nat.not_le.mp hst)
    rw [hdiv, List.replicate_zero, List.flatten_nil, List.append_nil]
    exact ⟨h, Nat.not_le.mp hst⟩

lemma Filled.setBytes (h : Filled mem s total w st) :
    Filled mem s total (w ++ List.replicate st.n (UInt8.ofNat c.toNat)) (setBytes c st) := by
  fun_induction Boot.setBytes c st generalizing w with
  | case1 st hst ih =>
    have hfilled := ih (h.setByte hst)
    have hn : st.n = (st.setByte c).n + 1 := by
      simp only [Filling.setByte]
      omega
    rwa [List.append_assoc, List.singleton_append, ← List.replicate_succ, ← hn] at hfilled
  | case2 st hst =>
    rwa [Nat.eq_zero_of_not_pos hst, List.replicate_zero, List.append_nil]

/-- What `memset` writes: bytes up to a word boundary, fill words, and the bytes that are left. -/
lemma memset_eq (mem : ℕ → UInt8) (s : ℕ) (c : BitVec 32) (n : ℕ) :
    ∃ k r, k + 4 * ((n - wordGap s) / 4) + r = n ∧ memset mem s c n = overwrite mem s
      (List.replicate k (UInt8.ofNat c.toNat) ++
        (List.replicate ((n - wordGap s) / 4) (toBytes 4 (fillWord c).toNat)).flatten ++
          List.replicate r (UInt8.ofNat c.toNat)) := by
  have h₀ : Filled mem s n [] ⟨s, n, mem⟩ := ⟨rfl, Nat.zero_add n, (overwrite_nil mem s).symm⟩
  obtain ⟨k, h₁, hn⟩ := h₀.setUnaligned (c := c)
  rw [List.nil_append] at h₁
  generalize hst : Boot.setUnaligned c ⟨s, n, mem⟩ = st at h₁ hn
  have h₂ : Filled mem s n (List.replicate k (UInt8.ofNat c.toNat) ++
      (List.replicate ((n - wordGap s) / 4) (toBytes 4 (fillWord c).toNat)).flatten)
      (if 4 ≤ st.n then Boot.setWords (fillWord c) st else st) := by
    rw [← hn]
    split_ifs with h4
    · exact h₁.setWords.1
    · rwa [Nat.div_eq_of_lt (Nat.not_le.mp h4), List.replicate_zero, List.flatten_nil, List.append_nil]
  rw [memset, hst]
  generalize (if 4 ≤ st.n then Boot.setWords (fillWord c) st else st) = st' at h₂
  refine ⟨k, st'.n, ?_, h₂.setBytes.mem⟩
  have hlen := h₂.n
  rwa [List.length_append, List.length_replicate, List.length_flatten, List.map_replicate, List.sum_replicate,
    length_toBytes, smul_eq_mul, Nat.mul_comm] at hlen

lemma replicate_append_flatten_eq {b : UInt8} {k q r : ℕ} (hw : w.length = 4) :
    List.replicate k b ++ (List.replicate q w).flatten ++ List.replicate r b = List.replicate (k + 4 * q + r) b ↔
      q = 0 ∨ w = List.replicate 4 b := by
  have hlen : (List.replicate q w).flatten.length = 4 * q := by
    rw [List.length_flatten, List.map_replicate, List.sum_replicate, hw, smul_eq_mul, Nat.mul_comm]
  have hall : List.replicate k b ++ (List.replicate q w).flatten ++ List.replicate r b =
      List.replicate (k + 4 * q + r) b ↔ ∀ x ∈ (List.replicate q w).flatten, x = b := by
    rw [List.eq_replicate_iff, List.length_append, List.length_append, hlen]
    simp only [List.length_replicate, true_and, List.mem_append, List.mem_replicate]
    constructor
    · intro h x hx
      exact h x (Or.inl (Or.inr hx))
    · rintro h x ((⟨-, rfl⟩ | hx) | ⟨-, rfl⟩)
      · rfl
      · exact h x hx
      · rfl
  rw [hall, List.eq_replicate_iff]
  cases q with
  | zero => simp
  | succ q =>
    simp only [List.mem_flatten, List.mem_replicate, hw, true_and, Nat.succ_ne_zero, false_or, ne_eq,
      not_false_eq_true]
    constructor
    · intro h x hx
      exact h x ⟨w, rfl, hx⟩
    · rintro h x ⟨_, rfl, hx⟩
      exact h x hx

lemma testBit_fillWord (c : BitVec 32) {i : ℕ} (hi : i < 32) : (fillWord c).toNat.testBit i =
    (c.getLsbD i || (decide (8 ≤ i) && c.getLsbD (i - 8)) || (decide (16 ≤ i) && c.getLsbD (i - 16)) ||
      (decide (24 ≤ i) && c.getLsbD (i - 24))) := by
  rw [← BitVec.getLsbD, fillWord]
  simp only [BitVec.getLsbD_or, BitVec.getLsbD_shiftLeft, hi, decide_true, Bool.true_and, ← decide_not, Nat.not_lt]

/-- Each bit that is set above the low byte is set in the low byte too. -/
lemma fillWord_eq_replicate : toBytes 4 (fillWord c).toNat = List.replicate 4 (UInt8.ofNat c.toNat) ↔
    ∀ i < 32, c.getLsbD i → c.getLsbD (i % 8) := by
  have hlow : ∀ i, (UInt8.ofNat c.toNat).toNat.testBit (i % 8) = c.getLsbD (i % 8) := by
    intro i
    rw [UInt8.toNat_ofNat', Nat.testBit_mod_two_pow, decide_eq_true (Nat.mod_lt i (by decide)), Bool.true_and]
    rfl
  rw [toBytes_eq_replicate]
  simp only [hlow]
  constructor
  · intro h i hi hci
    rw [← h i hi, testBit_fillWord c hi, hci, Bool.true_or, Bool.true_or, Bool.true_or]
  · intro h i hi
    have hbit : ∀ j, i % 8 = j % 8 → c.getLsbD j = true → c.getLsbD (i % 8) = true := by
      intro j hj hcj
      rw [hj]
      exact h j (BitVec.lt_of_getLsbD hcj) hcj
    rw [testBit_fillWord c hi, Bool.eq_iff_iff]
    simp only [Bool.or_eq_true, Bool.and_eq_true, decide_eq_true_eq]
    constructor
    · rintro (((hc | ⟨hle, hc⟩) | ⟨hle, hc⟩) | ⟨hle, hc⟩)
      · exact hbit i rfl hc
      · exact hbit (i - 8) (by omega) hc
      · exact hbit (i - 16) (by omega) hc
      · exact hbit (i - 24) (by omega) hc
    · intro hc
      rcases Nat.lt_or_ge i 8 with h8 | h8
      · rw [Nat.mod_eq_of_lt h8] at hc
        exact Or.inl (Or.inl (Or.inl hc))
      rcases Nat.lt_or_ge i 16 with h16 | h16
      · have hj : i % 8 = i - 8 := by omega
        exact Or.inl (Or.inl (Or.inr ⟨h8, hj ▸ hc⟩))
      rcases Nat.lt_or_ge i 24 with h24 | h24
      · have hj : i % 8 = i - 16 := by omega
        exact Or.inl (Or.inr ⟨h16, hj ▸ hc⟩)
      · have hj : i % 8 = i - 24 := by omega
        exact Or.inr ⟨h24, hj ▸ hc⟩

lemma memset_eq_fill_iff (mem : ℕ → UInt8) (s : ℕ) (c : BitVec 32) (n : ℕ) :
    memset mem s c n = fill mem s n (UInt8.ofNat c.toNat) ↔
      n < wordGap s + 4 ∨ ∀ i < 32, c.getLsbD i → c.getLsbD (i % 8) := by
  obtain ⟨k, r, hn, hmem⟩ := memset_eq mem s c n
  have hq : (n - wordGap s) / 4 = 0 ↔ n < wordGap s + 4 := by omega
  generalize (n - wordGap s) / 4 = q at hn hmem hq
  rw [hmem, ← overwrite_replicate, ← hn]
  have hlen : (List.replicate k (UInt8.ofNat c.toNat) ++ (List.replicate q (toBytes 4 (fillWord c).toNat)).flatten ++
      List.replicate r (UInt8.ofNat c.toNat)).length = k + 4 * q + r := by
    rw [List.length_append, List.length_append, List.length_flatten, List.map_replicate, List.sum_replicate,
      length_toBytes, List.length_replicate, List.length_replicate, smul_eq_mul, Nat.mul_comm]
  rw [overwrite_inj (hlen.trans List.length_replicate.symm), replicate_append_flatten_eq (length_toBytes ..),
    fillWord_eq_replicate, hn, hq]

end Memset

section Memcpy

structure Copying where
  dst : ℕ
  src : ℕ
  n : ℕ
  mem : ℕ → UInt8

/-- `*dst++ = *src++` -/
def Copying.copyByte (st : Copying) : Copying :=
  { st with dst := st.dst + 1, src := st.src + 1, mem := overwrite st.mem st.dst [st.mem st.src] }

/-- `*aligned_dst++ = *aligned_src++` -/
def Copying.copyWord (st : Copying) : Copying :=
  { st with dst := st.dst + 4, src := st.src + 4, mem := overwrite st.mem st.dst (toBytes 4 (word st.mem st.src 4)) }

def copyFourWords (st : Copying) : Copying :=
  if 16 ≤ st.n then copyFourWords { st.copyWord.copyWord.copyWord.copyWord with n := st.n - 16 } else st
termination_by st.n

def copyWords (st : Copying) : Copying :=
  if 4 ≤ st.n then copyWords { st.copyWord with n := st.n - 4 } else st
termination_by st.n

def copyBytes (st : Copying) : Copying :=
  if 0 < st.n then copyBytes { st.copyByte with n := st.n - 1 } else st
termination_by st.n

def memcpy (mem : ℕ → UInt8) (dest source n : ℕ) : ℕ → UInt8 :=
  let st : Copying := ⟨dest, source, n, mem⟩
  let st := if 4 ≤ n ∧ ¬ (Unaligned dest ∨ Unaligned source) then copyWords (copyFourWords st) else st
  (copyBytes st).mem

/-- `j` bytes are copied, and `n` of `total` remain. -/
structure Copied (mem : ℕ → UInt8) (dest source total j n : ℕ) (st : Copying) : Prop where
  dst : st.dst = dest + j
  src : st.src = source + j
  n : j + n = total
  mem : st.mem = overwrite mem dest (slice mem source j)

variable {mem : ℕ → UInt8} {dest source total j n : ℕ} {st : Copying}

/-- The bytes that are still to be copied are as they were, since the regions are disjoint. -/
lemma Copied.slice_src (h : Copied mem dest source total j n st) {k : ℕ} (hk : k ≤ n)
    (hd : Disjoint (Set.Ico dest (dest + total)) (Set.Ico source (source + total))) :
    slice st.mem st.src k = slice mem (source + j) k := by
  obtain ⟨-, hsrc, hn, hmem⟩ := h
  rw [Set.Ico_disjoint_Ico] at hd
  rw [hmem, hsrc]
  rcases Nat.eq_zero_or_pos k with rfl | hpos
  · rw [slice_zero, slice_zero]
  · refine slice_overwrite_of_disjoint ?_
    rw [length_slice]
    omega

lemma Copied.extend (h : Copied mem dest source total j n st) {k : ℕ} (hk : k ≤ n)
    (hd : Disjoint (Set.Ico dest (dest + total)) (Set.Ico source (source + total))) :
    overwrite st.mem st.dst (slice st.mem st.src k) = overwrite mem dest (slice mem source (j + k)) := by
  have happ := overwrite_append mem dest (slice mem source j) (slice mem (source + j) k)
  rw [length_slice, slice_append] at happ
  rw [h.slice_src hk hd, h.dst, h.mem, happ]

lemma Copied.copyWord (h : Copied mem dest source total j n st) (hn : 4 ≤ n)
    (hd : Disjoint (Set.Ico dest (dest + total)) (Set.Ico source (source + total))) :
    Copied mem dest source total (j + 4) (n - 4) st.copyWord := by
  refine ⟨?_, ?_, ?_, ?_⟩
  · rw [Copying.copyWord, h.dst, Nat.add_assoc]
  · rw [Copying.copyWord, h.src, Nat.add_assoc]
  · have hsum := h.n
    omega
  · rw [← h.extend hn hd, Copying.copyWord, toBytes_word]

lemma Copied.copyByte (h : Copied mem dest source total j n st) (hn : 1 ≤ n)
    (hd : Disjoint (Set.Ico dest (dest + total)) (Set.Ico source (source + total))) :
    Copied mem dest source total (j + 1) (n - 1) st.copyByte := by
  refine ⟨?_, ?_, ?_, ?_⟩
  · rw [Copying.copyByte, h.dst, Nat.add_assoc]
  · rw [Copying.copyByte, h.src, Nat.add_assoc]
  · have hsum := h.n
    omega
  · rw [← h.extend hn hd]
    rfl

lemma Copied.copyFourWords (h : Copied mem dest source total j st.n st)
    (hd : Disjoint (Set.Ico dest (dest + total)) (Set.Ico source (source + total))) :
    ∃ j, Copied mem dest source total j (copyFourWords st).n (copyFourWords st) := by
  fun_induction Boot.copyFourWords st generalizing j with
  | case1 st hst ih =>
    have h₂ := (h.copyWord (by omega) hd).copyWord (by omega) hd
    have h₄ := (h₂.copyWord (by omega) hd).copyWord (by omega) hd
    exact ih ⟨h₄.dst, h₄.src, h₄.n, h₄.mem⟩
  | case2 st => exact ⟨j, h⟩

lemma Copied.copyWords (h : Copied mem dest source total j st.n st)
    (hd : Disjoint (Set.Ico dest (dest + total)) (Set.Ico source (source + total))) :
    ∃ j, Copied mem dest source total j (copyWords st).n (copyWords st) := by
  fun_induction Boot.copyWords st generalizing j with
  | case1 st hst ih =>
    have h₁ := h.copyWord hst hd
    exact ih ⟨h₁.dst, h₁.src, h₁.n, h₁.mem⟩
  | case2 st => exact ⟨j, h⟩

lemma Copied.copyBytes (h : Copied mem dest source total j st.n st)
    (hd : Disjoint (Set.Ico dest (dest + total)) (Set.Ico source (source + total))) :
    (copyBytes st).mem = copyRange mem dest source total := by
  fun_induction Boot.copyBytes st generalizing j with
  | case1 st hst ih =>
    have h₁ := h.copyByte hst hd
    exact ih ⟨h₁.dst, h₁.src, h₁.n, h₁.mem⟩
  | case2 st hst =>
    have hj : j = total := by
      have hsum := h.n
      omega
    rw [h.mem, hj, overwrite_slice]

lemma memcpy_eq_copyRange
    (hd : Disjoint (Set.Ico dest (dest + n)) (Set.Ico source (source + n))) :
    memcpy mem dest source n = copyRange mem dest source n := by
  have h₀ : Copied mem dest source n 0 (Copying.mk dest source n mem).n ⟨dest, source, n, mem⟩ :=
    ⟨rfl, rfl, Nat.zero_add n, (overwrite_nil mem dest).symm⟩
  rw [memcpy]
  split_ifs
  · obtain ⟨i, h₁⟩ := h₀.copyFourWords hd
    obtain ⟨j, h₂⟩ := h₁.copyWords hd
    exact h₂.copyBytes hd
  · exact h₀.copyBytes hd

end Memcpy

/-- The fill word of `memset` has the byte in all four places only when no bit above the low byte
is set alone; it is stored when four bytes remain at a word boundary. -/
theorem wordFunctions_bytewise (mem : ℕ → UInt8) (s : ℕ) (c : BitVec 32) (n dest source k : ℕ)
    (hd : Disjoint (Set.Ico dest (dest + k)) (Set.Ico source (source + k))) :
    (memset mem s c n = fill mem s n (UInt8.ofNat c.toNat) ∧
      memcpy mem dest source k = copyRange mem dest source k) ↔
      n < wordGap s + 4 ∨ ∀ i < 32, c.getLsbD i → c.getLsbD (i % 8) := by
  rw [memset_eq_fill_iff, memcpy_eq_copyRange hd, eq_self_iff_true, and_true]

theorem wordFunctions_bytewise_minusOne :
    memset UInt8.ofNat 0 (-1) 4 = fill UInt8.ofNat 0 4 0xff ∧
      memcpy UInt8.ofNat 0 4 4 = copyRange UInt8.ofNat 0 4 4 := by
  refine (wordFunctions_bytewise UInt8.ofNat 0 (-1) 4 0 4 4 ?_).mpr (Or.inr ?_)
  · rw [Set.Ico_disjoint_Ico]
    decide
  · decide

/-- `memset(s, -128, 4)` leaves `0xff` behind the first byte. -/
theorem memset_signExtended : memset (fun _ => 0) 0 (-128) 4 1 = 0xff ∧
    memset (fun _ => 0) 0 (-128) 4 ≠ fill (fun _ => 0) 0 4 0x80 := by
  have hval : memset (fun _ => 0) 0 (-128) 4 1 = 0xff := by
    simp [memset, setUnaligned, setWords, setBytes, Unaligned, Filling.setWord]
    rfl
  refine ⟨hval, fun h => ?_⟩
  rw [h] at hval
  exact absurd hval (by decide)

end Pi0Os.Boot
