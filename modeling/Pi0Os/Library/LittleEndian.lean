import Pi0Os.Library.Slice

/-! Numbers of a fixed width in a byte memory, the least significant byte first. -/

namespace Pi0Os.Library

/-- The `k` low bytes of a number. -/
def toBytes : ℕ → ℕ → List UInt8
  | 0, _ => []
  | k + 1, n => UInt8.ofNat n :: toBytes k (n / 256)

def ofBytes : List UInt8 → ℕ
  | [] => 0
  | b :: l => b.toNat + 256 * ofBytes l

/-- The number in the `k` bytes at the address `a`. -/
def word (m : ℕ → UInt8) (a k : ℕ) : ℕ := ofBytes (slice m a k)

variable {m m' : ℕ → UInt8} {a j k n : ℕ} {l : List UInt8}

@[simp] lemma length_toBytes (k n : ℕ) : (toBytes k n).length = k := by
  induction k generalizing n with
  | zero => rfl
  | succ k ih => rw [toBytes, List.length_cons, ih]

lemma ofBytes_toBytes (k n : ℕ) : ofBytes (toBytes k n) = n % 256 ^ k := by
  induction k generalizing n with
  | zero => rw [pow_zero, Nat.mod_one, toBytes, ofBytes]
  | succ k ih =>
    have hsplit : n % 256 ^ (k + 1) = n % 256 + 256 * (n / 256 % 256 ^ k) := by rw [pow_succ', Nat.mod_mul]
    rw [toBytes, ofBytes, ih, UInt8.toNat_ofNat', hsplit]

lemma toBytes_ofBytes (l : List UInt8) : toBytes l.length (ofBytes l) = l := by
  induction l with
  | nil => rfl
  | cons b l ih =>
    have hb : b.toNat < 256 := UInt8.toNat_lt b
    have hlow : UInt8.ofNat (b.toNat + 256 * ofBytes l) = b := by
      rw [← UInt8.toNat_inj, UInt8.toNat_ofNat']
      omega
    have hrest : (b.toNat + 256 * ofBytes l) / 256 = ofBytes l := by omega
    rw [List.length_cons, toBytes, ofBytes, hlow, hrest, ih]

lemma toBytes_word (m : ℕ → UInt8) (a k : ℕ) : toBytes k (word m a k) = slice m a k := by
  have h := toBytes_ofBytes (slice m a k)
  rwa [length_slice] at h

lemma ofNat_eq_iff_testBit {b : UInt8} : UInt8.ofNat n = b ↔ ∀ i < 8, n.testBit i = b.toNat.testBit i := by
  rw [← UInt8.toNat_inj, UInt8.toNat_ofNat']
  constructor
  · intro h i hi
    rw [← h, Nat.testBit_mod_two_pow, decide_eq_true hi, Bool.true_and]
  · intro h
    refine Nat.eq_of_testBit_eq fun i => ?_
    rw [Nat.testBit_mod_two_pow]
    by_cases hi : i < 8
    · rw [decide_eq_true hi, Bool.true_and, h i hi]
    · rw [decide_eq_false hi, Bool.false_and]
      have hlt : b.toNat < 2 ^ i :=
        (UInt8.toNat_lt b).trans_le (Nat.pow_le_pow_right Nat.two_pos (Nat.not_lt.mp hi))
      exact (Nat.testBit_lt_two_pow hlt).symm

lemma toBytes_eq_replicate {b : UInt8} :
    toBytes k n = List.replicate k b ↔ ∀ i < 8 * k, n.testBit i = b.toNat.testBit (i % 8) := by
  induction k generalizing n with
  | zero => simp [toBytes]
  | succ k ih =>
    have hshift : ∀ i, (n / 256).testBit i = n.testBit (i + 8) := Nat.testBit_div_two_pow (n := 8) n
    rw [toBytes, List.replicate_succ, List.cons.injEq, ofNat_eq_iff_testBit, ih]
    simp only [hshift]
    constructor
    · rintro ⟨hlow, hhigh⟩ i hi
      by_cases hi8 : i < 8
      · rw [hlow i hi8, Nat.mod_eq_of_lt hi8]
      · obtain ⟨j, rfl⟩ := Nat.exists_eq_add_of_le (Nat.not_lt.mp hi8)
        rw [Nat.add_comm 8 j, hhigh j (by omega), Nat.add_mod_right]
    · intro h
      refine ⟨fun i hi => ?_, fun i hi => ?_⟩
      · rw [h i (by omega), Nat.mod_eq_of_lt hi]
      · rw [h (i + 8) (by omega), Nat.add_mod_right]

lemma word_congr (h : ∀ i, a ≤ i → i < a + k → m i = m' i) : word m a k = word m' a k :=
  congrArg ofBytes (slice_congr h)

/-- A field of a record that stands at `a`. -/
lemma word_field (h : slice m a n = l) (hk : j + k ≤ n) : word m (a + j) k = ofBytes ((l.drop j).take k) := by
  rw [word, ← h, slice_drop (by omega), slice_take (by omega)]

end Pi0Os.Library
