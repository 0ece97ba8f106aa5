import Mathlib.Data.List.GetD
import Mathlib.Tactic

/-! Slices of an indexed sequence, and sequences laid out as blocks of equal length. -/

namespace Pi0Os.Library

variable {α : Type*}

/-- The `n` entries of `f` from `o` on. -/
def slice (f : ℕ → α) (o n : ℕ) : List α := (List.range' o n).map f

@[simp] lemma length_slice (f : ℕ → α) (o n : ℕ) : (slice f o n).length = n := by simp [slice]

@[simp] lemma slice_zero (f : ℕ → α) (o : ℕ) : slice f o 0 = [] := rfl

lemma slice_append (f : ℕ → α) (o m n : ℕ) : slice f o m ++ slice f (o + m) n = slice f o (m + n) := by
  rw [slice, slice, slice, ← List.map_append]
  congr 1
  simp

lemma slice_take {f : ℕ → α} {o m n : ℕ} (h : m ≤ n) : (slice f o n).take m = slice f o m := by
  rw [← Nat.add_sub_cancel' h, ← slice_append, List.take_append_of_le_length (by simp)]
  exact List.take_of_length_le (by simp)

lemma slice_drop {f : ℕ → α} {o m n : ℕ} (h : m ≤ n) : (slice f o n).drop m = slice f (o + m) (n - m) := by
  rw [← Nat.add_sub_cancel' h, ← slice_append, List.drop_append_of_le_length (by simp),
    List.drop_of_length_le (by simp)]
  simp

lemma slice_congr {f g : ℕ → α} {o n : ℕ} (h : ∀ i, o ≤ i → i < o + n → f i = g i) : slice f o n = slice g o n := by
  refine List.map_congr_left (fun i hi => ?_)
  obtain ⟨h₁, h₂⟩ := List.mem_range'_1.mp hi
  exact h i h₁ h₂

/-- `f` with `w` in the place of what it has from `o` on. -/
def overwrite (f : ℕ → α) (o : ℕ) (w : List α) : ℕ → α :=
  fun i => if o ≤ i then (w[i - o]?).getD (f i) else f i

lemma overwrite_of_notMem {f : ℕ → α} {o i : ℕ} {w : List α} (h : i < o ∨ o + w.length ≤ i) :
    overwrite f o w i = f i := by
  unfold overwrite
  split
  · rw [List.getElem?_eq_none (by omega), Option.getD_none]
  · rfl

lemma slice_overwrite (f : ℕ → α) (o : ℕ) (w : List α) : slice (overwrite f o w) o w.length = w := by
  refine List.ext_getElem (length_slice ..) (fun i _ h => ?_)
  simp [slice, overwrite, List.getElem?_eq_getElem h]

lemma slice_overwrite_of_disjoint {f : ℕ → α} {o o' n : ℕ} {w : List α} (h : o' + n ≤ o ∨ o + w.length ≤ o') :
    slice (overwrite f o w) o' n = slice f o' n :=
  slice_congr fun i _ _ => overwrite_of_notMem (by omega)

@[simp] lemma overwrite_nil (f : ℕ → α) (o : ℕ) : overwrite f o [] = f :=
  funext fun i => overwrite_of_notMem (by simp only [List.length_nil]; omega)

lemma overwrite_append (f : ℕ → α) (o : ℕ) (u w : List α) :
    overwrite (overwrite f o u) (o + u.length) w = overwrite f o (u ++ w) := by
  funext i
  unfold overwrite
  by_cases hi : o ≤ i
  · rw [if_pos hi, if_pos hi]
    by_cases hw : o + u.length ≤ i
    · rw [if_pos hw, List.getElem?_append_right (by omega), List.getElem?_eq_none (by omega : u.length ≤ i - o),
        Option.getD_none, Nat.sub_add_eq]
    · rw [if_neg hw, List.getElem?_append_left (by omega)]
  · rw [if_neg hi, if_neg hi, if_neg (by omega)]

lemma overwrite_inj {f : ℕ → α} {o : ℕ} {u w : List α} (h : u.length = w.length) :
    overwrite f o u = overwrite f o w ↔ u = w := by
  refine ⟨fun he => ?_, congrArg _⟩
  rw [← slice_overwrite f o u, he, h, slice_overwrite]

section Blocks

variable {b : ℕ}

/-- The sequence whose `k`-th block of `b` entries is `block k`. -/
def unblock [Inhabited α] (block : ℕ → List α) (b : ℕ) (i : ℕ) : α := (block (i / b)).getD (i % b) default

lemma slice_unblock [Inhabited α] (block : ℕ → List α) {k r t : ℕ} (hb : (block k).length = b) (ht : r + t ≤ b) :
    slice (unblock block b) (k * b + r) t = ((block k).drop r).take t := by
  refine List.ext_getElem (by simp; omega) (fun i h₁ h₂ => ?_)
  rw [length_slice] at h₁
  have hdiv : (k * b + r + i) / b = k := by
    rw [add_assoc, mul_comm, Nat.mul_add_div (by omega), Nat.div_eq_of_lt (by omega), add_zero]
  have hmod : (k * b + r + i) % b = r + i := by
    rw [add_assoc, mul_comm, Nat.mul_add_mod, Nat.mod_eq_of_lt (by omega)]
  simp [slice, unblock, hdiv, hmod, List.getElem?_eq_getElem (show r + i < (block k).length by omega)]

/-- A part of one block is replaced. -/
lemma unblock_splice [Inhabited α] {block block' : ℕ → List α} {k r : ℕ} {w : List α} (hb : 0 < b)
    (hlen : (block k).length = b) (hw : r + w.length ≤ b)
    (h : ∀ j, block' j = if j = k then (block k).take r ++ w ++ (block k).drop (r + w.length) else block j) :
    unblock block' b = overwrite (unblock block b) (k * b + r) w := by
  funext i
  have hdiv := Nat.div_add_mod' i b
  have hmod := Nat.mod_lt i hb
  have htake : ((block k).take r).length = r := by
    rw [List.length_take]
    omega
  rw [unblock, h]
  by_cases hk : i / b = k
  · rw [if_pos hk]
    rw [hk] at hdiv
    rcases Nat.lt_or_ge (i % b) r with hlo | hge
    · rw [overwrite_of_notMem (.inl (by omega)), unblock, hk, List.getD_eq_getElem?_getD, List.getD_eq_getElem?_getD,
        List.getElem?_append_left (by simp; omega), List.getElem?_append_left (by omega), List.getElem?_take_of_lt hlo]
    rcases Nat.lt_or_ge (i % b) (r + w.length) with hin | hhi
    · have hat : i - (k * b + r) = i % b - r := by omega
      rw [overwrite, if_pos (by omega), hat, List.getD_eq_getElem?_getD,
        List.getElem?_append_left (by simp; omega), List.getElem?_append_right (by omega), htake,
        List.getElem?_eq_getElem (by omega : i % b - r < w.length), Option.getD_some, Option.getD_some]
    · have hpre : ((block k).take r ++ w).length = r + w.length := by rw [List.length_append, htake]
      rw [overwrite_of_notMem (.inr (by omega)), unblock, hk, List.getD_eq_getElem?_getD, List.getD_eq_getElem?_getD,
        List.getElem?_append_right (by omega), hpre, List.getElem?_drop, Nat.add_sub_cancel' hhi]
  · have hout : i < k * b + r ∨ k * b + r + w.length ≤ i := by
      rcases Nat.lt_or_gt_of_ne hk with hlt | hgt
      · have hle := Nat.mul_le_mul_right b (Nat.succ_le_of_lt hlt)
        rw [Nat.succ_mul] at hle
        exact .inl (by omega)
      · have hle := Nat.mul_le_mul_right b (Nat.succ_le_of_lt hgt)
        rw [Nat.succ_mul] at hle
        exact .inr (by omega)
    rw [if_neg hk, overwrite_of_notMem hout, unblock]

end Blocks

end Pi0Os.Library
