import Pi0Os.Kernel.Base
import Pi0Os.Library.BoundedQueue
import Pi0Os.Library.CircularIndex

/-! The ring buffer of `lib/ringbuffer.h`, and the queue it implements: a push into a full
buffer drops the oldest item. -/

namespace Pi0Os.Kernel

open Library

structure RingBuffer (N : ℕ) (T : Type) where
  data : Fin N → T
  readPos : Fin N
  writePos : Fin N
  count : ℕ
  count_le : count ≤ N
  writePos_eq : writePos.val = (readPos.val + count) % N

namespace RingBuffer

variable {N : ℕ} {T : Type}

def isFull (b : RingBuffer N T) : Bool := b.count = N

def isEmpty (b : RingBuffer N T) : Bool := b.count = 0

def next (p : Fin N) : Fin N := ⟨(p.val + 1) % N, Nat.mod_lt _ p.pos⟩

@[simp] lemma val_next (p : Fin N) : (next p).val = (p.val + 1) % N := rfl

def clear [NeZero N] (b : RingBuffer N T) : RingBuffer N T :=
  { b with
    readPos := 0, writePos := 0, count := 0
    count_le := Nat.zero_le N
    writePos_eq := by simp }

/-- A buffer in zeroed memory. -/
def zeroed (N : ℕ) [NeZero N] : RingBuffer N UInt8 := ⟨fun _ => 0, 0, 0, 0, Nat.zero_le N, by simp⟩

/-- The ttys and the pipes have buffers of 4096 bytes. -/
instance neZero_capacity : NeZero 4096 := ⟨by decide⟩

def push (b : RingBuffer N T) (item : T) : RingBuffer N T :=
  if h : b.count < N then
    { b with
      data := Function.update b.data b.writePos item
      writePos := next b.writePos
      count := b.count + 1
      count_le := h
      writePos_eq := by
        rw [val_next, b.writePos_eq, Nat.mod_add_mod, add_assoc] }
  else
    -- when full, the read position moves over the oldest item
    { b with
      data := Function.update b.data b.writePos item
      writePos := next b.writePos
      readPos := next b.readPos
      writePos_eq := by
        rw [val_next, val_next, b.writePos_eq, Nat.mod_add_mod, Nat.mod_add_mod]
        congr 1
        omega }

def pop (b : RingBuffer N T) : Option (T × RingBuffer N T) :=
  if h : b.count = 0 then none
  else some (b.data b.readPos,
    { b with
      readPos := next b.readPos
      count := b.count - 1
      count_le := (Nat.sub_le _ _).trans b.count_le
      writePos_eq := by
        rw [b.writePos_eq, val_next, Nat.mod_add_mod]
        congr 1
        omega })

/-- The `i`-th item from the oldest on. -/
def item (b : RingBuffer N T) (i : ℕ) : T :=
  b.data ⟨(b.readPos.val + i) % N, Nat.mod_lt _ b.readPos.pos⟩

def contents (b : RingBuffer N T) : List T := (List.range b.count).map b.item

variable (b : RingBuffer N T)

@[simp] lemma length_contents : b.contents.length = b.count := by simp [contents]

lemma length_contents_le : b.contents.length ≤ N := b.length_contents.trans_le b.count_le

@[simp] lemma contents_clear [NeZero N] : b.clear.contents = [] := rfl

lemma isEmpty_iff : b.isEmpty ↔ b.contents = [] := by
  rw [isEmpty, decide_eq_true_iff, ← List.length_eq_zero_iff, length_contents]

lemma isFull_iff : b.isFull ↔ b.contents.length = N := by
  rw [isFull, decide_eq_true_iff, length_contents]

lemma slot_ne_writePos {i : ℕ} (hi : i < b.count) (h : i ≠ 0 ∨ b.count < N) :
    (⟨(b.readPos.val + i) % N, Nat.mod_lt _ b.readPos.pos⟩ : Fin N) ≠ b.writePos := by
  intro he
  have hv : (b.readPos.val + i) % N = (b.readPos.val + b.count) % N := by
    rw [← b.writePos_eq]
    exact congrArg Fin.val he
  have hle := b.count_le
  exact add_mod_ne hi (by omega) hv

lemma item_push_of_lt (x : T) (h : b.count < N) {i : ℕ} (hi : i < b.count) :
    (b.push x).item i = b.item i := by
  rw [push, dif_pos h, item, item]
  exact Function.update_of_ne (b.slot_ne_writePos hi (Or.inr h)) ..

lemma writePos_slot : (⟨(b.readPos.val + b.count) % N, Nat.mod_lt _ b.readPos.pos⟩ : Fin N) = b.writePos :=
  Fin.ext b.writePos_eq.symm

lemma contents_push (x : T) : (b.push x).contents = (b.contents ++ [x]).rtake N := by
  by_cases h : b.count < N
  · have hc : (b.push x).count = b.count + 1 := by rw [push, dif_pos h]
    have hlast : (b.push x).item b.count = x := by
      rw [push, dif_pos h, item]
      simp only
      rw [b.writePos_slot, Function.update_self]
    rw [rtake_of_length_le (by simp; omega), contents, hc, List.range_succ, List.map_append,
      List.map_singleton, hlast, contents]
    congr 1
    exact List.map_congr_left fun i hi => b.item_push_of_lt x h (List.mem_range.mp hi)
  · have hfull : b.count = N := le_antisymm b.count_le (Nat.not_lt.mp h)
    have hpos := b.readPos.pos
    have hc : (b.push x).count = b.count := by rw [push, dif_neg h]
    obtain ⟨k, hk⟩ : ∃ k, b.count = k + 1 := ⟨b.count - 1, by omega⟩
    have hitem : ∀ i, (b.push x).item i =
        Function.update b.data b.writePos x ⟨(b.readPos.val + (i + 1)) % N, Nat.mod_lt _ hpos⟩ := by
      intro i
      rw [push, dif_neg h, item]
      simp only [val_next, Nat.mod_add_mod, add_assoc, add_comm 1 i]
    have hshift : ∀ i < k, (b.push x).item i = b.item (i + 1) := by
      intro i hi
      rw [hitem]
      exact Function.update_of_ne (b.slot_ne_writePos (by omega) (Or.inl i.succ_ne_zero)) ..
    have hlast : (b.push x).item k = x := by
      have hs := b.writePos_slot
      rw [hk] at hs
      rw [hitem, hs, Function.update_self]
    have hdrop : (b.contents ++ [x]).length - N = 1 := by simp [hfull]
    rw [List.rtake, hdrop, contents, contents, hc, hk, List.range_succ, List.map_append, List.map_singleton,
      hlast, ← List.range_succ, List.range_succ_eq_map, List.map_cons, List.map_map, List.cons_append,
      List.drop_one, List.tail_cons]
    congr 1
    exact List.map_congr_left fun i hi => hshift i (List.mem_range.mp hi)

lemma pop_eq_none : b.pop = none ↔ b.contents = [] := by
  rw [pop, ← List.length_eq_zero_iff, length_contents]
  by_cases h : b.count = 0 <;> simp [h]

lemma contents_pop {x : T} {b' : RingBuffer N T} (h : b.pop = some (x, b')) : b.contents = x :: b'.contents := by
  rw [pop] at h
  split at h
  · cases h
  · rename_i hne
    obtain ⟨k, hk⟩ : ∃ k, b.count = k + 1 := ⟨b.count - 1, by omega⟩
    obtain ⟨rfl, hb⟩ := Prod.mk.inj (Option.some.inj h)
    have hcount : b'.count = k := by
      rw [← hb]
      exact Nat.sub_eq_of_eq_add hk
    have hitem : ∀ i, b'.item i = b.item (i + 1) := by
      intro i
      rw [← hb]
      simp only [item, val_next, Nat.mod_add_mod, add_assoc, add_comm 1 i]
    have hfirst : b.item 0 = b.data b.readPos := by
      rw [item]
      congr 1
      exact Fin.ext (Nat.mod_eq_of_lt b.readPos.isLt)
    rw [contents, contents, hcount, hk, List.range_succ_eq_map, List.map_cons, List.map_map, hfirst]
    congr 1
    exact List.map_congr_left fun i _ => (hitem i).symm

lemma contents_foldl_push (xs : List T) (b : RingBuffer N T) :
    (xs.foldl push b).contents = (b.contents ++ xs).rtake N := by
  induction xs generalizing b with
  | nil => rw [List.foldl_nil, List.append_nil, rtake_of_length_le b.length_contents_le]
  | cons x xs ih =>
    rw [List.foldl_cons, ih, contents_push, rtake_rtake_append, List.append_assoc, List.singleton_append]

/-- Popping while there is room for more: `n` items at most. -/
def popUpTo : ℕ → RingBuffer N T → List T × RingBuffer N T
  | 0, b => ([], b)
  | n + 1, b =>
    match b.pop with
    | none => ([], b)
    | some (x, b) =>
      let (xs, b) := popUpTo n b
      (x :: xs, b)

lemma popUpTo_spec (n : ℕ) (b : RingBuffer N T) :
    (popUpTo n b).1 = b.contents.take n ∧ (popUpTo n b).2.contents = b.contents.drop n := by
  induction n generalizing b with
  | zero => exact ⟨rfl, rfl⟩
  | succ n ih =>
    rw [popUpTo]
    cases hp : b.pop with
    | none =>
      have he := b.pop_eq_none.mp hp
      simp only [he, List.take_nil, List.drop_nil, and_self]
    | some r =>
      obtain ⟨x, b'⟩ := r
      rw [b.contents_pop hp, List.take_succ_cons, List.drop_succ_cons]
      exact ⟨congrArg (x :: ·) (ih b').1, (ih b').2⟩

end RingBuffer

end Pi0Os.Kernel
