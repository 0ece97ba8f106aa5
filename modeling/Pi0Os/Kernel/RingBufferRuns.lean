import Pi0Os.Kernel.RingBuffer

/-! The fields of `lib/ringbuffer.h` over any pushes and pops. -/

namespace Pi0Os.Kernel

open Library

structure RingFields (T : Type) where
  data : List T
  readPos : ℕ
  writePos : ℕ
  count : ℕ

inductive RingOp (T : Type) where
  | push (item : T)
  | pop

namespace RingFields

variable {T : Type} (N : ℕ)

def isFull (b : RingFields T) : Bool := b.count = N

def isEmpty (b : RingFields T) : Bool := b.count = 0

def available (b : RingFields T) : ℕ := N - b.count

def push (item : T) (b : RingFields T) : Except Panic (RingFields T) := do
  panicIf (.undefined "a write outside of the data") (b.data.length ≤ b.writePos)
  let b := { b with data := b.data.set b.writePos item, writePos := (b.writePos + 1) % N }
  if b.count < N then return { b with count := b.count + 1 }
  else return { b with readPos := (b.readPos + 1) % N }

def pop (b : RingFields T) : Except Panic (Option T × RingFields T) :=
  if b.isEmpty then .ok (none, b)
  else
    match b.data[b.readPos]? with
    | none => .error (.undefined "a read outside of the data")
    | some out => .ok (some out, { b with readPos := (b.readPos + 1) % N, count := b.count - 1 })

/-- What the pops return, and the fields behind the last operation. -/
def run : List (RingOp T) → RingFields T → Except Panic (List (Option T) × RingFields T)
  | [], b => .ok ([], b)
  | .push item :: ops, b => do run ops (← b.push N item)
  | .pop :: ops, b => do
    let (out, b) ← b.pop N
    let (outs, b) ← run ops b
    return (out :: outs, b)

end RingFields

namespace RingOp

variable {T : Type} (N : ℕ)

/-- The queue that an operation leaves. -/
def after (q : List T) : RingOp T → List T
  | .push item => pushBounded N q item
  | .pop => q.tail

def results : List (RingOp T) → List T → List (Option T)
  | [], _ => []
  | .push item :: ops, q => results ops (after N q (.push item))
  | .pop :: ops, q => q.head? :: results ops (after N q .pop)

end RingOp

namespace RingBuffer

variable {N : ℕ} {T : Type} (b : RingBuffer N T)

def fields : RingFields T := ⟨List.ofFn b.data, b.readPos, b.writePos, b.count⟩

lemma push_fields (item : T) : b.fields.push N item = .ok (b.push item).fields := by
  have hin : ¬ b.fields.data.length ≤ b.fields.writePos := by
    rw [fields, List.length_ofFn]
    exact Nat.not_le.mpr b.writePos.isLt
  have hset : b.fields.data.set b.fields.writePos item = List.ofFn (Function.update b.data b.writePos item) := by
    apply List.ext_getElem
    · rw [fields, List.length_set, List.length_ofFn, List.length_ofFn]
    · intro i hi hi'
      simp only [fields, List.getElem_set, List.getElem_ofFn, Function.update_apply]
      apply if_congr
      · rw [Fin.ext_iff, eq_comm]
      · rfl
      · rfl
  rw [RingFields.push, panicIf, if_neg hin, ok_bind, hset, push]
  by_cases h : b.count < N
  · rw [dif_pos h]
    exact if_pos h
  · rw [dif_neg h]
    exact if_neg h

lemma pop_fields : b.fields.pop N = .ok (match b.pop with
    | none => (none, b.fields)
    | some (out, b') => (some out, b'.fields)) := by
  rw [RingFields.pop, pop]
  by_cases h : b.count = 0
  · rw [dif_pos h]
    exact if_pos (decide_eq_true h)
  · have hread : b.fields.data[b.fields.readPos]? = some (b.data b.readPos) := by
      rw [fields, List.getElem?_ofFn, dif_pos b.readPos.isLt]
    rw [dif_neg h, hread]
    exact if_neg (fun he => h (of_decide_eq_true he))

lemma contents_after_push (item : T) : (b.push item).contents = pushBounded N b.contents item := by
  rw [contents_push, rtake_concat b.length_contents_le b.readPos.pos]

lemma run_fields (ops : List (RingOp T)) :
    ∃ b' : RingBuffer N T, b.fields.run N ops = .ok (RingOp.results N ops b.contents, b'.fields) ∧
      b'.contents = ops.foldl (RingOp.after N) b.contents := by
  induction ops generalizing b with
  | nil => exact ⟨b, rfl, rfl⟩
  | cons op ops ih =>
    cases op with
    | push item =>
      obtain ⟨b', hrun, hcontents⟩ := ih (b.push item)
      rw [contents_after_push] at hrun hcontents
      refine ⟨b', ?_, hcontents⟩
      rw [RingFields.run, push_fields, ok_bind, hrun]
      rfl
    | pop =>
      have hpop : ∃ b₁ : RingBuffer N T, b.fields.pop N = .ok (b.contents.head?, b₁.fields) ∧
          b₁.contents = b.contents.tail := by
        rw [pop_fields]
        cases h : b.pop with
        | none =>
          have he := b.pop_eq_none.mp h
          exact ⟨b, by rw [he]; rfl, by rw [he]; rfl⟩
        | some r =>
          obtain ⟨out, b₁⟩ := r
          have he := b.contents_pop h
          exact ⟨b₁, by rw [he]; rfl, by rw [he]; rfl⟩
      obtain ⟨b₁, hpop, htail⟩ := hpop
      obtain ⟨b', hrun, hcontents⟩ := ih b₁
      rw [htail] at hrun hcontents
      refine ⟨b', ?_, hcontents⟩
      rw [RingFields.run, hpop, ok_bind]
      dsimp only
      rw [hrun]
      rfl

end RingBuffer

/-- Any pushes and pops are those of a queue of at most `N` items, from whatever the memory of a new buffer holds. -/
theorem ringBuffer_refines {N : ℕ} {T : Type} (hN : 0 < N) {data : List T} (hdata : data.length = N)
    (ops : List (RingOp T)) :
    ∃ b, RingFields.run N ops ⟨data, 0, 0, 0⟩ = .ok (RingOp.results N ops [], b) ∧
      (b.isEmpty ↔ ops.foldl (RingOp.after N) [] = []) ∧
      (b.isFull N ↔ (ops.foldl (RingOp.after N) []).length = N) ∧
      b.available N = N - (ops.foldl (RingOp.after N) []).length ∧
      (ops.foldl (RingOp.after N) []).length ≤ N ∧ b.readPos < N ∧ b.writePos < N := by
  subst hdata
  let b₀ : RingBuffer data.length T := ⟨data.get, ⟨0, hN⟩, ⟨0, hN⟩, 0, Nat.zero_le _, (Nat.zero_mod _).symm⟩
  have hfields : b₀.fields = ⟨data, 0, 0, 0⟩ := congrArg (fun d => RingFields.mk d 0 0 0) (List.ofFn_get data)
  obtain ⟨b, hrun, hcontents⟩ := b₀.run_fields ops
  rw [hfields] at hrun
  change b.contents = ops.foldl (RingOp.after data.length) [] at hcontents
  rw [← hcontents]
  refine ⟨b.fields, hrun, b.isEmpty_iff, b.isFull_iff, ?_, b.length_contents_le, b.readPos.isLt, b.writePos.isLt⟩
  rw [b.length_contents]
  rfl

/-- Five pushes into a buffer of four bytes, and a pop. -/
theorem ringBuffer_refines_overrun : ∃ b, RingFields.run 4
    [.push 1, .push 2, .push 3, .push 4, .push 5, .pop] ⟨List.replicate 4 (0 : UInt8), 0, 0, 0⟩ =
      .ok ([some 2], b) ∧ b.available 4 = 1 := by
  obtain ⟨b, hrun, -, -, havailable, -⟩ := ringBuffer_refines (N := 4) (by decide)
    (List.length_replicate (n := 4) (a := (0 : UInt8))) [.push 1, .push 2, .push 3, .push 4, .push 5, .pop]
  exact ⟨b, hrun, havailable⟩

end Pi0Os.Kernel
