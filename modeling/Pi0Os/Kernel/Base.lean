import Mathlib.Tactic

/-! The arithmetic and the failure modes the kernel's C++ code shares: 32-bit
unsigned operations, the templates of `more_math.h`, the sizes of `sizes.h`, the
virtual areas of `areas.h`, and `kassert`. -/

namespace Pi0Os.Kernel

abbrev size1KB : ℕ := 1024
abbrev size4KB : ℕ := 4096
abbrev size16KB : ℕ := 16384
abbrev size1MB : ℕ := 1048576

def add32 (a b : ℕ) : ℕ := (a + b) % 2 ^ 32

def sub32 (a b : ℕ) : ℕ := (a + 2 ^ 32 - b) % 2 ^ 32

/-- `round_up` at a 32-bit unsigned type: the addition wraps. -/
def roundUp32 (a b : ℕ) : ℕ := (a + b - 1) % 2 ^ 32 / b * b

def roundDown (a b : ℕ) : ℕ := a / b * b

def clamp (low x high : ℤ) : ℤ := max low (min high x)

lemma add32_of_lt {a b : ℕ} (h : a + b < 2 ^ 32) : add32 a b = a + b := Nat.mod_eq_of_lt h

lemma sub32_of_le {a b : ℕ} (h : b ≤ a) (ha : a < 2 ^ 32) : sub32 a b = a - b := by
  unfold sub32
  omega

lemma dvd_roundDown (a b : ℕ) : b ∣ roundDown a b := Dvd.intro_left _ rfl

lemma dvd_roundUp32 (a b : ℕ) : b ∣ roundUp32 a b := Dvd.intro_left _ rfl

lemma le_roundUp32 {a b : ℕ} (hb : 0 < b) (h : a + b - 1 < 2 ^ 32) : a ≤ roundUp32 a b := by
  have hd := Nat.div_add_mod (a + b - 1) b
  have hm := Nat.mod_lt (a + b - 1) hb
  rw [roundUp32, Nat.mod_eq_of_lt h, mul_comm]
  omega

lemma roundUp32_lt {a b : ℕ} (hb : 0 < b) (h : a + b - 1 < 2 ^ 32) : roundUp32 a b < a + b := by
  have hd := Nat.div_mul_le_self (a + b - 1) b
  rw [roundUp32, Nat.mod_eq_of_lt h]
  omega

structure Range where
  start : ℕ
  «end» : ℕ

def Range.fromStartAndSize (start size : ℕ) : Range := ⟨start, add32 start size⟩

def Range.size (r : Range) : ℕ := sub32 r.end r.start

def Range.Contains (r : Range) (ptr : ℕ) : Prop := r.start ≤ ptr ∧ ptr < r.end

instance (r : Range) (ptr : ℕ) : Decidable (r.Contains ptr) :=
  inferInstanceAs (Decidable (_ ∧ _))

namespace Areas

abbrev kernelVirtStartAddr : ℕ := 0xc0000000
abbrev physMemStartAddr : ℕ := 0xe0000000

def kernelArea : Range := ⟨kernelVirtStartAddr, 0xffffffff⟩
def kernelCode : Range := .fromStartAndSize kernelArea.start (16 * size1MB)
def peripherals : Range := .fromStartAndSize kernelCode.end (32 * size1MB)
def kernelHeap : Range := ⟨peripherals.end, physMemStartAddr⟩

end Areas

-- The error numbers of `syscalls.h` that the modelled functions return.
namespace Err

abbrev perm : ℤ := 1
abbrev noEnt : ℤ := 2
abbrev io : ℤ := 5
abbrev tooBig : ℤ := 7
abbrev noExec : ℤ := 8
abbrev badF : ℤ := 9
abbrev noMem : ℤ := 12
abbrev notDir : ℤ := 20
abbrev isDir : ℤ := 21
abbrev inval : ℤ := 22
abbrev nFile : ℤ := 23
abbrev roFs : ℤ := 30
abbrev timedOut : ℤ := 116
abbrev notSup : ℤ := 134

end Err

-- The events of `sys_poll`.
abbrev fPollIn : ℕ := 0x001
abbrev fPollOut : ℕ := 0x004

/-- How an execution of the kernel ends early: a failed `kassert` with the text of
its expression, a `panic` with its message, or a step C++ gives no meaning to. -/
inductive Panic where
  | assertion (expr : String)
  | message (text : String)
  | undefined (what : String)
deriving DecidableEq, Repr

def kassert (expr : String) (cond : Prop) [Decidable cond] : Except Panic Unit :=
  if cond then .ok () else .error (.assertion expr)

@[simp] lemma kassert_of {expr : String} {cond : Prop} [Decidable cond] (h : cond) :
    kassert expr cond = .ok () := if_pos h

lemma kassert_of_not {expr : String} {cond : Prop} [Decidable cond] (h : ¬ cond) :
    kassert expr cond = .error (.assertion expr) := if_neg h

/-- A guarded `panic`, or a step that has no meaning under the condition. -/
def panicIf (e : Panic) (cond : Prop) [Decidable cond] : Except Panic Unit :=
  if cond then .error e else .ok ()

section Bind

variable {α β : Type} {x : Except Panic α} {f : α → Except Panic β}

@[simp] lemma ok_bind (a : α) : (Except.ok a >>= f) = f a := rfl

@[simp] lemma error_bind (e : Panic) : ((Except.error e : Except Panic α) >>= f) = .error e := rfl

@[simp] lemma pure_eq_ok (a : α) : (pure a : Except Panic α) = .ok a := rfl

lemma bind_eq_ok {b : β} : (x >>= f) = .ok b ↔ ∃ a, x = .ok a ∧ f a = .ok b := by
  cases x with
  | error e => simp
  | ok a => simp

lemma exists_of_isOk (h : x.isOk = true) : ∃ a, x = .ok a := by
  cases x with
  | error e => cases h
  | ok a => exact ⟨a, rfl⟩

lemma kassert_bind_eq_ok {expr : String} {cond : Prop} [Decidable cond] {g : Unit → Except Panic β}
    {b : β} : (kassert expr cond >>= g) = .ok b ↔ cond ∧ g () = .ok b := by
  by_cases h : cond <;> simp [kassert, h]

lemma panicIf_bind_eq_ok {e : Panic} {cond : Prop} [Decidable cond] {g : Unit → Except Panic β}
    {b : β} : (panicIf e cond >>= g) = .ok b ↔ ¬ cond ∧ g () = .ok b := by
  by_cases h : cond <;> simp [panicIf, h]

end Bind

end Pi0Os.Kernel
