import Mathlib.Tactic

/-! What a run that may fail comes to, when one of the errors is only that it was not followed for long enough. -/

namespace Pi0Os.Library

variable {ε α β : Type} {bad : ε} {Q : α → Prop} {R : β → Prop} {x : Except ε α} {f : α → Except ε β}

/-- The run does not end in `bad`, and a result of it satisfies `Q`. -/
def Ends (bad : ε) (Q : α → Prop) : Except ε α → Prop
  | .ok a => Q a
  | .error e => e ≠ bad

lemma Ends.ok {a : α} (h : Q a) : Ends bad Q (.ok a) := h

lemma Ends.error {e : ε} (h : e ≠ bad) : Ends bad Q (.error e : Except ε α) := h

lemma Ends.bind (hx : Ends bad Q x) (hf : ∀ a, Q a → Ends bad R (f a)) : Ends bad R (x >>= f) := by
  cases x with
  | error e => exact hx
  | ok a => exact hf a hx

lemma Ends.bind_never (hx : Ends bad (fun _ => False) x) : Ends bad R (x >>= f) :=
  hx.bind fun _ h => h.elim

lemma Ends.mono {P : α → Prop} (hx : Ends bad P x) (h : ∀ a, P a → Q a) : Ends bad Q x := by
  cases x with
  | error e => exact hx
  | ok a => exact h a hx

lemma Ends.foldlM {γ : Type} {g : α → γ → Except ε α} (hg : ∀ a c, Q a → Ends bad Q (g a c)) {a : α} (ha : Q a)
    (l : List γ) : Ends bad Q (l.foldlM g a) := by
  induction l generalizing a with
  | nil => exact ha
  | cons c l ih => exact (hg a c ha).bind fun a' ha' => ih ha'

lemma Ends.exists_error (hx : Ends bad (fun _ => False) x) : ∃ e, e ≠ bad ∧ x = .error e := by
  cases x with
  | error e => exact ⟨e, hx, rfl⟩
  | ok a => exact hx.elim

end Pi0Os.Library
