import Mathlib.Tactic.Common

/-! Labelled transition systems: reachable states, runs all of whose steps meet a
condition, and the induction rule that carries an invariant along them. -/

namespace Pi0Os.Library

universe u v

structure TransitionSystem (σ : Type u) (ι : Type v) where
  Init : σ → Prop
  Step : σ → ι → σ → Prop

namespace TransitionSystem

variable {σ : Type u} {ι : Type v} (T : TransitionSystem σ ι)

inductive Reachable : σ → Prop
  | init {s} : T.Init s → Reachable s
  | step {s s' a} : Reachable s → T.Step s a s' → Reachable s'

/-- The runs of `T` to a state, with the state and the label of each step. -/
inductive Trace : List (σ × ι) → σ → Prop
  | init {s} : T.Init s → Trace [] s
  | step {run s s' a} : Trace run s → T.Step s a s' → Trace (run ++ [(s, a)]) s'

/-- The runs of `T` in which every step meets the condition `C` on the label and
the state before it. -/
def restrict (C : σ → ι → Prop) : TransitionSystem σ ι where
  Init := T.Init
  Step s a s' := T.Step s a s' ∧ C s a

/-- A predicate that holds initially and survives every step is an invariant. -/
def Inductive (I : σ → Prop) : Prop :=
  (∀ s, T.Init s → I s) ∧ ∀ s a s', I s → T.Step s a s' → I s'

variable {T}

lemma Trace.reachable {run : List (σ × ι)} {s : σ} (h : T.Trace run s) : T.Reachable s := by
  induction h with
  | init hi => exact .init hi
  | step _ ht ih => exact .step ih ht

lemma Reachable.invariant {I : σ → Prop} (h : T.Inductive I) {s : σ} (hs : T.Reachable s) : I s := by
  induction hs with
  | init hi => exact h.1 _ hi
  | step _ ht ih => exact h.2 _ _ _ ih ht

end TransitionSystem

end Pi0Os.Library
