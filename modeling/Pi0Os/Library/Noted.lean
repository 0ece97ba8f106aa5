import Mathlib.Tactic.Common

/-! Computations that may fail and that note things as they run. What is noted before an error stays noted. -/

namespace Pi0Os.Library

@[ext]
structure Noted (ε ν α : Type) where
  result : Except ε α
  notes : List ν

namespace Noted

variable {ε ν α β : Type} {x : Noted ε ν α} {f : α → Noted ε ν β}

def bind (x : Noted ε ν α) (f : α → Noted ε ν β) : Noted ε ν β :=
  match x.result with
  | .ok a => ⟨(f a).result, x.notes ++ (f a).notes⟩
  | .error e => ⟨.error e, x.notes⟩

instance : Monad (Noted ε ν) where
  pure a := ⟨.ok a, []⟩
  bind := Noted.bind

instance : MonadLift (Except ε) (Noted ε ν) := ⟨fun x => ⟨x, []⟩⟩

def note (v : ν) : Noted ε ν Unit := ⟨.ok (), [v]⟩

@[simp] lemma result_pure (a : α) : (pure a : Noted ε ν α).result = .ok a := rfl

@[simp] lemma result_lift (y : Except ε α) : (liftM y : Noted ε ν α).result = y := rfl

/-- Without the notes, a sequence of computations is the sequence of their results. -/
@[simp] lemma result_bind : (x >>= f).result = x.result >>= fun a => (f a).result := by
  change (x.bind f).result = _
  rw [Noted.bind]
  cases x.result <;> rfl

lemma bind_eq_ok {b : β} {l : List ν} : x >>= f = ⟨.ok b, l⟩ ↔
    ∃ a l₁ l₂, x = ⟨.ok a, l₁⟩ ∧ f a = ⟨.ok b, l₂⟩ ∧ l = l₁ ++ l₂ := by
  change x.bind f = _ ↔ _
  obtain ⟨y, notes⟩ := x
  rw [Noted.bind]
  cases y with
  | error e =>
    constructor
    · intro h
      cases h
    · rintro ⟨a, l₁, l₂, ha, -⟩
      cases ha
  | ok a =>
    constructor
    · intro h
      obtain ⟨hresult, hnotes⟩ := mk.inj h
      exact ⟨a, notes, (f a).notes, rfl, by rw [← hresult], hnotes.symm⟩
    · rintro ⟨a', l₁, l₂, ha, hf, rfl⟩
      cases ha
      simp only [hf]

lemma pure_eq_ok {a b : α} {l : List ν} : (pure a : Noted ε ν α) = ⟨.ok b, l⟩ ↔ a = b ∧ l = [] := by
  constructor
  · intro h
    cases h
    exact ⟨rfl, rfl⟩
  · rintro ⟨rfl, rfl⟩
    rfl

lemma lift_eq_ok {y : Except ε α} {a : α} {l : List ν} :
    (liftM y : Noted ε ν α) = ⟨.ok a, l⟩ ↔ y = .ok a ∧ l = [] := by
  constructor
  · intro h
    obtain ⟨hresult, hnotes⟩ := mk.inj h
    exact ⟨hresult, hnotes.symm⟩
  · rintro ⟨rfl, rfl⟩
    rfl

/-- It notes nothing, and no result of it satisfies `Q`. -/
structure Stops (Q : α → Prop) (x : Noted ε ν α) : Prop where
  nothing : x.notes = []
  never : ∀ a, x.result = .ok a → ¬ Q a

namespace Stops

variable {Q : α → Prop} {R : β → Prop} {a : α} {y : Except ε α}

lemma pure (h : ¬ Q a) : Stops Q (Pure.pure a : Noted ε ν α) := by
  refine ⟨rfl, fun b hb => ?_⟩
  cases hb
  exact h

lemma lift_error {e : ε} : Stops Q (liftM (.error e : Except ε α) : Noted ε ν α) := ⟨rfl, fun _ h => by cases h⟩

lemma lift_bind (h : ∀ a, y = .ok a → Stops R (f a)) : Stops R (liftM y >>= f) := by
  cases y with
  | error e => exact ⟨rfl, fun _ h => by cases h⟩
  | ok a => exact h a rfl

end Stops

/-- It notes the list `l` from the start, and all of it if its result satisfies `Q`. -/
structure Follows (Q : α → Prop) (l : List ν) (x : Noted ε ν α) : Prop where
  start : x.notes <+: l
  all : ∀ a, x.result = .ok a → Q a → x.notes = l

namespace Follows

variable {Q : α → Prop} {R : β → Prop} {l l' : List ν} {a : α} {v : ν} {y : Except ε α}

lemma pure : Follows Q [] (Pure.pure a : Noted ε ν α) := ⟨List.prefix_refl [], fun _ _ _ => rfl⟩

lemma note {Q : Unit → Prop} : Follows Q [v] (note v : Noted ε ν Unit) := ⟨List.prefix_refl [v], fun _ _ _ => rfl⟩

lemma of_stops (h : Stops Q x) : Follows Q l x :=
  ⟨h.nothing ▸ List.nil_prefix, fun a ha hq => absurd hq (h.never a ha)⟩

lemma stop (h : ¬ Q a) : Follows Q l (Pure.pure a : Noted ε ν α) := .of_stops (.pure h)

lemma lift_bind (h : ∀ a, y = .ok a → Follows R l (f a)) : Follows R l (liftM y >>= f) := by
  cases y with
  | error e => exact ⟨List.nil_prefix, fun _ h => by cases h⟩
  | ok a => exact h a rfl

/-- What comes after a result that satisfies `Q` follows the rest of the list. After another one nothing is noted. -/
lemma bind (hx : Follows Q l x) (hf : ∀ a, x.result = .ok a → Q a → Follows R l' (f a))
    (hstop : ∀ a, x.result = .ok a → ¬ Q a → Stops R (f a)) :
    Follows R (l ++ l') (x >>= f) := by
  obtain ⟨y, notes⟩ := x
  cases y with
  | error e => exact ⟨hx.start.trans (List.prefix_append l l'), fun _ h => by cases h⟩
  | ok a =>
    have hstart : notes <+: l := hx.start
    by_cases hq : Q a
    · obtain rfl : notes = l := hx.all a rfl hq
      have hrest := hf a rfl hq
      refine ⟨(List.prefix_append_right_inj notes).mpr hrest.start, fun b hb hr => ?_⟩
      change notes ++ (f a).notes = _
      rw [hrest.all b hb hr]
    · obtain ⟨hnil, hno⟩ := hstop a rfl hq
      refine ⟨?_, fun b hb hr => absurd hr (hno b hb)⟩
      change notes ++ (f a).notes <+: l ++ l'
      rw [hnil, List.append_nil]
      exact hstart.trans (List.prefix_append l l')

lemma bind_all (hx : Follows (fun _ => True) l x) (hf : ∀ a, x.result = .ok a → Follows R l' (f a)) :
    Follows R (l ++ l') (x >>= f) :=
  hx.bind (fun a ha _ => hf a ha) fun _ _ h => absurd trivial h

end Follows

end Noted

end Pi0Os.Library
