import Mathlib.Logic.Function.Basic
import Mathlib.Data.List.Nodup

/-! Singly linked chains through a `next` pointer field: a head pointer reaches
exactly the nodes of a list, in order, before the null pointer. -/

namespace Pi0Os.Library

variable {α : Type*}

def Chain (next : α → Option α) : Option α → List α → Prop
  | h, [] => h = none
  | h, a :: l => h = some a ∧ Chain next (next a) l

namespace Chain

variable {next next' : α → Option α} {h : Option α} {a : α} {l m : List α}

@[simp] lemma nil_iff : Chain next h [] ↔ h = none := Iff.rfl

@[simp] lemma cons_iff : Chain next h (a :: l) ↔ h = some a ∧ Chain next (next a) l := Iff.rfl

lemma unique (hl : Chain next h l) (hm : Chain next h m) : l = m := by
  induction l generalizing h m with
  | nil =>
    cases m with
    | nil => rfl
    | cons b m => simp [nil_iff.mp hl] at hm
  | cons a l ih =>
    cases m with
    | nil => simp [nil_iff.mp hm] at hl
    | cons b m =>
      obtain ⟨rfl, hl⟩ := hl
      obtain ⟨hb, hm⟩ := hm
      obtain rfl := Option.some.inj hb
      rw [ih hl hm]

lemma frame (hl : Chain next h l) (he : ∀ b ∈ l, next' b = next b) : Chain next' h l := by
  induction l generalizing h with
  | nil => exact hl
  | cons a l ih =>
    refine ⟨hl.1, ?_⟩
    rw [he a List.mem_cons_self]
    exact ih hl.2 (fun b hb => he b (List.mem_cons_of_mem a hb))

lemma head_eq (hl : Chain next h l) : h = l.head? := by
  cases l with
  | nil => exact hl
  | cons a l => exact hl.1

lemma next_eq (hl : Chain next h (m ++ a :: l)) : next a = l.head? := by
  induction m generalizing h with
  | nil => exact hl.2.head_eq
  | cons b m ih => exact ih hl.2

variable [DecidableEq α]

lemma update_frame (hl : Chain next h l) (ha : a ∉ l) (p : Option α) :
    Chain (Function.update next a p) h l :=
  hl.frame (fun _ hb => Function.update_of_ne (ne_of_mem_of_not_mem hb ha) _ _)

lemma push (hl : Chain next h l) (ha : a ∉ l) : Chain (Function.update next a h) (some a) (a :: l) := by
  refine ⟨rfl, ?_⟩
  rw [Function.update_self]
  exact hl.update_frame ha _

/-- A new node behind `a`. -/
lemma insert {b : α} (hl : Chain next h (m ++ a :: l)) (hn : (m ++ a :: l).Nodup) (hb : b ∉ m ++ a :: l) :
    Chain (Function.update (Function.update next a (some b)) b l.head?) h (m ++ a :: b :: l) := by
  induction m generalizing h with
  | nil =>
    obtain ⟨ha, hl⟩ := hl
    obtain ⟨hal, -⟩ := List.nodup_cons.mp hn
    obtain ⟨hba, hbl⟩ := not_or.mp (mt List.mem_cons.mpr hb)
    refine ⟨ha, ?_, ?_⟩
    · rw [Function.update_of_ne (Ne.symm hba), Function.update_self]
    · rw [Function.update_self, ← hl.head_eq]
      apply update_frame
      · exact hl.update_frame hal _
      · exact hbl
  | cons c m ih =>
    obtain ⟨hc, hl⟩ := hl
    obtain ⟨hcm, hn⟩ := List.nodup_cons.mp hn
    obtain ⟨hbc, hbm⟩ := not_or.mp (mt List.mem_cons.mpr hb)
    have hca : c ≠ a := by
      rintro rfl
      exact hcm (List.mem_append_right _ List.mem_cons_self)
    refine ⟨hc, ?_⟩
    rw [Function.update_of_ne (Ne.symm hbc), Function.update_of_ne hca]
    exact ih hl hn hbm

end Chain

end Pi0Os.Library
