import Pi0Os.Library.Slice
import Pi0Os.Library.Tiling

/-! A program's writes to an indexed memory as a list of stores: what is read back after stores that do not overlap. -/

namespace Pi0Os.Library

structure Store (α : Type*) where
  addr : ℕ
  content : List α

def Span.Apart (s t : Span) : Prop := s.start + s.length ≤ t.start ∨ t.start + t.length ≤ s.start

/-- `s` lies between `lo` and `hi`. -/
def Span.Within (s : Span) (lo hi : ℕ) : Prop := lo ≤ s.start ∧ s.start + s.length ≤ hi

lemma Span.Apart.symm {s t : Span} (h : s.Apart t) : t.Apart s := Or.symm h

lemma Span.Within.mono {s : Span} {lo lo' hi hi' : ℕ} (h : s.Within lo hi) (hlo : lo' ≤ lo) (hhi : hi ≤ hi') :
    s.Within lo' hi' := ⟨hlo.trans h.1, h.2.trans hhi⟩

/-- Spans on both sides of an address. -/
lemma Span.Within.apart {s t : Span} {lo mid hi : ℕ} (hs : s.Within lo mid) (ht : t.Within mid hi) : s.Apart t :=
  .inl (hs.2.trans ht.1)

/-- Spans that lie apart between two addresses. -/
structure Span.Packed (l : List Span) (lo hi : ℕ) : Prop where
  apart : l.Pairwise Span.Apart
  within : ∀ s ∈ l, s.Within lo hi

/-- The first list lies above the second. -/
lemma Span.Packed.append {l l' : List Span} {lo mid hi : ℕ} (h : Span.Packed l mid hi) (h' : Span.Packed l' lo mid)
    (hlo : lo ≤ mid) (hhi : mid ≤ hi) : Span.Packed (l ++ l') lo hi := by
  refine ⟨List.pairwise_append.mpr ⟨h.apart, h'.apart, fun s hs t ht => ?_⟩, fun s hs => ?_⟩
  · exact ((h'.within t ht).apart (h.within s hs)).symm
  · rcases List.mem_append.mp hs with hs | hs
    · exact (h.within s hs).mono hlo le_rfl
    · exact (h'.within s hs).mono le_rfl hhi

lemma Span.Packed.singleton {s : Span} {lo hi : ℕ} (h : s.Within lo hi) : Span.Packed [s] lo hi :=
  ⟨List.pairwise_singleton _ _, List.forall_mem_singleton.mpr h⟩

lemma Span.Packed.cons {l : List Span} {a n lo mid hi : ℕ} (h : Span.Packed l lo mid) (hlo : lo ≤ mid) (ha : mid ≤ a)
    (hhi : a + n ≤ hi) : Span.Packed (⟨a, n⟩ :: l) lo hi :=
  (Span.Packed.singleton ⟨ha, hhi⟩).append h hlo ((ha.trans (Nat.le_add_right a n)).trans hhi)

lemma Span.Packed.nil {lo hi : ℕ} : Span.Packed [] lo hi := ⟨.nil, fun _ h => absurd h List.not_mem_nil⟩

variable {α : Type*} {m : ℕ → α} {s : Store α} {l l' : List (Store α)} {o n : ℕ}

abbrev Store.span (s : Store α) : Span := ⟨s.addr, s.content.length⟩

def applyStores (m : ℕ → α) (l : List (Store α)) : ℕ → α := l.foldl (fun m s => overwrite m s.addr s.content) m

lemma slice_applyStores_of_apart (h : ∀ s ∈ l, Span.Apart ⟨o, n⟩ s.span) :
    slice (applyStores m l) o n = slice m o n := by
  induction l generalizing m with
  | nil => rfl
  | cons s l ih =>
    have hs : Span.Apart ⟨o, n⟩ s.span := h s List.mem_cons_self
    exact (ih fun t ht => h t (List.mem_cons_of_mem s ht)).trans (slice_overwrite_of_disjoint hs)

/-- A store that no later one overlaps is read back. -/
lemma slice_applyStores (hl : (l.map Store.span).Pairwise Span.Apart) (hs : s ∈ l) :
    slice (applyStores m l) s.addr s.content.length = s.content := by
  induction l generalizing m with
  | nil => cases hs
  | cons t l ih =>
    obtain ⟨ht, hl⟩ := List.pairwise_cons.mp hl
    rcases List.mem_cons.mp hs with rfl | hs
    · have hrest : ∀ s' ∈ l, s.span.Apart s'.span := fun s' hs' => ht _ (List.mem_map_of_mem hs')
      exact (slice_applyStores_of_apart hrest).trans (slice_overwrite _ _ _)
    · exact ih hl hs

end Pi0Os.Library
