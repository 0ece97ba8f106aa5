import Pi0Os.Library.Tiling
import Pi0Os.Memory.FreeLists

/-! The blocks of the allocator: the free lists and the blocks in use tile the pages
handed over at start-up. The bookkeeping here is about lists and blocks only; the
operations of the allocator are followed through it in the modules above. -/

namespace Pi0Os.Memory

open Kernel Library

/-- The number of 1KB pages in a block of the order. -/
def PageOrder.frames : PageOrder → ℕ
  | .kb1 => 1
  | .kb4 => 4
  | .kb16 => 16

lemma PageOrder.frames_pos (o : PageOrder) : 0 < o.frames := by cases o <;> decide

lemma order2PageSize_eq (o : PageOrder) : order2PageSize o = o.frames * size1KB := by
  cases o <;> rfl

lemma frames_of_smallerOrder {big small : PageOrder} (h : smallerOrder big = .ok small) :
    big.frames = 4 * small.frames ∧ big ≠ .kb1 := by
  cases big <;> cases small <;> simp_all [smallerOrder, PageOrder.frames]

@[ext] structure Block where
  head : ℕ
  order : PageOrder
deriving DecidableEq

def Block.span (b : Block) : Span := ⟨b.head, b.order.frames⟩

lemma Block.covers_head (b : Block) : b.span.Covers b.head :=
  ⟨le_rfl, Nat.lt_add_of_pos_right b.order.frames_pos⟩

def freeBlocks (free : PageOrder → List ℕ) : Multiset Block :=
  Multiset.ofList ((free .kb1).map (Block.mk · .kb1)) +
    Multiset.ofList ((free .kb4).map (Block.mk · .kb4)) +
    Multiset.ofList ((free .kb16).map (Block.mk · .kb16))

lemma mem_freeBlocks {free : PageOrder → List ℕ} {b : Block} :
    b ∈ freeBlocks free ↔ b.head ∈ free b.order := by
  obtain ⟨p, o⟩ := b
  cases o <;> simp [freeBlocks]

lemma freeBlocks_update_cons (free : PageOrder → List ℕ) (o : PageOrder) (p : ℕ) (l : List ℕ) :
    freeBlocks (Function.update free o (p :: l)) =
      ⟨p, o⟩ ::ₘ freeBlocks (Function.update free o l) := by
  cases o <;> simp [freeBlocks, ← Multiset.cons_coe, -Multiset.coe_add]

/-- The free blocks and the blocks `used` tile the pages from `first` to `limit`, each
at a multiple of its own size. -/
structure Tiled (first limit : ℕ) (free : PageOrder → List ℕ) (used : Multiset Block) : Prop where
  tiles : Tiles ((freeBlocks free + used).map Block.span) first limit
  aligned : ∀ b ∈ freeBlocks free + used, b.order.frames ∣ b.head

namespace Tiled

variable {first limit : ℕ} {free : PageOrder → List ℕ} {used : Multiset Block}
variable {p : ℕ} {o : PageOrder} {rest : List ℕ} {b c : Block}

lemma congr {free' : PageOrder → List ℕ} {used' : Multiset Block} (h : Tiled first limit free used)
    (he : freeBlocks free' + used' = freeBlocks free + used) : Tiled first limit free' used' :=
  ⟨he ▸ h.tiles, he ▸ h.aligned⟩

lemma inside (h : Tiled first limit free used) (hb : b ∈ freeBlocks free + used) {i : ℕ}
    (hi : b.span.Covers i) : first ≤ i ∧ i < limit := by
  obtain ⟨m, hm⟩ := Multiset.exists_cons_of_mem hb
  have ht := h.tiles
  rw [hm, Multiset.map_cons] at ht
  exact ht.inside hi

lemma head_mem (h : Tiled first limit free used) (hb : b ∈ freeBlocks free + used) :
    first ≤ b.head ∧ b.head < limit := h.inside hb b.covers_head

lemma end_le (h : Tiled first limit free used) (hb : b ∈ freeBlocks free + used) :
    b.head + b.order.frames ≤ limit := by
  have hp := b.order.frames_pos
  have hl : b.span.Covers (b.head + b.order.frames - 1) := by
    simp only [Span.Covers, Block.span]
    omega
  have hi := (h.inside hb hl).2
  omega

lemma disjoint (h : Tiled first limit free used) {m : Multiset Block}
    (hm : freeBlocks free + used = b ::ₘ c ::ₘ m) : b.span.Disjoint c.span := by
  have ht := h.tiles
  rw [hm, Multiset.map_cons, Multiset.map_cons] at ht
  exact ht.disjoint

lemma disjoint_free_used (h : Tiled first limit free used) (hb : b ∈ freeBlocks free) (hc : c ∈ used) :
    b.span.Disjoint c.span := by
  obtain ⟨l, hl⟩ := Multiset.exists_cons_of_mem hb
  obtain ⟨m, hm⟩ := Multiset.exists_cons_of_mem hc
  exact h.disjoint (m := l + m) (by rw [hl, hm, Multiset.cons_add, Multiset.add_cons])

lemma disjoint_used (h : Tiled first limit free used) (hb : b ∈ used) (hc : c ∈ used) (hne : b ≠ c) :
    b.span.Disjoint c.span := by
  obtain ⟨l, hl⟩ := Multiset.exists_cons_of_mem hb
  rw [hl] at hc
  obtain ⟨m, hm⟩ := Multiset.exists_cons_of_mem ((Multiset.mem_cons.mp hc).resolve_left (Ne.symm hne))
  exact h.disjoint (m := freeBlocks free + m) (by rw [hl, hm, Multiset.add_cons, Multiset.add_cons])

lemma disjoint_free (h : Tiled first limit free used) (hb : b ∈ freeBlocks free)
    (hc : c ∈ freeBlocks free) (hne : b ≠ c) : b.span.Disjoint c.span := by
  obtain ⟨l, hl⟩ := Multiset.exists_cons_of_mem hb
  rw [hl] at hc
  obtain ⟨m, hm⟩ := Multiset.exists_cons_of_mem ((Multiset.mem_cons.mp hc).resolve_left (Ne.symm hne))
  exact h.disjoint (m := m + used) (by rw [hl, hm, Multiset.cons_add, Multiset.cons_add])

lemma not_free (h : Tiled first limit free used) (hb : b ∈ used) (hp : b.span.Covers p) (o : PageOrder) :
    p ∉ free o := fun hm =>
  h.disjoint_free_used (b := ⟨p, o⟩) (mem_freeBlocks.mpr hm) hb p ⟨Block.covers_head _, hp⟩

lemma take (h : Tiled first limit free used) (hf : free o = p :: rest) :
    Tiled first limit (Function.update free o rest) (⟨p, o⟩ ::ₘ used) := by
  apply h.congr
  rw [Multiset.add_cons, ← Multiset.cons_add, ← freeBlocks_update_cons, ← hf, Function.update_eq_self]

lemma give (h : Tiled first limit free (⟨p, o⟩ ::ₘ used)) :
    Tiled first limit (Function.update free o (p :: free o)) used := by
  apply h.congr
  rw [freeBlocks_update_cons, Function.update_eq_self, Multiset.add_cons, Multiset.cons_add]

lemma split {big small : PageOrder} (h : Tiled first limit free (⟨p, big⟩ ::ₘ used))
    (hs : big.frames = 4 * small.frames) :
    Tiled first limit free (⟨p, small⟩ ::ₘ ⟨p + small.frames, small⟩ ::ₘ
      ⟨p + 2 * small.frames, small⟩ ::ₘ ⟨p + 3 * small.frames, small⟩ ::ₘ used) := by
  have hd : small.frames ∣ p := (Dvd.intro_left 4 hs.symm).trans (h.aligned ⟨p, big⟩ (by simp))
  constructor
  · have ht := h.tiles
    simp only [Multiset.add_cons, Multiset.map_cons, Block.span, hs] at ht ⊢
    exact ht.quarter
  · intro b hb
    have hold := h.aligned b
    simp only [Multiset.add_cons, Multiset.mem_cons] at hb hold
    rcases hb with rfl | rfl | rfl | rfl | hb
    · exact hd
    · exact Nat.dvd_add hd dvd_rfl
    · exact Nat.dvd_add hd (Dvd.intro_left 2 rfl)
    · exact Nat.dvd_add hd (Dvd.intro_left 3 rfl)
    · exact hold (Or.inr hb)

end Tiled

end Pi0Os.Memory
