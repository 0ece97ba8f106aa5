import Pi0Os.Memory.AddressSpaceTeardown
import Pi0Os.Memory.TableReturns

/-! What `vm_free` gives back: a reference to each frame for every mapping of it, each second-level table and the
first-level table, and nothing that is not in the tables of the address space. -/

namespace Pi0Os.Memory

open Kernel Library PageAllocator

/-- Pages without references are all that the free lists hold. -/
structure IdleLists (s : PageAllocator) (free : PageOrder → List ℕ) : Prop where
  links : Links s free
  nonneg : ∀ p, 0 ≤ s.refCount p
  idle : ∀ o, ∀ p ∈ free o, s.refCount p = 0

/-- The frees of `vm_free`, one after another. -/
def releaseAll (held : List Block) (s : PageAllocator) : Except Panic PageAllocator :=
  held.foldlM (fun s b => physicalPageFree b.head b.order s) s

section Release

variable {s s' : PageAllocator} {free : PageOrder → List ℕ} {p : ℕ} {o : PageOrder} {b : Block} {held : List Block}

lemma AllocatorInv.idleLists {first limit : ℕ} {live : Finset Block} (h : AllocatorInv first limit s free live) :
    IdleLists s free :=
  ⟨h.links, h.nonneg, fun o p hp => h.quiet ⟨p, o⟩ (mem_freeBlocks.mpr hp) p (Block.covers_head _)⟩

lemma physicalPageFree_ram (h : physicalPageFree p o s = .ok s') : s'.ramStart = s.ramStart ∧ s'.len = s.len := by
  obtain ⟨-, h⟩ := kassert_bind_eq_ok.mp h
  dsimp only at h
  split_ifs at h
  · have hsame := freePage_keepsCounts h
    exact ⟨hsame.ramStart, hsame.len⟩
  · cases h
    exact ⟨rfl, rfl⟩

/-- A page goes back to the list of its order with its last reference. -/
lemma IdleLists.free_page (h : IdleLists s free) (hpos : 0 < s.refCount p) (hd : o ≠ .kb16 → o.frames ∣ p) :
    ∃ s' free', physicalPageFree p o s = .ok s' ∧ IdleLists s' free' ∧
      s'.refCount = Function.update s.refCount p (s.refCount p - 1) ∧
      ∀ o' q, q ∈ free' o' ↔ q ∈ free o' ∨ (⟨q, o'⟩ : Block) = ⟨p, o⟩ ∧ s.refCount p = 1 := by
  have hused (o' : PageOrder) : p ∉ free o' := fun hm => by
    rw [h.idle o' p hm] at hpos
    exact lt_irrefl _ hpos
  have hnonneg (q : ℕ) : 0 ≤ Function.update s.refCount p (s.refCount p - 1) q := by
    by_cases hq : q = p
    · rw [hq, Function.update_self]
      omega
    · rw [Function.update_of_ne hq]
      exact h.nonneg q
  have hkept (o' : PageOrder) (q : ℕ) (hq : q ∈ free o') :
      Function.update s.refCount p (s.refCount p - 1) q = 0 := by
    rw [Function.update_of_ne (ne_of_mem_of_not_mem hq (hused o'))]
    exact h.idle o' q hq
  have hlinks : Links (s.setRefCount p (s.refCount p - 1)) free := h.links.congr (by simp) rfl
  by_cases hone : s.refCount p = 1
  · obtain ⟨s', happend, hlinks', hsame⟩ := hlinks.append hused o
    have hcount : s'.refCount = Function.update s.refCount p (s.refCount p - 1) := by
      rw [hsame.refCount, refCount_setRefCount]
    have hmem (o' : PageOrder) (q : ℕ) : q ∈ Function.update free o (p :: free o) o' ↔
        q ∈ free o' ∨ (⟨q, o'⟩ : Block) = ⟨p, o⟩ ∧ s.refCount p = 1 := by
      by_cases ho : o' = o
      · subst ho
        simp [hone, or_comm]
      · simp [ho]
    have hfree : freePage o p (s.setRefCount p (s.refCount p - 1)) = .ok s' := by
      by_cases ho : o = .kb16
      · rw [ho] at happend ⊢
        exact happend
      · rw [freePage_append (by rwa [refCount_setRefCount]) (hlinks.unlinked p hused) (hd ho), happend]
    have hok : physicalPageFree p o s = .ok s' := by
      rw [physicalPageFree, kassert_of hpos, ok_bind]
      dsimp only
      rw [if_pos (by rw [refCount_setRefCount, Function.update_self, hone]; rfl), hfree]
    refine ⟨s', _, hok, ⟨hlinks', fun q => hcount ▸ hnonneg q, fun o' q hq => ?_⟩, hcount, hmem⟩
    rw [hcount]
    rcases (hmem o' q).mp hq with hq | ⟨he, -⟩
    · exact hkept o' q hq
    · obtain ⟨rfl, -⟩ := Block.mk.inj he
      rw [Function.update_self, hone]
      rfl
  · refine ⟨s.setRefCount p (s.refCount p - 1), free, ?_, ⟨hlinks, ?_, ?_⟩, refCount_setRefCount .., fun o' q => ?_⟩
    · rw [physicalPageFree, kassert_of hpos, ok_bind]
      dsimp only
      rw [if_neg (by rw [refCount_setRefCount, Function.update_self]; omega)]
      rfl
    · rw [refCount_setRefCount]
      exact hnonneg
    · rw [refCount_setRefCount]
      exact hkept
    · simp [hone]

/-- The blocks `held` have been given back, each as often as it is in the list. -/
structure Released (held : List Block) (s s' : PageAllocator) (free free' : PageOrder → List ℕ) : Prop where
  lists : IdleLists s' free'
  refCount : ∀ p, s'.refCount p = s.refCount p - held.countP (·.head = p)
  listed : ∀ o p, p ∈ free' o ↔ p ∈ free o ∨ (⟨p, o⟩ : Block) ∈ held ∧ s'.refCount p = 0

lemma IdleLists.release (h : IdleLists s free) (hd : ∀ b ∈ held, b.order ≠ .kb16 → b.order.frames ∣ b.head)
    (hsize : ∀ b ∈ held, ∀ c ∈ held, b.head = c.head → b = c)
    (hcount : ∀ p, (held.countP (·.head = p) : ℤ) ≤ s.refCount p) :
    ∃ s' free', releaseAll held s = .ok s' ∧ Released held s s' free free' := by
  induction held generalizing s free with
  | nil => exact ⟨s, free, rfl, h, by simp, by simp⟩
  | cons b held ih =>
    obtain ⟨hdb, hd⟩ := List.forall_mem_cons.mp hd
    have hle : (held.countP (·.head = b.head) : ℤ) + 1 ≤ s.refCount b.head := by
      have hb := hcount b.head
      rw [List.countP_cons_of_pos (by simp)] at hb
      exact_mod_cast hb
    obtain ⟨s₁, free₁, hfree, h₁, hcount₁, hlisted₁⟩ := h.free_page (o := b.order) (by omega) hdb
    have hrest (p : ℕ) : s₁.refCount p - held.countP (·.head = p) = s.refCount p - (b :: held).countP (·.head = p) := by
      rw [hcount₁]
      by_cases hp : p = b.head
      · subst hp
        rw [Function.update_self, List.countP_cons_of_pos (by simp)]
        push_cast
        omega
      · rw [Function.update_of_ne hp, List.countP_cons_of_neg (by simpa using Ne.symm hp)]
    have hcount' (p : ℕ) : (held.countP (·.head = p) : ℤ) ≤ s₁.refCount p := by
      have hr := hrest p
      have hp := hcount p
      omega
    obtain ⟨s', free', hall, h', hcounts, hlisted⟩ := ih h₁ hd
      (fun c hc c' hc' => hsize c (List.mem_cons_of_mem _ hc) c' (List.mem_cons_of_mem _ hc')) hcount'
    refine ⟨s', free', ?_, h', fun p => (hcounts p).trans (hrest p), fun o p => ?_⟩
    · rw [releaseAll, List.foldlM_cons, hfree, ok_bind]
      exact hall
    · rw [hlisted, hlisted₁, List.mem_cons, or_assoc]
      refine or_congr_right ?_
      by_cases hb : (⟨p, o⟩ : Block) = b
      · subst hb
        have hzero : s'.refCount p = 0 ↔ s.refCount p = held.countP (·.head = p) + 1 := by
          rw [hcounts, hcount₁, Function.update_self]
          dsimp only
          omega
        have hle : (held.countP (·.head = p) : ℤ) + 1 ≤ s.refCount p := hle
        by_cases hm : (⟨p, o⟩ : Block) ∈ held
        · have hpos : 0 < held.countP (·.head = p) := List.countP_pos_iff.mpr ⟨_, hm, by simp⟩
          have hnot : s.refCount p = 1 → s'.refCount p = 0 := fun hone => by omega
          simpa [hm] using hnot
        · -- every block of the rest with this head would be this one
          have hnone : held.countP (·.head = p) = 0 := List.countP_eq_zero.mpr fun c hc he => hm
            (hsize _ (List.mem_cons_of_mem _ hc) _ List.mem_cons_self (by simpa using he) ▸ hc)
          rw [hzero, hnone]
          simp [hm]
      · simp only [hb, false_and, false_or]

end Release

/-- `addr2page` of an address of the array. -/
def pageOf (ramStart a : ℕ) : ℕ := (a - ramStart) / size1KB

/-- The frame that the entry `j` of a second-level table maps. -/
def frameIn (m : ℕ → ℕ) (t j : ℕ) : Option ℕ :=
  if m (t + 4 * j) = 0 then none else some (SmallPageEntry.baseAddress (m (t + 4 * j)))

def frameAt (m : ℕ → ℕ) (root i j : ℕ) : Option ℕ := (tableAt m root i).bind fun t => frameIn m t j

def frameBlocks (m : ℕ → ℕ) (ramStart t : ℕ) (js : List ℕ) : List Block :=
  js.filterMap fun j => (frameIn m t j).map fun f => ⟨pageOf ramStart f, .kb4⟩

/-- What `vm_free` gives back for a first-level entry, in its order. -/
def heldAt (m : ℕ → ℕ) (ramStart root i : ℕ) : List Block :=
  (tableAt m root i).elim [] fun t => frameBlocks m ramStart t (List.range lvl2Entries) ++ [⟨pageOf ramStart t, .kb1⟩]

/-- The cells that `vm_free` clears for a first-level entry. -/
def cellsAt (m : ℕ → ℕ) (root i : ℕ) : List ℕ :=
  (tableAt m root i).elim [] fun t => (List.range lvl2Entries).map (t + 4 * ·) ++ [root + 4 * i]

section Loops

variable {s s' : Vm} {pages : PageAllocator} {t root i : ℕ} {js is : List ℕ}

lemma releaseAll_append {held held' : List Block} {a c : PageAllocator} :
    releaseAll (held ++ held') a = .ok c ↔ ∃ b, releaseAll held a = .ok b ∧ releaseAll held' b = .ok c := by
  rw [releaseAll, List.foldlM_append]
  exact bind_eq_ok

lemma releaseAll_cons {b : Block} {held : List Block} {a c : PageAllocator} :
    releaseAll (b :: held) a = .ok c ↔ ∃ a', physicalPageFree b.head b.order a = .ok a' ∧
      releaseAll held a' = .ok c := by
  rw [releaseAll, List.foldlM_cons]
  exact bind_eq_ok

lemma releaseAll_ram {held : List Block} {a c : PageAllocator} (h : releaseAll held a = .ok c) :
    c.ramStart = a.ramStart ∧ c.len = a.len := by
  induction held generalizing a with
  | nil =>
    cases h
    exact ⟨rfl, rfl⟩
  | cons b held ih =>
    obtain ⟨a', hfree, h⟩ := releaseAll_cons.mp h
    obtain ⟨hr, hl⟩ := physicalPageFree_ram hfree
    obtain ⟨hr', hl'⟩ := ih h
    exact ⟨hr'.trans hr, hl'.trans hl⟩

lemma addr2page_congr {a c : PageAllocator} (hr : c.ramStart = a.ramStart) (hl : c.len = a.len) (addr : ℕ) :
    addr2page c addr = addr2page a addr := by
  simp only [addr2page, hr, hl]

lemma frameIn_of_ne (h : s.words (t + 4 * i) ≠ 0) :
    frameIn s.words t i = some (SmallPageEntry.baseAddress (s.words (t + 4 * i))) := if_neg h

lemma freeLvl2_release (hjs : js.Nodup)
    (hpage : ∀ j ∈ js, ∀ f, frameIn s.words t j = some f → addr2page s.pages f = .ok (pageOf s.pages.ramStart f))
    (hrel : releaseAll (frameBlocks s.words s.pages.ramStart t js) s.pages = .ok pages) :
    freeLvl2 t js s = .ok { s with pages := pages, words := setCells s.words 0 (js.map (t + 4 * ·)) } := by
  induction js generalizing s with
  | nil =>
    cases hrel
    rw [List.map_nil, setCells_nil]
    rfl
  | cons j js ih =>
    obtain ⟨hj, hjs⟩ := List.nodup_cons.mp hjs
    obtain ⟨hpj, hpage⟩ := List.forall_mem_cons.mp hpage
    rw [freeLvl2, List.map_cons, setCells_cons]
    dsimp only
    split_ifs with hz
    · have hsame : Function.update s.words (t + 4 * j) 0 = s.words := by rw [← hz, Function.update_eq_self]
      rw [hsame]
      refine ih hjs hpage ?_
      rwa [frameBlocks, List.filterMap_cons_none (by rw [frameIn, if_pos hz]; rfl)] at hrel
    · have hframe := frameIn_of_ne hz
      rw [frameBlocks, List.filterMap_cons_some (by rw [hframe]; rfl)] at hrel
      obtain ⟨pages₁, hfree, hrel⟩ := releaseAll_cons.mp hrel
      obtain ⟨hr, hl⟩ := physicalPageFree_ram hfree
      rw [hpj _ hframe, ok_bind, hfree, ok_bind]
      have hkept {j' : ℕ} (hj' : j' ∈ js) :
          frameIn (Function.update s.words (t + 4 * j) 0) t j' = frameIn s.words t j' := by
        have hne : j' ≠ j := ne_of_mem_of_not_mem hj' hj
        rw [frameIn, Function.update_of_ne (by omega), frameIn]
      have hblocks : frameBlocks (Function.update s.words (t + 4 * j) 0) pages₁.ramStart t js =
          frameBlocks s.words s.pages.ramStart t js := by
        rw [hr]
        exact List.filterMap_congr fun j' hj' => by rw [hkept hj']
      refine ih hjs (fun j' hj' f hf => ?_) (hblocks ▸ hrel)
      rw [Vm.store_words] at hf
      rw [Vm.store_pages, addr2page_congr hr hl, hr]
      exact hpage j' hj' f (hkept hj' ▸ hf)

lemma frameIn_congr {m m' : ℕ → ℕ} {j : ℕ} (h : m' (t + 4 * j) = m (t + 4 * j)) : frameIn m' t j = frameIn m t j := by
  rw [frameIn, h, frameIn]

/-- The first-level entry and its table are the same in both memories. -/
def SameTable (root : ℕ) (m m' : ℕ → ℕ) (i : ℕ) : Prop :=
  m' (root + 4 * i) = m (root + 4 * i) ∧
    ∀ t, tableAt m root i = some t → ∀ j < lvl2Entries, m' (t + 4 * j) = m (t + 4 * j)

namespace SameTable

variable {m m' : ℕ → ℕ}

lemma table (h : SameTable root m m' i) : tableAt m' root i = tableAt m root i := by rw [tableAt, h.1, tableAt]

lemma frame (h : SameTable root m m' i) {j : ℕ} (hj : j < lvl2Entries) : frameAt m' root i j = frameAt m root i j := by
  rw [frameAt, h.table, frameAt]
  cases ht : tableAt m root i with
  | none => rfl
  | some t => exact frameIn_congr (h.2 t ht j hj)

lemma held (h : SameTable root m m' i) (r : ℕ) : heldAt m' r root i = heldAt m r root i := by
  rw [heldAt, h.table, heldAt]
  cases ht : tableAt m root i with
  | none => rfl
  | some t =>
    refine congrArg (· ++ _) (List.filterMap_congr fun j hj => ?_)
    rw [frameIn_congr (h.2 t ht j (List.mem_range.mp hj))]

lemma cells (h : SameTable root m m' i) : cellsAt m' root i = cellsAt m root i := by rw [cellsAt, h.table, cellsAt]

end SameTable

lemma tableAt_cases {m : ℕ → ℕ} (h : m (root + 4 * i) = 0 ∨ isSection (m (root + 4 * i)) ∨
    isCoarsePage (m (root + 4 * i))) :
    ((m (root + 4 * i) = 0 ∨ isSection (m (root + 4 * i))) ∧ tableAt m root i = none) ∨
    ¬ (m (root + 4 * i) = 0 ∨ isSection (m (root + 4 * i))) ∧
      tableAt m root i = some (CoarsePageTableEntry.baseAddress (m (root + 4 * i))) := by
  rw [← or_assoc] at h
  rcases h with hskip | hc
  · refine .inl ⟨hskip, if_neg fun hc => ?_⟩
    rcases hskip with hz | hsec
    · exact ne_zero_of_isCoarsePage hc hz
    · exact not_isSection_of_isCoarsePage hc hsec
  · exact .inr ⟨not_or.mpr ⟨ne_zero_of_isCoarsePage hc, not_isSection_of_isCoarsePage hc⟩, if_pos hc⟩

/-- What `vm_free` relies on for the first-level entries `is`: the tables and the frames are pages of the array, and no
cell is that of two tables. -/
structure Freeable (s : Vm) (root : ℕ) (is : List ℕ) : Prop where
  entry : ∀ i ∈ is, s.words (root + 4 * i) = 0 ∨ isSection (s.words (root + 4 * i)) ∨
    isCoarsePage (s.words (root + 4 * i))
  table : ∀ i ∈ is, ∀ t, tableAt s.words root i = some t →
    phys2virt s t = .ok t ∧ addr2page s.pages t = .ok (pageOf s.pages.ramStart t)
  frame : ∀ i ∈ is, ∀ j < lvl2Entries, ∀ f, frameAt s.words root i j = some f →
    addr2page s.pages f = .ok (pageOf s.pages.ramStart f)
  apart : ∀ i ∈ is, ∀ t, tableAt s.words root i = some t → ∀ i' ∈ is, ∀ j < lvl2Entries, root + 4 * i' ≠ t + 4 * j
  inj : ∀ i ∈ is, ∀ t, tableAt s.words root i = some t → ∀ i' ∈ is, ∀ t', tableAt s.words root i' = some t' → i ≠ i' →
    ∀ j < lvl2Entries, ∀ j' < lvl2Entries, t + 4 * j ≠ t' + 4 * j'

lemma Freeable.tail (h : Freeable s root (i :: is)) (hram : s.SameRam s')
    (hsame : ∀ i' ∈ is, SameTable root s.words s'.words i') : Freeable s' root is := by
  have htable {i' t : ℕ} (hi' : i' ∈ is) (ht : tableAt s'.words root i' = some t) : tableAt s.words root i' = some t :=
    (hsame i' hi').table ▸ ht
  have hmem {i' : ℕ} (hi' : i' ∈ is) : i' ∈ i :: is := List.mem_cons_of_mem _ hi'
  refine ⟨fun i' hi' => ?_, fun i' hi' t ht => ?_, fun i' hi' j hj f hf => ?_,
    fun i' hi' t ht i'' hi'' => h.apart i' (hmem hi') t (htable hi' ht) i'' (hmem hi''),
    fun i' hi' t ht i'' hi'' t' ht' => h.inj i' (hmem hi') t (htable hi' ht) i'' (hmem hi'') t' (htable hi'' ht')⟩
  · rw [(hsame i' hi').1]
    exact h.entry i' (hmem hi')
  · rw [hram.phys2virt, addr2page_congr hram.ramStart hram.len, hram.ramStart]
    exact h.table i' (hmem hi') t (htable hi' ht)
  · rw [addr2page_congr hram.ramStart hram.len, hram.ramStart]
    exact h.frame i' (hmem hi') j hj f ((hsame i' hi').frame hj ▸ hf)

lemma freeLvl1_release (his : is.Nodup) (h : Freeable s root is)
    (hrel : releaseAll (is.flatMap (heldAt s.words s.pages.ramStart root)) s.pages = .ok pages) :
    freeLvl1 root is s =
      .ok { s with pages := pages, words := setCells s.words 0 (is.flatMap (cellsAt s.words root)) } := by
  induction is generalizing s with
  | nil =>
    cases hrel
    rw [List.flatMap_nil, setCells_nil]
    rfl
  | cons i is ih =>
    obtain ⟨hi, his⟩ := List.nodup_cons.mp his
    rw [List.flatMap_cons] at hrel
    rw [freeLvl1, List.flatMap_cons, setCells_append]
    dsimp only
    rcases tableAt_cases (h.entry i List.mem_cons_self) with ⟨hskip, hnone⟩ | ⟨hused, ht⟩
    · have hheld : heldAt s.words s.pages.ramStart root i = [] := by rw [heldAt, hnone]; rfl
      have hcells : cellsAt s.words root i = [] := by rw [cellsAt, hnone]; rfl
      rw [hheld, List.nil_append] at hrel
      rw [if_pos hskip, hcells, setCells_nil]
      exact ih his (h.tail (.refl s) fun _ _ => ⟨rfl, fun _ _ _ _ => rfl⟩) hrel
    · obtain ⟨hptr, hpage⟩ := h.table i List.mem_cons_self _ ht
      rw [if_neg hused, hpage, ok_bind, hptr, ok_bind]
      generalize CoarsePageTableEntry.baseAddress _ = t at *
      have hheld : heldAt s.words s.pages.ramStart root i = frameBlocks s.words s.pages.ramStart t
        (List.range lvl2Entries) ++
          [⟨pageOf s.pages.ramStart t, .kb1⟩] := by rw [heldAt, ht]; rfl
      have hcells : cellsAt s.words root i = (List.range lvl2Entries).map (t + 4 * ·) ++ [root + 4 * i] := by
        rw [cellsAt, ht]
        rfl
      rw [hheld, List.append_assoc, List.singleton_append] at hrel
      obtain ⟨pages₁, hframes, hrel⟩ := releaseAll_append.mp hrel
      obtain ⟨pages₂, hfree, hrel⟩ := releaseAll_cons.mp hrel
      have hlvl2 := freeLvl2_release List.nodup_range (fun j hj f hf => h.frame i List.mem_cons_self j
        (List.mem_range.mp hj) f (by rwa [frameAt, ht])) hframes
      rw [hlvl2, ok_bind]
      dsimp only
      rw [hfree, ok_bind]
      obtain ⟨hr₁, hl₁⟩ := releaseAll_ram hframes
      obtain ⟨hr₂, hl₂⟩ := physicalPageFree_ram hfree
      generalize hc : setCells s.words 0 (cellsAt s.words root i) = m at *
      have hstate : Vm.store { s with
          pages := pages₂
          words := setCells s.words 0 ((List.range lvl2Entries).map (t + 4 * ·)) } (root + 4 * i) 0 =
          { s with pages := pages₂, words := m } := by
        rw [← hc, hcells, setCells_append, setCells_cons, setCells_nil]
        rfl
      rw [hstate]
      have hram : s.SameRam { s with pages := pages₂, words := m } := ⟨hr₂.trans hr₁, hl₂.trans hl₁, rfl, rfl⟩
      have hsame : ∀ i' ∈ is, SameTable root s.words m i' := by
        intro i' hi'
        have hne : i ≠ i' := (ne_of_mem_of_not_mem hi' hi).symm
        have hmem := List.mem_cons_of_mem i hi'
        have hout {a : ℕ} (htable : ∀ j < lvl2Entries, a ≠ t + 4 * j) (hentry : a ≠ root + 4 * i) :
            m a = s.words a := by
          rw [← hc, hcells]
          refine setCells_of_notMem fun ha => ?_
          rcases List.mem_append.mp ha with ha | ha
          · obtain ⟨j, hj, rfl⟩ := List.mem_map.mp ha
            exact htable j (List.mem_range.mp hj) rfl
          · exact hentry (List.mem_singleton.mp ha)
        exact ⟨hout (h.apart i List.mem_cons_self t ht i' hmem) (by omega), fun t' ht' j' hj' =>
          hout (fun j hj => (h.inj i List.mem_cons_self t ht i' hmem t' ht' hne j hj j' hj').symm)
            (h.apart i' hmem t' ht' i List.mem_cons_self j' hj').symm⟩
      have hheld : is.flatMap (heldAt m pages₂.ramStart root) = is.flatMap (heldAt s.words s.pages.ramStart root) := by
        rw [hr₂, hr₁]
        exact List.flatMap_congr fun i' hi' => (hsame i' hi').held _
      have hcells : is.flatMap (cellsAt m root) = is.flatMap (cellsAt s.words root) :=
        List.flatMap_congr fun i' hi' => (hsame i' hi').cells
      rw [ih his (h.tail hram hsame) (hheld ▸ hrel), hcells]

end Loops

def Vm.tableOf (s : Vm) (as i : ℕ) : Option ℕ := tableAt s.words (pageAddr s.pages.ramStart as) i

def Vm.frameOf (s : Vm) (as i j : ℕ) : Option ℕ := frameAt s.words (pageAddr s.pages.ramStart as) i j

/-- How often the user half of an address space maps the frame at the page `q`. -/
def Vm.userMappings (s : Vm) (as q : ℕ) : ℕ :=
  ((List.range kernelStartIdx).map fun i =>
    (List.range lvl2Entries).countP fun j => s.frameOf as i j = some (pageAddr s.pages.ramStart q)).sum

/-- The first-level table, the second-level tables and the frames of the user half. -/
def Vm.Holds (s : Vm) (as : ℕ) : Block → Prop
  | ⟨q, .kb16⟩ => q = as
  | ⟨q, .kb1⟩ => ∃ i < kernelStartIdx, s.tableOf as i = some (pageAddr s.pages.ramStart q)
  | ⟨q, .kb4⟩ => ∃ i < kernelStartIdx, ∃ j < lvl2Entries, s.frameOf as i j = some (pageAddr s.pages.ramStart q)

/-- The frames are pages that have a reference for each of their mappings at least, and lie outside the tables. -/
structure Holding (s : Vm) (as : ℕ) : Prop where
  root : 0 < s.pages.refCount as
  frame : ∀ i < kernelStartIdx, ∀ j < lvl2Entries, ∀ f, s.frameOf as i j = some f →
    ∃ q < s.pages.len, f = pageAddr s.pages.ramStart q
  counted : ∀ q, s.Holds as ⟨q, .kb4⟩ → (s.userMappings as q : ℤ) ≤ s.pages.refCount q
  apart : ∀ q, s.Holds as ⟨q, .kb4⟩ → ∀ b, s.Holds as b → b.order ≠ .kb4 →
    Disjoint ((⟨q, .kb4⟩ : Block).bytes s.pages.ramStart) (b.bytes s.pages.ramStart)

/-- `vm_free` of an `AddressSpace` object, whose page is null once it has been freed. -/
def vmFreeObject (ttbr0 : Option ℕ) (s : Vm) : Except Panic (Option ℕ × Vm) :=
  match ttbr0 with
  | none => .ok (none, s)
  | some as => do return (none, ← vmFree s as)

/-- `vm_fork` with the object `out_forked` that it leaves. -/
def vmForkObject (s : Vm) (as outForked : ℕ) : Except Panic (Bool × Option ℕ × Vm) := do
  let srcLvl1 ← rootTablePtr s as
  let dstLvl1 ← rootTablePtr s outForked
  match ← forkLvl1 srcLvl1 dstLvl1 (List.range kernelStartIdx) s with
  | (true, s) => return (true, some outForked, s)
  | (false, s) => return (false, ← vmFreeObject (some outForked) s)

lemma vmForkObject_fork (s : Vm) (as outForked : ℕ) :
    (vmForkObject s as outForked).map (fun r => (r.1, r.2.2)) = vmFork s as outForked := by
  rw [vmForkObject, vmFork]
  cases rootTablePtr s as with
  | error e => rfl
  | ok src =>
    cases rootTablePtr s outForked with
    | error e => rfl
    | ok dst =>
      simp only [ok_bind]
      cases forkLvl1 src dst (List.range kernelStartIdx) s with
      | error e => rfl
      | ok r =>
        obtain ⟨done, s₁⟩ := r
        cases done with
        | true => rfl
        | false =>
          simp only [ok_bind, vmFreeObject]
          cases vmFree s₁ outForked <;> rfl

/-- What an address space held has been released and nothing else. -/
structure SpaceReleased (s s' : Vm) (as : ℕ) (roots : Set ℕ) : Prop where
  frames : ∀ q, ¬ s.Holds as ⟨q, .kb1⟩ → q ≠ as →
    s'.pages.refCount q = s.pages.refCount q - s.userMappings as q
  tables : ∀ q, s.Holds as ⟨q, .kb1⟩ ∨ q = as → s'.pages.refCount q = s.pages.refCount q - 1
  lists : ∀ free, Links s.pages free → ∃ free', IdleLists s'.pages free' ∧
    ∀ o q, q ∈ free' o ↔ q ∈ free o ∨ s.Holds as ⟨q, o⟩ ∧ s'.pages.refCount q = 0
  entries : ∀ p ∈ roots, ∀ i < lvl1Entries, p ≠ as ∨ kernelStartIdx ≤ i →
    SameTable (pageAddr s.pages.ramStart p) s.words s'.words i
  memory : ∀ a, (∀ b, s.Holds as b → b.order ≠ .kb4 → a ∉ b.bytes s.pages.ramStart) → s'.words a = s.words a
  contents : ∀ q, s.Holds as ⟨q, .kb4⟩ → Set.EqOn s'.words s.words ((⟨q, .kb4⟩ : Block).bytes s.pages.ramStart)

section Held

variable {s : Vm} {as q r root i : ℕ} {m : ℕ → ℕ}

lemma pageOf_pageAddr (r q : ℕ) : pageOf r (pageAddr r q) = q := by
  simp only [pageOf, pageAddr, size1KB]
  omega

lemma pageOf_eq_iff {a : ℕ} (h : ∃ p, a = pageAddr r p) : pageOf r a = q ↔ a = pageAddr r q := by
  obtain ⟨p, rfl⟩ := h
  rw [pageOf_pageAddr, (pageAddr_injective r).eq_iff]

lemma countP_heldAt (ht : ∀ t, tableAt m root i = some t → ∃ p, t = pageAddr r p)
    (hf : ∀ j < lvl2Entries, ∀ f, frameAt m root i j = some f → ∃ p, f = pageAddr r p) :
    (heldAt m r root i).countP (·.head = q) =
      ((List.range lvl2Entries).countP fun j => frameAt m root i j = some (pageAddr r q)) +
        if tableAt m root i = some (pageAddr r q) then 1 else 0 := by
  cases htable : tableAt m root i with
  | none => simp [heldAt, frameAt, htable]
  | some t =>
    have hheld : heldAt m r root i = frameBlocks m r t (List.range lvl2Entries) ++ [⟨pageOf r t, .kb1⟩] := by
      rw [heldAt, htable]
      rfl
    have hframe (j : ℕ) : frameAt m root i j = frameIn m t j := by rw [frameAt, htable]; rfl
    rw [hheld, List.countP_append, frameBlocks, List.countP_filterMap]
    congr 1
    · refine List.countP_congr fun j hj => ?_
      rw [hframe]
      cases hin : frameIn m t j with
      | none => simp
      | some f =>
        have hpage := pageOf_eq_iff (q := q) (hf j (List.mem_range.mp hj) f ((hframe j).trans hin))
        simp [hpage]
    · have hpage := pageOf_eq_iff (q := q) (ht t htable)
      simp [List.countP_cons, hpage]

end Held

def Vm.heldBlocks (s : Vm) (as : ℕ) : List Block :=
  (List.range kernelStartIdx).flatMap (heldAt s.words s.pages.ramStart (pageAddr s.pages.ramStart as)) ++ [⟨as, .kb16⟩]

section Space

variable {first limit as q i t : ℕ} {s : Vm} {live : Finset Block} {roots : Set ℕ} {b c : Block}

lemma lt_lvl1Entries (hi : i < kernelStartIdx) : i < lvl1Entries := hi.trans (by decide)

lemma MappedSpaces.userTable (h : MappedSpaces first limit s live roots) (has : as ∈ roots) (hi : i < kernelStartIdx)
    (ht : s.tableOf as i = some t) : ∃ q, (⟨q, .kb1⟩ : Block) ∈ live ∧ t = pageAddr s.pages.ramStart q :=
  (h.table as has i (lt_lvl1Entries hi) t ht).resolve_right fun hk => Nat.not_le.mpr hi hk.1

lemma MappedSpaces.mem_heldBlocks (h : MappedSpaces first limit s live roots) (has : as ∈ roots) (hh : Holding s as) :
    b ∈ s.heldBlocks as ↔ s.Holds as b := by
  obtain ⟨q, o⟩ := b
  have hframes {i t : ℕ} (hi : i < kernelStartIdx) (ht : s.tableOf as i = some t) :
      (⟨q, o⟩ : Block) ∈ frameBlocks s.words s.pages.ramStart t (List.range lvl2Entries) ↔
        o = .kb4 ∧ ∃ j < lvl2Entries, s.frameOf as i j = some (pageAddr s.pages.ramStart q) := by
    have hframe (j : ℕ) : s.frameOf as i j = frameIn s.words t j := by
      rw [Vm.frameOf, frameAt]
      exact congrArg (Option.bind · _) ht
    simp only [frameBlocks, List.mem_filterMap, List.mem_range, Option.map_eq_some_iff, hframe, Block.mk.injEq]
    constructor
    · rintro ⟨j, hj, f, hf, hq, ho⟩
      obtain ⟨p, -, rfl⟩ := hh.frame i hi j hj f ((hframe j).trans hf)
      rw [pageOf_pageAddr] at hq
      exact ⟨ho.symm, j, hj, hq ▸ hf⟩
    · rintro ⟨ho, j, hj, hf⟩
      exact ⟨j, hj, _, hf, pageOf_pageAddr _ _, ho.symm⟩
  have hheld (i : ℕ) (hi : i < kernelStartIdx) :
      (⟨q, o⟩ : Block) ∈ heldAt s.words s.pages.ramStart (pageAddr s.pages.ramStart as) i ↔
        o = .kb4 ∧ (∃ j < lvl2Entries, s.frameOf as i j = some (pageAddr s.pages.ramStart q)) ∨
          o = .kb1 ∧ s.tableOf as i = some (pageAddr s.pages.ramStart q) := by
    cases ht : s.tableOf as i with
    | none =>
      have hnone (j : ℕ) : s.frameOf as i j = none := by
        rw [Vm.frameOf, frameAt]
        exact congrArg (Option.bind · _) ht
      rw [heldAt, show tableAt s.words (pageAddr s.pages.ramStart as) i = none from ht]
      simp [hnone]
    | some t =>
      obtain ⟨p, -, rfl⟩ := h.userTable has hi ht
      rw [heldAt, show tableAt s.words (pageAddr s.pages.ramStart as) i = some _ from ht]
      simp only [Option.elim_some, List.mem_append, List.mem_singleton, hframes hi ht, Block.mk.injEq,
        pageOf_pageAddr, Option.some.injEq, (pageAddr_injective _).eq_iff]
      exact or_congr_right ⟨fun ⟨hq, ho⟩ => ⟨ho, hq.symm⟩, fun ⟨ho, hq⟩ => ⟨hq.symm, ho⟩⟩
  rw [Vm.heldBlocks, List.mem_append, List.mem_flatMap, List.mem_singleton]
  simp only [List.mem_range]
  rw [exists_congr fun i => and_congr_right (hheld i)]
  cases o <;> simp [Vm.Holds]

lemma MappedSpaces.held_one_size (h : MappedSpaces first limit s live roots) (has : as ∈ roots) (hh : Holding s as)
    (hb : s.Holds as b) (hc : s.Holds as c) (he : b.head = c.head) : b = c := by
  obtain ⟨q, o⟩ := b
  obtain ⟨q', o'⟩ := c
  obtain rfl : q = q' := he
  have hmem (o : PageOrder) : pageAddr s.pages.ramStart q ∈ (⟨q, o⟩ : Block).bytes s.pages.ramStart :=
    ⟨le_rfl, Nat.lt_add_of_pos_right (by cases o <;> exact Nat.succ_pos _)⟩
  have hframe {o : PageOrder} (hq : s.Holds as ⟨q, .kb4⟩) (ho : s.Holds as ⟨q, o⟩) : o = .kb4 := by
    by_contra hne
    exact Set.disjoint_left.mp (hh.apart q hq _ ho hne) (hmem _) (hmem _)
  have htable (ht : s.Holds as ⟨q, .kb1⟩) (hr : s.Holds as ⟨q, .kb16⟩) : False := by
    obtain ⟨i, hi, ht⟩ := ht
    obtain rfl : q = as := hr
    exact Set.disjoint_left.mp (h.spaces.table_apart _ (mem_roots has) i (lt_lvl1Entries hi) _ ht _ (mem_roots has))
      (hmem .kb16) (hmem .kb1)
  cases o <;> cases o'
  case kb1.kb1 => rfl
  case kb1.kb4 => exact absurd (hframe hc hb) (by decide)
  case kb1.kb16 => exact (htable hb hc).elim
  case kb4.kb1 => exact absurd (hframe hb hc) (by decide)
  case kb4.kb4 => rfl
  case kb4.kb16 => exact absurd (hframe hb hc) (by decide)
  case kb16.kb1 => exact (htable hc hb).elim
  case kb16.kb4 => exact absurd (hframe hc hb) (by decide)
  case kb16.kb16 => rfl

lemma MappedSpaces.held_page (h : MappedSpaces first limit s live roots) (has : as ∈ roots) {i t : ℕ}
    (hi : i < kernelStartIdx) (ht : tableAt s.words (pageAddr s.pages.ramStart as) i = some t) :
    ∃ q, t = pageAddr s.pages.ramStart q :=
  let ⟨q, _, he⟩ := h.userTable has hi ht
  ⟨q, he⟩

lemma MappedSpaces.countP_heldBlocks (h : MappedSpaces first limit s live roots) (has : as ∈ roots)
    (hh : Holding s as) :
    (s.heldBlocks as).countP (·.head = q) = s.userMappings as q +
      ((List.range kernelStartIdx).map fun i =>
        if s.tableOf as i = some (pageAddr s.pages.ramStart q) then 1 else 0).sum + if as = q then 1 else 0 := by
  have hsum : ((List.range kernelStartIdx).map fun i =>
      (heldAt s.words s.pages.ramStart (pageAddr s.pages.ramStart as) i).countP (·.head = q)).sum =
        s.userMappings as q + ((List.range kernelStartIdx).map fun i =>
          if s.tableOf as i = some (pageAddr s.pages.ramStart q) then 1 else 0).sum := by
    rw [Vm.userMappings, ← List.sum_map_add]
    refine congrArg List.sum (List.map_congr_left fun i hi => ?_)
    have hi := List.mem_range.mp hi
    exact countP_heldAt (fun t ht => h.held_page has hi ht) fun j hj f hf =>
      let ⟨p, _, he⟩ := hh.frame i hi j hj f hf
      ⟨p, he⟩
  rw [Vm.heldBlocks, List.countP_append, List.countP_flatMap]
  refine congrArg₂ (· + ·) hsum ?_
  simp [List.countP_cons]

lemma userMappings_eq_zero (hno : ¬ s.Holds as ⟨q, .kb4⟩) : s.userMappings as q = 0 := by
  refine List.sum_eq_zero fun n hn => ?_
  obtain ⟨i, hi, rfl⟩ := List.mem_map.mp hn
  refine List.countP_eq_zero.mpr fun j hj he => hno ?_
  exact ⟨i, List.mem_range.mp hi, j, List.mem_range.mp hj, of_decide_eq_true he⟩

/-- A page is the second-level table of one first-level entry at most. -/
lemma MappedSpaces.table_once (h : MappedSpaces first limit s live roots) (has : as ∈ roots) (hi : i < kernelStartIdx)
    (ht : s.tableOf as i = some t) :
    ((List.range kernelStartIdx).map fun i => if s.tableOf as i = some t then 1 else 0).sum = 1 := by
  have hother (i' : ℕ) (hne : i' ≠ i) (hi' : i' ∈ List.range kernelStartIdx) :
      (if s.tableOf as i' = some t then 1 else 0) = 0 := by
    refine if_neg fun ht' => hne ?_
    exact (h.spaces.table_inj _ (mem_roots has) i' (lt_lvl1Entries (List.mem_range.mp hi')) _ (mem_roots has) i
      (lt_lvl1Entries hi) t ht' ht).1
  rw [List.sum_map_eq_nsmul_single i _ hother, if_pos ht,
    List.count_eq_one_of_mem List.nodup_range (List.mem_range.mpr hi)]
  rfl

lemma MappedSpaces.freeable (h : MappedSpaces first limit s live roots) (has : as ∈ roots) (hh : Holding s as) :
    Freeable s (pageAddr s.pages.ramStart as) (List.range kernelStartIdx) := by
  have hlt {i : ℕ} (hi : i ∈ List.range kernelStartIdx) := lt_lvl1Entries (List.mem_range.mp hi)
  refine ⟨fun i hi => h.spaces.entry _ (mem_roots has) i (hlt hi),
    fun i hi t ht => ⟨h.tablePtr as has i (hlt hi) t ht, ?_⟩,
    fun i hi j hj f hf => ?_, fun i hi t ht i' hi' j hj => entry_ne_page
      (h.spaces.table_apart _ (mem_roots has) i (hlt hi) t ht _ (mem_roots has)) (hlt hi') hj,
    fun i hi t ht i' hi' t' ht' hne j hj j' hj' he => hne ?_⟩
  · obtain ⟨q, hq, rfl⟩ := h.userTable has (List.mem_range.mp hi) ht
    rw [h.blocks.addr2page_ok hq, pageOf_pageAddr]
  · obtain ⟨q, hq, rfl⟩ := hh.frame i (List.mem_range.mp hi) j hj f hf
    rw [addr2page_pageAddr hq, pageOf_pageAddr]
  · obtain ⟨rfl, -⟩ := page_eq (dvd_tableAt ht) (dvd_tableAt ht') hj hj' he
    exact (h.spaces.table_inj _ (mem_roots has) i (hlt hi) _ (mem_roots has) i' (hlt hi') t ht ht').1

lemma mem_cellsAt {m : ℕ → ℕ} {root a : ℕ} (ha : a ∈ cellsAt m root i) :
    ∃ t, tableAt m root i = some t ∧ ((∃ j < lvl2Entries, a = t + 4 * j) ∨ a = root + 4 * i) := by
  rw [cellsAt] at ha
  cases ht : tableAt m root i with
  | none =>
    rw [ht] at ha
    cases ha
  | some t =>
    rw [ht, Option.elim_some, List.mem_append, List.mem_map, List.mem_singleton] at ha
    refine ⟨t, rfl, ha.imp_left ?_⟩
    rintro ⟨j, hj, rfl⟩
    exact ⟨j, List.mem_range.mp hj, rfl⟩

/-- The memory after `vm_free`. -/
def Vm.freedWords (s : Vm) (as : ℕ) : ℕ → ℕ :=
  setCells s.words 0 ((List.range kernelStartIdx).flatMap (cellsAt s.words (pageAddr s.pages.ramStart as)))

lemma Vm.freedWords_eq {a : ℕ} (htable : ∀ i < kernelStartIdx, ∀ t, s.tableOf as i = some t →
    ∀ j < lvl2Entries, a ≠ t + 4 * j) (hentry : ∀ i < kernelStartIdx, a ≠ pageAddr s.pages.ramStart as + 4 * i) :
    s.freedWords as a = s.words a := by
  refine setCells_of_notMem fun ha => ?_
  obtain ⟨i, hi, ha⟩ := List.mem_flatMap.mp ha
  have hi := List.mem_range.mp hi
  obtain ⟨t, ht, ⟨j, hj, he⟩ | he⟩ := mem_cellsAt ha
  · exact htable i hi t ht j hj he
  · exact hentry i hi he

lemma MappedSpaces.freedWords_memory (h : MappedSpaces first limit s live roots) (has : as ∈ roots) {a : ℕ}
    (ha : ∀ b, s.Holds as b → b.order ≠ .kb4 → a ∉ b.bytes s.pages.ramStart) : s.freedWords as a = s.words a := by
  refine Vm.freedWords_eq (fun i hi t ht j hj he => ?_) fun i hi he => ?_
  · obtain ⟨q, -, rfl⟩ := h.userTable has hi ht
    refine ha ⟨q, .kb1⟩ ⟨i, hi, ht⟩ nofun ?_
    rw [he, bytes_kb1]
    exact mem_lvl2Bytes hj
  · refine ha ⟨as, .kb16⟩ rfl nofun ?_
    rw [he, bytes_kb16]
    exact mem_lvl1Bytes (lt_lvl1Entries hi)

lemma MappedSpaces.freedWords_sameTable (h : MappedSpaces first limit s live roots) (has : as ∈ roots) {p : ℕ}
    (hp : p ∈ roots) (hi : i < lvl1Entries) (hother : p ≠ as ∨ kernelStartIdx ≤ i) :
    SameTable (pageAddr s.pages.ramStart p) s.words (s.freedWords as) i := by
  have hapart {p i t : ℕ} (hp : p ∈ roots) (hi : i < lvl1Entries)
      (ht : tableAt s.words (pageAddr s.pages.ramStart p) i = some t) {p' : ℕ} (hp' : p' ∈ roots) :=
    h.spaces.table_apart _ (mem_roots hp) i hi t ht _ (mem_roots hp')
  refine ⟨Vm.freedWords_eq (fun i' hi' t ht j hj => entry_ne_page (hapart has (lt_lvl1Entries hi') ht hp) hi hj)
    fun i' hi' => ?_, fun t ht j hj => Vm.freedWords_eq (fun i' hi' t' ht' j' hj' he => ?_) fun i' hi' =>
      (entry_ne_page (hapart hp hi ht has) (lt_lvl1Entries hi') hj).symm⟩
  · refine h.spaces.entry_ne (mem_roots hp) (mem_roots has) hi (lt_lvl1Entries hi') ?_
    refine hother.imp (fun hne he => hne (pageAddr_injective _ he)) fun hk => ?_
    omega
  · obtain ⟨rfl, -⟩ := page_eq (dvd_tableAt ht) (dvd_tableAt ht') hj hj' he
    obtain ⟨rfl, hshared⟩ := h.spaces.table_inj _ (mem_roots hp) i hi _ (mem_roots has) i' (lt_lvl1Entries hi') t ht ht'
    rcases hshared with he | hk
    · exact hother.elim (fun hne => hne (pageAddr_injective _ he)) (Nat.not_le.mpr hi')
    · exact Nat.not_le.mpr hi' hk

lemma Links.unique {s : PageAllocator} {free free' : PageOrder → List ℕ} (h : Links s free) (h' : Links s free') :
    free = free' :=
  funext fun o => (h.chain o).unique (h'.chain o)

lemma MappedSpaces.vmFree_eq (h : MappedSpaces first limit s live roots) (has : as ∈ roots) (hh : Holding s as)
    {pages : PageAllocator} (hrel : releaseAll (s.heldBlocks as) s.pages = .ok pages) :
    vmFree s as = .ok { s with pages := pages, words := s.freedWords as } := by
  obtain ⟨pages₁, hrel₁, hrel⟩ := releaseAll_append.mp hrel
  obtain ⟨pages₂, hfree, hrel⟩ := releaseAll_cons.mp hrel
  obtain rfl := Except.ok.inj hrel
  rw [vmFree, h.rootPtr as has, ok_bind, freeLvl1_release List.nodup_range (h.freeable has hh) hrel₁, ok_bind]
  dsimp only
  rw [hfree]
  rfl

lemma MappedSpaces.vmFree_ok (h : MappedSpaces first limit s live roots) (has : as ∈ roots) (hh : Holding s as)
    {pages : PageAllocator} (hrel : releaseAll (s.heldBlocks as) s.pages = .ok pages) :
    ∃ s', vmFree s as = .ok s' ∧ s'.pages = pages ∧ s'.words = s.freedWords as :=
  ⟨_, h.vmFree_eq has hh hrel, rfl, by dsimp only⟩

lemma MappedSpaces.count_frame (h : MappedSpaces first limit s live roots) (has : as ∈ roots) (hh : Holding s as)
    (hno : ¬ s.Holds as ⟨q, .kb1⟩) (hne : q ≠ as) : (s.heldBlocks as).countP (·.head = q) = s.userMappings as q := by
  have hnone : ((List.range kernelStartIdx).map fun i =>
      if s.tableOf as i = some (pageAddr s.pages.ramStart q) then 1 else 0).sum = 0 := by
    refine List.sum_eq_zero fun n hn => ?_
    obtain ⟨i, hi, rfl⟩ := List.mem_map.mp hn
    exact if_neg fun ht => hno ⟨i, List.mem_range.mp hi, ht⟩
  have hroot : (if as = q then 1 else 0) = 0 := if_neg (Ne.symm hne)
  have hcount := h.countP_heldBlocks has hh (q := q)
  omega

lemma MappedSpaces.count_table (h : MappedSpaces first limit s live roots) (has : as ∈ roots) (hh : Holding s as)
    (hq : s.Holds as ⟨q, .kb1⟩ ∨ q = as) : (s.heldBlocks as).countP (·.head = q) = 1 := by
  have hone {o : PageOrder} (ho : s.Holds as ⟨q, o⟩) (o' : PageOrder) (hne : o' ≠ o) : ¬ s.Holds as ⟨q, o'⟩ :=
    fun ho' => hne (Block.mk.inj (h.held_one_size has hh ho' ho rfl)).2
  rw [h.countP_heldBlocks has hh]
  rcases hq with ht | rfl
  · have hroot : as ≠ q := fun he => hone ht .kb16 nofun he.symm
    have hnone := userMappings_eq_zero (hone ht .kb4 nofun)
    obtain ⟨i, hi, hti⟩ := ht
    rw [hnone, h.table_once has hi hti, if_neg hroot]
  · have hroot : s.Holds q ⟨q, .kb16⟩ := rfl
    have hnone : ((List.range kernelStartIdx).map fun i =>
        if s.tableOf q i = some (pageAddr s.pages.ramStart q) then 1 else 0).sum = 0 := by
      refine List.sum_eq_zero fun n hn => ?_
      obtain ⟨i, hi, rfl⟩ := List.mem_map.mp hn
      exact if_neg fun ht => hone hroot .kb1 nofun ⟨i, List.mem_range.mp hi, ht⟩
    rw [userMappings_eq_zero (hone hroot .kb4 nofun), hnone, if_pos rfl]

/-- A frame is 4KB aligned, and so is its page, as the RAM starts at a megabyte. -/
lemma MappedSpaces.held_aligned (h : MappedSpaces first limit s live roots) (hb : s.Holds as b)
    (ho : b.order ≠ .kb16) : b.order.frames ∣ b.head := by
  obtain ⟨q, o⟩ := b
  cases o with
  | kb1 => exact one_dvd _
  | kb16 => exact absurd rfl ho
  | kb4 =>
    obtain ⟨i, hi, j, hj, hf⟩ := hb
    have hram := h.blocks.ramAligned
    obtain ⟨t, -, hf⟩ := Option.bind_eq_some_iff.mp hf
    rw [frameIn] at hf
    split_ifs at hf
    have hf := Option.some.inj hf
    simp only [SmallPageEntry.baseAddress, pageAddr, size1KB, size1MB, PageOrder.frames] at *
    omega

lemma MappedSpaces.released (h : MappedSpaces first limit s live roots) (has : as ∈ roots) (hh : Holding s as)
    {free : PageOrder → List ℕ} (hlists : IdleLists s.pages free) : ∃ pages free',
    releaseAll (s.heldBlocks as) s.pages = .ok pages ∧ Released (s.heldBlocks as) s.pages pages free free' := by
  have hmem {b : Block} := h.mem_heldBlocks has hh (b := b)
  refine hlists.release (fun b hb ho => h.held_aligned (hmem.mp hb) ho)
    (fun b hb c hc he => h.held_one_size has hh (hmem.mp hb) (hmem.mp hc) he) fun q => ?_
  by_cases hq : s.Holds as ⟨q, .kb1⟩ ∨ q = as
  · rw [h.count_table has hh hq]
    have hpos : 0 < s.pages.refCount q := by
      rcases hq with ⟨i, hi, ht⟩ | rfl
      · obtain ⟨p, hp, he⟩ := h.userTable has hi ht
        rw [pageAddr_injective _ he]
        exact h.blocks.counted hp
      · exact hh.root
    exact hpos
  · obtain ⟨hno, hne⟩ := not_or.mp hq
    rw [h.count_frame has hh hno hne]
    by_cases hf : s.Holds as ⟨q, .kb4⟩
    · exact hh.counted q hf
    · rw [userMappings_eq_zero hf]
      exact hlists.nonneg q

/-- `vm_free` gives back what the address space holds, and the object that it is called with is empty afterwards, also
where `vm_fork` has called it. -/
theorem vmFree_releases (h : MappedSpaces first limit s live roots) (has : as ∈ roots) (hh : Holding s as) :
    (∃ obj s', vmFreeObject (some as) s = .ok (obj, s') ∧ SpaceReleased s s' as roots ∧
      vmFreeObject obj s' = .ok (obj, s')) ∧
    ∀ src c obj c', vmForkObject c src as = .ok (false, obj, c') → vmFreeObject obj c' = .ok (obj, c') := by
  obtain ⟨free, hinv⟩ := h.blocks.inv
  obtain ⟨pages, free', hrel, hlists, hcounts, hlisted⟩ := h.released has hh hinv.idleLists
  obtain ⟨s', hok, rfl, hwords⟩ := h.vmFree_ok has hh hrel
  refine ⟨⟨none, s', ?_, ⟨fun q hno hne => ?_, fun q hq => ?_, fun free₀ hlinks => ⟨free', hlists, fun o q => ?_⟩,
    fun p hp i hi hother => ?_, fun a ha => ?_, fun q hq a ha => ?_⟩, rfl⟩, fun src c obj c' hfork => ?_⟩
  · rw [vmFreeObject, hok]
    rfl
  · rw [← h.count_frame has hh hno hne]
    exact hcounts q
  · have hcount := hcounts q
    rwa [h.count_table has hh hq] at hcount
  · rw [hlinks.unique hinv.links, hlisted, h.mem_heldBlocks has hh]
  · rw [hwords]
    exact h.freedWords_sameTable has hp hi hother
  · rw [hwords]
    exact h.freedWords_memory has ha
  · rw [hwords]
    exact h.freedWords_memory has fun b hb ho => Set.disjoint_left.mp (hh.apart q hq b hb ho) ha
  · obtain ⟨srcLvl1, -, hfork⟩ := bind_eq_ok.mp hfork
    obtain ⟨dstLvl1, -, hfork⟩ := bind_eq_ok.mp hfork
    obtain ⟨⟨done, c₁⟩, -, hfork⟩ := bind_eq_ok.mp hfork
    cases done with
    | true => cases hfork
    | false =>
      obtain ⟨⟨obj', c₂⟩, hfree, he⟩ := bind_eq_ok.mp hfork
      obtain ⟨-, rfl, rfl⟩ : false = false ∧ obj' = obj ∧ c₂ = c' := by simpa using he
      obtain ⟨c₃, -, he⟩ := bind_eq_ok.mp hfree
      obtain ⟨rfl, rfl⟩ := Prod.mk.inj (Except.ok.inj he)
      rfl

end Space

section SmallBoard

/-- The words of a board whose address space at page 16 maps page 44, with its table at page 43. -/
def oneTableWords : ℕ → ℕ :=
  newTableWords (fun _ => 0) 0x40004004 0x4000ac00 0 (SmallPageEntry.makeEntry 0x4000b000 .userFullAccess)

def smallAllocs : Except Panic (Option ℕ × Option ℕ) := do
  let pages ← physicalPageAllocatorInit smallBoot
  let (frame, pages) ← physicalPageAlloc .kb4 (pages.setRefCount 16 1)
  let (table, _) ← physicalPageAlloc .kb1 pages
  return (frame, table)

lemma smallAllocs_eq : smallAllocs = .ok (some 44, some 43) := by decide +kernel

lemma oneTableWords_ne_zero {a : ℕ} (h : oneTableWords a ≠ 0) : a = 0x4000ac00 ∨ a = 0x40004004 := by
  by_contra hne
  obtain ⟨hpage, hentry⟩ := not_or.mp hne
  refine h ?_
  rw [oneTableWords, newTableWords, Function.update_of_ne hpage, fill]
  split_ifs
  · rfl
  · rw [Function.update_of_ne hentry]

lemma oneTable_tableAt {i t : ℕ} (hi : i < kernelStartIdx) (ht : tableAt oneTableWords 0x40004000 i = some t) :
    i = 1 ∧ t = 0x4000ac00 := by
  have hne := ne_zero_of_isCoarsePage (tableAt_eq_some.mp ht).1
  have hi : i = 1 := by
    have ha := oneTableWords_ne_zero hne
    simp only [kernelStartIdx] at hi
    omega
  subst hi
  exact ⟨rfl, (tableAt_eq_some.mp ht).2.symm.trans (by decide +kernel)⟩

lemma oneTable_frameAt {i j : ℕ} (hi : i < kernelStartIdx) (hj : j < lvl2Entries) {f : ℕ} :
    frameAt oneTableWords 0x40004000 i j = some f ↔ i = 1 ∧ j = 0 ∧ f = 0x4000b000 := by
  have hone : frameAt oneTableWords 0x40004000 1 0 = some 0x4000b000 := by decide +kernel
  refine ⟨fun hf => ?_, fun ⟨hi, hj, hf⟩ => hi ▸ hj ▸ hf ▸ hone⟩
  obtain ⟨t, ht, hframe⟩ := Option.bind_eq_some_iff.mp hf
  obtain ⟨rfl, rfl⟩ := oneTable_tableAt hi ht
  have hj : j = 0 := by
    by_contra hne
    rw [frameIn, if_pos] at hframe
    · cases hframe
    · exact (newTableWords_page hj).trans (if_neg hne)
  subst hj
  rw [hone] at hf
  exact ⟨rfl, rfl, (Option.some.inj hf).symm⟩

/-- The board that the two allocations and a `vm_map` give. -/
lemma oneTable_mapped : ∃ live s, MappedSpaces 32 256 s live {0, 16} ∧ s.words = oneTableWords ∧
    s.pages.ramStart = 0x40000000 ∧ s.pages.len = 256 ∧ s.pages.refCount 16 = 1 ∧ s.pages.refCount 44 = 1 := by
  obtain ⟨pages₀, hinit, hallocs⟩ := bind_eq_ok.mp smallAllocs_eq
  obtain ⟨⟨frame, pages₁⟩, hframe, hallocs⟩ := bind_eq_ok.mp hallocs
  obtain ⟨⟨table, pages₂⟩, htable, hallocs⟩ := bind_eq_ok.mp hallocs
  obtain ⟨rfl, rfl⟩ := Prod.mk.inj (Except.ok.inj hallocs)
  obtain ⟨pages, free, hinit', hinv, hram, hlen, -⟩ := physicalPageAllocatorInit_spec smallBoot_valid
  obtain rfl := Except.ok.inj (hinit.symm.trans hinit')
  have hram : pages₀.ramStart = 0x40000000 := hram
  have hlen : pages₀.len = 256 := hlen.trans (by decide)
  have haligned : size1MB ∣ pages₀.ramStart := by
    rw [hram]
    decide
  have hblocks : Blocks 32 256 (pages₀.setRefCount 16 1) ∅ :=
    ⟨⟨free, hinv.recount (by decide) (.inr (by decide))⟩, haligned⟩
  have hsame := hblocks.alloc_sameRam (s := ⟨_, smallBoot.ramSize, fun _ => 0, 0⟩) hframe (fun _ => 0)
  have hram₁ : pages₁.ramStart = 0x40000000 := hsame.ramStart.trans hram
  have hlen₁ : pages₁.len = 256 := hsame.len.trans hlen
  have hnew := hblocks.alloc hframe
  have hboard := emptyBoard_spaces hnew.blocks hram₁ hlen₁
  have hsame₂ := hnew.blocks.alloc_sameRam (s := emptyBoard pages₁) htable oneTableWords
  have ha : page2addr pages₁ 44 = .ok 0x4000b000 := by simp [page2addr, kassert, hram₁, hlen₁, add32, size1KB]
  have hmap : vmMap (emptyBoard pages₁) 16 44 0x100000 .userFullAccess = .ok _ :=
    vmMap_newTable hboard (.inr rfl) (by decide) rfl ha htable
  have hwords : newTableWords (emptyBoard pages₁).words (pageAddr (emptyBoard pages₁).pages.ramStart 16 +
      4 * lvl1Index 0x100000) (pageAddr (emptyBoard pages₁).pages.ramStart 43) (lvl2Index 0x100000)
      (SmallPageEntry.makeEntry 0x4000b000 .userFullAccess) = oneTableWords := by
    rw [show (emptyBoard pages₁).pages.ramStart = 0x40000000 from hram₁]
    rfl
  rw [hwords] at hmap
  obtain ⟨-, live, hmapped⟩ := hboard.mapsPage (.inr rfl) (by decide) (by decide) hmap ha (by decide)
  refine ⟨live, _, hmapped, rfl, hsame₂.ramStart.trans hram₁, hsame₂.len.trans hlen₁, ?_, ?_⟩
  · change pages₂.refCount 16 = 1
    rw [(hnew.blocks.alloc htable).refCount, Function.update_of_ne (by decide), hnew.refCount,
      Function.update_of_ne (by decide), refCount_setRefCount, Function.update_self]
  · change pages₂.refCount 44 = 1
    rw [(hnew.blocks.alloc htable).refCount, Function.update_of_ne (by decide), hnew.refCount, Function.update_self]

lemma oneTable_holding {s : Vm} (hwords : s.words = oneTableWords) (hram : s.pages.ramStart = 0x40000000)
    (hlen : s.pages.len = 256) (hroot : s.pages.refCount 16 = 1) (hframe : s.pages.refCount 44 = 1) :
    Holding s 16 ∧ s.userMappings 16 44 = 1 := by
  have hframeOf {i j : ℕ} (hi : i < kernelStartIdx) (hj : j < lvl2Entries) {f : ℕ} :
      s.frameOf 16 i j = some f ↔ i = 1 ∧ j = 0 ∧ f = 0x4000b000 := by
    rw [Vm.frameOf, hwords, hram]
    exact oneTable_frameAt hi hj
  have hpage {q : ℕ} : pageAddr s.pages.ramStart q = 0x4000b000 ↔ q = 44 := by
    rw [hram, pageAddr, size1KB]
    omega
  have hmappings : s.userMappings 16 44 = 1 := by
    have hzero (i : ℕ) (hne : i ≠ 1) (hi : i ∈ List.range kernelStartIdx) : ((List.range lvl2Entries).countP fun j =>
        s.frameOf 16 i j = some (pageAddr s.pages.ramStart 44)) = 0 := by
      refine List.countP_eq_zero.mpr fun j hj hf => hne ?_
      exact ((hframeOf (List.mem_range.mp hi) (List.mem_range.mp hj)).mp (of_decide_eq_true hf)).1
    have hone : ((List.range lvl2Entries).countP fun j =>
        s.frameOf 16 1 j = some (pageAddr s.pages.ramStart 44)) = (List.range lvl2Entries).count 0 := by
      refine List.countP_congr fun j hj => ?_
      rw [decide_eq_true_iff, hframeOf (by decide) (List.mem_range.mp hj), beq_iff_eq]
      exact ⟨fun hf => hf.2.1, fun hj => ⟨rfl, hj, hpage.mpr rfl⟩⟩
    rw [Vm.userMappings, List.sum_map_eq_nsmul_single 1 _ hzero, hone,
      List.count_eq_one_of_mem List.nodup_range (List.mem_range.mpr (by decide)),
      List.count_eq_one_of_mem List.nodup_range (List.mem_range.mpr (by decide))]
    rfl
  have hheld {q : ℕ} (hq : s.Holds 16 ⟨q, .kb4⟩) : q = 44 := by
    obtain ⟨i, hi, j, hj, hf⟩ := hq
    exact hpage.mp ((hframeOf hi hj).mp hf).2.2
  refine ⟨⟨by rw [hroot]; decide, fun i hi j hj f hf => ⟨44, by rw [hlen]; decide, ?_⟩, fun q hq => ?_,
    fun q hq b hb ho => ?_⟩, hmappings⟩
  · rw [((hframeOf hi hj).mp hf).2.2, hpage.mpr rfl]
  · rw [hheld hq, hmappings, hframe]
    rfl
  · rw [hheld hq, hram]
    have htable {i t : ℕ} (hi : i < kernelStartIdx) (ht : s.tableOf 16 i = some t) : t = 0x4000ac00 := by
      rw [Vm.tableOf, hwords, hram] at ht
      exact (oneTable_tableAt hi ht).2
    obtain ⟨p, o⟩ := b
    refine Set.disjoint_left.mpr fun a ha ha' => ?_
    cases o with
    | kb4 => exact ho rfl
    | kb1 =>
      obtain ⟨i, hi, ht⟩ := hb
      have hp := htable hi ht
      rw [hram] at hp
      simp only [Block.bytes, Set.mem_Ico, pageAddr, order2PageSize, size1KB, size4KB] at ha ha' hp
      omega
    | kb16 =>
      obtain rfl : p = 16 := hb
      simp only [Block.bytes, Set.mem_Ico, pageAddr, order2PageSize, size1KB, size4KB, size16KB] at ha ha'
      omega

theorem vmFree_releases_small : ∃ s obj s', s.userMappings 16 44 = 1 ∧ vmFreeObject (some 16) s = .ok (obj, s') ∧
    SpaceReleased s s' 16 {0, 16} ∧ vmFreeObject obj s' = .ok (obj, s') := by
  obtain ⟨live, s, hmapped, hwords, hram, hlen, hroot, hframe⟩ := oneTable_mapped
  obtain ⟨hholding, hmappings⟩ := oneTable_holding hwords hram hlen hroot hframe
  obtain ⟨⟨obj, s', hok, hreleased, hagain⟩, -⟩ := vmFree_releases hmapped (.inr rfl) hholding
  exact ⟨s, obj, s', hmappings, hok, hreleased, hagain⟩

end SmallBoard

end Pi0Os.Memory
