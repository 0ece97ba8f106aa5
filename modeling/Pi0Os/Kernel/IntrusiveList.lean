import Pi0Os.Kernel.Base
import Pi0Os.Library.LinkedChain

/-! The lists of `intrusivelinkedlist.h`: the links are fields of the nodes, which are named by
their addresses. -/

namespace Pi0Os.Kernel

open Library

structure IntrusiveLinkedList where
  head : Option ℕ
  tail : Option ℕ
  prev : ℕ → Option ℕ
  next : ℕ → Option ℕ

namespace IntrusiveLinkedList

variable (l : IntrusiveLinkedList) (node : ℕ)

def deadNode : Panic := .undefined "a node that is gone"

/-- `find_first`. The walk touches the nodes up to the one found, which have to be alive; no more
than `fuel` of them are. -/
def findFirst (alive filter : ℕ → Bool) : ℕ → Option ℕ → Except Panic (Option ℕ)
  | _, none => .ok none
  | 0, some _ => .error deadNode
  | fuel + 1, some node => do
    panicIf deadNode (¬ alive node)
    if filter node then return some node
    findFirst alive filter fuel (l.next node)

def remove : IntrusiveLinkedList :=
  match l.prev node, l.next node with
  | none, none => { l with head := none, tail := none }
  | none, some next => { l with head := some next, prev := Function.update l.prev next none }
  | some prev, none => { l with tail := some prev, next := Function.update l.next prev none }
  | some prev, some next =>
    { l with
      next := Function.update l.next prev (some next)
      prev := Function.update l.prev next (some prev) }

def add : IntrusiveLinkedList :=
  let prev := Function.update l.prev node none
  { head := some node
    tail := if l.tail = none then some node else l.tail
    prev := match l.head with
      | none => prev
      | some head => Function.update prev head (some node)
    next := Function.update l.next node l.head }

/-- `foreach`: the node behind the current one is read before `func` runs, which is told how many nodes came before. -/
def foreach {σ : Type} (links : σ → IntrusiveLinkedList) (alive : σ → ℕ → Bool)
    (func : ℕ → σ → ℕ → Except Panic σ) : ℕ → ℕ → σ → Option ℕ → Except Panic σ
  | _, _, s, none => .ok s
  | 0, _, _, some _ => .error deadNode
  | fuel + 1, i, s, some current => do
    panicIf deadNode (¬ alive s current)
    let next := (links s).next current
    let s ← func i s current
    foreach links alive func fuel (i + 1) s next

/-- What `foreach` keeps, told of the nodes that it has not come to. -/
lemma foreach_rule {σ : Type} {links : σ → IntrusiveLinkedList} {alive : σ → ℕ → Bool}
    {func : ℕ → σ → ℕ → Except Panic σ} {I : σ → List ℕ → Prop} {E : Panic → Prop}
    (hnode : ∀ s n unseen, I s (n :: unseen) → alive s n = true ∧ (links s).next n = unseen.head?)
    (hstep : ∀ i s n unseen, I s (n :: unseen) →
      (∃ s', func i s n = .ok s' ∧ I s' unseen) ∨ ∃ e, func i s n = .error e ∧ E e)
    {unseen : List ℕ} {fuel : ℕ} (hfuel : unseen.length ≤ fuel) {s : σ} (h : I s unseen) (i : ℕ) :
    (∃ s', foreach links alive func fuel i s unseen.head? = .ok s' ∧ I s' []) ∨
      ∃ e, foreach links alive func fuel i s unseen.head? = .error e ∧ E e := by
  induction unseen generalizing fuel s i with
  | nil => exact .inl ⟨s, by cases fuel <;> rfl, h⟩
  | cons n unseen ih =>
    obtain ⟨fuel, rfl⟩ : ∃ k, fuel = k + 1 := ⟨fuel - 1, by simp at hfuel; omega⟩
    obtain ⟨halive, hnext⟩ := hnode s n unseen h
    have hrun : foreach links alive func (fuel + 1) i s (n :: unseen).head? =
        (func i s n >>= fun s => foreach links alive func fuel (i + 1) s unseen.head?) := by
      rw [List.head?_cons, foreach, panicIf, if_neg (not_not_intro halive), ok_bind, hnext]
    rw [hrun]
    rcases hstep i s n unseen h with ⟨s', hs', h'⟩ | ⟨e, he, hE⟩
    · rw [hs', ok_bind]
      exact ih (Nat.le_of_succ_le_succ hfuel) h' (i + 1)
    · rw [he, error_bind]
      exact .inr ⟨e, rfl, hE⟩

/-- The list is that of `nodes`, in this order, by both links. -/
structure Holds (nodes : List ℕ) : Prop where
  nodup : nodes.Nodup
  head : l.head = nodes.head?
  tail : l.tail = nodes.getLast?
  links : ∀ before n after, nodes = before ++ n :: after → l.prev n = before.getLast? ∧ l.next n = after.head?

namespace Holds

variable {l node} {nodes before after : List ℕ} {alive filter : ℕ → Bool}

lemma empty (hh : l.head = none) (ht : l.tail = none) : l.Holds [] :=
  ⟨List.nodup_nil, hh, ht, fun before _ _ h => absurd h (by cases before <;> simp)⟩

lemma add (h : l.Holds nodes) (hn : node ∉ nodes) : (l.add node).Holds (node :: nodes) := by
  refine ⟨List.nodup_cons.mpr ⟨hn, h.nodup⟩, rfl, ?_, fun before n after he => ?_⟩
  · change (if l.tail = none then some node else l.tail) = _
    rw [h.tail]
    cases nodes with
    | nil => rfl
    | cons m nodes => rw [List.getLast?_cons_cons, if_neg (by simp)]
  cases before with
  | nil =>
    obtain ⟨rfl, rfl⟩ := List.cons.inj he
    refine ⟨?_, (Function.update_self ..).trans h.head⟩
    change (match l.head with
      | none => Function.update l.prev node none
      | some head => Function.update (Function.update l.prev node none) head (some node)) node = none
    rw [h.head]
    cases nodes with
    | nil => exact Function.update_self ..
    | cons m nodes => exact (Function.update_of_ne (List.ne_of_not_mem_cons hn) ..).trans (Function.update_self ..)
  | cons b before =>
    obtain ⟨rfl, rfl⟩ := List.cons.inj he
    obtain ⟨hprev, hnext⟩ := h.links before n after rfl
    have hne : n ≠ node := ne_of_mem_of_not_mem (List.mem_append_right _ List.mem_cons_self) hn
    refine ⟨?_, (Function.update_of_ne hne ..).trans hnext⟩
    change (match l.head with
      | none => Function.update l.prev node none
      | some head => Function.update (Function.update l.prev node none) head (some node)) n = _
    rw [h.head]
    cases before with
    | nil => exact Function.update_self ..
    | cons m before =>
      have hnm : n ≠ m := by
        rintro rfl
        exact (List.nodup_cons.mp h.nodup).1 (List.mem_append_right _ List.mem_cons_self)
      rw [List.getLast?_cons_cons, ← hprev]
      exact (Function.update_of_ne hnm ..).trans (Function.update_of_ne hne ..)

lemma remove_prev (hprev : l.prev node = before.getLast?) (hnext : l.next node = after.head?) (n : ℕ) :
    (l.remove node).prev n = if after.head? = some n then before.getLast? else l.prev n := by
  rw [IntrusiveLinkedList.remove, hprev, hnext]
  cases hb : before.getLast? <;> cases ha : after.head? <;> simp [Function.update_apply, eq_comm]

lemma remove_next (hprev : l.prev node = before.getLast?) (hnext : l.next node = after.head?) (n : ℕ) :
    (l.remove node).next n = if before.getLast? = some n then after.head? else l.next n := by
  rw [IntrusiveLinkedList.remove, hprev, hnext]
  cases hb : before.getLast? <;> cases ha : after.head? <;> simp [Function.update_apply, eq_comm]

lemma remove (h : l.Holds (before ++ node :: after)) : (l.remove node).Holds (before ++ after) := by
  obtain ⟨hprev, hnext⟩ := h.links before node after rfl
  obtain ⟨hb, ha, hapart⟩ := List.nodup_append.mp h.nodup
  have ha' := (List.nodup_cons.mp ha).2
  have hdisj : ∀ n ∈ before, n ∉ after := fun n hn hn' => hapart n hn n (List.mem_cons_of_mem _ hn') rfl
  refine ⟨List.nodup_append.mpr ⟨hb, ha', fun a hm b hm' he => hdisj a hm (he ▸ hm')⟩, ?_, ?_, fun b n a he => ?_⟩
  · have hhead := h.head
    rw [IntrusiveLinkedList.remove, hprev, hnext]
    cases before with
    | nil => cases after <;> rfl
    | cons m before =>
      rw [List.getLast?_cons]
      cases after <;> exact hhead
  · have htail := h.tail
    rw [IntrusiveLinkedList.remove, hprev, hnext]
    cases after with
    | nil =>
      rw [List.append_nil]
      cases before.getLast? <;> rfl
    | cons m after =>
      rw [List.getLast?_append_cons, List.getLast?_cons_cons] at htail
      rw [List.getLast?_append_cons]
      cases before.getLast? <;> exact htail
  · rw [remove_prev hprev hnext, remove_next hprev hnext]
    have hsplit : (∃ r, before = b ++ n :: r ∧ a = r ++ after) ∨ ∃ r, b = before ++ r ∧ after = r ++ n :: a := by
      rcases List.append_eq_append_iff.mp he with hr | ⟨r, hr, hr'⟩
      · exact Or.inr hr
      · cases r with
        | nil => exact Or.inr ⟨[], by rw [hr, List.append_nil, List.append_nil], hr'.symm⟩
        | cons m r =>
          obtain ⟨rfl, rfl⟩ := List.cons.inj hr'
          exact Or.inl ⟨r, hr, rfl⟩
    rcases hsplit with ⟨r, rfl, rfl⟩ | ⟨r, rfl, rfl⟩
    · obtain ⟨hp, hn⟩ := h.links b n (r ++ node :: after) (by rw [List.append_assoc, List.cons_append])
      have hmem : n ∈ b ++ n :: r := List.mem_append_right _ List.mem_cons_self
      rw [if_neg (fun hh => hdisj n hmem (List.mem_of_head? hh)), hp, hn]
      refine ⟨rfl, ?_⟩
      cases r with
      | nil => rw [List.getLast?_concat, if_pos rfl, List.nil_append]
      | cons m r =>
        have hlast : (b ++ n :: m :: r).getLast? ≠ some n := by
          rw [List.getLast?_append_cons, List.getLast?_cons_cons]
          intro hl
          have hnr := (List.nodup_cons.mp (List.nodup_append.mp hb).2.1).1
          exact hnr (List.mem_of_getLast? hl)
        rw [if_neg hlast]
        rfl
    · obtain ⟨hp, hn⟩ := h.links (before ++ node :: r) n a (by rw [List.append_assoc, List.cons_append])
      have hmem : n ∈ r ++ n :: a := List.mem_append_right _ List.mem_cons_self
      rw [if_neg (fun hl => hdisj n (List.mem_of_getLast? hl) hmem), hp, hn]
      refine ⟨?_, rfl⟩
      cases r with
      | nil => rw [List.nil_append, List.head?_cons, if_pos rfl, List.append_nil]
      | cons m r =>
        have hhead : (m :: r ++ n :: a).head? ≠ some n := by
          intro hh
          obtain rfl := Option.some.inj hh
          exact (List.nodup_cons.mp ha').1 (List.mem_append_right _ List.mem_cons_self)
        rw [if_neg hhead, List.getLast?_append_cons, List.getLast?_append_cons, List.getLast?_cons_cons]

lemma chain (h : l.Holds (before ++ after)) : Chain l.next after.head? after := by
  induction after generalizing before with
  | nil => rfl
  | cons n after ih =>
    refine ⟨rfl, ?_⟩
    rw [(h.links before n after rfl).2]
    have h' : l.Holds (before ++ [n] ++ after) := by rwa [List.append_assoc, List.singleton_append]
    exact ih h'

lemma findFirst (h : l.Holds nodes) (hlive : ∀ n ∈ nodes, alive n) {fuel : ℕ} (hfuel : nodes.length ≤ fuel) :
    l.findFirst alive filter fuel l.head = .ok (nodes.find? filter) := by
  have hc : Chain l.next l.head nodes := by
    rw [h.head]
    exact chain (show l.Holds ([] ++ nodes) from h)
  generalize l.head = head at hc
  clear h
  induction nodes generalizing head fuel with
  | nil =>
    rw [Chain.nil_iff.mp hc]
    cases fuel <;> rfl
  | cons n nodes ih =>
    obtain ⟨rfl, hc⟩ := hc
    obtain ⟨hn, hlive⟩ := List.forall_mem_cons.mp hlive
    cases fuel with
    | zero => exact absurd hfuel (Nat.not_succ_le_zero _)
    | succ fuel =>
      have hstep : l.findFirst alive filter (fuel + 1) (some n) =
          if filter n then .ok (some n) else l.findFirst alive filter fuel (l.next n) := by
        rw [IntrusiveLinkedList.findFirst, panicIf, if_neg (not_not_intro hn)]
        rfl
      rw [hstep, ih hlive (Nat.le_of_succ_le_succ hfuel) _ hc, List.find?_cons]
      cases filter n <;> rfl

end Holds

end IntrusiveLinkedList

end Pi0Os.Kernel
