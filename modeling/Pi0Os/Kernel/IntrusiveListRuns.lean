import Pi0Os.Kernel.IntrusiveList

/-! The operations of `intrusivelinkedlist.h` as operations on a sequence. -/

namespace Pi0Os.Kernel

open Library

namespace IntrusiveLinkedList

variable (l : IntrusiveLinkedList) (node before : ℕ)

def append : Except Panic IntrusiveLinkedList :=
  if l.head = none then .ok (l.add node)
  else
    match l.tail with
    | none => .error (.undefined "a null pointer")
    | some tail => .ok { l with
        tail := some node
        prev := Function.update l.prev node l.tail
        next := Function.update (Function.update l.next node none) tail (some node) }

def appendBefore : IntrusiveLinkedList :=
  match l.prev before with
  | none => l.add node
  | some prev => { l with
      prev := Function.update (Function.update l.prev node (some prev)) before (some node)
      next := Function.update (Function.update l.next prev (some node)) node (some before) }

def pop : Option ℕ × IntrusiveLinkedList :=
  match l.head with
  | none => (none, l)
  | some el => (some el, l.remove el)

/-- The list from its other end. -/
def mirror : IntrusiveLinkedList := ⟨l.tail, l.head, l.next, l.prev⟩

/-- `foreach` from the tail along `prev`. -/
def foreachReverse {σ : Type} (links : σ → IntrusiveLinkedList) (alive : σ → ℕ → Bool)
    (func : ℕ → σ → ℕ → Except Panic σ) : ℕ → ℕ → σ → Option ℕ → Except Panic σ :=
  foreach (fun s => (links s).mirror) alive func

namespace Holds

variable {l node before} {nodes pre post : List ℕ}

lemma forward (h : l.Holds nodes) : Chain l.next l.head nodes := by
  have hall : l.Holds ([] ++ nodes) := h
  rw [h.head]
  apply hall.chain

lemma mirror (h : l.Holds nodes) : l.mirror.Holds nodes.reverse := by
  refine ⟨List.nodup_reverse.mpr h.nodup, ?_, ?_, fun before n after he => ?_⟩
  · rw [List.head?_reverse]
    exact h.tail
  · rw [List.getLast?_reverse]
    exact h.head
  · have hsplit : nodes = after.reverse ++ n :: before.reverse := by
      rw [← nodes.reverse_reverse, he, List.reverse_append, List.reverse_cons, List.append_assoc,
        List.singleton_append]
    obtain ⟨hprev, hnext⟩ := h.links _ n _ hsplit
    rw [List.getLast?_reverse] at hprev
    rw [List.head?_reverse] at hnext
    exact ⟨hnext, hprev⟩

lemma backward (h : l.Holds nodes) : Chain l.prev l.tail nodes.reverse := h.mirror.forward

lemma of_chains (hn : nodes.Nodup) (hf : Chain l.next l.head nodes) (hb : Chain l.prev l.tail nodes.reverse) :
    l.Holds nodes := by
  refine ⟨hn, hf.head_eq, ?_, fun before n after he => ⟨?_, ?_⟩⟩
  · rw [hb.head_eq, List.head?_reverse]
  · rw [he, List.reverse_append, List.reverse_cons, List.append_assoc, List.singleton_append] at hb
    rw [hb.next_eq, List.head?_reverse]
  · rw [he] at hf
    exact hf.next_eq

lemma append (h : l.Holds nodes) (hn : node ∉ nodes) : ∃ l', l.append node = .ok l' ∧ l'.Holds (nodes ++ [node]) := by
  cases nodes with
  | nil => exact ⟨l.add node, if_pos h.head, h.add hn⟩
  | cons m nodes =>
    obtain ⟨tail, htail⟩ := Option.ne_none_iff_exists'.mp (show (m :: nodes).getLast? ≠ none by simp)
    rw [← h.tail] at htail
    have hadd := (h.mirror.add (by rwa [List.mem_reverse])).mirror
    rw [List.reverse_cons, List.reverse_reverse] at hadd
    refine ⟨_, ?_, hadd⟩
    rw [IntrusiveLinkedList.append, if_neg (by rw [h.head]; exact Option.some_ne_none m), htail]
    simp only [IntrusiveLinkedList.mirror, IntrusiveLinkedList.add, htail, h.head]
    rfl

lemma appendBefore (h : l.Holds (pre ++ before :: post)) (hn : node ∉ pre ++ before :: post) :
    (l.appendBefore node before).Holds (pre ++ node :: before :: post) := by
  have hprev := (h.links pre before post rfl).1
  rw [IntrusiveLinkedList.appendBefore, hprev]
  rcases pre.eq_nil_or_concat with rfl | ⟨pre, p, rfl⟩
  · exact h.add hn
  · rw [List.concat_eq_append] at h hn ⊢
    rw [List.getLast?_concat]
    dsimp only
    have hne : before ≠ node := by
      rintro rfl
      exact hn (List.mem_append_right _ List.mem_cons_self)
    apply of_chains
    · have hperm : (pre ++ [p] ++ node :: before :: post).Perm (node :: (pre ++ [p] ++ before :: post)) :=
        List.perm_middle
      exact hperm.nodup_iff.mpr (List.nodup_cons.mpr ⟨hn, h.nodup⟩)
    · have hf := h.forward
      rw [List.append_assoc, List.singleton_append] at hf ⊢
      apply hf.insert
      · simpa using h.nodup
      · simpa using hn
    · have hb := h.backward
      have hnodup := List.nodup_reverse.mpr h.nodup
      have hnew := mt List.mem_reverse.mp hn
      have hold : (pre ++ [p] ++ before :: post).reverse = post.reverse ++ before :: p :: pre.reverse := by simp
      have hins : (pre ++ [p] ++ node :: before :: post).reverse =
          post.reverse ++ before :: node :: p :: pre.reverse := by simp
      rw [hold] at hb hnodup hnew
      rw [hins, ← Function.update_comm hne]
      exact hb.insert hnodup hnew

lemma pop (h : l.Holds nodes) : l.pop.1 = nodes.head? ∧ l.pop.2.Holds nodes.tail := by
  rw [IntrusiveLinkedList.pop, h.head]
  cases nodes with
  | nil => exact ⟨rfl, h⟩
  | cons n nodes =>
    have hall : l.Holds ([] ++ n :: nodes) := h
    exact ⟨rfl, hall.remove⟩

end Holds

end IntrusiveLinkedList

inductive ListOp where
  | add (node : ℕ)
  | append (node : ℕ)
  | appendBefore (node before : ℕ)
  | remove (node : ℕ)
  | pop

namespace ListOp

/-- The node that is returned, and the list. -/
def exec (l : IntrusiveLinkedList) : ListOp → Except Panic (Option ℕ × IntrusiveLinkedList)
  | .add node => .ok (none, l.add node)
  | .append node => do return (none, ← l.append node)
  | .appendBefore node before => .ok (none, l.appendBefore node before)
  | .remove node => .ok (none, l.remove node)
  | .pop => .ok l.pop

def run : List ListOp → IntrusiveLinkedList → Except Panic (List (Option ℕ) × IntrusiveLinkedList)
  | [], l => .ok ([], l)
  | op :: ops, l => do
    let (result, l) ← op.exec l
    let (results, l) ← run ops l
    return (result :: results, l)

def insertBefore (node before : ℕ) : List ℕ → List ℕ
  | [] => []
  | n :: nodes => if n = before then node :: n :: nodes else n :: insertBefore node before nodes

def after (nodes : List ℕ) : ListOp → List ℕ
  | .add node => node :: nodes
  | .append node => nodes ++ [node]
  | .appendBefore node before => insertBefore node before nodes
  | .remove node => nodes.erase node
  | .pop => nodes.tail

def result (nodes : List ℕ) : ListOp → Option ℕ
  | .pop => nodes.head?
  | _ => none

/-- A node that is put in is not in the list, one that is removed or referred to is. -/
def Legal (nodes : List ℕ) : ListOp → Prop
  | .add node => node ∉ nodes
  | .append node => node ∉ nodes
  | .appendBefore node before => node ∉ nodes ∧ before ∈ nodes
  | .remove node => node ∈ nodes
  | .pop => True

def LegalRun : List ListOp → List ℕ → Prop
  | [], _ => True
  | op :: ops, nodes => op.Legal nodes ∧ LegalRun ops (op.after nodes)

def results : List ListOp → List ℕ → List (Option ℕ)
  | [], _ => []
  | op :: ops, nodes => op.result nodes :: results ops (op.after nodes)

section Runs

variable {op : ListOp} {l : IntrusiveLinkedList} {nodes : List ℕ}

lemma insertBefore_append {node before : ℕ} {pre post : List ℕ} (h : before ∉ pre) :
    insertBefore node before (pre ++ before :: post) = pre ++ node :: before :: post := by
  induction pre with
  | nil => exact if_pos rfl
  | cons n pre ih =>
    obtain ⟨hn, hpre⟩ := not_or.mp (mt List.mem_cons.mpr h)
    rw [List.cons_append, insertBefore, if_neg (Ne.symm hn), ih hpre, List.cons_append]

lemma exec_holds (h : l.Holds nodes) (hop : op.Legal nodes) :
    ∃ l', op.exec l = .ok (op.result nodes, l') ∧ l'.Holds (op.after nodes) := by
  cases op with
  | add node => exact ⟨_, rfl, h.add hop⟩
  | append node =>
    obtain ⟨l', hl', h'⟩ := h.append hop
    refine ⟨l', ?_, h'⟩
    rw [exec, hl']
    rfl
  | appendBefore node before =>
    obtain ⟨hnode, hbefore⟩ := hop
    obtain ⟨pre, post, rfl⟩ := List.append_of_mem hbefore
    have hpre : before ∉ pre := fun hin => (List.nodup_append.mp h.nodup).2.2 _ hin _ List.mem_cons_self rfl
    refine ⟨_, rfl, ?_⟩
    rw [after, insertBefore_append hpre]
    exact h.appendBefore hnode
  | remove node =>
    obtain ⟨pre, post, rfl⟩ := List.append_of_mem hop
    have hpre : node ∉ pre := fun hin => (List.nodup_append.mp h.nodup).2.2 _ hin _ List.mem_cons_self rfl
    refine ⟨_, rfl, ?_⟩
    rw [after, List.erase_append_right _ hpre, List.erase_cons_head]
    exact h.remove
  | pop => exact ⟨l.pop.2, congrArg (fun r => Except.ok (r, l.pop.2)) h.pop.1, h.pop.2⟩

lemma run_holds {ops : List ListOp} (h : l.Holds nodes) (hops : LegalRun ops nodes) :
    ∃ l', run ops l = .ok (results ops nodes, l') ∧ l'.Holds (ops.foldl after nodes) := by
  induction ops generalizing l nodes with
  | nil => exact ⟨l, rfl, h⟩
  | cons op ops ih =>
    obtain ⟨hop, hops⟩ := hops
    obtain ⟨l₁, hexec, h₁⟩ := exec_holds h hop
    obtain ⟨l', hrun, h'⟩ := ih h₁ hops
    refine ⟨l', ?_, h'⟩
    rw [run, hexec, ok_bind]
    dsimp only
    rw [hrun]
    rfl

end Runs

end ListOp

/-- A walk whose callback notes each node it is given, and removes some. -/
structure Walk where
  list : IntrusiveLinkedList
  visited : List ℕ
  gone : List ℕ

namespace Walk

def alive (w : Walk) (node : ℕ) : Bool := node ∉ w.gone

def visit (removes : ℕ → Bool) (_ : ℕ) (w : Walk) (node : ℕ) : Except Panic Walk :=
  if removes node then .ok ⟨w.list.remove node, w.visited ++ [node], node :: w.gone⟩
  else .ok { w with visited := w.visited ++ [node] }

section Visits

variable {view : IntrusiveLinkedList → IntrusiveLinkedList} {removes : ℕ → Bool} {nodes : List ℕ}

/-- What a walk has come to: `unseen` is left of the nodes. -/
structure At (view : IntrusiveLinkedList → IntrusiveLinkedList) (removes : ℕ → Bool) (nodes : List ℕ) (w : Walk)
    (unseen : List ℕ) : Prop where
  holds : (view w.list).Holds (w.visited.filter (fun n => !removes n) ++ unseen)
  nodes_eq : w.visited ++ unseen = nodes
  nodup : nodes.Nodup
  gone : w.gone ⊆ w.visited

lemma At.visit (hview : ∀ l node, view (l.remove node) = (view l).remove node) (i : ℕ) {w : Walk} {n : ℕ}
    {unseen : List ℕ} (h : At view removes nodes w (n :: unseen)) :
    ∃ w', visit removes i w n = .ok w' ∧ At view removes nodes w' unseen := by
  have hvisited : w.visited ++ [n] ++ unseen = nodes := by
    rw [List.append_assoc, List.singleton_append, h.nodes_eq]
  have hgone : w.gone ⊆ w.visited ++ [n] := List.Subset.trans h.gone (List.subset_append_left ..)
  have hn : n ∈ w.visited ++ [n] := List.mem_append_right _ (List.mem_singleton_self n)
  rw [Walk.visit]
  split_ifs with hr
  · refine ⟨_, rfl, ?_, hvisited, h.nodup, List.cons_subset.mpr ⟨hn, hgone⟩⟩
    rw [hview, List.filter_append, List.filter_singleton, hr]
    simp only [Bool.not_true, Bool.cond_false, List.append_nil]
    exact h.holds.remove
  · refine ⟨_, rfl, ?_, hvisited, h.nodup, hgone⟩
    rw [Bool.not_eq_true] at hr
    rw [List.filter_append, List.filter_singleton, hr, List.append_assoc]
    exact h.holds

lemma foreach_visits (view : IntrusiveLinkedList → IntrusiveLinkedList) (removes : ℕ → Bool)
    (hview : ∀ l node, view (l.remove node) = (view l).remove node) {l : IntrusiveLinkedList}
    (h : (view l).Holds nodes) {fuel : ℕ} (hfuel : nodes.length ≤ fuel) :
    ∃ w, IntrusiveLinkedList.foreach (fun w => view (list w)) alive (visit removes) fuel 0 ⟨l, [], []⟩ (view l).head =
      .ok w ∧ w.visited = nodes ∧ (view w.list).Holds (nodes.filter fun n => !removes n) := by
  have hnode (w : Walk) (n : ℕ) (unseen : List ℕ) (hat : At view removes nodes w (n :: unseen)) :
      alive w n = true ∧ (view w.list).next n = unseen.head? := by
    refine ⟨decide_eq_true fun hin => ?_, (hat.holds.links _ n unseen rfl).2⟩
    have hnodup := hat.nodup
    rw [← hat.nodes_eq] at hnodup
    exact (List.nodup_append.mp hnodup).2.2 n (hat.gone hin) n List.mem_cons_self rfl
  have hstart : At view removes nodes ⟨l, [], []⟩ nodes := ⟨h, rfl, h.nodup, List.Subset.refl _⟩
  rw [h.head]
  rcases IntrusiveLinkedList.foreach_rule (E := fun _ => False) hnode (fun i w n unseen hat => .inl (hat.visit hview i))
    hfuel hstart 0 with ⟨w, hw, hend⟩ | ⟨e, -, ⟨⟩⟩
  have hvisited : w.visited = nodes := by
    rw [← hend.nodes_eq, List.append_nil]
  have hholds := hend.holds
  rw [List.append_nil, hvisited] at hholds
  exact ⟨w, hw, hvisited, hholds⟩

end Visits

end Walk

lemma IntrusiveLinkedList.mirror_remove (l : IntrusiveLinkedList) (node : ℕ) :
    (l.remove node).mirror = l.mirror.remove node := by
  simp only [IntrusiveLinkedList.remove, IntrusiveLinkedList.mirror]
  cases l.prev node with
  | none => cases l.next node <;> rfl
  | some prev => cases l.next node <;> rfl

/-- The links of both directions lead through the nodes. -/
def IntrusiveLinkedList.Enumerates (l : IntrusiveLinkedList) (nodes : List ℕ) : Prop :=
  Chain l.next l.head nodes ∧ Chain l.prev l.tail nodes.reverse

lemma IntrusiveLinkedList.Holds.enumerates {l : IntrusiveLinkedList} {nodes : List ℕ} (h : l.Holds nodes) :
    l.Enumerates nodes := ⟨h.forward, h.backward⟩

open IntrusiveLinkedList in
theorem intrusiveList_refines {l : IntrusiveLinkedList} (hh : l.head = none) (ht : l.tail = none) {ops : List ListOp}
    (hops : ListOp.LegalRun ops []) :
    ∃ l', ListOp.run ops l = .ok (ListOp.results ops [], l') ∧ l'.Enumerates (ops.foldl ListOp.after []) ∧
      (∀ removes fuel, (ops.foldl ListOp.after []).length ≤ fuel →
        (∃ w, foreach Walk.list Walk.alive (Walk.visit removes) fuel 0 ⟨l', [], []⟩ l'.head = .ok w ∧
          w.visited = ops.foldl ListOp.after [] ∧
          w.list.Enumerates ((ops.foldl ListOp.after []).filter fun n => !removes n)) ∧
        ∃ w, foreachReverse Walk.list Walk.alive (Walk.visit removes) fuel 0 ⟨l', [], []⟩ l'.tail = .ok w ∧
          w.visited = (ops.foldl ListOp.after []).reverse ∧
          w.list.Enumerates ((ops.foldl ListOp.after []).filter fun n => !removes n)) ∧
      ∀ filter fuel, (ops.foldl ListOp.after []).length ≤ fuel →
        l'.findFirst (fun _ => true) filter fuel l'.head = .ok ((ops.foldl ListOp.after []).find? filter) := by
  obtain ⟨l', hrun, h⟩ := ListOp.run_holds (Holds.empty hh ht) hops
  generalize ops.foldl ListOp.after [] = nodes at h ⊢
  refine ⟨l', hrun, h.enumerates, fun removes fuel hfuel => ⟨?_, ?_⟩, fun filter fuel hfuel => ?_⟩
  · obtain ⟨w, hw, hvisited, hholds⟩ := Walk.foreach_visits id removes (fun _ _ => rfl) h hfuel
    exact ⟨w, hw, hvisited, hholds.enumerates⟩
  · have hlen : nodes.reverse.length ≤ fuel := by rwa [List.length_reverse]
    obtain ⟨w, hw, hvisited, hholds⟩ := Walk.foreach_visits mirror removes mirror_remove h.mirror hlen
    refine ⟨w, hw, hvisited, ?_⟩
    have hback := hholds.mirror
    rw [List.filter_reverse, List.reverse_reverse] at hback
    exact hback.enumerates
  · exact h.findFirst (fun _ _ => rfl) hfuel

theorem intrusiveList_refines_three : ∃ l', ListOp.run
    [.add 1, .append 2, .appendBefore 3 2, .remove 1, .pop] ⟨none, none, fun _ => none, fun _ => none⟩ =
      .ok ([none, none, none, none, some 3], l') ∧ l'.Enumerates [2] := by
  have hops : ListOp.LegalRun [.add 1, .append 2, .appendBefore 3 2, .remove 1, .pop] [] := by
    simp [ListOp.LegalRun, ListOp.Legal, ListOp.after, ListOp.insertBefore]
  obtain ⟨l', hrun, h, -⟩ :=
    intrusiveList_refines (l := ⟨none, none, fun _ => none, fun _ => none⟩) rfl rfl hops
  exact ⟨l', hrun, h⟩

end Pi0Os.Kernel
