import Pi0Os.Library.LinkedChain
import Pi0Os.Library.SlotOwnership
import Pi0Os.Task.ThreadObjects

/-! The lives of single-threaded processes and of the calls of `sys$waitexit`, event by event: what
stays true of the tables when a process is forked, exits and is reaped, and when a listener is added,
released and woken. -/

namespace Pi0Os.Task.Objects

open Kernel Library

section Listeners

/-- The nodes of `l`, in order; `pop` reads the back link of the first one only. -/
structure Listeners (L : IntrusiveLinkedList) (l : List ℕ) : Prop where
  chain : Chain L.next L.head l
  first : ∀ n ∈ L.head, L.prev n = none
  nodup : l.Nodup

variable {L : IntrusiveLinkedList} {l : List ℕ} {n : ℕ}

lemma listeners_nil (h : L.head = none) : Listeners L [] := ⟨h, by simp [h], List.nodup_nil⟩

lemma Listeners.add (h : Listeners L l) (hn : n ∉ l) : Listeners (L.add n) (n :: l) := by
  refine ⟨h.chain.push hn, ?_, List.nodup_cons.mpr ⟨hn, h.nodup⟩⟩
  intro m hm
  obtain rfl : n = m := Option.some.inj hm
  have hne : ∀ head, L.head = some head → n ≠ head := by
    rintro head hhead rfl
    cases l with
    | nil => exact absurd (hhead.symm.trans h.chain) (by simp)
    | cons m l =>
      obtain rfl := Option.some.inj (hhead.symm.trans h.chain.1)
      exact hn List.mem_cons_self
  unfold IntrusiveLinkedList.add
  cases hhead : L.head with
  | none => simp
  | some head => simp [Function.update_of_ne (hne head hhead)]

lemma Listeners.remove (h : Listeners L (n :: l)) : L.prev n = none ∧ Listeners (L.remove n) l := by
  have hprev := h.first n h.chain.1
  have hchain := h.chain.2
  refine ⟨hprev, ?_⟩
  unfold IntrusiveLinkedList.remove
  cases hnext : L.next n with
  | none =>
    rw [hnext] at hchain
    rw [hprev]
    obtain rfl : l = [] := Chain.unique hchain rfl
    exact listeners_nil rfl
  | some next =>
    rw [hnext] at hchain
    rw [hprev]
    exact ⟨hchain, by simp, (List.nodup_cons.mp h.nodup).2⟩

lemma Listeners.next_mem (h : Listeners L (n :: l)) : ∀ m ∈ L.next n, m ∈ l := by
  intro m hm
  have hchain := h.chain.2
  cases l with
  | nil => exact absurd (hchain.symm.trans hm) (by simp)
  | cons k l =>
    obtain rfl := Option.some.inj (hchain.1.symm.trans hm)
    exact List.mem_cons_self

end Listeners

/-- Single-threaded processes from their creation to the teardown: `owner` has the pid and the threads
of each process, `exited` and `freed` the pids of the processes whose thread has exited and was freed. -/
structure Table (threads : ℕ → Option Thread) (owner : ℕ → Option (ℕ × List ℕ)) (slots : ℕ → Option ℕ)
    (exited freed : List ℕ) (next : ℕ) : Prop where
  owned : Owned slots threads
  thread : ∀ t a state, threads t = some ⟨a, state⟩ → ∃ pid, owner a = some (pid, [t])
  process : ∀ a pid ts, owner a = some (pid, ts) → ∃ t state, ts = [t] ∧ threads t = some ⟨a, state⟩
  pid_lt : ∀ a pid ts, owner a = some (pid, ts) → pid < next
  pid_inj : ∀ a b pid ts us, owner a = some (pid, ts) → owner b = some (pid, us) → a = b
  started : ∀ t a, threads t ≠ some ⟨a, .suspended⟩
  zombie : ∀ t a state pid ts, threads t = some ⟨a, state⟩ → owner a = some (pid, ts) →
    (state = .zombie ↔ pid ∈ exited)
  exited_cases : ∀ pid ∈ exited, pid < next ∧ (pid ∈ freed ∨ ∃ a ts, owner a = some (pid, ts))
  freed_gone : ∀ pid ∈ freed, pid ∈ exited ∧ ∀ a ts, owner a ≠ some (pid, ts)
  exited_nodup : exited.Nodup
  freed_nodup : freed.Nodup

namespace Table

variable {threads : ℕ → Option Thread} {owner : ℕ → Option (ℕ × List ℕ)} {slots : ℕ → Option ℕ}
  {exited freed : List ℕ} {next t a k pid : ℕ}

lemma empty : Table (fun _ => none) (fun _ => none) (fun _ => none) [] [] 0 := by
  constructor <;> first | exact ⟨by simp, by simp⟩ | simp

lemma update_thread {u b : ℕ} {state state' : ThreadState}
    (hu : Function.update threads t (some ⟨a, state'⟩) u = some ⟨b, state⟩) :
    u = t ∧ b = a ∧ state = state' ∨ u ≠ t ∧ threads u = some ⟨b, state⟩ := by
  rcases update_some_eq_some.mp hu with ⟨hut, he⟩ | hu
  · cases he
    exact Or.inl ⟨hut, rfl, rfl⟩
  · exact Or.inr hu

lemma fork (h : Table threads owner slots exited freed next) (ht : threads t = none) (ha : owner a = none)
    (hk : slots k = none) :
    Table (Function.update threads t (some ⟨a, .runnable⟩)) (Function.update owner a (some (next, [t])))
      (Function.update slots k (some t)) exited freed (next + 1) := by
  have howner : ∀ b pid ts, Function.update owner a (some (next, [t])) b = some (pid, ts) →
      b = a ∧ pid = next ∧ ts = [t] ∨ b ≠ a ∧ owner b = some (pid, ts) := by
    intro b pid ts hb
    rcases update_some_eq_some.mp hb with ⟨rfl, he⟩ | hb
    · cases he
      exact Or.inl ⟨rfl, rfl, rfl⟩
    · exact Or.inr hb
  have hne : ∀ b pid, owner b = some pid → b ≠ a := fun b _ hb => ne_of_eq_some ha hb
  refine ⟨h.owned.acquire hk ht _, ?_, ?_, ?_, ?_, ?_, ?_, ?_, ?_, h.exited_nodup, h.freed_nodup⟩
  · intro u b state hu
    rcases update_thread hu with ⟨rfl, rfl, -⟩ | ⟨-, hu⟩
    · exact ⟨next, Function.update_self ..⟩
    · obtain ⟨pid, hb⟩ := h.thread u b state hu
      exact ⟨pid, (Function.update_of_ne (hne b _ hb) ..).trans hb⟩
  · intro b pid ts hb
    rcases howner b pid ts hb with ⟨rfl, -, rfl⟩ | ⟨-, hb⟩
    · exact ⟨t, .runnable, rfl, Function.update_self ..⟩
    · obtain ⟨u, state, hts, hu⟩ := h.process b pid ts hb
      exact ⟨u, state, hts, (Function.update_of_ne (ne_of_eq_some ht hu) ..).trans hu⟩
  · intro b pid ts hb
    rcases howner b pid ts hb with ⟨-, rfl, -⟩ | ⟨-, hb⟩
    · exact Nat.lt_succ_self _
    · exact Nat.lt_succ_of_lt (h.pid_lt b pid ts hb)
  · intro b c pid ts us hb hc
    rcases howner b pid ts hb with ⟨hba, hpid, -⟩ | ⟨-, hb'⟩
    · rcases howner c pid us hc with ⟨hca, -, -⟩ | ⟨-, hc'⟩
      · exact hba.trans hca.symm
      · exact absurd hpid (h.pid_lt c pid us hc').ne
    · rcases howner c pid us hc with ⟨-, hpid, -⟩ | ⟨-, hc'⟩
      · exact absurd hpid (h.pid_lt b pid ts hb').ne
      · exact h.pid_inj b c pid ts us hb' hc'
  · intro u b hu
    rcases update_thread hu with ⟨-, -, hs⟩ | ⟨-, hu⟩
    · cases hs
    · exact h.started u b hu
  · intro u b state pid ts hu hb
    rcases update_thread hu with ⟨rfl, rfl, rfl⟩ | ⟨-, hu⟩
    · rw [Function.update_self] at hb
      cases hb
      simp only [reduceCtorEq, false_iff]
      exact fun hm => lt_irrefl _ (h.exited_cases _ hm).1
    · obtain ⟨pid', hb'⟩ := h.thread u b state hu
      rw [Function.update_of_ne (hne b _ hb')] at hb
      exact h.zombie u b state pid ts hu hb
  · intro pid hpid
    obtain ⟨hlt, hf | ⟨b, ts, hb⟩⟩ := h.exited_cases pid hpid
    · exact ⟨Nat.lt_succ_of_lt hlt, Or.inl hf⟩
    · exact ⟨Nat.lt_succ_of_lt hlt, Or.inr ⟨b, ts, (Function.update_of_ne (hne b _ hb) ..).trans hb⟩⟩
  · intro pid hpid
    obtain ⟨hex, hgone⟩ := h.freed_gone pid hpid
    refine ⟨hex, fun b ts hb => ?_⟩
    rcases howner b pid ts hb with ⟨-, rfl, -⟩ | ⟨-, hb⟩
    · exact lt_irrefl _ (h.exited_cases _ hex).1
    · exact hgone b ts hb

lemma exit (h : Table threads owner slots exited freed next) (ht : threads t = some ⟨a, .runnable⟩)
    (ha : owner a = some (pid, [t])) :
    Table (Function.update threads t (some ⟨a, .zombie⟩)) owner slots (pid :: exited) freed next := by
  have hnew : pid ∉ exited := fun hm => by
    have hz := (h.zombie t a _ pid _ ht ha).mpr hm
    cases hz
  refine ⟨h.owned.congr fun u => ?_, ?_, ?_, h.pid_lt, h.pid_inj, ?_, ?_, ?_, ?_, ?_, h.freed_nodup⟩
  · by_cases hut : u = t
    · subst hut
      rw [Function.update_self, ht]
      rfl
    · rw [Function.update_of_ne hut]
  · intro u b state hu
    rcases update_thread hu with ⟨rfl, rfl, -⟩ | ⟨-, hu'⟩
    · exact ⟨pid, ha⟩
    · exact h.thread u b state hu'
  · intro b q ts hb
    obtain ⟨u, state, hts, hu⟩ := h.process b q ts hb
    by_cases hut : u = t
    · subst hut
      obtain rfl : a = b := by
        rw [ht] at hu
        cases hu
        rfl
      exact ⟨u, .zombie, hts, Function.update_self ..⟩
    · exact ⟨u, state, hts, (Function.update_of_ne hut ..).trans hu⟩
  · intro u b hu
    rcases update_thread hu with ⟨-, -, hs⟩ | ⟨-, hu⟩
    · cases hs
    · exact h.started u b hu
  · intro u b state q ts hu hb
    rcases update_thread hu with ⟨rfl, rfl, rfl⟩ | ⟨hut, hu'⟩
    · rw [ha] at hb
      cases hb
      simp
    · have hq : q ≠ pid := by
        rintro rfl
        obtain rfl := h.pid_inj b a q ts [t] hb ha
        rw [ha] at hb
        cases hb
        obtain ⟨pid', hb'⟩ := h.thread u b state hu'
        rw [ha] at hb'
        cases hb'
        exact hut rfl
      rw [List.mem_cons, or_iff_right hq]
      exact h.zombie u b state q ts hu' hb
  · intro q hq
    rcases List.mem_cons.mp hq with rfl | hq
    · exact ⟨h.pid_lt a q _ ha, Or.inr ⟨a, _, ha⟩⟩
    · exact h.exited_cases q hq
  · intro q hq
    obtain ⟨hex, hgone⟩ := h.freed_gone q hq
    exact ⟨List.mem_cons_of_mem _ hex, hgone⟩
  · exact List.nodup_cons.mpr ⟨hnew, h.exited_nodup⟩

lemma reap (h : Table threads owner slots exited freed next) (ht : threads t = some ⟨a, .zombie⟩)
    (ha : owner a = some (pid, [t])) (hk : slots k = some t) :
    Table (Function.update threads t none) (Function.update owner a none) (Function.update slots k none)
      exited (pid :: freed) next := by
  have hex := (h.zombie t a _ pid _ ht ha).mp rfl
  have hnew : pid ∉ freed := fun hm => (h.freed_gone pid hm).2 a _ ha
  refine ⟨h.owned.release hk, ?_, ?_, ?_, ?_, ?_, ?_, ?_, ?_, h.exited_nodup, List.nodup_cons.mpr ⟨hnew, h.freed_nodup⟩⟩
  · intro u b state hu
    obtain ⟨hut, hu⟩ := update_none_eq_some.mp hu
    obtain ⟨q, hb⟩ := h.thread u b state hu
    refine ⟨q, (Function.update_of_ne ?_ ..).trans hb⟩
    rintro rfl
    rw [ha] at hb
    cases hb
    exact hut rfl
  · intro b q ts hb
    obtain ⟨hba, hb⟩ := update_none_eq_some.mp hb
    obtain ⟨u, state, hts, hu⟩ := h.process b q ts hb
    refine ⟨u, state, hts, (Function.update_of_ne ?_ ..).trans hu⟩
    rintro rfl
    rw [ht] at hu
    cases hu
    exact hba rfl
  · intro b q ts hb
    exact h.pid_lt b q ts (update_none_eq_some.mp hb).2
  · intro b c q ts us hb hc
    exact h.pid_inj b c q ts us (update_none_eq_some.mp hb).2 (update_none_eq_some.mp hc).2
  · intro u b hu
    exact h.started u b (update_none_eq_some.mp hu).2
  · intro u b state q ts hu hb
    exact h.zombie u b state q ts (update_none_eq_some.mp hu).2 (update_none_eq_some.mp hb).2
  · intro q hq
    obtain ⟨hlt, hf | ⟨b, ts, hb⟩⟩ := h.exited_cases q hq
    · exact ⟨hlt, Or.inl (List.mem_cons_of_mem _ hf)⟩
    · by_cases hba : b = a
      · subst hba
        rw [ha] at hb
        cases hb
        exact ⟨hlt, Or.inl List.mem_cons_self⟩
      · exact ⟨hlt, Or.inr ⟨b, ts, (Function.update_of_ne hba ..).trans hb⟩⟩
  · intro q hq
    rcases List.mem_cons.mp hq with rfl | hq
    · refine ⟨hex, fun b ts hb => ?_⟩
      obtain ⟨hba, hb⟩ := update_none_eq_some.mp hb
      exact hba (h.pid_inj b a q ts _ hb ha)
    · obtain ⟨hq₁, hgone⟩ := h.freed_gone q hq
      exact ⟨hq₁, fun b ts hb => hgone b ts (update_none_eq_some.mp hb).2⟩

end Table

/-- The calls of `sys$waitexit`: `lists` has the pid and the listeners of each process. -/
structure Waiters (waits : ℕ → Option Wait) (lists : ℕ → Option (ℕ × IntrusiveLinkedList))
    (waited released : List (ℕ × ℕ)) (tornDown : List ℕ) : Prop where
  listeners : ∀ a pid L, lists a = some (pid, L) →
    ∃ l, Listeners L l ∧ ∀ n ∈ l, ∃ w, waits n = some w ∧ w.taken = true ∧ w.pid = pid
  registered : ∀ n w, waits n = some w → w.taken = true →
    ∃ a L l, lists a = some (w.pid, L) ∧ Listeners L l ∧ n ∈ l
  call_waited : ∀ n w, waits n = some w → (w.call, w.pid) ∈ waited
  call_inj : ∀ m n v w, waits m = some v → waits n = some w → v.call = w.call → m = n
  call_lt : ∀ r ∈ waited, r.1 < waited.length
  waited_nodup : (waited.map Prod.fst).Nodup
  released_torn : ∀ r ∈ released, r ∈ waited ∧ r.2 ∈ tornDown
  released_nodup : released.Nodup
  taken_iff : ∀ n w, waits n = some w → (w.taken = true ↔ (w.call, w.pid) ∉ released)
  pending : ∀ r ∈ waited, r ∉ released → ∃ n w, waits n = some w ∧ (w.call, w.pid) = r

namespace Waiters

variable {waits : ℕ → Option Wait} {lists : ℕ → Option (ℕ × IntrusiveLinkedList)}
  {waited released : List (ℕ × ℕ)} {tornDown : List ℕ} {a n pid : ℕ} {L : IntrusiveLinkedList} {l : List ℕ}

lemma empty : Waiters (fun _ => none) (fun _ => none) [] [] [] := by
  constructor <;> simp

lemma fork (h : Waiters waits lists waited released tornDown) (ha : lists a = none) (hL : L.head = none) :
    Waiters waits (Function.update lists a (some (pid, L))) waited released tornDown := by
  refine ⟨?_, ?_, h.call_waited, h.call_inj, h.call_lt, h.waited_nodup, h.released_torn, h.released_nodup,
    h.taken_iff, h.pending⟩
  · intro b q L' hb
    rcases update_some_eq_some.mp hb with ⟨-, he⟩ | ⟨-, hb⟩
    · cases he
      exact ⟨[], listeners_nil hL, by simp⟩
    · exact h.listeners b q L' hb
  · intro m w hm hw
    obtain ⟨b, L', l, hb, hl, hml⟩ := h.registered m w hm hw
    exact ⟨b, L', l, (Function.update_of_ne (ne_of_eq_some ha hb) ..).trans hb, hl, hml⟩

lemma add (h : Waiters waits lists waited released tornDown) (hn : waits n = none)
    (ha : lists a = some (pid, L)) :
    Waiters (Function.update waits n (some ⟨true, waited.length, pid⟩))
      (Function.update lists a (some (pid, L.add n))) ((waited.length, pid) :: waited) released tornDown := by
  have hne : ∀ m w, waits m = some w → m ≠ n := fun m _ hm => ne_of_eq_some hn hm
  obtain ⟨l, hl, hlw⟩ := h.listeners a pid L ha
  have hnl : n ∉ l := by
    intro hm
    obtain ⟨w, hw, -⟩ := hlw n hm
    exact hne n w hw rfl
  have hcall : ∀ m w, waits m = some w → w.call ≠ waited.length := fun m w hm =>
    (h.call_lt _ (h.call_waited m w hm)).ne
  have hfresh : (waited.length, pid) ∉ released := fun hr => lt_irrefl _ (h.call_lt _ (h.released_torn _ hr).1)
  refine ⟨?_, ?_, ?_, ?_, ?_, ?_, ?_, h.released_nodup, ?_, ?_⟩
  · intro b q L' hb
    rcases update_some_eq_some.mp hb with ⟨-, he⟩ | ⟨-, hb⟩
    · cases he
      refine ⟨n :: l, hl.add hnl, fun m hm => ?_⟩
      rcases List.mem_cons.mp hm with rfl | hm
      · exact ⟨_, Function.update_self .., rfl, rfl⟩
      · obtain ⟨w, hw, hwt⟩ := hlw m hm
        exact ⟨w, (Function.update_of_ne (hne m w hw) ..).trans hw, hwt⟩
    · obtain ⟨l', hl', hlw'⟩ := h.listeners b q L' hb
      refine ⟨l', hl', fun m hm => ?_⟩
      obtain ⟨w, hw, hwt⟩ := hlw' m hm
      exact ⟨w, (Function.update_of_ne (hne m w hw) ..).trans hw, hwt⟩
  · intro m w hm hw
    rcases update_some_eq_some.mp hm with ⟨rfl, rfl⟩ | ⟨-, hm'⟩
    · exact ⟨a, L.add m, m :: l, Function.update_self .., hl.add hnl, List.mem_cons_self⟩
    · obtain ⟨b, L', l', hb, hl', hml⟩ := h.registered m w hm' hw
      by_cases hba : b = a
      · subst hba
        rw [ha] at hb
        cases hb
        rw [hl'.chain.unique hl.chain] at hml
        exact ⟨b, L.add n, n :: l, Function.update_self .., hl.add hnl, List.mem_cons_of_mem _ hml⟩
      · exact ⟨b, L', l', (Function.update_of_ne hba ..).trans hb, hl', hml⟩
  · intro m w hm
    rcases update_some_eq_some.mp hm with ⟨-, rfl⟩ | ⟨-, hm'⟩
    · exact List.mem_cons_self
    · exact List.mem_cons_of_mem _ (h.call_waited m w hm')
  · intro m m' v w hm hm' hc
    rcases update_some_eq_some.mp hm with ⟨hmn, rfl⟩ | ⟨-, hm⟩
    · rcases update_some_eq_some.mp hm' with ⟨hmn', -⟩ | ⟨-, hm'⟩
      · exact hmn.trans hmn'.symm
      · exact absurd hc.symm (hcall m' w hm')
    · rcases update_some_eq_some.mp hm' with ⟨-, rfl⟩ | ⟨-, hm'⟩
      · exact absurd hc (hcall m v hm)
      · exact h.call_inj m m' v w hm hm' hc
  · intro r hr
    rw [List.length_cons]
    rcases List.mem_cons.mp hr with rfl | hr
    · exact Nat.lt_succ_self _
    · exact Nat.lt_succ_of_lt (h.call_lt r hr)
  · refine List.nodup_cons.mpr ⟨fun hm => ?_, h.waited_nodup⟩
    obtain ⟨r, hr, he⟩ := List.mem_map.mp hm
    exact (h.call_lt r hr).ne he
  · intro r hr
    exact ⟨List.mem_cons_of_mem _ (h.released_torn r hr).1, (h.released_torn r hr).2⟩
  · intro m w hm
    rcases update_some_eq_some.mp hm with ⟨-, rfl⟩ | ⟨-, hm'⟩
    · simp [hfresh]
    · exact h.taken_iff m w hm'
  · intro r hr hnr
    rcases List.mem_cons.mp hr with rfl | hr
    · exact ⟨n, _, Function.update_self .., rfl⟩
    · obtain ⟨m, w, hm, hw⟩ := h.pending r hr hnr
      exact ⟨m, w, (Function.update_of_ne (hne m w hm) ..).trans hm, hw⟩

lemma woken (h : Waiters waits lists waited released tornDown) {w : Wait} (hn : waits n = some w)
    (hw : w.taken = false) : Waiters (Function.update waits n none) lists waited released tornDown := by
  refine ⟨?_, ?_, ?_, ?_, h.call_lt, h.waited_nodup, h.released_torn, h.released_nodup, ?_, ?_⟩
  · intro a pid L ha
    obtain ⟨l, hl, hlw⟩ := h.listeners a pid L ha
    refine ⟨l, hl, fun m hm => ?_⟩
    obtain ⟨v, hv, ht, hp⟩ := hlw m hm
    refine ⟨v, (Function.update_of_ne ?_ ..).trans hv, ht, hp⟩
    rintro rfl
    rw [hn] at hv
    cases hv
    rw [hw] at ht
    cases ht
  · exact fun m v hm => h.registered m v (update_none_eq_some.mp hm).2
  · exact fun m v hm => h.call_waited m v (update_none_eq_some.mp hm).2
  · exact fun m m' v v' hm hm' => h.call_inj m m' v v' (update_none_eq_some.mp hm).2 (update_none_eq_some.mp hm').2
  · exact fun m v hm => h.taken_iff m v (update_none_eq_some.mp hm).2
  · intro r hr hnr
    obtain ⟨m, v, hm, hv⟩ := h.pending r hr hnr
    refine ⟨m, v, (Function.update_of_ne ?_ ..).trans hm, hv⟩
    rintro rfl
    rw [hn] at hm
    cases hm
    rw [← hv, ← h.taken_iff m w hn, hw] at hnr
    exact Bool.false_ne_true hnr

lemma reap (h : Waiters waits lists waited released tornDown) (ha : lists a = some (pid, L)) (hl : Listeners L l)
    (hpid : ∀ b L', lists b = some (pid, L') → b = a) :
    Waiters (fun n => if n ∈ l then (waits n).map fun w => { w with taken := false } else waits n)
      (Function.update lists a none) waited
      ((l.filterMap fun n => (waits n).map fun w => (w.call, pid)).reverse ++ released) (pid :: tornDown) := by
  obtain ⟨l', hl', hlw⟩ := h.listeners a pid L ha
  obtain rfl := hl'.chain.unique hl.chain
  have hwait : ∀ n w, (if n ∈ l' then (waits n).map fun w => { w with taken := false } else waits n) = some w →
      ∃ v, waits n = some v ∧ v.call = w.call ∧ v.pid = w.pid ∧
        (n ∈ l' ∧ w.taken = false ∧ v.pid = pid ∨ n ∉ l' ∧ v = w) := by
    intro n w hn
    split at hn
    · rename_i hm
      obtain ⟨v, hv, -, hp⟩ := hlw n hm
      rw [hv] at hn
      cases hn
      exact ⟨v, hv, rfl, rfl, Or.inl ⟨hm, rfl, hp⟩⟩
    · rename_i hm
      exact ⟨w, hn, rfl, rfl, Or.inr ⟨hm, rfl⟩⟩
  have hmem : ∀ r, r ∈ (l'.filterMap fun n => (waits n).map fun w => (w.call, pid)).reverse ↔
      ∃ n ∈ l', ∃ w, waits n = some w ∧ (w.call, w.pid) = r := by
    intro r
    rw [List.mem_reverse, List.mem_filterMap]
    constructor
    · rintro ⟨n, hn, hr⟩
      obtain ⟨w, hw, -, rfl⟩ := hlw n hn
      rw [hw] at hr
      exact ⟨n, hn, w, hw, Option.some.inj hr⟩
    · rintro ⟨n, hn, w, hw, hr⟩
      obtain ⟨w', hw', -, hp⟩ := hlw n hn
      rw [hw] at hw'
      cases hw'
      refine ⟨n, hn, ?_⟩
      rw [hw, ← hr, hp]
      rfl
  refine ⟨?_, ?_, ?_, ?_, h.call_lt, h.waited_nodup, ?_, ?_, ?_, ?_⟩
  · intro b q L' hb
    obtain ⟨hba, hb'⟩ := update_none_eq_some.mp hb
    obtain ⟨k, hk, hkw⟩ := h.listeners b q L' hb'
    refine ⟨k, hk, fun n hn => ?_⟩
    obtain ⟨w, hw, ht, hp⟩ := hkw n hn
    have hnl : n ∉ l' := by
      intro hm
      obtain ⟨v, hv, -, hq⟩ := hlw n hm
      rw [hw] at hv
      cases hv
      obtain rfl : q = pid := hp.symm.trans hq
      exact hba (hpid b L' hb')
    exact ⟨w, by rw [if_neg hnl, hw], ht, hp⟩
  · intro n w hn ht
    obtain ⟨v, hv, -, -, ⟨-, hf, -⟩ | ⟨hnl, rfl⟩⟩ := hwait n w hn
    · rw [hf] at ht
      cases ht
    · obtain ⟨b, L', k, hb, hk, hnk⟩ := h.registered n v hv ht
      refine ⟨b, L', k, (Function.update_of_ne ?_ ..).trans hb, hk, hnk⟩
      rintro rfl
      rw [ha] at hb
      cases hb
      rw [hk.chain.unique hl'.chain] at hnk
      exact hnl hnk
  · intro n w hn
    obtain ⟨v, hv, hc, hp, -⟩ := hwait n w hn
    rw [← hc, ← hp]
    exact h.call_waited n v hv
  · intro m n v w hm hn hc
    obtain ⟨v', hv, hvc, -⟩ := hwait m v hm
    obtain ⟨w', hw, hwc, -⟩ := hwait n w hn
    exact h.call_inj m n v' w' hv hw (hvc.trans (hc.trans hwc.symm))
  · intro r hr
    rcases List.mem_append.mp hr with hr | hr
    · obtain ⟨n, hn, w, hw, rfl⟩ := (hmem r).mp hr
      obtain ⟨w', hw', -, hp⟩ := hlw n hn
      rw [hw] at hw'
      cases hw'
      exact ⟨h.call_waited n w hw, by simp [hp]⟩
    · exact ⟨(h.released_torn r hr).1, List.mem_cons_of_mem _ (h.released_torn r hr).2⟩
  · refine List.nodup_append'.mpr ⟨?_, h.released_nodup, ?_⟩
    · rw [List.nodup_reverse]
      refine List.Nodup.filterMap ?_ hl'.nodup
      intro m n r hm hn
      obtain ⟨v, hv, rfl⟩ := Option.map_eq_some_iff.mp hm
      obtain ⟨w, hw, hr⟩ := Option.map_eq_some_iff.mp hn
      exact h.call_inj m n v w hv hw (Prod.mk.inj hr).1.symm
    · intro r hr hr'
      obtain ⟨n, hn, w, hw, rfl⟩ := (hmem r).mp hr
      obtain ⟨w', hw', ht, -⟩ := hlw n hn
      rw [hw] at hw'
      cases hw'
      exact (h.taken_iff n w hw).mp ht hr'
  · intro n w hn
    obtain ⟨v, hv, hc, hp, ⟨hm, hf, -⟩ | ⟨hnl, rfl⟩⟩ := hwait n w hn
    · have hr := (hmem (w.call, w.pid)).mpr ⟨n, hm, v, hv, by rw [hc, hp]⟩
      simp [hf, List.mem_append, hr]
    · have hr : (v.call, v.pid) ∉ (l'.filterMap fun n => (waits n).map fun w => (w.call, pid)).reverse := by
        intro hr
        obtain ⟨m, hm, w, hw, he⟩ := (hmem _).mp hr
        exact hnl (h.call_inj m n w v hw hv (Prod.mk.inj he).1 ▸ hm)
      rw [List.mem_append, or_iff_right hr]
      exact h.taken_iff n v hv
  · intro r hr hnr
    obtain ⟨n, w, hn, hw⟩ := h.pending r hr fun hm => hnr (List.mem_append_right _ hm)
    by_cases hm : n ∈ l'
    · exact ⟨n, { w with taken := false }, by rw [if_pos hm, hn]; rfl, hw⟩
    · exact ⟨n, w, by rw [if_neg hm, hn], hw⟩

lemma released_calls (h : Waiters waits lists waited released tornDown) : (released.map Prod.fst).Nodup := by
  refine List.Nodup.map_on (fun r hr r' hr' he => ?_) h.released_nodup
  exact List.inj_on_of_nodup_map h.waited_nodup (h.released_torn r hr).1 (h.released_torn r' hr').1 he

end Waiters

end Pi0Os.Task.Objects
