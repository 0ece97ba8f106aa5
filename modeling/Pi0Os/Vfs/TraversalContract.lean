import Pi0Os.Vfs.Walks

/-! The contract that the comment before `traverse_in_fs` states: what it hands back for each outcome of the lookups,
and which references it keeps. -/

namespace Pi0Os.Vfs

open Kernel VfsState

/-- Every inode of the walk along the names but the last one is a directory, and has the next one as its entry. -/
inductive Chain (env : ℕ → LookupEnv) (s : VfsState) : ℕ → ℕ → List CString → ℕ → Prop
  | nil {inode i} : Chain env s inode i [] inode
  | cons {inode i name path next a} : (s.inodes inode).type = .directory → Entry (env i) s inode name next →
      Chain env s next (i + 1) path a → Chain env s inode i (name :: path) a

section Chains

variable {env : ℕ → LookupEnv} {s : VfsState} {inode i a b : ℕ} {name last : CString} {path names init : List CString}
  {parent out : Option ℕ} {result : Except ℤ ℕ}

lemma Entry.unique {env : LookupEnv} (h : Entry env s inode name a) (h' : Entry env s inode name b) : a = b := by
  obtain ⟨temp, ht, ha⟩ := h
  obtain ⟨temp', ht', hb⟩ := h'
  obtain rfl := Except.ok.inj (ht.symm.trans ht')
  exact Option.some.inj (ha.symm.trans hb)

lemma chain_nil : Chain env s inode i [] a ↔ a = inode :=
  ⟨fun h => by cases h; rfl, fun h => h ▸ .nil⟩

lemma chain_cons (hd : (s.inodes inode).type = .directory) (he : Entry (env i) s inode name a) :
    Chain env s inode i (name :: path) b ↔ Chain env s a (i + 1) path b := by
  refine ⟨fun h => ?_, .cons hd he⟩
  cases h with
  | cons _ he' hc => rwa [he.unique he']

/-- What the last name of a walk that does not end with it is missing from. -/
def MissingFrom (env : ℕ → LookupEnv) (s : VfsState) (inode i : ℕ) (names : List CString) (p : ℕ) : Prop :=
  ∃ init last, names = init ++ [last] ∧ Chain env s inode i init p ∧ (s.inodes p).type = .directory ∧
    ∀ a, ¬ Entry (env (i + init.length)) s p last a

lemma WalkEnd.chain (h : WalkEnd env s parent inode i names result out) (a : ℕ) :
    result = .ok a ↔ Chain env s inode i names a := by
  induction h with
  | here => simp [chain_nil, eq_comm]
  | next hd he _ ih => rw [ih, chain_cons hd he]
  | notDir hd =>
    refine ⟨nofun, fun h => ?_⟩
    cases h with
    | cons hd' _ _ => exact absurd hd' hd
  | missing _ hn | lost _ hn _ =>
    refine ⟨nofun, fun h => ?_⟩
    cases h with
    | cons _ he _ => exact absurd he (hn _)

lemma WalkEnd.parent_found (h : WalkEnd env s parent inode i names result out) (hok : result = .ok a) :
    (names = [] → out = parent) ∧ ∀ init last, names = init ++ [last] → ∃ p, out = some p ∧
      Chain env s inode i init p := by
  induction h with
  | here => exact ⟨fun _ => rfl, fun init last h => absurd h.symm (by simp)⟩
  | @next parent inode i name path next result out hd he hw ih =>
    obtain ⟨hnil, hlast⟩ := ih hok
    refine ⟨nofun, fun init last hn => ?_⟩
    cases init with
    | nil =>
      obtain ⟨-, rfl⟩ := List.cons.inj hn
      exact ⟨inode, hnil rfl, .nil⟩
    | cons name' init =>
      obtain ⟨rfl, rfl⟩ := List.cons.inj hn
      obtain ⟨p, hp, hc⟩ := hlast init last rfl
      exact ⟨p, hp, .cons hd he hc⟩
  | notDir | missing | lost => cases hok

lemma WalkEnd.parent_missing {rc : ℤ} (h : WalkEnd env s parent inode i names result out) (herr : result = .error rc)
    (p : ℕ) : out = some p ↔ MissingFrom env s inode i names p := by
  induction h with
  | here => cases herr
  | @next parent inode i name path next result out hd he hw ih =>
    rw [ih herr]
    constructor
    · rintro ⟨init, last, rfl, hc, hdir, hn⟩
      exact ⟨name :: init, last, rfl, .cons hd he hc, hdir, by simpa [add_assoc, add_comm, add_left_comm] using hn⟩
    · rintro ⟨_ | ⟨name', init⟩, last, hnames, hc, hdir, hn⟩
      · obtain ⟨-, rfl⟩ := List.cons.inj hnames
        cases hw
        cases herr
      · obtain ⟨rfl, rfl⟩ := List.cons.inj hnames
        refine ⟨init, last, rfl, (chain_cons hd he).mp hc, hdir, ?_⟩
        simpa [add_assoc, add_comm, add_left_comm] using hn
  | notDir hd =>
    refine ⟨nofun, ?_⟩
    rintro ⟨_ | ⟨name', init⟩, last, hnames, hc, hdir, -⟩
    · rw [chain_nil.mp hc] at hdir
      exact absurd hdir hd
    · obtain ⟨rfl, -⟩ := List.cons.inj hnames
      cases hc with
      | cons hd' _ _ => exact absurd hd' hd
  | @missing parent inode i name hd hn =>
    constructor
    · rintro ⟨⟩
      exact ⟨[], name, rfl, .nil, hd, hn⟩
    · rintro ⟨_ | ⟨name', init⟩, last, hnames, hc, -, -⟩
      · rw [chain_nil.mp hc]
      · exact absurd (congrArg List.length hnames) (by simp)
  | @lost parent inode i name path hd hn hpath =>
    refine ⟨nofun, ?_⟩
    rintro ⟨_ | ⟨name', init⟩, last, hnames, hc, -, -⟩
    · exact absurd (List.cons.inj hnames).2 hpath
    · obtain ⟨rfl, -⟩ := List.cons.inj hnames
      cases hc with
      | cons _ he _ => exact absurd he (hn _)

lemma WalkEnd.error_ne {rc : ℤ} (h : WalkEnd env s parent inode i names result out)
    (herr : result = .error rc) : rc ≠ 0 := by
  induction h with
  | here => cases herr
  | next _ _ _ ih => exact ih herr
  | notDir | missing | lost =>
    cases herr
    decide

lemma chain_concat : Chain env s inode i (names ++ [last]) a ↔
    ∃ p, Chain env s inode i names p ∧ (s.inodes p).type = .directory ∧ Entry (env (i + names.length)) s p last a := by
  constructor
  · intro h
    induction names generalizing inode i with
    | nil =>
      cases h with
      | cons hd he hc =>
        obtain rfl := chain_nil.mp hc
        exact ⟨inode, .nil, hd, he⟩
    | cons name names ih =>
      cases h with
      | cons hd he hc =>
        obtain ⟨p, hp, hdir, hlast⟩ := ih hc
        exact ⟨p, .cons hd he hp, hdir, by simpa [add_assoc, add_comm, add_left_comm] using hlast⟩
  · rintro ⟨p, hp, hdir, hlast⟩
    induction hp with
    | nil => exact .cons hdir hlast .nil
    | @cons inode i name path next a hd he hc ih =>
      exact .cons hd he (ih hdir (by simpa [add_assoc, add_comm, add_left_comm] using hlast))

lemma Chain.grows {s' : VfsState} (h : Chain env s inode i names a) (hc : CacheOpen s) (hi : inode < s.nextInode)
    (hg : Grows s s') : Chain env s' inode i names a ∧ a < s.nextInode := by
  induction h with
  | nil => exact ⟨.nil, hi⟩
  | cons hd he _ ih =>
    obtain ⟨temp, -, hentry⟩ := id he
    obtain ⟨hchain, ha⟩ := ih (hc _ _ _ hentry).allocated
    exact ⟨.cons ((hg.type _ hi).trans hd) (he.grows hi hg) hchain, ha⟩

/-- Only the answers to the names on the way count. -/
lemma Chain.congr {env' : ℕ → LookupEnv} (h : Chain env s inode i names a)
    (he : ∀ j < names.length, (env' (i + j)).answer = (env (i + j)).answer) : Chain env' s inode i names a := by
  induction h with
  | nil => exact .nil
  | @cons inode i name path next a hd hentry _ ih =>
    obtain ⟨temp, ht, ha⟩ := hentry
    have h0 := he 0 (by simp)
    rw [add_zero] at h0
    refine .cons hd ⟨temp, by rw [h0]; exact ht, ha⟩ (ih fun j hj => ?_)
    have hj' := he (j + 1) (by simpa using hj)
    rwa [← add_assoc, add_right_comm] at hj'

end Chains

section Contract

variable {s : VfsState} {fs : ℕ}

/-- The inode that the names lead to from the root of a filesystem. -/
def Target (env : ℕ → LookupEnv) (s : VfsState) (fs : ℕ) (names : List CString) (a : ℕ) : Prop :=
  ∃ root, icacheLookup (s.filesystems fs).icache (s.filesystems fs).root = some root ∧ Chain env s root 0 names a

/-- The contract of a walk along the names that handed back `t` and called `open_inode` and `close_inode` as in `l`. -/
structure TraverseContract (env : ℕ → LookupEnv) (fs : ℕ) (names : List CString) (t : Traversal)
    (l : Ledger) : Prop where
  success : ∀ a, t.result = .ok a ↔ Target env t.state fs names a
  parent_root : ∀ a, t.result = .ok a → names = [] → t.parent = none
  parent : ∀ a init last, t.result = .ok a → names = init ++ [last] →
    ∃ p, t.parent = some p ∧ Target env t.state fs init p
  failure : ∀ rc, t.result = .error rc → ∀ p, t.parent = some p ↔ ∃ init last, names = init ++ [last] ∧
    Target env t.state fs init p ∧ (t.state.inodes p).type = .directory ∧
      ∀ a, ¬ Entry (env init.length) t.state p last a
  references : l.opened = l.closed + refs t.result + optRefs t.parent

lemma target_iff {env : ℕ → LookupEnv} {names : List CString} {a root : ℕ}
    (hr : icacheLookup (s.filesystems fs).icache (s.filesystems fs).root = some root) :
    Target env s fs names a ↔ Chain env s root 0 names a := by
  simp [Target, hr]

lemma traverseInFsLogged_spec (hc : CacheOpen s) (env : OpenEnv) (path : Buffer) {root : ℕ}
    (hroot : icacheLookup (s.filesystems fs).icache (s.filesystems fs).root = some root) :
    ∃ t l, traverseInFsLogged s env fs path = .ok (t, l) ∧ Grows s t.state ∧ CacheOpen t.state ∧
      WalkEnd env.walk t.state none root 0 (components path) t.result t.parent ∧
      (∀ p ∈ t.parent, Referenced t.state p) ∧ (∀ a, t.result = .ok a → Referenced t.state a) ∧
      l.opened = l.closed + refs t.result + optRefs t.parent := by
  have hr := hc _ _ _ hroot
  unfold traverseInFsLogged
  simp only [hroot]
  rcases openInodeLogged_spec s hr.allocated env.rootOpenRc with ⟨s₁, ho, hg₁, hr₁, hf₁⟩ | ⟨-, -, hz⟩
  · obtain ⟨t, l, ht, hg, hct, hend, hpar, hres, hbal⟩ :=
      @traverseLoopLogged_spec env.walk (components path) s₁ none root 0 (hc.grows hg₁ hf₁) nofun hr₁
    refine ⟨t, _, by simp only [ho, ht, ok_bind]; rfl, hg₁.trans hg, hct, hend, hpar, hres, ?_⟩
    have hnone : optRefs none = 0 := rfl
    rw [hnone, add_zero, add_comm] at hbal
    simpa only [Ledger.add, zero_add] using hbal
  · exact absurd hr.counted (by omega)

lemma Grows.rootInode {s' : VfsState} {root : ℕ} (hg : Grows s s')
    (h : icacheLookup (s.filesystems fs).icache (s.filesystems fs).root = some root) :
    icacheLookup (s'.filesystems fs).icache (s'.filesystems fs).root = some root := by
  rw [hg.root]
  exact hg.cached _ _ _ h

/-- `traverse_in_fs` returns for every path and every outcome of the lookups, and keeps its contract. -/
theorem traverseInFs_contract (hc : CacheOpen s) (env : OpenEnv) (fs : ℕ) (path : Buffer) :
    ∃ t l, traverseInFs s env fs path = .ok t ∧ traverseInFsLogged s env fs path = .ok (t, l) ∧
      TraverseContract env.walk fs (components path) t l := by
  have hlogged : ∃ t l, traverseInFsLogged s env fs path = .ok (t, l) ∧
      TraverseContract env.walk fs (components path) t l := by
    cases hroot : icacheLookup (s.filesystems fs).icache (s.filesystems fs).root with
    | none =>
      have hnone : ∀ names a, ¬ Target env.walk s fs names a := by
        rintro names a ⟨root, hr, -⟩
        rw [hroot] at hr
        cases hr
      refine ⟨⟨.error (-Err.noEnt), none, s⟩, .none, by simp only [traverseInFsLogged, hroot],
        fun a => ⟨nofun, fun h => absurd h (hnone _ _)⟩, nofun,
        nofun, fun rc _ p => ⟨nofun, ?_⟩, rfl⟩
      rintro ⟨init, last, -, ht, -⟩
      exact absurd ht (hnone _ _)
    | some root =>
      obtain ⟨t, l, ht, hg, -, hend, -, -, hbal⟩ := traverseInFsLogged_spec hc env path hroot
      have hroot' := hg.rootInode hroot
      refine ⟨t, l, ht, fun a => ?_, fun a ha hn => (hend.parent_found ha).1 hn, fun a init last ha hn => ?_,
        fun rc hrc p => ?_, hbal⟩
      · rw [target_iff hroot', hend.chain]
      · obtain ⟨p, hp, hchain⟩ := (hend.parent_found ha).2 init last hn
        exact ⟨p, hp, (target_iff hroot').mpr hchain⟩
      · rw [hend.parent_missing hrc, MissingFrom]
        simp only [target_iff hroot', zero_add]
  obtain ⟨t, l, ht, hcon⟩ := hlogged
  refine ⟨t, l, ?_, ht, hcon⟩
  rw [← traverseInFsLogged_fst, ht]
  rfl

/-- A filesystem with its root directory, which has the file `f`. -/
def rootOnly : VfsState :=
  ⟨fun _ => ⟨1, .directory, 0, 0, true⟩, 1, fun _ => ⟨[(0, 0)], 0⟩, [], [], [], []⟩

lemma rootOnly_open : CacheOpen rootOnly := by
  intro fs identifier a h
  obtain ⟨rfl, rfl⟩ := Prod.mk.inj (List.mem_singleton.mp (icacheLookup_mem h))
  exact ⟨Nat.one_pos, Nat.one_pos⟩

theorem traverseInFs_contract_file : ∃ t l,
    traverseInFs rootOnly ⟨fun _ => true, 0, fun _ => findFile, findFile, true⟩ 0 [0x66, 0, 0] = .ok t ∧
      t.result = .ok 1 ∧ t.parent = some 0 ∧ TraverseContract (fun _ => findFile) 0 [[0x66]] t l := by
  obtain ⟨t, l, ht, -, hcon⟩ := traverseInFs_contract rootOnly_open
    ⟨fun _ => true, 0, fun _ => findFile, findFile, true⟩ 0 [0x66, 0, 0]
  have hrun : (traverseInFs rootOnly ⟨fun _ => true, 0, fun _ => findFile, findFile, true⟩ 0 [0x66, 0, 0]).map
      (fun t => (t.result, t.parent)) = .ok (.ok 1, some 0) := rfl
  rw [ht] at hrun
  obtain ⟨hresult, hparent⟩ := Prod.mk.inj (Except.ok.inj hrun)
  exact ⟨t, l, ht, hresult, hparent, hcon⟩

end Contract

end Pi0Os.Vfs
