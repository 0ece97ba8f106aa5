import Pi0Os.Vfs.CanonicalPaths
import Pi0Os.Vfs.OpenCaches

/-! Files that `vfs_open` creates: the name that it gives them, and whether the path leads to them afterwards. -/

namespace Pi0Os.Vfs

open Kernel Byte Buffer VfsState

/-- A name that `canonicalize_path` keeps as it is. -/
structure PlainName (c : CString) : Prop where
  ne_nil : c ≠ []
  head : c.head? ≠ some dot
  inner : ¬ dotDot <:+: c

section Filename

variable {path q v y x seg : CString}

lemma filename_eq (hs : slash ∉ seg) (x : CString) : filename (x ++ slash :: seg) = seg := by
  have hall : ∀ c ∈ seg.reverse, decide (c ≠ slash) = true := fun c hc =>
    decide_eq_true fun h => hs (h ▸ List.mem_reverse.mp hc)
  rw [filename, List.reverse_append, List.reverse_cons, List.append_assoc, List.takeWhile_append_of_pos hall]
  simp

lemma exists_last_piece (h : slash ∈ path) : ∃ x seg, path = x ++ slash :: seg ∧ slash ∉ seg := by
  obtain ⟨seg, x, hrev, hs⟩ := List.eq_append_cons_of_mem (List.mem_reverse.mpr h)
  exact ⟨x.reverse, seg.reverse, by rw [← List.reverse_reverse path, hrev]; simp, fun hm => hs (List.mem_reverse.mp hm)⟩

/-- The `..` pass does not reach into a last piece without two dots in a row. -/
lemma eraseDotDot_last (hs : slash ∉ seg) (hd : ¬ dotDot <:+: seg) (x : CString) :
    ∃ z, eraseDotDot v y (x ++ slash :: seg) = z ++ slash :: seg := by
  generalize hrest : x ++ slash :: seg = rest
  induction v, y, rest using eraseDotDot.induct generalizing x with
  | case1 v y => exact absurd hrest (by simp)
  | case2 v y rest ih =>
    rw [eraseDotDot, if_pos rfl]
    cases x with
    | nil =>
      obtain ⟨-, rfl⟩ := List.cons.inj hrest
      have hplain := eraseDotDot_plain (v := slash :: y) (y := []) (w := []) hs hd (by simp)
      rw [List.append_nil] at hplain
      exact ⟨v ++ slash :: y, by simp [hplain, eraseDotDot]⟩
    | cons c x =>
      obtain ⟨-, rfl⟩ := List.cons.inj hrest
      obtain ⟨z, hz⟩ := ih x rfl
      exact ⟨v ++ z, by rw [hz, List.append_assoc]⟩
  | case3 v y c rest hc hdot ih =>
    rw [eraseDotDot, if_neg hc, if_pos hdot]
    obtain _ | ⟨c', x⟩ := x
    · exact absurd (List.cons.inj hrest).1.symm hc
    · obtain ⟨rfl, rfl⟩ := List.cons.inj hrest
      obtain _ | ⟨d, x⟩ := x
      · exact absurd (Option.some.inj hdot.2) slash_ne_dot
      · exact ih x rfl
  | case4 v y c rest hc hdot ih =>
    rw [eraseDotDot, if_neg hc, if_neg hdot]
    obtain _ | ⟨c', x⟩ := x
    · exact absurd (List.cons.inj hrest).1.symm hc
    · obtain ⟨rfl, rfl⟩ := List.cons.inj hrest
      exact ih x rfl

lemma residue_last (hs : slash ∉ seg) (hp : PlainName seg) (z : CString) :
    residue (z ++ slash :: seg) = residue z ++ [seg] := by
  rw [residue_append, residue_piece hs, stripDots_eq_self.mpr hp.head, names_of_notMem hs, if_neg hp.ne_nil]

lemma canonicalComponents_eq (hp : AbsolutePath path) :
    canonicalComponents path = residue (eraseDotDot [] [] (skipSlashes path).tail) := by
  obtain ⟨cpath, hc, he⟩ := @encodes_canonicalizePath _ (fun _ => true) hp.absolute hp.terminated rfl
  rw [canonicalComponents, hc]
  exact he.components

/-- The text behind the last separator is the last component exactly when it is a plain name. -/
lemma getLast?_canonicalComponents (hp : AbsolutePath path) :
    (canonicalComponents path).getLast? = some (filename path) ↔ PlainName (filename path) := by
  constructor
  · intro h
    obtain ⟨-, -, -, hcs⟩ := @canonicalizePath_components _ (fun _ => true) hp rfl
    have hname := hcs _ (List.mem_of_getLast? h)
    exact ⟨hname.ne_nil, hname.head, hname.inner⟩
  · intro hplain
    obtain ⟨q, rfl⟩ := List.head?_eq_some_iff.mp hp.absolute
    obtain ⟨q', hq, n, hpath⟩ := skipSlashes_absolute q
    obtain ⟨x, seg, hx, hs⟩ := @exists_last_piece (slash :: q') List.mem_cons_self
    have hfile : filename (slash :: q) = seg := by
      rw [hpath, hx, ← List.append_assoc]
      exact filename_eq hs _
    rw [hfile] at hplain ⊢
    rw [canonicalComponents_eq hp, hq, List.tail_cons]
    obtain ⟨z, hz⟩ : ∃ z, eraseDotDot [] [] q' = z ++ slash :: seg := by
      cases x with
      | nil =>
        obtain ⟨-, rfl⟩ := List.cons.inj hx
        have hplain' := eraseDotDot_plain (v := []) (y := []) (w := []) hs hplain.inner (by simp)
        rw [List.append_nil] at hplain'
        exact ⟨[], by simp [hplain', eraseDotDot]⟩
      | cons c x =>
        obtain ⟨-, rfl⟩ := List.cons.inj hx
        exact eraseDotDot_last hs hplain.inner x
    rw [hz, residue_last hs hplain, List.getLast?_concat]

end Filename

section MountPaths

variable {cs : List CString} {cpath : Buffer} {k : ℕ}

/-- What is left of a canonicalized path behind `k` bytes: nothing where the walk stops at once, or the rest of a
component and the components after it. -/
lemma components_drop_cases (hcs : ∀ c ∈ cs, c ≠ [] ∧ nul ∉ c) (hk : k ≤ (encode cs).length + 1) :
    (∀ left, components ((encode cs ++ nul :: nul :: left).drop k) = []) ∨
      ∃ bs c₀ c ds, cs = bs ++ (c₀ ++ c) :: ds ∧ c ≠ [] ∧ k = (encode bs).length + 1 + c₀.length ∧
        ∀ left, components ((encode cs ++ nul :: nul :: left).drop k) = c :: ds := by
  have hstop : ∀ r : Buffer, components (nul :: r) = [] := fun r => by simp [components, componentsFrom]
  induction cs generalizing k with
  | nil =>
    refine .inl fun left => ?_
    obtain rfl | rfl : k = 0 ∨ k = 1 := by simp at hk; omega
    · exact hstop _
    · exact hstop _
  | cons c₁ cs ih =>
    obtain ⟨hne, hn⟩ := hcs c₁ List.mem_cons_self
    obtain _ | j := k
    · exact .inl fun left => hstop _
    · have hdrop : ∀ left, (encode (c₁ :: cs) ++ nul :: nul :: left).drop (j + 1) =
          (c₁ ++ (encode cs ++ nul :: nul :: left)).drop j := fun left => by simp
      simp only [hdrop]
      rcases lt_or_ge j c₁.length with hj | hj
      · refine .inr ⟨[], c₁.take j, c₁.drop j, cs, by simp, ?_, by simp; omega, fun left => ?_⟩
        · rw [Ne, List.drop_eq_nil_iff]
          omega
        · rw [List.drop_append_of_le_length hj.le, components,
            componentsFrom_append fun h => hn (List.mem_of_mem_drop h), List.nil_append]
          refine componentsFrom_encode (fun d hd => hcs d (List.mem_cons_of_mem _ hd)) ?_ left
          rw [Ne, List.drop_eq_nil_iff]
          omega
      · obtain ⟨i, rfl⟩ := Nat.exists_eq_add_of_le hj
        have hdrop' : ∀ left, (c₁ ++ (encode cs ++ nul :: nul :: left)).drop (c₁.length + i) =
            (encode cs ++ nul :: nul :: left).drop i := fun left => by rw [← List.drop_drop, List.drop_left]
        simp only [hdrop']
        rcases ih (k := i) (fun d hd => hcs d (List.mem_cons_of_mem _ hd)) (by simp at hk; omega) with
          h | ⟨bs, c₀, c, ds, rfl, hc, hi, h⟩
        · exact .inl h
        · exact .inr ⟨c₁ :: bs, c₀, c, ds, rfl, hc, by simp [hi]; omega, h⟩

/-- Which mount points a path starts with is told by its components. -/
lemma startswith_mount (he : Encodes cpath cs) (mp : MountPoint ℕ) :
    canonicalizedPathStartswith cpath mp.path =
      .ok (decide (mp.pathSkip ≤ (encode cs).length + 1 ∧
        (encode cs).take (mp.pathSkip - 1) = mp.path.take (mp.pathSkip - 1))) := by
  obtain ⟨left, hlayout⟩ := he.layout
  rw [mp.startswith he.strlen]
  congr 2
  refine propext (and_congr_right fun hle => ?_)
  rw [hlayout, List.take_append_of_le_length (by omega)]

lemma canonicalizePath_cases {path : CString} {malloc : ℕ → Bool} (hp : AbsolutePath path) :
    canonicalizePath malloc path = .ok none ∨
      ∃ cpath, canonicalizePath malloc path = .ok (some cpath) ∧ Encodes cpath (canonicalComponents path) := by
  by_cases hm : malloc ((skipSlashes path).length + 2) = true
  · obtain ⟨cpath, hc, he, -⟩ := canonicalizePath_components hp hm
    exact .inr ⟨cpath, hc, he⟩
  · refine .inl ?_
    rw [canonicalizePath, if_pos hm]
    rfl

/-- The mount point found for a path: its path lies within the encoded components, and the walk behind it is that of
every path with these components. -/
lemma mountOf_found {path : CString} {malloc : ℕ → Bool} {mounts : List (MountPoint ℕ)} {mp : MountPoint ℕ}
    {rest : Buffer}
    (hp : AbsolutePath path) (h : mountOf malloc mounts path = .ok (.ok (mp, rest))) :
    mp.pathSkip ≤ (encode (canonicalComponents path)).length + 1 ∧
      (∃ left, rest = (encode (canonicalComponents path) ++ nul :: nul :: left).drop mp.pathSkip) ∧
      ∀ malloc' path', (∀ n, malloc' n = true) → AbsolutePath path' →
        canonicalComponents path' = canonicalComponents path →
          ∃ left, mountOf malloc' mounts path' =
            .ok (.ok (mp, (encode (canonicalComponents path) ++ nul :: nul :: left).drop mp.pathSkip)) := by
  rcases @canonicalizePath_cases _ malloc hp with hc | ⟨cpath, hc, he⟩
  · rw [mountOf, hc] at h
    cases h
  · rw [mountOf, hc, ok_bind] at h
    obtain ⟨found, hf, h⟩ := bind_eq_ok.mp h
    rcases findFirst_spec (fun m _ => startswith_mount he m) (l := mounts) with ⟨hnone, -⟩ | ⟨x, m, y, hl, hsome, -, hm⟩
    · obtain rfl := Except.ok.inj (hnone.symm.trans hf)
      cases h
    · obtain rfl := Except.ok.inj (hsome.symm.trans hf)
      cases h
      obtain ⟨left, hlayout⟩ := he.layout
      refine ⟨(of_decide_eq_true hm).1, ⟨left, by rw [hlayout]⟩, fun malloc' path' hm' hp' hcs => ?_⟩
      obtain ⟨cpath', hc', he', -⟩ := canonicalizePath_components hp' (hm' _)
      rw [hcs] at he'
      obtain ⟨left', hlayout'⟩ := he'.layout
      have hfilter : (fun m : MountPoint ℕ => canonicalizedPathStartswith cpath' m.path) =
          fun m => canonicalizedPathStartswith cpath m.path := by
        funext m
        rw [startswith_mount he', startswith_mount he]
      refine ⟨left', ?_⟩
      rw [← hlayout']
      simp only [mountOf, hc', ok_bind, hfilter, hsome]
      rfl

end MountPaths

section Creation

variable {s s' : VfsState} {env env' : OpenEnv} {path : CString} {flags : ℕ}

/-- A call of `vfs_open` with `OF_CREATE` that creates a file: `create_inode` makes it in the directory `parent`. -/
structure Creation (s : VfsState) (env : OpenEnv) (path : CString) (flags : ℕ) where
  mp : MountPoint ℕ
  rest : Buffer
  walk : Traversal
  rc : ℤ
  parent : ℕ
  temp : Inode
  inode : ℕ
  created : VfsState
  returned : ℤ
  after : VfsState
  create : flags &&& ofCreate ≠ 0
  selected : mountOf env.malloc s.mounts path = .ok (.ok (mp, rest))
  walked : traverseInFs s env mp.fs rest = .ok walk
  missing : walk.result = .error rc
  parent_eq : walk.parent = some parent
  answered : env.create.answer (filename path) = .ok temp
  regular : temp.type = .regularFile
  made : createInode walk.state env.create parent (filename path) = .ok (.ok inode, created)
  call : vfsOpen s env path flags = .ok (returned, after)

namespace Creation

variable (h : Creation s env path flags)

/-- How many directories the walk went through before the one that misses the name. -/
def depth : ℕ := (components h.rest).length - 1

/-- The answers of a later call: its allocations succeed, the directories on the way answer as before, and the one with
the new file has it. -/
structure Answers (env' : OpenEnv) : Prop where
  malloc : ∀ n, env'.malloc n = true
  custodyMem : env'.custodyMem
  above : ∀ i < h.depth, (env'.walk i).answer = (env.walk i).answer
  created : (env'.walk h.depth).answer (filename path) = .ok h.temp

/-- The file has the last component as its name, and every later call of `vfs_open` without `OF_CREATE` for a path with
the same components opens it. -/
structure Found : Prop where
  name : (canonicalComponents path).getLast? = some (filename path)
  opens : ∀ (later : VfsState) (env' : OpenEnv) (path' : CString) (flags' : ℕ), Grows h.after later → CacheOpen later →
    AbsolutePath path' → canonicalComponents path' = canonicalComponents path → h.Answers env' →
    flags' &&& ofCreate = 0 →
      ∃ s', vfsOpen later env' path' flags' = .ok (0, s') ∧ s'.custodies.getLast? = some ⟨h.inode, flags', 0⟩

/-- What the walk before the creation went through, as it stands after the call. -/
structure Led (start : ℕ) (init : List CString) (last : CString) : Prop where
  root : icacheLookup (h.after.filesystems h.mp.fs).icache (h.after.filesystems h.mp.fs).root = some start
  names : components h.rest = init ++ [last]
  chain : Chain env.walk h.after start 0 init h.parent
  dir : (h.after.inodes h.parent).type = .directory
  allocated : h.parent < h.after.nextInode
  regular : Referenced h.after h.inode ∧ (h.after.inodes h.inode).type = .regularFile
  cached : icacheLookup (h.after.filesystems (h.after.inodes h.parent).filesystem).icache h.temp.identifier =
    some h.inode

lemma led (hc : CacheOpen s) :
    Grows s h.after ∧ CacheOpen h.after ∧ ∃ root init last, h.Led root init last := by
  have hwalked := h.walked
  cases hroot : icacheLookup (s.filesystems h.mp.fs).icache (s.filesystems h.mp.fs).root with
  | none =>
    rw [traverseInFs, hroot] at hwalked
    have hpar := h.parent_eq
    rw [← Except.ok.inj hwalked] at hpar
    cases hpar
  | some root =>
    obtain ⟨t, l, ht, hg, hct, hend, hpar, -, -⟩ := traverseInFsLogged_spec hc env h.rest hroot
    rw [← traverseInFsLogged_fst, ht] at hwalked
    obtain rfl : t = h.walk := Except.ok.inj hwalked
    have hparent := hpar h.parent h.parent_eq
    obtain ⟨init, last, hnames, hchain, hdir, -⟩ := (hend.parent_missing h.missing h.parent).mp h.parent_eq
    obtain ⟨hg₁, hc₁⟩ := createInode_grows hct h.made
    obtain ⟨hr₁, temp, hans, htype, hentry⟩ := createInode_spec hct hparent.allocated h.made
    obtain rfl := Except.ok.inj (h.answered.symm.trans hans)
    -- the rest of the call keeps all of this
    have hcall := h.call
    have htraverse : traverse s env path = .ok h.walk := by
      rw [traverse, h.selected]
      exact h.walked
    rw [vfsOpen, htraverse, ok_bind] at hcall
    obtain ⟨⟨r, s₁⟩, hcreate, hcall⟩ := bind_eq_ok.mp hcall
    unfold createMissing at hcreate
    rw [h.missing, h.parent_eq] at hcreate
    simp only [if_pos h.create] at hcreate
    obtain ⟨-, hcreate⟩ := kassert_bind_eq_ok.mp hcreate
    obtain ⟨-, hcreate⟩ := kassert_bind_eq_ok.mp hcreate
    obtain ⟨rfl, rfl⟩ := Prod.mk.inj (Except.ok.inj (h.made.symm.trans hcreate))
    obtain ⟨hg₂, hc₂⟩ := openEnd_grows hc₁ hcall
    have hg₁₂ := hg₁.trans hg₂
    have hroot' := hg.rootInode hroot
    refine ⟨hg.trans hg₁₂, hc₂, root, init, last, hg₁₂.rootInode hroot', hnames, ?_, ?_, ?_, ⟨hr₁.grows hg₂, ?_⟩, ?_⟩
    · exact (hchain.grows hct (hct _ _ _ hroot').allocated hg₁₂).1
    · rw [hg₁₂.type _ hparent.allocated]
      exact hdir
    · exact (hparent.grows hg₁₂).allocated
    · rw [hg₂.type _ hr₁.allocated, htype, h.regular]
    · rw [hg₂.filesystem _ (hparent.grows hg₁).allocated]
      exact hg₂.cached _ _ _ hentry

end Creation

lemma vfsOpen_found {t : Traversal} {a : ℕ} (ht : traverse s env path = .ok t) (ha : t.result = .ok a)
    (htype : (t.state.inodes a).type = .regularFile) (hm : env.custodyMem) :
    ∃ s', vfsOpen s env path flags = .ok (0, s') ∧ s'.custodies.getLast? = some ⟨a, flags, 0⟩ := by
  have hcreate : createMissing env path flags t = .ok (.ok a, t.state) := by
    unfold createMissing
    rw [ha]
  have hdir : ¬ ((t.state.inodes a).type = .directory ∧ flags &&& ofDirectory = 0) := by
    rw [htype]
    exact fun h => by cases h.1
  refine ⟨{ t.state.logReturn a with custodies := t.state.custodies ++ [⟨a, flags, 0⟩] }, ?_, List.getLast?_concat⟩
  simp only [vfsOpen, ht, ok_bind, hcreate, if_neg hdir, hm, not_true_eq_false, if_false]
  rfl

lemma vfsOpen_missing {t : Traversal} {rc rc' : ℤ} (ht : traverse s env path = .ok t) (hres : t.result = .error rc)
    (hf : flags &&& ofCreate = 0) (h : vfsOpen s env path flags = .ok (rc', s')) : rc' = rc := by
  have hcreate : createMissing env path flags t = .ok (.error rc, t.state) := by
    unfold createMissing
    rw [hres, hf]
    cases t.parent <;> simp
  simp only [vfsOpen, ht, ok_bind, hcreate] at h
  obtain ⟨s₁, -, h⟩ := bind_eq_ok.mp h
  obtain ⟨s₂, -, h⟩ := bind_eq_ok.mp h
  cases h
  rfl

namespace Creation

variable {h : Creation s env path flags} {later : VfsState} {path' : CString} {start : ℕ} {init : List CString}
  {last : CString}

/-- The walk of a later call, along the same names from the same root. -/
lemma Led.later_walk (hled : h.Led start init last) (hp : AbsolutePath path) (hg₀ : Grows s h.after)
    (hg : Grows h.after later) (hc : CacheOpen later) (hp' : AbsolutePath path')
    (hcs : canonicalComponents path' = canonicalComponents path) (hm : ∀ n, env'.malloc n = true) :
    ∃ t, traverse later env' path' = .ok t ∧ Grows later t.state ∧ CacheOpen t.state ∧
      WalkEnd env'.walk t.state none start 0 (init ++ [last]) t.result t.parent := by
  obtain ⟨hskip, ⟨left, hrest⟩, hsame⟩ := mountOf_found hp h.selected
  obtain ⟨left', hm'⟩ := hsame env'.malloc path' hm hp' hcs
  obtain ⟨_, -, he, -⟩ := @canonicalizePath_components _ (fun _ => true) hp rfl
  have hnames : components ((encode (canonicalComponents path) ++ nul :: nul :: left').drop h.mp.pathSkip) =
      init ++ [last] := by
    rw [← hled.names, hrest]
    rcases components_drop_cases he.valid hskip with hnil | ⟨-, -, c, ds, -, -, -, hdrop⟩
    · rw [hnil, hnil]
    · rw [hdrop, hdrop]
  obtain ⟨t, l, ht, hgt, hct, hend, -⟩ := traverseInFsLogged_spec hc env'
    ((encode (canonicalComponents path) ++ nul :: nul :: left').drop h.mp.pathSkip) (hg.rootInode hled.root)
  rw [hnames] at hend
  refine ⟨t, ?_, hgt, hct, hend⟩
  rw [traverse, hg.mounts, hg₀.mounts, hm', ok_bind]
  change traverseInFs later env' h.mp.fs _ = _
  rw [← traverseInFsLogged_fst, ht]
  rfl

lemma Led.depth (hled : h.Led start init last) : h.depth = init.length := by
  rw [Creation.depth, hled.names]
  simp

/-- The mount path ends before the last component exactly when the walk looks for the whole of it. -/
lemma Led.last_whole (hled : h.Led start init last) (hp : AbsolutePath path) :
    h.mp.pathSkip ≤ (encode (canonicalComponents path).dropLast).length + 1 ↔
      (canonicalComponents path).getLast? = some last := by
  obtain ⟨hskip, ⟨left, hrest⟩, -⟩ := mountOf_found hp h.selected
  obtain ⟨_, -, he, -⟩ := @canonicalizePath_components _ (fun _ => true) hp rfl
  have hnames := hled.names
  rw [hrest] at hnames
  rcases components_drop_cases he.valid hskip with hnil | ⟨bs, c₀, c, ds, hcs, -, hk, hdrop⟩
  · rw [hnil] at hnames
    exact absurd hnames.symm (by simp)
  · rw [hdrop] at hnames
    rw [hcs, hk]
    rcases List.eq_nil_or_concat' ds with rfl | ⟨ds, d, rfl⟩
    · obtain ⟨-, hlast⟩ := @List.append_inj' _ [] _ _ _ hnames rfl
      obtain rfl : c = last := (List.cons.inj hlast).1
      rw [List.dropLast_concat, List.getLast?_concat, Option.some_inj]
      constructor
      · intro hle
        have hc₀ : c₀ = [] := List.length_eq_zero_iff.mp (by omega)
        rw [hc₀, List.nil_append]
      · intro hlast
        have hlen := congrArg List.length hlast
        rw [List.length_append] at hlen
        omega
    · obtain ⟨-, rfl⟩ : c :: ds = init ∧ d = last := by
        have hsplit : c :: ds ++ [d] = init ++ [last] := hnames
        obtain ⟨hinit, hlast⟩ := List.append_inj' hsplit rfl
        exact ⟨hinit, (List.cons.inj hlast).1⟩
      have hconcat : bs ++ (c₀ ++ c) :: (ds ++ [d]) = (bs ++ (c₀ ++ c) :: ds) ++ [d] := by simp
      rw [hconcat, List.dropLast_concat, List.getLast?_concat]
      refine iff_of_true ?_ rfl
      rw [encode_append, encode_cons]
      simp
      omega

end Creation

/-- A created file is found again exactly when the text behind the last separator is a plain name, and the mount path
ends before the last component. -/
theorem createdFile_found_iff (hp : AbsolutePath path) (hc : CacheOpen s) (h : Creation s env path flags) :
    h.Found ↔ PlainName (filename path) ∧
      h.mp.pathSkip ≤ (encode (canonicalComponents path).dropLast).length + 1 := by
  obtain ⟨hg₀, hc₀, start, init, last, hled⟩ := h.led hc
  rw [hled.last_whole hp]
  constructor
  · rintro ⟨hname, hopens⟩
    refine ⟨(getLast?_canonicalComponents hp).mp hname, ?_⟩
    rw [hname]
    refine congrArg some ?_
    by_contra hne
    -- a call after which the directory has the created file only
    let env' : OpenEnv := ⟨fun _ => true, 0, fun i => ⟨⟨true, 0, true⟩, if i < h.depth then (env.walk i).answer else
      fun name => if name = filename path then .ok h.temp else .error (-Err.noEnt)⟩, env.create, true⟩
    have hans : h.Answers env' :=
      ⟨fun _ => rfl, rfl, fun i hi => if_pos hi, by simp only [env', lt_irrefl, if_false, if_true]⟩
    obtain ⟨t, ht, hgt, hct, hend⟩ := hled.later_walk hp hg₀ (.refl _) hc₀ hp rfl hans.malloc
    obtain ⟨s', hcall, -⟩ := hopens h.after env' path 0 (.refl _) hc₀ hp rfl hans rfl
    cases hres : t.result with
    | error rc => exact hend.error_ne hres (vfsOpen_missing ht hres rfl hcall).symm
    | ok a =>
      obtain ⟨p, -, -, temp, hanswer, -⟩ := chain_concat.mp ((hend.chain a).mp hres)
      rw [zero_add, ← hled.depth] at hanswer
      simp only [env', lt_irrefl, if_false, if_neg (Ne.symm hne)] at hanswer
      cases hanswer
  · rintro ⟨hplain, hlast⟩
    have hname := (getLast?_canonicalComponents hp).mpr hplain
    obtain rfl : filename path = last := Option.some.inj (hname.symm.trans hlast)
    refine ⟨hname, fun later env' path' flags' hg hcl hp' hcs hans hf => ?_⟩
    obtain ⟨t, ht, hgt, hct, hend⟩ := hled.later_walk hp hg₀ hg hcl hp' hcs hans.malloc
    have hgl := hg.trans hgt
    have hstart := (hc₀ _ _ _ hled.root).allocated
    have habove : ∀ j < init.length, (env'.walk (0 + j)).answer = (env.walk (0 + j)).answer := fun j hj => by
      rw [zero_add]
      exact hans.above j (hled.depth ▸ hj)
    have hchain : Chain env'.walk t.state start 0 (init ++ [filename path]) h.inode := by
      refine chain_concat.mpr ⟨h.parent, (hled.chain.grows hc₀ hstart hgl).1.congr habove, ?_, h.temp, ?_, ?_⟩
      · rw [hgl.type _ hled.allocated]
        exact hled.dir
      · rw [zero_add, ← hled.depth]
        exact hans.created
      · rw [hgl.filesystem _ hled.allocated]
        exact hgl.cached _ _ _ hled.cached
    refine vfsOpen_found ht ((hend.chain _).mpr hchain) ?_ hans.custodyMem
    rw [hgl.type _ hled.regular.1.allocated]
    exact hled.regular.2

end Creation

section Examples

/-- A filesystem with its root directory, which is empty, mounted at `/`. -/
def emptyRoot : VfsState := { rootOnly with mounts := [⟨0, [nul, nul, nul], 1, rfl, Nat.one_pos⟩] }

lemma emptyRoot_open : CacheOpen emptyRoot := fun fs identifier a h =>
  ⟨(rootOnly_open fs identifier a h).allocated, (rootOnly_open fs identifier a h).counted⟩

def createEnv : OpenEnv :=
  ⟨fun _ => true, 0, fun _ => ⟨⟨true, 0, true⟩, fun _ => .error (-Err.noEnt)⟩, findFile, true⟩

/-- `vfs_open("/f", OF_CREATE)`. -/
theorem createdFile_found_plain : ∃ h : Creation emptyRoot createEnv [slash, 0x66] ofCreate, h.Found := by
  let h : Creation emptyRoot createEnv [slash, 0x66] ofCreate :=
    ⟨_, _, _, _, _, _, _, _, _, _, by decide, rfl, rfl, rfl, rfl, rfl, rfl, rfl, rfl⟩
  refine ⟨h, (createdFile_found_iff ⟨rfl, by decide⟩ emptyRoot_open h).mpr ⟨⟨by decide, by decide, ?_⟩, by decide⟩⟩
  decide

/-- `vfs_open("/.x", OF_CREATE)` creates `.x` after it looked for `x`. -/
theorem createdFile_dotName : ∃ h : Creation emptyRoot createEnv [slash, dot, 0x78] ofCreate, ¬ h.Found := by
  let h : Creation emptyRoot createEnv [slash, dot, 0x78] ofCreate :=
    ⟨_, _, _, _, _, _, _, _, _, _, by decide, rfl, rfl, rfl, rfl, rfl, rfl, rfl, rfl⟩
  exact ⟨h, fun hf => absurd hf.name (by decide)⟩

end Examples

end Pi0Os.Vfs
