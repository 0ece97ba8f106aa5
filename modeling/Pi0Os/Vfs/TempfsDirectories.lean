import Pi0Os.Library.PartialMap
import Pi0Os.Library.TransitionSystem
import Pi0Os.Vfs.Tempfs

/-! The directories of `tempfs.cpp` as finite maps from names to inodes. -/

namespace Pi0Os.Vfs.Tempfs

open Kernel Library

/-- The names bound in a directory with their inodes, in the order of the slots. -/
def entries (children : List Child) : List (CString × ℕ) :=
  children.filterMap fun child => child.inode.map fun a => (child.name, a)

def names (children : List Child) : List CString := (entries children).map Prod.fst

section Entries

variable {children : List Child} {child : Child} {name : CString} {a : ℕ} {i : ℕ}

lemma mem_entries : (name, a) ∈ entries children ↔ ∃ child ∈ children, child.inode = some a ∧ child.name = name := by
  simp [entries]

lemma findChild_eq_some (hd : (names children).Nodup) :
    (findChild name children).bind Child.inode = some a ↔ (name, a) ∈ entries children := by
  constructor
  · intro h
    obtain ⟨child, hfind, ha⟩ := Option.bind_eq_some_iff.mp h
    have hp := List.find?_some hfind
    simp only [decide_eq_true_eq] at hp
    exact mem_entries.mpr ⟨child, List.mem_of_find?_eq_some hfind, ha, hp.2⟩
  · intro h
    obtain ⟨child, hc, ha, hn⟩ := mem_entries.mp h
    have hsome : (findChild name children).isSome := by
      rw [findChild, List.find?_isSome]
      exact ⟨child, hc, by simp [ha, hn]⟩
    obtain ⟨other, hfind⟩ := Option.isSome_iff_exists.mp hsome
    have hp := List.find?_some hfind
    simp only [decide_eq_true_eq] at hp
    obtain ⟨b, hb⟩ := Option.isSome_iff_exists.mp hp.1
    -- two children of one name are the same entry
    have hother : (name, b) ∈ entries children := mem_entries.mpr ⟨other, List.mem_of_find?_eq_some hfind, hb, hp.2⟩
    rw [hfind, Option.bind_some, hb, (Prod.mk.inj (List.inj_on_of_nodup_map hd hother h rfl)).2]

lemma findChild_eq_none (hd : (names children).Nodup) :
    (findChild name children).bind Child.inode = none ↔ name ∉ names children := by
  rw [Option.eq_none_iff_forall_ne_some, names, List.mem_map]
  constructor
  · rintro h ⟨⟨n, a⟩, hm, rfl⟩
    exact h a ((findChild_eq_some hd).mpr hm)
  · intro h a ha
    exact h ⟨(name, a), (findChild_eq_some hd).mp ha, rfl⟩

lemma entries_set (h : children[i]? = some child) (hfree : child.inode = none) :
    (entries (children.set i ⟨name, some a⟩)).Perm ((name, a) :: entries children) := by
  obtain ⟨hlt, hget⟩ := List.getElem?_eq_some_iff.mp h
  have hsplit : children = children.take i ++ child :: children.drop (i + 1) := by
    rw [← hget, List.getElem_cons_drop, List.take_append_drop]
  have hset : children.set i ⟨name, some a⟩ = children.take i ++ ⟨name, some a⟩ :: children.drop (i + 1) :=
    List.set_eq_take_append_cons_drop.trans (if_pos hlt)
  have hold : entries children = entries (children.take i) ++ entries (children.drop (i + 1)) := by
    conv_lhs => rw [hsplit]
    simp [entries, hfree]
  rw [hset, hold]
  simp only [entries, List.filterMap_append, List.filterMap_cons, Option.map_some]
  exact List.perm_middle

lemma findFree_bound {freeIdx : ℕ} (h : name ∈ names children) :
    findFree name children i freeIdx = .error (-exist) := by
  induction children generalizing i freeIdx with
  | nil => cases h
  | cons child children ih =>
    rw [findFree]
    cases ha : child.inode with
    | none =>
      rw [if_pos rfl]
      refine ih ?_
      simpa [names, entries, ha] using h
    | some a =>
      rw [if_neg (by simp)]
      by_cases hn : child.name = name
      · rw [if_pos hn]
      · rw [if_neg hn]
        refine ih ?_
        have hcons : names (child :: children) = child.name :: names children := by simp [names, entries, ha]
        rw [hcons] at h
        exact (List.mem_cons.mp h).resolve_left (Ne.symm hn)

lemma findFree_unbound (i freeIdx : ℕ) (h : name ∉ names children) : ∃ r, findFree name children i freeIdx = .ok r ∧
    (r = freeIdx ∧ (∀ child ∈ children, child.inode ≠ none) ∨
      ∃ k child, children[k]? = some child ∧ child.inode = none ∧ r = i + k) := by
  induction children generalizing i freeIdx with
  | nil => exact ⟨freeIdx, rfl, Or.inl ⟨rfl, by simp⟩⟩
  | cons child children ih =>
    rw [findFree]
    cases ha : child.inode with
    | none =>
      rw [if_pos rfl]
      have hrest : name ∉ names children := by simpa [names, entries, ha] using h
      obtain ⟨r, hr, ⟨rfl, -⟩ | ⟨k, other, hk, hfree, rfl⟩⟩ := ih (i + 1) i hrest
      · exact ⟨r, hr, Or.inr ⟨0, child, rfl, ha, rfl⟩⟩
      · exact ⟨_, hr, Or.inr ⟨k + 1, other, hk, hfree, by omega⟩⟩
    | some a =>
      have hcons : names (child :: children) = child.name :: names children := by simp [names, entries, ha]
      rw [hcons, List.mem_cons, not_or] at h
      rw [if_neg (by simp), if_neg (Ne.symm h.1)]
      obtain ⟨r, hr, ⟨rfl, hall⟩ | ⟨k, other, hk, hfree, rfl⟩⟩ := ih (i + 1) freeIdx h.2
      · refine ⟨r, hr, Or.inl ⟨rfl, fun c hc => ?_⟩⟩
        rcases List.mem_cons.mp hc with rfl | hc
        · simp [ha]
        · exact hall c hc
      · exact ⟨_, hr, Or.inr ⟨k + 1, other, hk, hfree, by omega⟩⟩

end Entries

structure Directories where
  ctx : TempfsCtx
  icache : ℕ → Option SizedInode
  -- ghost: the map that each directory stands for
  maps : ℕ → Option (CString → Option ℕ)

/-- The binding goes, and with it the map of what was bound. -/
def unbind (maps : ℕ → Option (CString → Option ℕ)) (dir : ℕ) (name : CString) : ℕ → Option (CString → Option ℕ) :=
  match maps dir with
  | none => maps
  | some m =>
    let rest := match m name with
      | none => maps
      | some a => Function.update maps a none
    Function.update rest dir (some (Function.update m name none))

inductive DirAct where
  | create (dir : ℕ) (name : CString) (type : InodeType) (mem : Option ℕ) (cached : Bool)
  | unlink (dir : ℕ) (name : CString)
  | lookup (dir : ℕ) (name : CString) (cached : Bool)
  | getdents (dir : ℕ) (offset : ℤ) (count : ℕ)

/-- Calls on directories whose inodes the VFS has cached; a new inode has an empty map when it is a directory. -/
inductive DirStep : Directories → DirAct → Directories → Prop
  | created {s dir name type mem cached self inode ctx' self'} : s.icache dir = some self → self.type = .directory →
      (∀ a ∈ mem, s.ctx.inodes a = none) → dirCreate s.ctx self mem name type = .ok (.ok inode, ctx', self') →
      DirStep s (.create dir name type mem cached) {
        ctx := ctx'
        icache := keepInode (Function.update s.icache dir (some self')) cached inode
        maps := Function.update
          (if type = .directory then Function.update s.maps inode.identifier (some fun _ => none) else s.maps) dir
          ((s.maps dir).map fun m => Function.update m name (some inode.identifier)) }
  | notCreated {s dir name type mem cached self rc ctx' self'} : s.icache dir = some self → self.type = .directory →
      dirCreate s.ctx self mem name type = .ok (.error rc, ctx', self') →
      DirStep s (.create dir name type mem cached)
        { s with ctx := ctx', icache := Function.update s.icache dir (some self') }
  | unlink {s dir name self rc ctx'} : s.icache dir = some self → self.type = .directory →
      dirUnlink s.ctx self name = .ok (rc, ctx') →
      DirStep s (.unlink dir name) { s with ctx := ctx', maps := if rc = 0 then unbind s.maps dir name else s.maps }
  | lookup {s dir name cached self inode} : s.icache dir = some self → self.type = .directory →
      dirInodeLookup s.ctx self name = .ok (.ok inode) →
      DirStep s (.lookup dir name cached) { s with icache := keepInode s.icache cached inode }
  | notFound {s dir name cached self rc} : s.icache dir = some self → self.type = .directory →
      dirInodeLookup s.ctx self name = .ok (.error rc) → DirStep s (.lookup dir name cached) s
  | getdents {s dir offset count self es} : s.icache dir = some self → self.type = .directory →
      dirGetdents s.ctx self offset count = .ok es → DirStep s (.getdents dir offset count) s

def directories (fs : ℕ) : TransitionSystem Directories DirAct where
  Init s := ∃ capacity root, s = ⟨create capacity root,
    Function.update (fun _ => none) root (some (onMount fs (create capacity root))),
    Function.update (fun _ => none) root (some fun _ => none)⟩
  Step := DirStep

/-- No `unlink` outside the root finds a file or an empty directory under the name. -/
def Kept (s : Directories) : DirAct → Prop
  | .unlink dir name => dir ≠ s.ctx.root → ∀ children a inode, s.ctx.inodes dir = some (.directory children) →
      (name, a) ∈ entries children → s.ctx.inodes a = some inode →
      ∃ grandchildren, inode = .directory grandchildren ∧ entries grandchildren ≠ []
  | _ => True

structure DirectoryWellFormed (children : List Child) : Prop where
  length : children.length = maxChildren
  nodup : (names children).Nodup
  name_le : ∀ name ∈ names children, name.length ≤ maxNameLen

structure DirInv (s : Directories) : Prop where
  maps : ∀ dir m, s.maps dir = some m → ∃ children, s.ctx.inodes dir = some (.directory children) ∧
    ∀ name a, m name = some a ↔ (name, a) ∈ entries children
  mapped : ∀ dir children, s.ctx.inodes dir = some (.directory children) → (s.maps dir).isSome
  wellFormed : ∀ dir children, s.ctx.inodes dir = some (.directory children) → DirectoryWellFormed children
  live : ∀ dir children, s.ctx.inodes dir = some (.directory children) →
    ∀ name a, (name, a) ∈ entries children → (s.ctx.inodes a).isSome
  cached : ∀ a self, s.icache a = some self → self.identifier = a ∧
    ∃ inode, s.ctx.inodes a = some inode ∧ self.type = inode.type

section Steps

variable {s : Directories} {a dir freeIdx : ℕ} {self : SizedInode} {children : List Child} {child : Child}
  {name : CString} {type : InodeType}

lemma wellFormed_empty_directory : DirectoryWellFormed (List.replicate maxChildren ⟨[], none⟩) := by
  have hentries : entries (List.replicate maxChildren ⟨[], none⟩) = [] := rfl
  refine ⟨List.length_replicate, ?_, ?_⟩ <;> simp [names, hentries]

lemma DirectoryWellFormed.set (h : DirectoryWellFormed children) (hslot : children[freeIdx]? = some child)
    (hfree : child.inode = none) (hname : name ∉ names children) (hlen : name.length ≤ maxNameLen) :
    DirectoryWellFormed (children.set freeIdx ⟨name, some a⟩) := by
  have hperm : (names (children.set freeIdx ⟨name, some a⟩)).Perm (name :: names children) :=
    (entries_set hslot hfree).map Prod.fst
  refine ⟨List.length_set.trans h.length, ?_, ?_⟩
  · rw [hperm.nodup_iff]
    exact List.nodup_cons.mpr ⟨hname, h.nodup⟩
  · intro n hn
    rcases List.mem_cons.mp (hperm.mem_iff.mp hn) with rfl | hn
    · exact hlen
    · exact h.name_le n hn

lemma DirInv.directory (h : DirInv s) (hself : s.icache dir = some self) (htype : self.type = .directory) :
    self.identifier = dir ∧ ∃ children, s.ctx.inodes dir = some (.directory children) := by
  obtain ⟨hid, inode, hinode, htype'⟩ := h.cached dir self hself
  cases inode with
  | regularFile file => cases htype.symm.trans htype'
  | directory children => exact ⟨hid, children, hinode⟩

lemma findFree_ok (hfree : findFree name children 0 maxChildren = .ok freeIdx)
    (hfull : freeIdx ≠ maxChildren) :
    name ∉ names children ∧ ∃ child, children[freeIdx]? = some child ∧ child.inode = none := by
  have hname : name ∉ names children := by
    intro hm
    rw [findFree_bound hm] at hfree
    cases hfree
  obtain ⟨r, hr, ⟨rfl, -⟩ | ⟨k, child, hk, hnone, rfl⟩⟩ := findFree_unbound 0 maxChildren hname
  · cases hr.symm.trans hfree
    exact absurd rfl hfull
  · cases hr.symm.trans hfree
    exact ⟨hname, child, by rwa [zero_add], hnone⟩

lemma newInode_eq_directory {cs : List Child} (htype : type = .regularFile ∨ type = .directory)
    (h : newInode type = .directory cs) : type = .directory ∧ cs = List.replicate maxChildren ⟨[], none⟩ := by
  rcases htype with rfl | rfl
  · cases h
  · exact ⟨rfl, (TempInode.directory.inj h).symm⟩

lemma wellFormed_addChild {ctx : TempfsCtx}
    (h : ∀ b cs, ctx.inodes b = some (.directory cs) → DirectoryWellFormed cs)
    (hdir : ctx.inodes dir = some (.directory children)) (hslot : children[freeIdx]? = some child)
    (hfree : child.inode = none) (hname : name ∉ names children) (hlen : name.length ≤ maxNameLen)
    (htype : type = .regularFile ∨ type = .directory) {b : ℕ} {cs : List Child}
    (hb : (ctx.addChild dir children freeIdx name a type).inodes b = some (.directory cs)) :
    DirectoryWellFormed cs := by
  rcases addChild_inodes hb with ⟨-, he⟩ | ⟨-, -, he⟩ | ⟨-, -, hb'⟩
  · rw [List.take_of_length_le hlen] at he
    obtain rfl := TempInode.directory.inj he
    exact (h dir children hdir).set hslot hfree hname hlen
  · rw [(newInode_eq_directory htype he.symm).2]
    exact wellFormed_empty_directory
  · exact h b cs hb'

lemma DirInv.addChild (h : DirInv s) (hself : s.icache dir = some self)
    (hdir : s.ctx.inodes dir = some (.directory children))
    (hnew : s.ctx.inodes a = none) (hslot : children[freeIdx]? = some child) (hfree : child.inode = none)
    (hname : name ∉ names children) (hlen : name.length ≤ maxNameLen) (htype : type = .regularFile ∨ type = .directory)
    (size : ℕ) :
    DirInv { ctx := s.ctx.addChild dir children freeIdx name a type
             icache := Function.update s.icache dir (some { self with size := size })
             maps := Function.update
               (if type = .directory then Function.update s.maps a (some fun _ => none) else s.maps) dir
               ((s.maps dir).map fun m => Function.update m name (some a)) } := by
  have hne : dir ≠ a := ne_of_eq_some hnew hdir
  have htake : name.take maxNameLen = name := List.take_of_length_le hlen
  have hmem : ∀ n x, (n, x) ∈ entries (children.set freeIdx ⟨name, some a⟩) ↔ n = name ∧ x = a ∨
    (n, x) ∈ entries children := by
    intro n x
    rw [(entries_set hslot hfree).mem_iff, List.mem_cons, Prod.mk.injEq]
  have hdir' : (s.ctx.addChild dir children freeIdx name a type).inodes dir =
      some (.directory (children.set freeIdx ⟨name, some a⟩)) := by
    rw [TempfsCtx.addChild, htake]
    exact Function.update_self ..
  have hlive : ∀ b, (s.ctx.inodes b).isSome → ((s.ctx.addChild dir children freeIdx name a type).inodes b).isSome := by
    intro b hb
    by_cases hbd : b = dir
    · rw [hbd, hdir']
      rfl
    · obtain ⟨inode, hinode⟩ := Option.isSome_iff_exists.mp hb
      rw [addChild_kept hnew hbd hinode]
      rfl
  constructor
  · intro b m hb
    obtain ⟨rfl, hm⟩ | ⟨hbd, hb'⟩ := update_eq_some.mp hb
    · obtain ⟨m₀, hm₀, rfl⟩ := Option.map_eq_some_iff.mp hm
      obtain ⟨cs, hcs, hbind⟩ := h.maps b m₀ hm₀
      cases hdir.symm.trans hcs
      refine ⟨_, hdir', fun n x => ?_⟩
      rw [hmem, ← hbind]
      by_cases hn : n = name
      · subst hn
        have hold : m₀ n ≠ some x := fun hx => hname (List.mem_map.mpr ⟨_, (hbind n x).mp hx, rfl⟩)
        simp [hold, eq_comm]
      · simp [hn]
    · by_cases hdirectory : type = .directory
      · rw [if_pos hdirectory] at hb'
        obtain ⟨rfl, rfl⟩ | ⟨-, hb''⟩ := update_some_eq_some.mp hb'
        · refine ⟨List.replicate maxChildren ⟨[], none⟩, (addChild_new hne).trans ?_, fun n x => ?_⟩
          · rw [hdirectory]
            rfl
          · have hentries : entries (List.replicate maxChildren ⟨[], none⟩) = [] := rfl
            simp [hentries]
        · obtain ⟨cs, hcs, hbind⟩ := h.maps b m hb''
          exact ⟨cs, addChild_kept hnew hbd hcs, hbind⟩
      · rw [if_neg hdirectory] at hb'
        obtain ⟨cs, hcs, hbind⟩ := h.maps b m hb'
        exact ⟨cs, addChild_kept hnew hbd hcs, hbind⟩
  · intro b cs hb
    dsimp only
    rcases addChild_inodes hb with ⟨rfl, -⟩ | ⟨hbd, rfl, he⟩ | ⟨hbd, hba, hb'⟩
    · rw [Function.update_self, Option.isSome_map]
      exact h.mapped b children hdir
    · rw [Function.update_of_ne hbd, if_pos (newInode_eq_directory htype he.symm).1, Function.update_self]
      rfl
    · rw [Function.update_of_ne hbd]
      have hold := h.mapped b cs hb'
      split
      · rwa [Function.update_of_ne hba]
      · exact hold
  · exact fun b cs hb => wellFormed_addChild h.wellFormed hdir hslot hfree hname hlen htype hb
  · intro b cs hb n x hx
    rcases addChild_inodes hb with ⟨-, he⟩ | ⟨-, -, he⟩ | ⟨-, -, hb'⟩
    · rw [htake] at he
      obtain rfl := TempInode.directory.inj he
      rcases (hmem n x).mp hx with ⟨-, rfl⟩ | hx'
      · dsimp only
        rw [addChild_new hne]
        rfl
      · exact hlive x (h.live dir children hdir n x hx')
    · rw [(newInode_eq_directory htype he.symm).2] at hx
      cases hx
    · exact hlive x (h.live b cs hb' n x hx)
  · intro b self' hb
    obtain ⟨rfl, rfl⟩ | ⟨hbd, hb'⟩ := update_some_eq_some.mp hb
    · obtain ⟨hid, inode, hinode, htype'⟩ := h.cached b self hself
      cases hdir.symm.trans hinode
      exact ⟨hid, _, hdir', htype'⟩
    · obtain ⟨hid, inode, hinode, htype'⟩ := h.cached b self' hb'
      exact ⟨hid, inode, addChild_kept hnew hbd hinode, htype'⟩

lemma DirInv.keep (h : DirInv s) {fs : ℕ} {inode : TempInode} (hinode : s.ctx.inodes a = some inode) (cached : Bool) :
    DirInv { s with icache := keepInode s.icache cached (fillInode fs a inode) } := by
  refine ⟨h.maps, h.mapped, h.wellFormed, h.live, fun b self hb => ?_⟩
  dsimp only at hb
  rw [keepInode] at hb
  split at hb
  · obtain ⟨rfl, rfl⟩ | ⟨-, hb'⟩ := update_some_eq_some.mp hb
    · exact ⟨rfl, inode, hinode, rfl⟩
    · exact h.cached b self hb'
  · exact h.cached b self hb

end Steps

section Calls

variable {ctx : TempfsCtx} {self : SizedInode} {children : List Child} {name : CString} {type : InodeType}
  {mem : Option ℕ}

lemma length_entries_of_full (h : ∀ child ∈ children, child.inode ≠ none) :
    (entries children).length = children.length := by
  induction children with
  | nil => rfl
  | cons child children ih =>
    obtain ⟨a, ha⟩ := Option.ne_none_iff_exists'.mp (h child List.mem_cons_self)
    have hcons : entries (child :: children) = (child.name, a) :: entries children := by simp [entries, ha]
    rw [hcons, List.length_cons, List.length_cons, ih fun c hc => h c (List.mem_cons_of_mem _ hc)]

lemma dirCreate_bound (hdir : ctx.inodes self.identifier = some (.directory children)) (htype : self.type = .directory)
    (hlen : name.length ≤ maxNameLen) (hsupported : type = .regularFile ∨ type = .directory)
    (hname : name ∈ names children) :
    dirCreate ctx self mem name type = .ok (.error (-exist), ctx, self) := by
  have hok : ¬ (type ≠ .regularFile ∧ type ≠ .directory) := by tauto
  rw [dirCreate, kassert_of htype, ok_bind, if_neg hlen.not_gt, if_neg hok, children_of hdir, ok_bind,
    findFree_bound hname]
  rfl

lemma dirCreate_unbound (mem : Option ℕ) (hdir : ctx.inodes self.identifier = some (.directory children))
    (htype : self.type = .directory)
    (hlen : name.length ≤ maxNameLen) (hsupported : type = .regularFile ∨ type = .directory)
    (hname : name ∉ names children)
    (hw : DirectoryWellFormed children) :
    (dirCreate ctx self mem name type = .ok (.error (-noSpace), ctx, self) ∧ (entries children).length = maxChildren) ∨
      (dirCreate ctx self mem name type = .ok (.error (-Err.noMem), ctx, self) ∧ mem = none) ∨
      ∃ a k child, mem = some a ∧ children[k]? = some child ∧ child.inode = none ∧
        dirCreate ctx self mem name type = .ok (.ok (fillInode self.filesystem a (newInode type)),
          ctx.addChild self.identifier children k name a type,
            { self with size := (self.size + direntSize) % 2 ^ 64 }) := by
  have hok : ¬ (type ≠ .regularFile ∧ type ≠ .directory) := by tauto
  rw [dirCreate, kassert_of htype, ok_bind, if_neg hlen.not_gt, if_neg hok, children_of hdir, ok_bind]
  obtain ⟨r, hr, ⟨rfl, hfull⟩ | ⟨k, child, hk, hfree, hrk⟩⟩ := findFree_unbound 0 maxChildren hname
  · rw [hr]
    exact Or.inl ⟨rfl, (length_entries_of_full hfull).trans hw.length⟩
  · obtain rfl : r = k := by rw [hrk, zero_add]
    obtain ⟨hlt, -⟩ := List.getElem?_eq_some_iff.mp hk
    rw [hw.length] at hlt
    rw [hr]
    dsimp only
    rw [if_neg hlt.ne]
    right
    cases mem with
    | none => exact Or.inl ⟨rfl, rfl⟩
    | some a => exact Or.inr ⟨a, r, child, rfl, hk, hfree, rfl⟩

lemma dirInodeLookup_bound {a : ℕ} {inode : TempInode} (hdir : ctx.inodes self.identifier = some (.directory children))
    (hw : DirectoryWellFormed children) (hname : (name, a) ∈ entries children) (hinode : ctx.inodes a = some inode) :
    dirInodeLookup ctx self name = .ok (.ok (fillInode self.filesystem a inode)) := by
  rw [dirInodeLookup, tempInode_of hdir, ok_bind]
  dsimp only
  rw [(findChild_eq_some hw.nodup).mpr hname]
  dsimp only
  rw [tempInode_of hinode]
  rfl

lemma dirInodeLookup_unbound (hdir : ctx.inodes self.identifier = some (.directory children))
    (hw : DirectoryWellFormed children) (hname : name ∉ names children) :
    dirInodeLookup ctx self name = .ok (.error (-Err.noEnt)) := by
  rw [dirInodeLookup, tempInode_of hdir, ok_bind]
  dsimp only
  rw [(findChild_eq_none hw.nodup).mpr hname]
  rfl

lemma any_isSome_iff : (children.any fun child => child.inode.isSome) = true ↔ entries children ≠ [] := by
  simp only [List.any_eq_true, entries, ne_eq, List.filterMap_eq_nil_iff, Option.map_eq_none_iff, not_forall,
    Option.isSome_iff_ne_none, exists_prop]

lemma dirUnlink_kept (hdir : ctx.inodes self.identifier = some (.directory children)) (htype : self.type = .directory)
    (hw : DirectoryWellFormed children) (hlive : ∀ n a, (n, a) ∈ entries children → (ctx.inodes a).isSome)
    (hkept : self.identifier ≠ ctx.root → ∀ a inode, (name, a) ∈ entries children → ctx.inodes a = some inode →
      ∃ grandchildren, inode = .directory grandchildren ∧ entries grandchildren ≠ []) :
    dirUnlink ctx self name = .ok (if self.identifier = ctx.root then -Err.inval else
      if name ∈ names children then -notEmpty else -Err.noEnt, ctx) := by
  rw [dirUnlink, kassert_of htype, ok_bind]
  by_cases hroot : self.identifier = ctx.root
  · rw [if_pos hroot.symm, if_pos hroot]
    rfl
  · rw [if_neg (Ne.symm hroot), if_neg hroot, children_of hdir, ok_bind]
    by_cases hname : name ∈ names children
    · obtain ⟨⟨n, a⟩, hm, rfl⟩ := List.mem_map.mp hname
      obtain ⟨inode, hinode⟩ := Option.isSome_iff_exists.mp (hlive n a hm)
      obtain ⟨grandchildren, rfl, hne⟩ := hkept hroot a inode hm hinode
      rw [(findChild_eq_some hw.nodup).mpr hm, if_pos hname]
      dsimp only
      rw [tempInode_of hinode, ok_bind]
      dsimp only
      rw [if_pos (any_isSome_iff.mpr hne)]
      rfl
    · rw [(findChild_eq_none hw.nodup).mpr hname, if_neg hname]
      rfl

/-- How many entries `getdents` passes over before it comes to the offset. -/
def skipped (offset : ℤ) : ℕ := ((offset + (direntSize - 1)) / direntSize).toNat

lemma skipped_of_pos {offset : ℤ} (h : 0 < offset) : skipped offset = skipped (offset - direntSize) + 1 := by
  simp only [skipped, direntSize]
  omega

lemma skipped_of_nonpos {offset : ℤ} (h : offset ≤ 0) : skipped offset = 0 := by
  simp only [skipped, direntSize]
  omega

def Dirent.entry (e : Dirent) : CString × ℕ := (e.name, e.ino)

lemma getdentsLoop_spec (offset : ℤ) (count : ℕ) (hlive : ∀ n a, (n, a) ∈ entries children → (ctx.inodes a).isSome)
    (hname : ∀ n ∈ names children, n.length ≤ maxNameLen) :
    ∃ es, getdentsLoop ctx children offset count = .ok es ∧
      es.map Dirent.entry = ((entries children).drop (skipped offset)).take count := by
  induction children generalizing offset count with
  | nil => exact ⟨[], rfl, by simp [entries]⟩
  | cons child children ih =>
    rw [getdentsLoop]
    by_cases hcount : count = 0
    · rw [if_pos hcount, hcount, List.take_zero]
      exact ⟨[], rfl, rfl⟩
    · rw [if_neg hcount]
      cases ha : child.inode with
      | none =>
        have hcons : entries (child :: children) = entries children := by simp [entries, ha]
        rw [names, hcons] at hname
        rw [hcons] at hlive ⊢
        exact ih offset count hlive hname
      | some a =>
        have hcons : entries (child :: children) = (child.name, a) :: entries children := by simp [entries, ha]
        rw [names, hcons, List.map_cons] at hname
        rw [hcons] at hlive ⊢
        have hlive' : ∀ n b, (n, b) ∈ entries children → (ctx.inodes b).isSome :=
          fun n b hb => hlive n b (List.mem_cons_of_mem _ hb)
        have hname' : ∀ n ∈ names children, n.length ≤ maxNameLen := fun n hn => hname n (List.mem_cons_of_mem _ hn)
        dsimp only
        by_cases hpos : offset > 0
        · rw [if_pos hpos, skipped_of_pos hpos, List.drop_succ_cons]
          exact ih _ _ hlive' hname'
        · obtain ⟨inode, hinode⟩ := Option.isSome_iff_exists.mp (hlive child.name a List.mem_cons_self)
          obtain ⟨es, hes, hmap⟩ := ih offset (count - 1) hlive' hname'
          have hskip := skipped_of_nonpos (not_lt.mp hpos)
          have hshort : child.name.take 255 = child.name :=
            List.take_of_length_le ((hname _ List.mem_cons_self).trans (by decide))
          rw [if_neg hpos, tempInode_of hinode, ok_bind, hes, ok_bind]
          refine ⟨_, rfl, ?_⟩
          rw [hskip, List.drop_zero] at hmap ⊢
          obtain ⟨n, rfl⟩ := Nat.exists_eq_succ_of_ne_zero hcount
          rw [List.map_cons, Dirent.entry, hshort, hmap, List.take_succ_cons]
          rfl

end Calls

lemma dirInv_initial (fs capacity root : ℕ) : DirInv ⟨create capacity root,
    Function.update (fun _ => none) root (some (onMount fs (create capacity root))),
    Function.update (fun _ => none) root (some fun _ => none)⟩ := by
  have hentries : entries (List.replicate maxChildren ⟨[], none⟩) = [] := rfl
  have hinode : ∀ a inode, (create capacity root).inodes a = some inode → a = root ∧ emptyDirectory = inode := by
    intro a inode ha
    have hroot : Function.update (fun _ => none) root (some emptyDirectory) a = some inode := ha
    obtain hr | ⟨-, he⟩ := update_some_eq_some.mp hroot
    · exact hr
    · cases he
  refine ⟨?_, ?_, ?_, ?_, ?_⟩
  · intro dir m hm
    dsimp only at hm
    obtain ⟨rfl, rfl⟩ | ⟨-, he⟩ := update_some_eq_some.mp hm
    · exact ⟨List.replicate maxChildren ⟨[], none⟩, by simp [create, emptyDirectory], by simp [hentries]⟩
    · cases he
  · intro dir children hdir
    obtain ⟨rfl, -⟩ := hinode dir _ hdir
    simp
  · intro dir children hdir
    obtain rfl := TempInode.directory.inj (hinode dir _ hdir).2
    exact wellFormed_empty_directory
  · intro dir children hdir name a ha
    obtain rfl := TempInode.directory.inj (hinode dir _ hdir).2
    cases ha
  · intro a self ha
    dsimp only at ha
    obtain ⟨rfl, rfl⟩ | ⟨-, he⟩ := update_some_eq_some.mp ha
    · exact ⟨rfl, emptyDirectory, by simp [create], rfl⟩
    · cases he

lemma directories_inductive {fs : ℕ} : ((directories fs).restrict Kept).Inductive DirInv := by
  constructor
  · rintro s ⟨capacity, root, rfl⟩
    exact dirInv_initial fs capacity root
  · rintro s act s' h ⟨hs, hkept⟩
    cases hs with
    | created hself htype hfresh hcreate =>
      obtain ⟨hid, -⟩ := h.directory hself htype
      rcases dirCreate_cases hcreate with
        ⟨rc, he, -⟩ | ⟨a, children, freeIdx, rfl, hsupported, hlen, hdir, hfree, hfull, he, rfl, rfl⟩
      · cases he
      · obtain rfl := Except.ok.inj he
        have hnew := hfresh a rfl
        obtain ⟨hname, child, hslot, hnone⟩ := findFree_ok hfree hfull
        rw [hid] at hdir ⊢
        refine (h.addChild hself hdir hnew hslot hnone hname hlen hsupported _).keep ?_ _
        exact (Function.update_of_ne (ne_of_eq_some hnew hdir).symm ..).trans (Function.update_self ..)
    | notCreated hself _ hcreate =>
      rcases dirCreate_cases hcreate with ⟨rc, -, rfl, rfl⟩ | ⟨_, _, _, -, -, -, -, -, -, he, -⟩
      · rw [Function.update_eq_self_iff.mpr hself.symm]
        exact h
      · cases he
    | unlink hself htype hunlink =>
      obtain ⟨hid, children, hdir⟩ := h.directory hself htype
      have he := dirUnlink_kept (hid.symm ▸ hdir) htype (h.wellFormed _ children hdir) (h.live _ children hdir)
        fun hroot a inode hm hinode => hkept (hid ▸ hroot) children a inode hdir hm hinode
      obtain ⟨hrc, rfl⟩ := Prod.mk.inj (Except.ok.inj (he.symm.trans hunlink))
      rw [if_neg]
      · exact h
      · rw [← hrc]
        split
        · decide
        · split <;> decide
    | lookup _ _ hlookup =>
      obtain ⟨_, a, found, -, -, hfound, rfl⟩ := dirInodeLookup_ok hlookup
      exact h.keep hfound _
    | notFound => exact h
    | getdents => exact h

/-- Each directory is the finite map that the calls so far have made of it, with live inodes only, and each
further call answers by this map. -/
structure DirectoriesRefine (s : Directories) : Prop where
  maps : ∀ dir m, s.maps dir = some m → ∃ children, s.ctx.inodes dir = some (.directory children) ∧
    ∀ name a, m name = some a ↔ (name, a) ∈ entries children
  mapped : ∀ dir children, s.ctx.inodes dir = some (.directory children) → (s.maps dir).isSome
  small : ∀ dir children, s.ctx.inodes dir = some (.directory children) →
    (names children).Nodup ∧ (names children).length ≤ maxChildren
  live : ∀ dir m name a, s.maps dir = some m → m name = some a → (s.ctx.inodes a).isSome
  creates : ∀ dir self m mem name type, s.icache dir = some self → s.maps dir = some m →
    name.length ≤ maxNameLen → type = .regularFile ∨ type = .directory →
    if (m name).isSome then dirCreate s.ctx self mem name type = .ok (.error (-exist), s.ctx, self)
    else (∃ rc, dirCreate s.ctx self mem name type = .ok (.error rc, s.ctx, self) ∧
        (rc = -noSpace ∧ (∃ children, s.ctx.inodes dir = some (.directory children) ∧
          (names children).length = maxChildren) ∨
          rc = -Err.noMem ∧ mem = none)) ∨
      ∃ a ctx' self', mem = some a ∧
        dirCreate s.ctx self mem name type = .ok (.ok (fillInode self.filesystem a (newInode type)), ctx', self')
  lookups : ∀ dir self m name, s.icache dir = some self → s.maps dir = some m →
    match m name with
    | none => dirInodeLookup s.ctx self name = .ok (.error (-Err.noEnt))
    | some a => ∃ inode, s.ctx.inodes a = some inode ∧
      dirInodeLookup s.ctx self name = .ok (.ok (fillInode self.filesystem a inode))
  unlinks : ∀ dir self m name, s.icache dir = some self → s.maps dir = some m → Kept s (.unlink dir name) →
    dirUnlink s.ctx self name = .ok (if dir = s.ctx.root then -Err.inval else
      if (m name).isSome then -notEmpty else -Err.noEnt, s.ctx)
  lists : ∀ dir self m offset count, s.icache dir = some self → s.maps dir = some m →
    ∃ (es : List Dirent) (bound : List (CString × ℕ)), dirGetdents s.ctx self offset count = .ok es ∧
      (bound.map Prod.fst).Nodup ∧
      (∀ name a, (name, a) ∈ bound ↔ m name = some a) ∧
      es.map Dirent.entry = (bound.drop (skipped offset)).take count

/-- In every run in which no `unlink` finds a file or an empty directory to remove. -/
theorem directories_refine {fs : ℕ} {s : Directories} (hreach : ((directories fs).restrict Kept).Reachable s) :
    DirectoriesRefine s := by
  have h := hreach.invariant directories_inductive
  have hsee : ∀ dir self m, s.icache dir = some self → s.maps dir = some m → ∃ children,
      self.type = .directory ∧ self.identifier = dir ∧ s.ctx.inodes dir = some (.directory children) ∧
      ∀ name a, m name = some a ↔ (name, a) ∈ entries children := by
    intro dir self m hself hm
    obtain ⟨children, hdir, hbind⟩ := h.maps dir m hm
    obtain ⟨hid, inode, hinode, htype⟩ := h.cached dir self hself
    obtain rfl := Option.some.inj (hdir.symm.trans hinode)
    exact ⟨children, htype, hid, hdir, hbind⟩
  have hnames : ∀ (m : CString → Option ℕ) children, (∀ name a, m name = some a ↔ (name, a) ∈ entries children) →
      ∀ name, (m name).isSome ↔ name ∈ names children := by
    intro m children hbind name
    rw [Option.isSome_iff_exists, names, List.mem_map]
    constructor
    · rintro ⟨a, ha⟩
      exact ⟨(name, a), (hbind name a).mp ha, rfl⟩
    · rintro ⟨⟨n, a⟩, hm, rfl⟩
      exact ⟨a, (hbind n a).mpr hm⟩
  refine ⟨h.maps, h.mapped, ?_, ?_, ?_, ?_, ?_, ?_⟩
  · intro dir children hdir
    have hw := h.wellFormed dir children hdir
    refine ⟨hw.nodup, ?_⟩
    rw [names, List.length_map, ← hw.length]
    exact List.length_filterMap_le ..
  · intro dir m name a hm ha
    obtain ⟨children, hdir, hbind⟩ := h.maps dir m hm
    exact h.live dir children hdir name a ((hbind name a).mp ha)
  · intro dir self m mem name type hself hm hlen hsupported
    obtain ⟨children, htype, hid, hdir, hbind⟩ := hsee dir self m hself hm
    have hdir' := hid.symm ▸ hdir
    split
    · rename_i hbound
      exact dirCreate_bound hdir' htype hlen hsupported ((hnames m children hbind name).mp hbound)
    · rename_i hbound
      have hname := fun hn => hbound ((hnames m children hbind name).mpr hn)
      rcases dirCreate_unbound mem hdir' htype hlen hsupported hname (h.wellFormed dir children hdir) with
        ⟨he, hfull⟩ | ⟨he, hmem⟩ | ⟨a, k, child, hmem, -, -, he⟩
      · exact Or.inl ⟨_, he, Or.inl ⟨rfl, children, hdir, by rw [names, List.length_map]; exact hfull⟩⟩
      · exact Or.inl ⟨_, he, Or.inr ⟨rfl, hmem⟩⟩
      · exact Or.inr ⟨a, _, _, hmem, he⟩
  · intro dir self m name hself hm
    obtain ⟨children, -, hid, hdir, hbind⟩ := hsee dir self m hself hm
    have hw := h.wellFormed dir children hdir
    cases ha : m name with
    | none =>
      refine dirInodeLookup_unbound (hid.symm ▸ hdir) hw fun hn => ?_
      have hsome := (hnames m children hbind name).mpr hn
      rw [ha] at hsome
      cases hsome
    | some a =>
      have hm' := (hbind name a).mp ha
      obtain ⟨inode, hinode⟩ := Option.isSome_iff_exists.mp (h.live dir children hdir name a hm')
      exact ⟨inode, hinode, dirInodeLookup_bound (hid.symm ▸ hdir) hw hm' hinode⟩
  · intro dir self m name hself hm hkept
    obtain ⟨children, htype, hid, hdir, hbind⟩ := hsee dir self m hself hm
    have he := dirUnlink_kept (hid.symm ▸ hdir) htype (h.wellFormed dir children hdir) (h.live dir children hdir)
      fun hroot a inode hn hinode => hkept (hid ▸ hroot) children a inode hdir hn hinode
    rw [he, hid]
    simp only [hnames m children hbind name]
  · intro dir self m offset count hself hm
    obtain ⟨children, -, hid, hdir, hbind⟩ := hsee dir self m hself hm
    have hw := h.wellFormed dir children hdir
    obtain ⟨es, hes, hmap⟩ := getdentsLoop_spec offset count (h.live dir children hdir) hw.name_le
    refine ⟨es, entries children, ?_, hw.nodup, fun name a => (hbind name a).symm, hmap⟩
    rw [dirGetdents, children_of (hid.symm ▸ hdir), ok_bind]
    exact hes

section Example

def mountedRoot : Directories :=
  ⟨create 1024 1, Function.update (fun _ => none) 1 (some (onMount 0 (create 1024 1))),
    Function.update (fun _ => none) 1 (some fun _ => none)⟩

/-- The directory `d` at the address 9 in the root, and nothing in it. -/
def withDirectory : Directories where
  ctx := (create 1024 1).addChild 1 (List.replicate maxChildren ⟨[], none⟩) 15 [0x64] 9 .directory
  icache := keepInode (Function.update mountedRoot.icache 1 (some { onMount 0 (create 1024 1) with size := 272 })) true
    (fillInode 0 9 (newInode .directory))
  maps := Function.update (Function.update mountedRoot.maps 9 (some fun _ => none)) 1
    ((mountedRoot.maps 1).map fun m => Function.update m [0x64] (some 9))

def withFileInside : Directories where
  ctx := withDirectory.ctx.addChild 9 (List.replicate maxChildren ⟨[], none⟩) 15 [0x66] 10 .regularFile
  icache := keepInode (Function.update withDirectory.icache 9
    (some { fillInode 0 9 (newInode .directory) with size := 272 }))
    true (fillInode 0 10 (newInode .regularFile))
  maps := Function.update withDirectory.maps 9 ((withDirectory.maps 9).map fun m => Function.update m [0x66] (some 10))

lemma withDirectory_step : DirStep mountedRoot (.create 1 [0x64] .directory (some 9) true) withDirectory := by
  have hcreate : dirCreate mountedRoot.ctx (onMount 0 (create 1024 1)) (some 9) [0x64] .directory =
    .ok (.ok (fillInode 0 9 (newInode .directory)), withDirectory.ctx,
      { onMount 0 (create 1024 1) with size := 272 }) := rfl
  exact .created (s := mountedRoot) rfl rfl (by simp [mountedRoot, create]) hcreate

lemma withFileInside_step : DirStep withDirectory (.create 9 [0x66] .regularFile (some 10) true) withFileInside := by
  have hcreate : dirCreate withDirectory.ctx (fillInode 0 9 (newInode .directory)) (some 10) [0x66] .regularFile =
    .ok (.ok (fillInode 0 10 (newInode .regularFile)), withFileInside.ctx,
      { fillInode 0 9 (newInode .directory) with size := 272 }) := rfl
  exact .created (s := withDirectory) rfl rfl
    (by simp [withDirectory, TempfsCtx.addChild, TempfsCtx.setInode, create]) hcreate

lemma withFileInside_reachable : ((directories 0).restrict Kept).Reachable withFileInside := by
  have h₀ : ((directories 0).restrict Kept).Reachable mountedRoot := .init ⟨1024, 1, rfl⟩
  exact (h₀.step ⟨withDirectory_step, trivial⟩).step ⟨withFileInside_step, trivial⟩

theorem directories_refine_withFileInside : DirectoriesRefine withFileInside :=
  directories_refine withFileInside_reachable

/-- The file is freed, and its slot still names it. -/
theorem unlink_leaves_slot : ∃ s, (directories 0).Reachable s ∧ ¬ DirectoriesRefine s := by
  have h₀ : (directories 0).Reachable mountedRoot := .init ⟨1024, 1, rfl⟩
  have h₂ : (directories 0).Reachable withFileInside := (h₀.step withDirectory_step).step withFileInside_step
  have hunlink : dirUnlink withFileInside.ctx { fillInode 0 9 (newInode .directory) with size := 272 } [0x66] =
    .ok (0, withFileInside.ctx.setInode 10 none) := rfl
  have hstep : DirStep withFileInside (.unlink 9 [0x66]) _ := .unlink rfl rfl hunlink
  refine ⟨_, h₂.step hstep, fun h => ?_⟩
  obtain ⟨children, hdir, hbind⟩ := h.maps 9 _ rfl
  obtain rfl : (List.replicate maxChildren ⟨[], none⟩).set 15 ⟨[0x66], some 10⟩ = children :=
    TempInode.directory.inj (Option.some.inj hdir)
  have hbound := (hbind [0x66] 10).mpr (List.mem_singleton.mpr rfl)
  cases hbound

end Example

end Pi0Os.Vfs.Tempfs
