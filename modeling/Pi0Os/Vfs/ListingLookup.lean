import Mathlib.Data.List.TakeWhile
import Pi0Os.Vfs.DirectoryListing
import Pi0Os.Vfs.TempfsDirectories

/-! `lookup` beside `getdents`: when what a directory lists is what its lookups find. -/

namespace Pi0Os.Vfs

open Kernel Byte Library
open Tempfs (Dirent direntSize SizedInode Child)

namespace Fat32

namespace DirectoryEntry

variable (e : DirectoryEntry)

/-- The name up to case. -/
def lowerName : CString := e.entryName.map tolower

variable {e}

lemma length_entryName : e.entryName.length ≤ 13 := by
  have hname : ((e.name.take 8).takeWhile (· ≠ 0x20)).length ≤ 8 :=
    (List.takeWhile_sublist _).length_le.trans (List.length_take_le _ _)
  have hext : (((e.name.drop 8).take 3).takeWhile (· ≠ 0x20)).length ≤ 3 :=
    (List.takeWhile_sublist _).length_le.trans (List.length_take_le _ _)
  refine (List.takeWhile_sublist _).length_le.trans ?_
  rw [copyEntryName]
  rw [List.length_append, List.length_append, List.length_singleton]
  split_ifs
  · rw [List.length_nil]
    omega
  · rw [List.length_cons]
    omega

lemma dirent_eq (identifier : ℕ) : e.dirent identifier = ⟨identifier, e.inodeType, e.entryName⟩ := by
  have hshort : e.entryName.take 255 = e.entryName :=
    List.take_of_length_le (length_entryName.trans (by decide))
  rw [dirent, ← entryName, hshort]
  rfl

lemma nul_notMem_entryName : nul ∉ e.entryName := by
  intro h
  have hne := List.mem_takeWhile_imp h
  simp at hne

lemma strcasecmp_entryName {f : DirectoryEntry} : strcasecmp e.entryName f.entryName = 0 ↔ e.lowerName = f.lowerName :=
  strcasecmp_eq_zero nul_notMem_entryName nul_notMem_entryName

end DirectoryEntry

/-- The first entry of the name. -/
def firstNamed (name : CString) (es : List DirectoryEntry) : Option DirectoryEntry :=
  es.find? fun e => strcasecmp name e.entryName = 0

lemma runEntries_lookup (fs : ℕ) (name : CString) (es : List DirectoryEntry) (idx : ℕ) :
    (runEntries (lookupCallback fs name) es idx none).1 = (firstNamed name es).isSome ∧
      (runEntries (lookupCallback fs name) es idx none).2.2 = (firstNamed name es).map fun e => e.inode fs := by
  induction es generalizing idx with
  | nil => exact ⟨rfl, rfl⟩
  | cons e es ih =>
    rw [runEntries, lookupCallback, firstNamed, List.find?_cons]
    by_cases hname : strcasecmp name e.entryName = 0
    · rw [if_neg (not_not_intro hname), decide_eq_true hname]
      exact ⟨rfl, rfl⟩
    · rw [if_pos hname, decide_eq_false hname]
      exact ih (idx + 1)

namespace Directory

variable {vol : Volume} (d : Directory vol)

lemma dirInodeLookup_eq {self : SizedInode} (htype : self.type = .directory) (hid : self.identifier = d.identifier)
    {cache : FatCache} (h : cache.Coherent vol.toFilesystemCtx) (name : CString) :
    ∃ cache', dirInodeLookup vol.toFilesystemCtx cache self name =
        .ok (if (firstNamed name d.handed).isSome then 0 else -Err.noEnt,
          (firstNamed name d.handed).map fun e => e.inode self.filesystem, cache') := by
  obtain ⟨cache', hrun, -⟩ := d.foreachEntry_eq (lookupCallback self.filesystem name) h 0 none
  obtain ⟨hstop, hout⟩ := runEntries_lookup self.filesystem name d.handed 0
  refine ⟨cache', ?_⟩
  rw [dirInodeLookup, kassert_of htype, ok_bind, hid, hrun, hstop, hout]
  rfl

/-- Every name is first found on an entry whose first cluster is the directory's own, and is found on no entry
of the other type. -/
structure NamesItself : Prop where
  own : ∀ pre e post, d.handed = pre ++ e :: post → (∀ f ∈ pre, f.lowerName ≠ e.lowerName) → e.cluster = d.identifier
  types : ∀ e ∈ d.handed, ∀ f ∈ d.handed, e.lowerName = f.lowerName → e.inodeType = f.inodeType

lemma namesItself_of_distinct (hd : (d.handed.map DirectoryEntry.lowerName).Nodup) :
    d.NamesItself ↔ ∀ e ∈ d.handed, e.cluster = d.identifier := by
  constructor
  · intro h e he
    obtain ⟨pre, post, hsplit⟩ := List.append_of_mem he
    refine h.own pre e post hsplit fun f hf hname => ?_
    rw [hsplit, List.map_append, List.map_cons, List.nodup_append] at hd
    exact hd.2.2 _ (List.mem_map_of_mem hf) _ List.mem_cons_self hname
  · intro h
    refine ⟨fun pre e post hsplit _ => h e (hsplit ▸ List.mem_append_right pre List.mem_cons_self), ?_⟩
    intro e he f hf hname
    rw [List.inj_on_of_nodup_map hd he hf hname]

end Directory

end Fat32

section Agreement

variable {σ : Type}

/-- Every entry that `getdents` stores is found under exactly its name, with its inode number and its type, and
every name that is found is the name of an entry that `getdents` stores. -/
structure ListingAgrees (Inv : σ → Prop) (getdents : Getdents σ) (Finds : σ → CString → SizedInode → Prop)
    (same : CString → CString → Prop) : Prop where
  listed : ∀ s, Inv s → ∀ offset count : ℕ, ∃ es s', getdents s offset count = .ok (es, s') ∧
    ∀ e ∈ es, ∀ s, Inv s → ∃ inode, Finds s e.name inode ∧ inode.identifier = e.ino ∧ inode.type = e.type
  found : ∀ s, Inv s → ∀ name inode, Finds s name inode → ∀ s, Inv s →
    ∃ (offset count : ℕ) (es : List Dirent) (s' : σ) (e : Dirent),
      getdents s offset count = .ok (es, s') ∧ e ∈ es ∧ same name e.name

end Agreement

namespace Fat32.Directory

variable {vol : Volume} (d : Directory vol)

/-- An inode of the directory. -/
structure IsInode (inode : SizedInode) : Prop where
  type : inode.type = .directory
  identifier : inode.identifier = d.identifier

/-- Names are compared up to case, as `lookup` does. -/
def Agrees (self : SizedInode) : Prop :=
  ListingAgrees (cacheSystem vol.toFilesystemCtx).Reachable
    (fun cache offset count => dirInodeGetdents vol.toFilesystemCtx cache d.identifier offset count)
    (fun cache name inode => ∃ cache', dirInodeLookup vol.toFilesystemCtx cache self name = .ok (0, some inode, cache'))
    fun name name' => strcasecmp name name' = 0

variable {self : SizedInode} {d}

lemma finds_iff (hself : d.IsInode self) {cache : FatCache} (h : cache.Coherent vol.toFilesystemCtx) (name : CString)
    (inode : SizedInode) :
    (∃ cache', dirInodeLookup vol.toFilesystemCtx cache self name = .ok (0, some inode, cache')) ↔
      ∃ e, firstNamed name d.handed = some e ∧ e.inode self.filesystem = inode := by
  obtain ⟨cache', hlookup⟩ := d.dirInodeLookup_eq hself.type hself.identifier h name
  rw [hlookup]
  cases hfirst : firstNamed name d.handed with
  | none =>
    refine ⟨?_, ?_⟩
    · rintro ⟨_, h⟩
      cases h
    · rintro ⟨e, h, -⟩
      cases h
  | some e =>
    refine ⟨?_, ?_⟩
    · rintro ⟨_, h⟩
      cases h
      exact ⟨e, rfl, rfl⟩
    · rintro ⟨_, h, rfl⟩
      cases h
      exact ⟨cache', rfl⟩

lemma firstNamed_entryName {e f : DirectoryEntry} : firstNamed e.entryName d.handed = some f ↔
    e.lowerName = f.lowerName ∧ ∃ pre post, d.handed = pre ++ f :: post ∧ ∀ g ∈ pre, g.lowerName ≠ f.lowerName := by
  rw [firstNamed, List.find?_eq_some_iff_append]
  simp only [decide_eq_true_eq, DirectoryEntry.strcasecmp_entryName, Bool.not_eq_true', decide_eq_false_iff_not]
  refine and_congr_right fun hname => ?_
  rw [hname]
  simp only [ne_comm, ne_eq]

lemma exists_firstNamed {e : DirectoryEntry} (he : e ∈ d.handed) : ∃ f, firstNamed e.entryName d.handed = some f := by
  rw [← Option.isSome_iff_exists, firstNamed, List.find?_isSome]
  exact ⟨e, he, decide_eq_true (DirectoryEntry.strcasecmp_entryName.mpr rfl)⟩

lemma mem_of_firstNamed {name : CString} {e : DirectoryEntry} (h : firstNamed name d.handed = some e) :
    e ∈ d.handed ∧ strcasecmp name e.entryName = 0 :=
  ⟨List.mem_of_find?_eq_some h, by simpa using List.find?_some h⟩

lemma mem_listed {entry : Dirent} :
    entry ∈ d.listed ↔ ∃ e ∈ d.handed, ⟨d.identifier, e.inodeType, e.entryName⟩ = entry := by
  rw [listed, ← handed, List.mem_map]
  simp only [DirectoryEntry.dirent_eq]

lemma agrees_iff (hself : d.IsInode self) : d.Agrees self ↔ d.NamesItself := by
  have hfinds {cache : FatCache} (hcache : (cacheSystem vol.toFilesystemCtx).Reachable cache) :=
    finds_iff hself (cacheSystem_coherent hcache)
  constructor
  · intro h
    have hfirst : ∀ e ∈ d.handed, ∀ f, firstNamed e.entryName d.handed = some f →
        f.cluster = d.identifier ∧ f.inodeType = e.inodeType := by
      intro e he f hf
      have hinit : (cacheSystem vol.toFilesystemCtx).Reachable sampleCache := .init rfl
      obtain ⟨es, s', hrun, hes⟩ := h.listed _ hinit 0 d.listed.length
      obtain ⟨cache', hrun', -⟩ := d.getdents_eq (cacheSystem_coherent hinit) 0 d.listed.length
      rw [Nat.zero_div, List.drop_zero, List.take_length] at hrun'
      obtain ⟨rfl, -⟩ := Prod.mk.inj (Except.ok.inj (hrun'.symm.trans hrun))
      obtain ⟨inode, hfind, hino, htype⟩ := hes _ (mem_listed.mpr ⟨e, he, rfl⟩) _ hinit
      obtain ⟨g, hg, rfl⟩ := (hfinds hinit _ _).mp hfind
      obtain rfl := Option.some.inj (hf.symm.trans hg)
      exact ⟨hino, htype⟩
    refine ⟨fun pre e post hsplit hpre => ?_, fun e he f hf hname => ?_⟩
    · have he : e ∈ d.handed := hsplit ▸ List.mem_append_right pre List.mem_cons_self
      exact (hfirst e he e (firstNamed_entryName.mpr ⟨rfl, pre, post, hsplit, hpre⟩)).1
    · obtain ⟨g, hg⟩ := exists_firstNamed he
      have hg' := firstNamed_entryName.mp hg
      rw [hname] at hg'
      exact (hfirst e he g hg).2.symm.trans (hfirst f hf g (firstNamed_entryName.mpr hg')).2
  · intro h
    refine ⟨fun cache hcache offset count => ?_, fun cache hcache name inode hfind cache' hcache' => ?_⟩
    · obtain ⟨cache', hrun, -⟩ := d.getdents_eq (cacheSystem_coherent hcache) offset count
      refine ⟨_, cache', hrun, fun entry hentry cache hcache => ?_⟩
      obtain ⟨e, he, rfl⟩ := mem_listed.mp (List.mem_of_mem_drop (List.mem_of_mem_take hentry))
      obtain ⟨f, hf⟩ := exists_firstNamed he
      obtain ⟨hname, pre, post, hsplit, hpre⟩ := firstNamed_entryName.mp hf
      refine ⟨_, (hfinds hcache _ _).mpr ⟨f, hf, rfl⟩, h.own pre f post hsplit hpre, ?_⟩
      exact h.types f (mem_of_firstNamed hf).1 e he hname.symm
    · obtain ⟨e, he, -⟩ := (hfinds hcache _ _).mp hfind
      obtain ⟨hmem, hname⟩ := mem_of_firstNamed he
      obtain ⟨cache'', hrun, -⟩ := d.getdents_eq (cacheSystem_coherent hcache') 0 d.listed.length
      rw [Nat.zero_div, List.drop_zero, List.take_length] at hrun
      exact ⟨0, _, _, _, _, hrun, mem_listed.mpr ⟨e, hmem, rfl⟩, hname⟩

end Fat32.Directory

namespace Tempfs

/-- Unlinking frees an inode and leaves the directories as they are. -/
lemma dirUnlink_inodes {ctx ctx' : TempfsCtx} {self : SizedInode} {name : CString} {rc : ℤ}
    (h : dirUnlink ctx self name = .ok (rc, ctx')) {a : ℕ} {inode : TempInode} (ha : ctx'.inodes a = some inode) :
    ctx.inodes a = some inode := by
  have hfree : ∀ b, Function.update ctx.inodes b none a = some inode → ctx.inodes a = some inode := by
    intro b hb
    obtain ⟨-, he⟩ | ⟨-, hb⟩ := update_eq_some.mp hb
    · cases he
    · exact hb
  obtain ⟨-, h⟩ := kassert_bind_eq_ok.mp h
  split at h
  · cases h
    exact ha
  obtain ⟨children, -, h⟩ := bind_eq_ok.mp h
  split at h
  · cases h
    exact ha
  · obtain ⟨child, -, h⟩ := bind_eq_ok.mp h
    split at h
    · split at h
      · cases h
        exact ha
      · cases h
        exact hfree _ ha
    · cases h
      exact hfree _ ha

/-- Every directory that calls can leave is well formed, also when unlinked children are still named in it. -/
lemma directories_wellFormed {fs : ℕ} {s : Directories} (hreach : (directories fs).Reachable s) :
    ∀ dir children, s.ctx.inodes dir = some (.directory children) → DirectoryWellFormed children := by
  refine TransitionSystem.Reachable.invariant (I := fun s => ∀ dir children,
    s.ctx.inodes dir = some (.directory children) → DirectoryWellFormed children) ⟨?_, ?_⟩ hreach
  · rintro s ⟨capacity, root, rfl⟩
    exact (dirInv_initial fs capacity root).wellFormed
  · intro s act s' h hs
    cases hs with
    | created _ _ _ hcreate =>
      rcases dirCreate_cases hcreate with
        ⟨rc, he, -⟩ | ⟨a, children, freeIdx, rfl, htype, hlen, hdir, hfree, hfull, -, rfl, -⟩
      · cases he
      · obtain ⟨hname, child, hslot, hnone⟩ := findFree_ok hfree hfull
        exact fun dir cs hcs => wellFormed_addChild h hdir hslot hnone hname hlen htype hcs
    | notCreated _ _ hcreate =>
      rcases dirCreate_cases hcreate with ⟨rc, -, rfl, -⟩ | ⟨_, _, _, -, -, -, -, -, -, he, -⟩
      · exact h
      · cases he
    | unlink _ _ hunlink => exact fun dir cs hcs => h dir cs (dirUnlink_inodes hunlink hcs)
    | lookup => exact h
    | notFound => exact h
    | getdents => exact h

lemma getdentsLoop_skipped (ctx : TempfsCtx) (children : List Child) (offset : ℤ) (count : ℕ) :
    getdentsLoop ctx children offset count = getdentsLoop ctx children (direntSize * skipped offset : ℕ) count := by
  induction children generalizing offset count with
  | nil => rfl
  | cons child children ih =>
    rw [getdentsLoop, getdentsLoop]
    by_cases hcount : count = 0
    · rw [if_pos hcount, if_pos hcount]
    rw [if_neg hcount, if_neg hcount]
    cases child.inode with
    | none => exact ih offset count
    | some a =>
      dsimp only
      by_cases hpos : offset > 0
      · have hsub : ((direntSize * skipped offset : ℕ) : ℤ) - direntSize =
            (direntSize * skipped (offset - direntSize) : ℕ) := by
          rw [skipped_of_pos hpos, Nat.mul_succ]
          push_cast
          omega
        have hpos' : ((direntSize * skipped offset : ℕ) : ℤ) > 0 := by
          rw [skipped_of_pos hpos]
          simp only [direntSize]
          omega
        rw [if_pos hpos, if_pos hpos', hsub]
        exact ih _ count
      · have hzero := skipped_of_nonpos (not_lt.mp hpos)
        have hnonpos : ¬ ((direntSize * skipped offset : ℕ) : ℤ) > 0 := by
          rw [hzero]
          decide
        rw [if_neg hpos, if_neg hnonpos, ih]

end Tempfs

lemma mapM_eq_ok {slots : List (Except Panic Dirent)} {es : List Dirent} (h : slots.mapM id = .ok es) :
    slots = es.map .ok := by
  induction slots generalizing es with
  | nil =>
    cases h
    rfl
  | cons slot slots ih =>
    rw [List.mapM_cons] at h
    obtain ⟨e, he, h⟩ := bind_eq_ok.mp h
    obtain ⟨rest, hrest, h⟩ := bind_eq_ok.mp h
    cases h
    obtain rfl : slot = .ok e := he
    rw [ih hrest]
    rfl

/-- A directory in a run of calls, and its inode in the cache of the VFS. -/
structure ReachableDirectory extends TempDirectory where
  fs : ℕ
  state : Tempfs.Directories
  reachable : (Tempfs.directories fs).Reachable state
  state_ctx : state.ctx = ctx
  cached : state.icache self.identifier = some self

namespace ReachableDirectory

variable (d : ReachableDirectory)

lemma wellFormed : Tempfs.DirectoryWellFormed d.children :=
  Tempfs.directories_wellFormed d.reachable d.self.identifier d.children (by rw [d.state_ctx, d.isDirectory])

def Agrees : Prop :=
  ListingAgrees (fun _ => True) d.getdents
    (fun _ name inode => Tempfs.dirInodeLookup d.ctx d.self name = .ok (.ok inode)) Eq

lemma getdents_slots (offset count : ℕ) : d.getdents () offset count = do
    return (← (((TempDirectory.slots d.ctx d.children).drop (Tempfs.skipped offset)).take count).mapM id, ()) := by
  rw [TempDirectory.getdents, Tempfs.dirGetdents, Tempfs.children_of d.isDirectory, ok_bind,
    Tempfs.getdentsLoop_skipped, TempDirectory.getdentsLoop_eq]

variable {d}

lemma getdents_eq (hlive : d.Live) (offset count : ℕ) :
    d.getdents () offset count = .ok ((d.visible.drop (Tempfs.skipped offset)).take count, ()) := by
  rw [d.getdents_slots, d.slots_eq_iff.mpr hlive, ← List.map_drop, ← List.map_take, mapM_ok]
  rfl

lemma mem_visible {e : Dirent} : e ∈ d.visible ↔ ∃ name a inode, (name, a) ∈ Tempfs.entries d.children ∧
    d.ctx.inodes a = some inode ∧ ⟨a, inode.type, name⟩ = e := by
  have hshort : ∀ child ∈ d.children, ∀ a ∈ child.inode, child.name.take 255 = child.name := by
    intro child hchild a ha
    have hmem : child.name ∈ Tempfs.names d.children :=
      List.mem_map.mpr ⟨(child.name, a), Tempfs.mem_entries.mpr ⟨child, hchild, ha, rfl⟩, rfl⟩
    exact List.take_of_length_le ((d.wellFormed.name_le _ hmem).trans (by decide))
  rw [TempDirectory.visible, List.mem_filterMap]
  constructor
  · rintro ⟨child, hchild, he⟩
    obtain ⟨a, ha, he⟩ := Option.bind_eq_some_iff.mp he
    obtain ⟨inode, hinode, rfl⟩ := Option.map_eq_some_iff.mp he
    refine ⟨child.name, a, inode, Tempfs.mem_entries.mpr ⟨child, hchild, ha, rfl⟩, hinode, ?_⟩
    rw [TempDirectory.dirent, hshort child hchild a ha]
  · rintro ⟨name, a, inode, hentry, hinode, rfl⟩
    obtain ⟨child, hchild, ha, rfl⟩ := Tempfs.mem_entries.mp hentry
    refine ⟨child, hchild, ?_⟩
    rw [ha, Option.bind_some, hinode, Option.map_some, TempDirectory.dirent, hshort child hchild a ha]

lemma agrees_iff : d.Agrees ↔ d.Live := by
  constructor
  · intro h child hchild a ha
    obtain ⟨es, s', hrun, -⟩ := h.listed () trivial 0 (TempDirectory.slots d.ctx d.children).length
    rw [d.getdents_slots, Nat.cast_zero, Tempfs.skipped_of_nonpos le_rfl, List.drop_zero, List.take_length] at hrun
    obtain ⟨es', hes, -⟩ := bind_eq_ok.mp hrun
    have hslot : (d.ctx.tempInode a).map (TempDirectory.dirent child a) ∈ TempDirectory.slots d.ctx d.children :=
      List.mem_filterMap.mpr ⟨child, hchild, by rw [ha]; rfl⟩
    rw [mapM_eq_ok hes] at hslot
    obtain ⟨e, -, he⟩ := List.mem_map.mp hslot
    rw [Tempfs.TempfsCtx.tempInode] at he
    split at he
    · rename_i inode hinode
      rw [hinode]
      rfl
    · cases he
  · intro hlive
    have hw := d.wellFormed
    refine ⟨fun _ _ offset count => ⟨_, (), getdents_eq hlive offset count, fun e he _ _ => ?_⟩, ?_⟩
    · obtain ⟨name, a, inode, hentry, hinode, rfl⟩ := mem_visible.mp (List.mem_of_mem_drop (List.mem_of_mem_take he))
      exact ⟨_, Tempfs.dirInodeLookup_bound d.isDirectory hw hentry hinode, rfl, rfl⟩
    · intro _ _ name inode hfind _ _
      obtain ⟨children, a, found, hdir, hchild, hfound, rfl⟩ := Tempfs.dirInodeLookup_ok hfind
      obtain rfl : d.children = children :=
        Tempfs.TempInode.directory.inj (Option.some.inj (d.isDirectory.symm.trans hdir))
      have hentry := (Tempfs.findChild_eq_some hw.nodup).mp hchild
      refine ⟨0, d.visible.length, _, (), ⟨a, found.type, name⟩, getdents_eq hlive 0 d.visible.length, ?_, rfl⟩
      rw [Nat.cast_zero, Tempfs.skipped_of_nonpos le_rfl, List.drop_zero, List.take_length]
      exact mem_visible.mpr ⟨name, a, found, hentry, hfound, rfl⟩

end ReachableDirectory

/-- A directory of either filesystem that can be searched, with its inode. -/
inductive SearchedDirectory where
  | fat32 (vol : Fat32.Volume) (d : Fat32.Directory vol) (inode : { inode // d.IsInode inode })
  | tempfs (d : ReachableDirectory)

namespace SearchedDirectory

def Agrees : SearchedDirectory → Prop
  | .fat32 _ d inode => d.Agrees inode.val
  | .tempfs d => d.Agrees

/-- The names of a FAT32 directory lead back to the directory, and no slot of a `tempfs` directory names an
inode that is gone. -/
def SelfNumbered : SearchedDirectory → Prop
  | .fat32 _ d _ => d.NamesItself
  | .tempfs d => d.Live

end SearchedDirectory

theorem listing_agrees_iff (d : SearchedDirectory) : d.Agrees ↔ d.SelfNumbered := by
  cases d with
  | fat32 vol d inode => exact Fat32.Directory.agrees_iff inode.property
  | tempfs d => exact ReachableDirectory.agrees_iff

section Example

open Tempfs

/-- Cluster 2 is the only one of its chain, and holds the entry "A" of a file whose first cluster is 3. -/
def namedByte (i : ℕ) : UInt8 :=
  if 520 ≤ i ∧ i < 528 then 0xff else if i = 1024 then 0x41 else if 1024 < i ∧ i ≤ 1035 then 0x20
  else if i = 1050 then 3 else if i = 1052 then 1 else 0

def namedVolume : Fat32.Volume :=
  { Fat32.sampleVolume with
    storage :=
      { size := 2048
        byte := namedByte
        read := fun off buf => (buf.length, Library.slice namedByte off buf.length)
        length_read := fun _ _ => Library.length_slice _ _ _
        read_inRange := fun _ _ _ => rfl }
    onDevice := by decide }

def namedDirectory : Fat32.Directory namedVolume where
  identifier := 2
  clusters := [2]
  first := rfl
  chain := ⟨fun c hc => by rw [List.mem_singleton.mp hc]; exact ⟨by decide, by decide⟩, List.isChain_singleton _⟩
  last c hc := by
    cases hc
    decide
  acyclic := by decide

def namedInode : { inode // namedDirectory.IsInode inode } := ⟨⟨⟨0, .directory, 2, 0, true⟩, 0⟩, rfl, rfl⟩

/-- `withFileInside` after its file has been unlinked. -/
def unlinkedInside : Directories :=
  { withFileInside with ctx := withFileInside.ctx.setInode 10 none, maps := unbind withFileInside.maps 9 [0x66] }

lemma unlinkedInside_step : DirStep withFileInside (.unlink 9 [0x66]) unlinkedInside := by
  have hunlink : dirUnlink withFileInside.ctx { fillInode 0 9 (newInode .directory) with size := 272 } [0x66] =
    .ok (0, withFileInside.ctx.setInode 10 none) := rfl
  exact .unlink rfl rfl hunlink

def unlinkedDirectory : ReachableDirectory where
  ctx := unlinkedInside.ctx
  self := { fillInode 0 9 (newInode .directory) with size := 272 }
  children := (List.replicate maxChildren ⟨[], none⟩).set 15 ⟨[0x66], some 10⟩
  isDirectory := rfl
  fs := 0
  state := unlinkedInside
  reachable := by
    have h₀ : (directories 0).Reachable mountedRoot := .init ⟨1024, 1, rfl⟩
    exact ((h₀.step withDirectory_step).step withFileInside_step).step unlinkedInside_step
  state_ctx := rfl
  cached := rfl

/-- The one entry of `namedDirectory` is listed under the number of the directory. -/
theorem listing_disagrees : (namedDirectory.handed.map Fat32.DirectoryEntry.lowerName).Nodup ∧
    ¬ (SearchedDirectory.fat32 namedVolume namedDirectory namedInode).Agrees ∧
    ¬ (SearchedDirectory.tempfs unlinkedDirectory).Agrees := by
  have hclusters : namedDirectory.handed.map Fat32.DirectoryEntry.cluster = [3] := by decide +kernel
  have hnames : (namedDirectory.handed.map Fat32.DirectoryEntry.lowerName).Nodup := by decide +kernel
  refine ⟨hnames, fun h => ?_, fun h => ?_⟩
  · have hown := (Fat32.Directory.namesItself_of_distinct namedDirectory hnames).mp
      ((Fat32.Directory.agrees_iff namedInode.property).mp h)
    obtain ⟨e, he, hcluster⟩ := List.mem_map.mp (hclusters ▸ List.mem_singleton.mpr rfl :
      3 ∈ namedDirectory.handed.map Fat32.DirectoryEntry.cluster)
    exact absurd ((hown e he).symm.trans hcluster) (by decide)
  · have hlive := ReachableDirectory.agrees_iff.mp h ⟨[0x66], some 10⟩ (List.mem_of_getElem? (i := 15) rfl) 10 rfl
    cases hlive

end Example

end Pi0Os.Vfs
