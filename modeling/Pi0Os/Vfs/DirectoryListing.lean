import Pi0Os.Vfs.Fat32Directory

/-! `vfs_read` on the custody of a directory, and what a sequence of reads up to the first 0 lists. -/

namespace Pi0Os.Vfs

open Kernel
open Tempfs (Dirent direntSize Child TempInode TempfsCtx SizedInode getdentsLoop dirGetdents)

variable {σ : Type}

/-- `dir_ops->getdents` of an inode, over what it may change; the size of the entries is its value. -/
abbrev Getdents (σ : Type) := σ → ℤ → ℕ → Except Panic (List Dirent × σ)

/-- `vfs_seek` from the current offset of a directory. -/
def vfsSeekDir (custody : FileCustody) (offset : ℤ) : FileCustody :=
  let newSeek := ssize (defaultCheckedSeek 0x7fffffff custody.offset .cur offset)
  if newSeek < 0 then custody else { custody with offset := newSeek.toNat }

def vfsReadDir (getdents : Getdents σ) (s : σ) (custody : FileCustody) (size : ℕ) :
    Except Panic (ℤ × List Dirent × FileCustody × σ) :=
  if custody.flags &&& ofDirectory = 0 then .ok (-Err.isDir, [], custody, s)
  else if custody.flags &&& ofAccmode = ofWronly then .ok (-Err.perm, [], custody, s)
  else do
    let (entries, s) ← getdents s custody.offset (size / direntSize)
    let rc := ssize (direntSize * entries.length : ℕ)
    return (rc, entries, if rc > 0 then vfsSeekDir custody rc else custody, s)

/-- What reads with buffers of the given sizes have returned before the first 0, if one of the first
`fuel` reads returns it. -/
def readUntilEmpty (getdents : Getdents σ) : ℕ → σ → FileCustody → (ℕ → ℕ) → Except Panic (Option (List Dirent))
  | 0, _, _, _ => .ok none
  | fuel + 1, s, custody, sizes => do
    let (rc, entries, custody, s) ← vfsReadDir getdents s custody (sizes 0)
    if rc = 0 then return some []
    let rest ← readUntilEmpty getdents fuel s custody fun k => sizes (k + 1)
    return rest.map (entries.take (rc.toNat / direntSize) ++ ·)

/-- The custody of a directory that has just been opened, and not for writing only. -/
structure DirectoryCustody extends FileCustody where
  opened : flags &&& ofDirectory ≠ 0
  readable : flags &&& ofAccmode ≠ ofWronly
  start : offset = 0

section Pages

/-- `getdents` goes through `slots`: it returns them in order, or fails at one of them. -/
def GoesThrough (getdents : Getdents σ) (Inv : σ → Prop) (slots : List (Except Panic Dirent)) : Prop :=
  ∀ s, Inv s → ∀ k count : ℕ, ∃ s', Inv s' ∧ getdents s (direntSize * k : ℕ) count = do
    let entries ← ((slots.drop k).take count).mapM id
    return (entries, s')

structure AtEntry (custody : FileCustody) (k : ℕ) : Prop where
  opened : custody.flags &&& ofDirectory ≠ 0
  readable : custody.flags &&& ofAccmode ≠ ofWronly
  offset : custody.offset = direntSize * k

variable {getdents : Getdents σ} {Inv : σ → Prop} {slots : List (Except Panic Dirent)} {s : σ} {custody : FileCustody}
  {k size : ℕ}

lemma mapM_ok (es : List Dirent) : (es.map (Except.ok (ε := Panic))).mapM id = .ok es := by
  induction es with
  | nil => rfl
  | cons e es ih =>
    rw [List.map_cons, List.mapM_cons, ih]
    rfl

lemma AtEntry.advance (hc : AtEntry custody k) {n : ℕ} (h : direntSize * (k + n) < 2 ^ 31) :
    AtEntry (vfsSeekDir custody (direntSize * n : ℕ)) (k + n) := by
  have hseek : defaultCheckedSeek 0x7fffffff custody.offset .cur (direntSize * n : ℕ) = direntSize * (k + n) := by
    rw [defaultCheckedSeek_cur (by rw [hc.offset, ← Nat.mul_add]; omega) (by decide), hc.offset, Nat.mul_add]
  rw [vfsSeekDir, hseek, ssize_of_lt h, if_neg (by omega)]
  exact ⟨hc.opened, hc.readable, Int.toNat_natCast _⟩

/-- A read that finds the entries `es`. -/
lemma vfsReadDir_page (h : GoesThrough getdents Inv slots) (hs : Inv s) (hc : AtEntry custody k) {es : List Dirent}
    (hpage : (slots.drop k).take (size / direntSize) = es.map .ok) (hfit : direntSize * es.length < 2 ^ 31) :
    ∃ custody' s', Inv s' ∧ (direntSize * (k + es.length) < 2 ^ 31 → AtEntry custody' (k + es.length)) ∧
      vfsReadDir getdents s custody size = .ok ((direntSize * es.length : ℕ), es, custody', s') := by
  obtain ⟨s', hs', hget⟩ := h s hs k (size / direntSize)
  rw [hpage, mapM_ok] at hget
  have hrc : ssize (direntSize * es.length : ℕ) = (direntSize * es.length : ℕ) := ssize_of_lt hfit
  refine ⟨if ((direntSize * es.length : ℕ) : ℤ) > 0 then vfsSeekDir custody (direntSize * es.length : ℕ) else custody,
    s', hs', fun hend => ?_, ?_⟩
  · split
    · exact hc.advance hend
    · have hnil : es.length = 0 := by
        simp only [direntSize] at *
        omega
      rwa [hnil]
  · rw [vfsReadDir, if_neg hc.opened, if_neg hc.readable, hc.offset, hget]
    simp only [ok_bind, pure_eq_ok, hrc]

lemma vfsReadDir_fails (h : GoesThrough getdents Inv slots) (hs : Inv s) (hc : AtEntry custody k) {e : Panic}
    (hnext : slots[k]? = some (.error e)) (hsize : direntSize ≤ size) :
    vfsReadDir getdents s custody size = .error e := by
  obtain ⟨s', -, hget⟩ := h s hs k (size / direntSize)
  obtain ⟨hk, hget'⟩ := List.getElem?_eq_some_iff.mp hnext
  obtain ⟨n, hn⟩ := Nat.exists_eq_succ_of_ne_zero (Nat.div_pos hsize (by decide)).ne'
  rw [hn, List.drop_eq_getElem_cons hk, List.take_succ_cons, hget', List.mapM_cons] at hget
  rw [vfsReadDir, if_neg hc.opened, if_neg hc.readable, hc.offset, hn, hget]
  rfl

/-- Reads that go on from an entry list all that follow it. -/
lemma readUntilEmpty_complete (h : GoesThrough getdents Inv slots) {visible : List Dirent}
    (hslots : slots = visible.map .ok) (hfit : direntSize * visible.length < 2 ^ 31) (n : ℕ) (hs : Inv s)
    (hc : AtEntry custody k) (hk : visible.length = k + n) {sizes : ℕ → ℕ} (hsizes : ∀ j, direntSize ≤ sizes j) :
    ∃ fuel, readUntilEmpty getdents fuel s custody sizes = .ok (some (visible.drop k)) := by
  induction n using Nat.strong_induction_on generalizing s custody k sizes with
  | _ n ih =>
    set es := (visible.drop k).take (sizes 0 / direntSize) with hes
    have hpage : (slots.drop k).take (sizes 0 / direntSize) = es.map .ok := by
      rw [hslots, ← List.map_drop, ← List.map_take]
    have hlen : es.length = min (sizes 0 / direntSize) n := by
      rw [hes, List.length_take, List.length_drop, hk, Nat.add_sub_cancel_left]
    have hfit' : direntSize * (k + es.length) < 2 ^ 31 := by
      refine (Nat.mul_le_mul_left _ ?_).trans_lt hfit
      omega
    obtain ⟨custody', s', hs', hc', hread⟩ := vfsReadDir_page h hs hc hpage
      ((Nat.mul_le_mul_left _ (Nat.le_add_left _ k)).trans_lt hfit')
    have hcount : 0 < sizes 0 / direntSize := Nat.div_pos (hsizes 0) (by decide)
    rcases Nat.eq_zero_or_pos n with rfl | hn
    · refine ⟨1, ?_⟩
      have hnil : es.length = 0 := by omega
      rw [readUntilEmpty, hread, ok_bind]
      simp only [hnil, Nat.mul_zero, Nat.cast_zero, if_true, pure_eq_ok]
      rw [List.drop_of_length_le (by omega)]
    · have hm : es.length ≠ 0 := by omega
      obtain ⟨fuel, hrest⟩ := ih (n - es.length) (by omega) hs' (hc' hfit') (by omega) fun j => hsizes (j + 1)
      refine ⟨fuel + 1, ?_⟩
      have hrc : ((direntSize * es.length : ℕ) : ℤ) ≠ 0 := by
        rw [Ne, Nat.cast_eq_zero, Nat.mul_eq_zero]
        exact not_or.mpr ⟨by decide, hm⟩
      rw [readUntilEmpty, hread, ok_bind]
      simp only [if_neg hrc, hrest, ok_bind, pure_eq_ok, Option.map_some, Int.toNat_natCast]
      rw [Nat.mul_div_cancel_left _ (by decide), List.take_length, ← List.drop_drop,
        List.prefix_iff_eq_append.mp (List.take_prefix _ _)]

lemma readUntilEmpty_sound (h : GoesThrough getdents Inv slots) {fuel : ℕ} (hs : Inv s) (hc : AtEntry custody k)
    {found : List Dirent} (hfit : direntSize * (k + found.length) < 2 ^ 31)
    (hrun : readUntilEmpty getdents fuel s custody (fun _ => direntSize) = .ok (some found)) :
    slots.drop k = found.map .ok := by
  induction fuel generalizing s custody k found with
  | zero => cases hrun
  | succ fuel ih =>
    rw [readUntilEmpty] at hrun
    cases hnext : slots[k]? with
    | none =>
      have hdrop : slots.drop k = [] := List.drop_eq_nil_of_le (List.getElem?_eq_none_iff.mp hnext)
      obtain ⟨custody', s', -, -, hread⟩ := @vfsReadDir_page _ _ _ _ _ _ _ direntSize h hs hc []
        (by rw [hdrop]; rfl) (by decide)
      rw [hread] at hrun
      cases hrun
      rw [hdrop]
      rfl
    | some slot =>
      obtain ⟨hk, hget⟩ := List.getElem?_eq_some_iff.mp hnext
      cases slot with
      | error e =>
        rw [vfsReadDir_fails h hs hc hnext le_rfl] at hrun
        cases hrun
      | ok entry =>
        have hdrop : slots.drop k = .ok entry :: slots.drop (k + 1) := by rw [List.drop_eq_getElem_cons hk, hget]
        obtain ⟨custody', s', hs', hc', hread⟩ := @vfsReadDir_page _ _ _ _ _ _ _ direntSize h hs hc [entry]
          (by rw [hdrop]; rfl) (by rw [List.length_singleton]; decide)
        rw [hread, ok_bind] at hrun
        simp only [List.length_singleton] at hrun
        rw [if_neg (by decide)] at hrun
        obtain ⟨rest, hrest, hrun⟩ := bind_eq_ok.mp hrun
        obtain ⟨tail, rfl, hfound⟩ := Option.map_eq_some_iff.mp (Except.ok.inj hrun)
        obtain rfl : entry :: tail = found := hfound
        rw [List.length_cons] at hfit
        have hnextfit : direntSize * (k + 1) < 2 ^ 31 :=
          (Nat.mul_le_mul_left _ (Nat.add_le_add_left (Nat.succ_le_succ (Nat.zero_le _)) k)).trans_lt hfit
        have htail : slots.drop (k + 1) = tail.map .ok :=
          ih hs' (hc' hnextfit) (by rwa [List.length_singleton, Nat.add_assoc, Nat.add_comm 1]) hrest
        rw [hdrop, htail]
        rfl

theorem readUntilEmpty_iff (h : GoesThrough getdents Inv slots) (hs : Inv s) (hc : AtEntry custody 0)
    {visible : List Dirent} (hfit : direntSize * visible.length < 2 ^ 31) :
    (∀ sizes, (∀ k, direntSize ≤ sizes k ∧ sizes k < 2 ^ 32) →
      ∃ fuel, readUntilEmpty getdents fuel s custody sizes = .ok (some visible)) ↔ slots = visible.map .ok := by
  constructor
  · intro hall
    obtain ⟨fuel, hrun⟩ := hall (fun _ => direntSize) fun _ => ⟨le_rfl, by decide⟩
    exact readUntilEmpty_sound h hs hc (by rwa [Nat.zero_add]) hrun
  · intro hslots sizes hsizes
    exact readUntilEmpty_complete h hslots hfit visible.length hs hc (Nat.zero_add _).symm fun k => (hsizes k).1

end Pages

/-- A directory of a `tempfs`. -/
structure TempDirectory where
  ctx : TempfsCtx
  self : SizedInode
  children : List Child
  isDirectory : ctx.inodes self.identifier = some (.directory children)

namespace TempDirectory

variable (d : TempDirectory)

def getdents : Getdents Unit := fun _ offset count => do return (← dirGetdents d.ctx d.self offset count, ())

/-- The entry of a child at the address `a`. -/
def dirent (child : Child) (a : ℕ) (inode : TempInode) : Dirent := ⟨a, inode.type, child.name.take 255⟩

/-- The children whose inodes exist. -/
def visible : List Dirent :=
  d.children.filterMap fun child => child.inode.bind fun a => (d.ctx.inodes a).map (dirent child a)

/-- No slot names an inode that is gone. -/
def Live : Prop := ∀ child ∈ d.children, ∀ a ∈ child.inode, (d.ctx.inodes a).isSome

/-- What `getdents` comes to in the slots that are not free. -/
def slots (ctx : TempfsCtx) (children : List Child) : List (Except Panic Dirent) :=
  children.filterMap fun child => child.inode.map fun a => (ctx.tempInode a).map (dirent child a)

lemma getdentsLoop_eq (ctx : TempfsCtx) (children : List Child) (k count : ℕ) :
    getdentsLoop ctx children (direntSize * k : ℕ) count = (((slots ctx children).drop k).take count).mapM id := by
  induction children generalizing k count with
  | nil => simp [getdentsLoop, slots]
  | cons child children ih =>
    rw [getdentsLoop]
    by_cases hcount : count = 0
    · rw [if_pos hcount, hcount, List.take_zero]
      rfl
    · rw [if_neg hcount]
      obtain ⟨n, rfl⟩ := Nat.exists_eq_succ_of_ne_zero hcount
      cases hchild : child.inode with
      | none =>
        rw [slots, List.filterMap_cons_none (by rw [hchild]; rfl)]
        exact ih k (n + 1)
      | some a =>
        rw [slots, List.filterMap_cons_some (by rw [hchild]; rfl)]
        cases k with
        | zero =>
          have htail := ih 0 n
          rw [List.drop_zero] at htail ⊢
          rw [List.take_succ_cons, List.mapM_cons]
          dsimp only
          rw [if_neg (by decide), Nat.succ_sub_one, htail]
          cases ctx.tempInode a <;> rfl
        | succ k =>
          have hsub : ((direntSize * (k + 1) : ℕ) : ℤ) - direntSize = (direntSize * k : ℕ) := by
            simp only [direntSize]
            omega
          rw [List.drop_succ_cons]
          dsimp only
          rw [if_pos (by simp only [direntSize]; omega), hsub]
          exact ih k (n + 1)

lemma goesThrough : GoesThrough d.getdents (fun _ => True) (slots d.ctx d.children) := by
  intro s _ k count
  refine ⟨(), trivial, ?_⟩
  rw [getdents, dirGetdents, Tempfs.children_of d.isDirectory, ok_bind, getdentsLoop_eq]

lemma slots_eq_iff : slots d.ctx d.children = d.visible.map .ok ↔ d.Live := by
  rw [slots, visible, Live]
  induction d.children with
  | nil => simp
  | cons child children ih =>
    rw [List.forall_mem_cons]
    cases hchild : child.inode with
    | none =>
      rw [List.filterMap_cons_none (by rw [hchild]; rfl), List.filterMap_cons_none (by rw [hchild]; rfl), ih]
      exact ⟨fun h => ⟨nofun, h⟩, fun h => h.2⟩
    | some a =>
      rw [List.filterMap_cons_some (by rw [hchild]; rfl)]
      cases hinode : d.ctx.inodes a with
      | none =>
        rw [List.filterMap_cons_none (by rw [hchild, Option.bind_some, hinode]; rfl)]
        have hgone : d.ctx.tempInode a = .error (.undefined "a TempInode that is gone") := by
          rw [TempfsCtx.tempInode, hinode]
        refine ⟨fun h => ?_, fun h => ?_⟩
        · have hmem := h ▸ List.mem_cons_self
          obtain ⟨e, -, he⟩ := List.mem_map.mp hmem
          dsimp only at he
          rw [hgone] at he
          cases he
        · have hlive := h.1 a rfl
          rw [hinode] at hlive
          cases hlive
      | some inode =>
        rw [List.filterMap_cons_some (by rw [hchild, Option.bind_some, hinode]; rfl), List.map_cons]
        dsimp only
        rw [Tempfs.tempInode_of hinode]
        refine (List.cons_inj_right _).trans (ih.trans ⟨fun h => ⟨fun b hb => ?_, h⟩, fun h => h.2⟩)
        cases hb
        rw [hinode]
        rfl

end TempDirectory

/-- A directory of either filesystem, with the FAT sector that is cached when it is read. -/
inductive ListedDirectory where
  | fat32 (vol : Fat32.Volume) (d : Fat32.Directory vol)
    (cache : { cache // (Fat32.cacheSystem vol.toFilesystemCtx).Reachable cache })
  | tempfs (d : TempDirectory)

namespace ListedDirectory

/-- `readUntilEmpty` with the `getdents` of the filesystem. -/
def read (fuel : ℕ) (custody : FileCustody) (sizes : ℕ → ℕ) : ListedDirectory → Except Panic (Option (List Dirent))
  | .fat32 vol d cache => readUntilEmpty
      (fun cache offset count => Fat32.dirInodeGetdents vol.toFilesystemCtx cache d.identifier offset count)
      fuel cache.val custody sizes
  | .tempfs d => readUntilEmpty d.getdents fuel () custody sizes

/-- The visible entries, in the order of their slots. -/
def visible : ListedDirectory → List Dirent
  | .fat32 _ d _ => d.visible
  | .tempfs d => d.visible

/-- No visible entry follows the end of a FAT32 directory in a later cluster, and no slot of a `tempfs` directory
names an inode that is gone. -/
def Intact : ListedDirectory → Prop
  | .fat32 _ d _ => d.EndsOnce
  | .tempfs d => d.Live

end ListedDirectory

section Listing

lemma fat32_goesThrough {vol : Fat32.Volume} (d : Fat32.Directory vol) : GoesThrough
    (fun cache offset count => Fat32.dirInodeGetdents vol.toFilesystemCtx cache d.identifier offset count)
    (Fat32.FatCache.Coherent vol.toFilesystemCtx) (d.listed.map .ok) := by
  intro cache hcache k count
  obtain ⟨cache', hrun, hcache'⟩ := d.getdents_eq hcache (direntSize * k) count
  rw [Nat.mul_div_cancel_left k (by decide)] at hrun
  refine ⟨cache', hcache', hrun.trans ?_⟩
  rw [← List.map_drop, ← List.map_take, mapM_ok]
  rfl

lemma DirectoryCustody.atEntry (custody : DirectoryCustody) : AtEntry custody.toFileCustody 0 :=
  ⟨custody.opened, custody.readable, custody.start⟩

lemma fat32_listed_iff {vol : Fat32.Volume} (d : Fat32.Directory vol)
    (cache : { cache // (Fat32.cacheSystem vol.toFilesystemCtx).Reachable cache }) (custody : DirectoryCustody)
    (hbytes : direntSize * d.visible.length < 2 ^ 31) :
    (∀ sizes, (∀ k, direntSize ≤ sizes k ∧ sizes k < 2 ^ 32) →
      ∃ fuel, (ListedDirectory.fat32 vol d cache).read fuel custody.toFileCustody sizes = .ok (some d.visible)) ↔
      d.EndsOnce := by
  have h := readUntilEmpty_iff (fat32_goesThrough d) (Fat32.cacheSystem_coherent cache.property) custody.atEntry hbytes
  refine h.trans (Iff.trans ?_ d.listed_eq_iff)
  exact (List.map_injective_iff.mpr fun _ _ => Except.ok.inj).eq_iff

lemma tempfs_listed_iff (d : TempDirectory) (custody : DirectoryCustody)
    (hbytes : direntSize * d.visible.length < 2 ^ 31) :
    (∀ sizes, (∀ k, direntSize ≤ sizes k ∧ sizes k < 2 ^ 32) →
      ∃ fuel, (ListedDirectory.tempfs d).read fuel custody.toFileCustody sizes = .ok (some d.visible)) ↔ d.Live :=
  (readUntilEmpty_iff d.goesThrough trivial custody.atEntry hbytes).trans d.slots_eq_iff

theorem directory_listed_iff (d : ListedDirectory) (custody : DirectoryCustody)
    (hbytes : direntSize * d.visible.length < 2 ^ 31) :
    (∀ sizes, (∀ k, direntSize ≤ sizes k ∧ sizes k < 2 ^ 32) →
      ∃ fuel, d.read fuel custody.toFileCustody sizes = .ok (some d.visible)) ↔ d.Intact := by
  cases d with
  | fat32 vol d cache => exact fat32_listed_iff d cache custody hbytes
  | tempfs d => exact tempfs_listed_iff d custody hbytes

def oneChild : List Child := ⟨[0x66], some 2⟩ :: List.replicate 15 ⟨[], none⟩

/-- A directory at 1 with the file "f" at 2. -/
def oneFile : TempDirectory where
  ctx := ⟨4096, 0, 0, Function.update (Function.update (fun _ => none) 1 (some (.directory oneChild)))
    2 (some (.regularFile ⟨0, 0, []⟩))⟩
  self := ⟨⟨1, .directory, 1, 0, true⟩, 272⟩
  children := oneChild
  isDirectory := rfl

def readCustody : DirectoryCustody := ⟨⟨1, ofDirectory, 0⟩, by decide, by decide, rfl⟩

theorem directory_listed_iff_oneFile : ∃ fuel, (ListedDirectory.tempfs oneFile).read fuel readCustody.toFileCustody
    (fun _ => 300) = .ok (some [⟨2, .regularFile, [0x66]⟩]) := by
  refine (directory_listed_iff (.tempfs oneFile) readCustody (by decide)).mpr ?_ _ fun _ => ⟨by decide, by decide⟩
  intro child hchild a ha
  rcases List.mem_cons.mp hchild with rfl | hfree
  · cases ha
    rfl
  · rw [List.eq_of_mem_replicate hfree] at ha
    cases ha

/-- `oneFile` after its file has been unlinked. -/
def unlinked : TempDirectory := { oneFile with ctx := oneFile.ctx.setInode 2 none }

/-- Cluster 2 is followed by 3, begins with the end of the directory, and 3 begins with an entry "A". -/
def staleByte (i : ℕ) : UInt8 :=
  if i < 1024 then Fat32.sampleByte i else if i = 1536 then 0x41 else if 1536 < i ∧ i < 1547 then 0x20 else 0

def staleVolume : Fat32.Volume :=
  { Fat32.sampleVolume with
    storage :=
      { size := 2048
        byte := staleByte
        read := fun off buf => (buf.length, Library.slice staleByte off buf.length)
        length_read := fun _ _ => Library.length_slice _ _ _
        read_inRange := fun _ _ _ => rfl }
    onDevice := by decide }

def staleDirectory : Fat32.Directory staleVolume where
  identifier := 2
  clusters := [2, 3]
  first := rfl
  chain :=
    { valid := fun c hc => by
        rcases (by simpa using hc : c = 2 ∨ c = 3) with rfl | rfl <;> exact ⟨by decide, by decide⟩
      linked := List.isChain_pair.mpr (by decide) }
  last c hc := by
    cases hc
    decide
  acyclic := by decide

lemma staleDirectory_not_endsOnce : ¬ staleDirectory.EndsOnce := by
  intro h
  have hend : Fat32.hasEnd (staleVolume.slots 2) = true := by decide +kernel
  have hnil := (List.pairwise_cons.mp h).1 3 List.mem_cons_self hend
  exact absurd hnil (by decide +kernel)

/-- After the unlink the slot of "f" leads to what is freed, and the stale entry of cluster 3 is listed. -/
theorem directory_not_listed :
    Tempfs.dirUnlink oneFile.ctx oneFile.self [0x66] = .ok (0, unlinked.ctx) ∧
    (¬ ∀ sizes, (∀ k, direntSize ≤ sizes k ∧ sizes k < 2 ^ 32) → ∃ fuel,
      (ListedDirectory.tempfs unlinked).read fuel readCustody.toFileCustody sizes = .ok (some unlinked.visible)) ∧
    ¬ ∀ sizes, (∀ k, direntSize ≤ sizes k ∧ sizes k < 2 ^ 32) → ∃ fuel,
      (ListedDirectory.fat32 staleVolume staleDirectory ⟨Fat32.sampleCache, .init rfl⟩).read fuel
        readCustody.toFileCustody sizes = .ok (some staleDirectory.visible) := by
  refine ⟨rfl, fun h => ?_, fun h => ?_⟩
  · have hlive := (tempfs_listed_iff unlinked readCustody (by decide)).mp h _ List.mem_cons_self 2 rfl
    cases hlive
  · exact staleDirectory_not_endsOnce ((fat32_listed_iff staleDirectory _ readCustody (by decide +kernel)).mp h)

end Listing

end Pi0Os.Vfs
