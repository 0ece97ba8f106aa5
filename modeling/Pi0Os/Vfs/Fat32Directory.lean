import Pi0Os.Vfs.Fat32Read
import Pi0Os.Vfs.Tempfs

/-! Directories in `fat32.cpp`: the loop over the short entries of a cluster chain,
`fat32_dir_inode_getdents` and `fat32_dir_inode_lookup`. -/

namespace Pi0Os.Vfs.Fat32

open Kernel Byte Library
open Tempfs (Dirent direntSize SizedInode)

abbrev dirEntrySize : ℕ := 32
abbrev dirEntriesInSector : ℕ := sectorSize / dirEntrySize

structure DirectoryEntry where
  name : List UInt8
  attr : UInt8
  fstClusHI : ℕ
  fstClusLO : ℕ
  fileSize : ℕ

namespace DirectoryEntry

abbrev attrDirectory : UInt8 := 0x10
abbrev attrLongName : UInt8 := 0x0f

variable (e : DirectoryEntry)

def isEndOfDirectory : Bool := e.name.head? = some 0

def isCancelled : Bool := e.name.head? = some 0xe5

/-- The entries that the loop passes over. -/
def isSkipped : Bool := e.isCancelled || e.attr == attrLongName

def copyEntryName : Buffer :=
  let name := (e.name.take 8).takeWhile (· ≠ 0x20)
  let extension := ((e.name.drop 8).take 3).takeWhile (· ≠ 0x20)
  name ++ (if extension = [] then [] else 0x2e :: extension) ++ [Byte.nul]

/-- What `getdents` stores for the entry, in the directory at `identifier`. -/
def dirent (identifier : ℕ) : Dirent :=
  ⟨identifier, if e.attr &&& attrDirectory ≠ 0 then .directory else .regularFile,
    (e.copyEntryName.takeWhile (· ≠ Byte.nul)).take 255⟩

/-- `copy_entry_name`'s result as a string. -/
def entryName : CString := e.copyEntryName.takeWhile (· ≠ nul)

def inodeType : InodeType := if e.attr &&& attrDirectory ≠ 0 then .directory else .regularFile

def cluster : ℕ := (e.fstClusHI <<< 16 ||| e.fstClusLO) &&& 0x0fffffff

/-- The inode that `lookup` fills in for the entry. -/
def inode (fs : ℕ) : SizedInode := ⟨⟨0, e.inodeType, e.cluster, fs, false⟩, e.fileSize⟩

end DirectoryEntry

def le16 (buf : Buffer) (off : ℕ) : ℕ := (buf.getD off 0).toNat + 2 ^ 8 * (buf.getD (off + 1) 0).toNat

/-- The array `entries` over a sector. -/
def entriesIn (sector : Buffer) : List DirectoryEntry :=
  (List.range dirEntriesInSector).map fun i =>
    ⟨(sector.drop (dirEntrySize * i)).take 11, sector.getD (dirEntrySize * i + 11) 0,
      le16 sector (dirEntrySize * i + 20), le16 sector (dirEntrySize * i + 26), le32 sector (dirEntrySize * i + 28)⟩

inductive SectorEnd where
  | full
  | ended
  | handled
deriving DecidableEq

variable {τ : Type} (ctx : FilesystemCtx) (cb : ℕ → DirectoryEntry → τ → Bool × τ)

/-- The loop over one sector of `foreach_8_3_directory_entry`; `t` is what the callback keeps. -/
def scanEntries : List DirectoryEntry → ℕ → τ → SectorEnd × ℕ × τ
  | [], idx, t => (.full, idx, t)
  | e :: es, idx, t =>
    if e.isEndOfDirectory then (.ended, idx, t)
    else if e.isSkipped then scanEntries es idx t
    else
      match cb idx e t with
      | (true, t) => (.handled, idx, t)
      | (false, t) => scanEntries es (idx + 1) t

/-- The loop over the sectors of a cluster, with the value that the function returns in it. -/
def scanSectors (start : ℕ) : ℕ → ℕ → ℕ → τ → Option ℤ × ℕ × τ
  | 0, _, idx, t => (none, idx, t)
  | n + 1, sectorIdx, idx, t =>
    -- the array is not initialised, and nothing reads it unless the device has filled it
    let (rc, sector) := ctx.readSector (add32 start sectorIdx) (List.replicate sectorSize 0)
    if rc ≠ 0 then (some rc, idx, t)
    else
      match scanEntries cb (entriesIn sector) idx t with
      | (.full, idx, t) => scanSectors start n (sectorIdx + 1) idx t
      | (.ended, idx, t) => (none, idx, t)
      | (.handled, idx, t) => (some 0, idx, t)

/-- `foreach_8_3_directory_entry` through at most `fuel` clusters. -/
def foreachEntry : ℕ → FatCache → ℕ → ℕ → τ → Except Panic (ℤ × FatCache × τ)
  | 0, _, _, _, _ => .error (.undefined "the loop did not end")
  | fuel + 1, cache, cluster, idx, t =>
    if ¬ isValidCluster cluster then .ok (-Err.noEnt, cache, t)
    else
      match scanSectors ctx cb (clusterIdxToSector ctx.bpb cluster) ctx.bpb.secPerClus 0 idx t with
      | (some rc, _, t) => .ok (rc, cache, t)
      | (none, idx, t) =>
        match ctx.nextCluster cache cluster with
        | (cache, .error rc) => .ok (rc, cache, t)
        | (cache, .ok next) => foreachEntry fuel cache next idx t

/-- What the callback of `getdents` captures. -/
structure GetdentsState where
  offset : ℤ
  count : ℕ
  entries : List Dirent

def getdentsCallback (identifier : ℕ) (_ : ℕ) (e : DirectoryEntry) (t : GetdentsState) : Bool × GetdentsState :=
  if t.count = 0 then (true, t)
  else if t.offset > 0 then (false, { t with offset := t.offset - direntSize })
  else (false, { t with count := t.count - 1, entries := t.entries ++ [e.dirent identifier] })

/-- More than there are valid clusters. -/
abbrev maxClusters : ℕ := 0x0ffffff8

/-- The return value is the size of the entries. -/
def dirInodeGetdents (cache : FatCache) (identifier : ℕ) (offset : ℤ) (count : ℕ) :
    Except Panic (List Dirent × FatCache) := do
  let (_, cache, t) ← foreachEntry ctx (getdentsCallback identifier) (maxClusters + 1) cache (identifier % 2 ^ 32) 0
    ⟨offset / direntSize * direntSize, count, []⟩
  return (t.entries, cache)

/-- What the callback of `lookup` captures is `out_inode`, once it is filled in. -/
def lookupCallback (fs : ℕ) (name : CString) (_ : ℕ) (e : DirectoryEntry) (out : Option SizedInode) :
    Bool × Option SizedInode :=
  if strcasecmp name e.entryName ≠ 0 then (false, out) else (true, some (e.inode fs))

def dirInodeLookup (ctx : FilesystemCtx) (cache : FatCache) (self : SizedInode) (name : CString) :
    Except Panic (ℤ × Option SizedInode × FatCache) := do
  kassert "self->type == InodeType::Directory" (self.type = .directory)
  let (rc, cache, out) ← foreachEntry ctx (lookupCallback self.filesystem name) (maxClusters + 1) cache
    (self.identifier % 2 ^ 32) 0 none
  return (rc, out, cache)

section Entries

/-- The entries that the loop hands on, of those from one point to the end of a cluster. -/
def shown (es : List DirectoryEntry) : List DirectoryEntry :=
  (es.takeWhile fun e => ! e.isEndOfDirectory).filter fun e => ! e.isSkipped

def hasEnd (es : List DirectoryEntry) : Bool := es.any DirectoryEntry.isEndOfDirectory

/-- The callback on one entry after the other, until it asks for no more. -/
def runEntries : List DirectoryEntry → ℕ → τ → Bool × ℕ × τ
  | [], idx, t => (false, idx, t)
  | e :: es, idx, t =>
    match cb idx e t with
    | (true, t) => (true, idx, t)
    | (false, t) => runEntries es (idx + 1) t

variable {e : DirectoryEntry} {es es' : List DirectoryEntry} {idx : ℕ} {t : τ}

lemma shown_end (h : e.isEndOfDirectory = true) : shown (e :: es) = [] ∧ hasEnd (e :: es) = true := by
  simp [shown, hasEnd, h]

lemma shown_skipped (h : e.isEndOfDirectory = false) (hs : e.isSkipped = true) : shown (e :: es) = shown es := by
  simp [shown, h, hs]

lemma shown_cons (h : e.isEndOfDirectory = false) (hs : e.isSkipped = false) : shown (e :: es) = e :: shown es := by
  simp [shown, h, hs]

lemma hasEnd_cons (h : e.isEndOfDirectory = false) : hasEnd (e :: es) = hasEnd es := by
  simp [hasEnd, h]

lemma shown_append (es es' : List DirectoryEntry) :
    shown (es ++ es') = if hasEnd es then shown es else shown es ++ shown es' := by
  induction es with
  | nil => rfl
  | cons e es ih =>
    rw [List.cons_append]
    cases hend : e.isEndOfDirectory with
    | true => rw [(shown_end hend).1, (shown_end hend).1, if_pos (shown_end hend).2]
    | false =>
      rw [hasEnd_cons hend]
      cases hskip : e.isSkipped with
      | true => rw [shown_skipped hend hskip, shown_skipped hend hskip, ih]
      | false =>
        rw [shown_cons hend hskip, shown_cons hend hskip, ih]
        split <;> rfl

lemma runEntries_append : runEntries cb (es ++ es') idx t =
    if (runEntries cb es idx t).1 then runEntries cb es idx t
    else runEntries cb es' (runEntries cb es idx t).2.1 (runEntries cb es idx t).2.2 := by
  induction es generalizing idx t with
  | nil => rfl
  | cons e es ih =>
    rw [List.cons_append, runEntries, runEntries]
    split
    · rfl
    · exact ih

lemma scanEntries_eq : scanEntries cb es idx t =
    (if (runEntries cb (shown es) idx t).1 then .handled else if hasEnd es then .ended else .full,
      (runEntries cb (shown es) idx t).2) := by
  induction es generalizing idx t with
  | nil => rfl
  | cons e es ih =>
    rw [scanEntries]
    cases hend : e.isEndOfDirectory with
    | true =>
      rw [if_pos rfl, (shown_end hend).1, (shown_end hend).2]
      rfl
    | false =>
      rw [if_neg Bool.false_ne_true, hasEnd_cons hend]
      cases hskip : e.isSkipped with
      | true => rw [if_pos rfl, shown_skipped hend hskip, ih]
      | false =>
        rw [if_neg Bool.false_ne_true, shown_cons hend hskip, runEntries]
        obtain ⟨stop, t'⟩ := cb idx e t
        cases stop with
        | true => rfl
        | false => exact ih

end Entries

section Chain

variable {vol : Volume} {cache : FatCache} {c : ℕ} {cs : List ℕ} {idx : ℕ} {t : τ}

/-- The entries of a sector of a cluster, and of all its sectors. -/
def Volume.sectorEntries (vol : Volume) (c j : ℕ) : List DirectoryEntry :=
  entriesIn (slice vol.storage.byte (vol.clusterOffset c + sectorSize * j) sectorSize)

def Volume.slots (vol : Volume) (c : ℕ) : List DirectoryEntry :=
  (List.range vol.bpb.secPerClus).flatMap (vol.sectorEntries c)

lemma readSector_cluster (hc : vol.IsCluster c) {j : ℕ} (hj : j < vol.bpb.secPerClus) :
    vol.readSector (add32 (clusterIdxToSector vol.bpb c) j) (List.replicate sectorSize 0) =
      (0, slice vol.storage.byte (vol.clusterOffset c + sectorSize * j) sectorSize) := by
  obtain ⟨hsec, hdev⟩ := clusterIdxToSector_cluster hc
  obtain ⟨⟨-, hge⟩, hcount⟩ := hc
  have hfits := vol.sectors_fit
  have hin : (c - 2) * vol.bpb.secPerClus + vol.bpb.secPerClus ≤ vol.clusterCount * vol.bpb.secPerClus := by
    rw [← Nat.succ_mul]
    exact Nat.mul_le_mul_right _ (by omega)
  rw [Volume.clusterOffset] at hsec hdev ⊢
  rw [FilesystemCtx.clusterSize] at hdev
  simp only [sectorSize] at hsec hdev
  rw [add32_of_lt (by omega), readSector_inRange List.length_replicate (by simp only [sectorSize]; omega)]
  simp only [sectorSize]
  rw [Nat.mul_add, hsec]

lemma scanSectors_eq (hc : vol.IsCluster c) {n j : ℕ} (hj : j + n ≤ vol.bpb.secPerClus) :
    scanSectors vol.toFilesystemCtx cb (clusterIdxToSector vol.bpb c) n j idx t =
      (if (runEntries cb (shown ((List.range' j n).flatMap (vol.sectorEntries c))) idx t).1 then some 0 else none,
        (runEntries cb (shown ((List.range' j n).flatMap (vol.sectorEntries c))) idx t).2) := by
  induction n generalizing j idx t with
  | zero => rfl
  | succ n ih =>
    rw [scanSectors, readSector_cluster hc (by omega)]
    dsimp only
    rw [if_neg (not_not_intro rfl), scanEntries_eq, List.range'_succ, List.flatMap_cons, shown_append]
    change (match (if (runEntries cb (shown (vol.sectorEntries c j)) idx t).1 then SectorEnd.handled
        else if hasEnd (vol.sectorEntries c j) then .ended else .full,
        (runEntries cb (shown (vol.sectorEntries c j)) idx t).2) with
      | (.full, idx, t) => scanSectors vol.toFilesystemCtx cb (clusterIdxToSector vol.bpb c) n (j + 1) idx t
      | (.ended, idx, t) => (none, idx, t)
      | (.handled, idx, t) => (some 0, idx, t)) = _
    cases hend : hasEnd (vol.sectorEntries c j) with
    | true =>
      rw [if_pos (rfl : true = true), if_pos (rfl : true = true)]
      generalize runEntries cb (shown (vol.sectorEntries c j)) idx t = r
      obtain ⟨stop, r⟩ := r
      cases stop with
      | true => rfl
      | false => rfl
    | false =>
      rw [if_neg Bool.false_ne_true, if_neg Bool.false_ne_true, runEntries_append]
      generalize runEntries cb (shown (vol.sectorEntries c j)) idx t = r
      obtain ⟨stop, idx', t'⟩ := r
      cases stop with
      | true => rfl
      | false => exact ih (by omega)

lemma scanSectors_cluster (hc : vol.IsCluster c) :
    scanSectors vol.toFilesystemCtx cb (clusterIdxToSector vol.bpb c) vol.bpb.secPerClus 0 idx t =
      (if (runEntries cb (shown (vol.slots c)) idx t).1 then some 0 else none,
        (runEntries cb (shown (vol.slots c)) idx t).2) := by
  rw [scanSectors_eq cb hc (Nat.zero_add _).le, ← List.range_eq_range']
  rfl

/-- One round of the loop over the clusters. -/
lemma foreachEntry_round (idx : ℕ) (t : τ) (h : cache.Coherent vol.toFilesystemCtx) (hc : vol.IsCluster c) (fuel : ℕ) :
    ∃ cache', cache'.Coherent vol.toFilesystemCtx ∧ foreachEntry vol.toFilesystemCtx cb (fuel + 1) cache c idx t =
      if (runEntries cb (shown (vol.slots c)) idx t).1 then
        .ok (0, cache, (runEntries cb (shown (vol.slots c)) idx t).2.2)
      else foreachEntry vol.toFilesystemCtx cb fuel cache' (vol.fatEntry c)
        (runEntries cb (shown (vol.slots c)) idx t).2.1 (runEntries cb (shown (vol.slots c)) idx t).2.2 := by
  obtain ⟨cache', hn, hcache'⟩ := nextCluster_step h hc
  refine ⟨cache', hcache', ?_⟩
  rw [foreachEntry, if_neg (not_not_intro hc.1), scanSectors_cluster cb hc]
  generalize runEntries cb (shown (vol.slots c)) idx t = r
  obtain ⟨stop, idx', t'⟩ := r
  cases stop with
  | true => rfl
  | false =>
    simp only [Bool.false_eq_true, if_false, hn]

lemma foreachEntry_chain (idx : ℕ) (t : τ) (h : cache.Coherent vol.toFilesystemCtx) (hc : vol.Chains (c :: cs))
    (hlast : ∀ d ∈ (c :: cs).getLast?, ¬ isValidCluster (vol.fatEntry d)) (fuel : ℕ) (hf : cs.length + 1 < fuel) :
    ∃ cache', foreachEntry vol.toFilesystemCtx cb fuel cache c idx t =
        .ok (if (runEntries cb ((c :: cs).flatMap fun d => shown (vol.slots d)) idx t).1 then 0 else -Err.noEnt, cache',
          (runEntries cb ((c :: cs).flatMap fun d => shown (vol.slots d)) idx t).2.2) ∧
      cache'.Coherent vol.toFilesystemCtx := by
  induction cs generalizing fuel cache c idx t with
  | nil =>
    obtain ⟨fuel, rfl⟩ : ∃ n, fuel = n + 2 := ⟨fuel - 2, by rw [List.length_nil] at hf; omega⟩
    obtain ⟨cache', hcache', hround⟩ := foreachEntry_round cb idx t h (hc.valid c List.mem_cons_self) (fuel + 1)
    rw [List.flatMap_singleton, hround]
    split
    · exact ⟨cache, rfl, h⟩
    · refine ⟨cache', ?_, hcache'⟩
      rw [foreachEntry, if_pos (hlast c rfl)]
  | cons d cs ih =>
    obtain ⟨fuel, rfl⟩ : ∃ n, fuel = n + 1 := ⟨fuel - 1, by omega⟩
    obtain rfl : vol.fatEntry c = d := (List.isChain_cons_cons.mp hc.linked).1
    obtain ⟨cache', hcache', hround⟩ := foreachEntry_round cb idx t h (hc.valid c List.mem_cons_self) fuel
    rw [List.flatMap_cons, runEntries_append, hround]
    split
    · exact ⟨cache, rfl, h⟩
    · exact ih _ _ hcache' hc.tail hlast fuel (by rw [List.length_cons] at hf; omega)

end Chain

section Getdents

/-- The callback skips `k` entries and stores at most `count` of the others. -/
lemma runEntries_getdents (identifier : ℕ) (es : List DirectoryEntry) (idx k count : ℕ) (out : List Dirent) :
    (runEntries (getdentsCallback identifier) es idx ⟨direntSize * k, count, out⟩).2.2.entries =
      out ++ ((es.drop k).take count).map fun e => e.dirent identifier := by
  induction es generalizing idx k count out with
  | nil => simp [runEntries]
  | cons e es ih =>
    rw [runEntries, getdentsCallback]
    cases count with
    | zero =>
      rw [List.take_zero, List.map_nil, List.append_nil]
      rfl
    | succ count =>
      rw [if_neg (Nat.succ_ne_zero count)]
      cases k with
      | zero =>
        rw [if_neg (by simp)]
        have htail := ih (idx + 1) 0 count (out ++ [e.dirent identifier])
        rw [List.drop_zero, List.append_assoc] at htail
        rw [List.drop_zero, List.take_succ_cons, List.map_cons]
        exact htail
      | succ k =>
        have hpos : (direntSize * (k + 1 : ℕ) : ℤ) > 0 := by
          simp only [direntSize]
          omega
        have hsub : (direntSize * (k + 1 : ℕ) : ℤ) - direntSize = direntSize * k := by
          simp only [direntSize]
          omega
        rw [if_pos hpos, List.drop_succ_cons]
        dsimp only
        rw [hsub]
        exact ih (idx + 1) k (count + 1) out

/-- Behind the entries up to the end of the directory the loop hands on those of the clusters behind it. -/
lemma flatMap_shown (vol : Volume) (clusters : List ℕ) :
    ∃ rest, (clusters.flatMap fun c => shown (vol.slots c)) = shown (clusters.flatMap vol.slots) ++ rest ∧
      (rest = [] ↔ clusters.Pairwise fun c c' => hasEnd (vol.slots c) = true → shown (vol.slots c') = []) := by
  induction clusters with
  | nil => exact ⟨[], rfl, fun _ => List.Pairwise.nil, fun _ => rfl⟩
  | cons c clusters ih =>
    obtain ⟨rest, hrest, hends⟩ := ih
    rw [List.flatMap_cons, List.flatMap_cons, shown_append, List.pairwise_cons]
    cases hend : hasEnd (vol.slots c) with
    | true =>
      rw [if_pos rfl]
      refine ⟨_, rfl, ?_⟩
      rw [List.flatMap_eq_nil_iff]
      refine ⟨fun h => ⟨fun c' hc' _ => h c' hc', ?_⟩, fun h c' hc' => h.1 c' hc' rfl⟩
      exact List.pairwise_of_forall_mem_list fun _ _ c' hc' _ => h c' hc'
    | false =>
      rw [if_neg Bool.false_ne_true, hrest]
      refine ⟨rest, (List.append_assoc ..).symm, hends.trans ⟨fun h => ⟨fun _ _ => nofun, h⟩, fun h => h.2⟩⟩

/-- A directory whose clusters are `clusters`, each once. -/
structure Directory (vol : Volume) where
  identifier : ℕ
  clusters : List ℕ
  first : clusters.head? = some identifier
  chain : vol.Chains clusters
  last : ∀ c ∈ clusters.getLast?, ¬ isValidCluster (vol.fatEntry c)
  acyclic : clusters.Nodup

variable {vol : Volume} (d : Directory vol)

namespace Directory

lemma length_clusters : d.clusters.length < maxClusters := by
  have hsub : d.clusters ⊆ List.range' 2 (maxClusters - 2) := fun c hc => by
    obtain ⟨hlt, hge⟩ := (d.chain.valid c hc).1
    rw [List.mem_range'_1]
    exact ⟨hge, by omega⟩
  have hle := (d.acyclic.subperm hsub).length_le
  rw [List.length_range'] at hle
  exact hle.trans_lt (by decide)

/-- The entries before the end of the directory that are neither deleted nor parts of long names. -/
def visible : List Dirent := (shown (d.clusters.flatMap vol.slots)).map fun e => e.dirent d.identifier

/-- The entries that `foreach_8_3_directory_entry` hands on. -/
def listed : List Dirent := (d.clusters.flatMap fun c => shown (vol.slots c)).map fun e => e.dirent d.identifier

/-- No cluster behind one with the end of the directory has an entry to show. -/
def EndsOnce : Prop := d.clusters.Pairwise fun c c' => hasEnd (vol.slots c) = true → shown (vol.slots c') = []

def handed : List DirectoryEntry := d.clusters.flatMap fun c => shown (vol.slots c)

lemma foreachEntry_eq {τ : Type} (cb : ℕ → DirectoryEntry → τ → Bool × τ) {cache : FatCache}
    (h : cache.Coherent vol.toFilesystemCtx) (idx : ℕ) (t : τ) :
    ∃ cache', foreachEntry vol.toFilesystemCtx cb (maxClusters + 1) cache (d.identifier % 2 ^ 32) idx t =
        .ok (if (runEntries cb d.handed idx t).1 then 0 else -Err.noEnt, cache', (runEntries cb d.handed idx t).2.2) ∧
      cache'.Coherent vol.toFilesystemCtx := by
  obtain ⟨cs, hcs⟩ : ∃ cs, d.clusters = d.identifier :: cs := List.head?_eq_some_iff.mp d.first
  have hlen := d.length_clusters
  have hchain := d.chain
  have hlast := d.last
  rw [handed]
  rw [hcs] at hlen hchain hlast ⊢
  have hid : d.identifier % 2 ^ 32 = d.identifier := by
    have hlt := (hchain.valid d.identifier List.mem_cons_self).1.1
    omega
  rw [hid]
  exact foreachEntry_chain cb idx t h hchain hlast (maxClusters + 1) (by rw [List.length_cons] at hlen; omega)

lemma getdents_eq {cache : FatCache} (h : cache.Coherent vol.toFilesystemCtx) (offset count : ℕ) :
    ∃ cache', dirInodeGetdents vol.toFilesystemCtx cache d.identifier offset count =
        .ok ((d.listed.drop (offset / direntSize)).take count, cache') ∧ cache'.Coherent vol.toFilesystemCtx := by
  have hround : (offset : ℤ) / direntSize * direntSize = direntSize * (offset / direntSize : ℕ) := by
    simp only [direntSize]
    omega
  obtain ⟨cache', hrun, hcache'⟩ := d.foreachEntry_eq (getdentsCallback d.identifier) h 0
    ⟨direntSize * (offset / direntSize : ℕ), count, []⟩
  refine ⟨cache', ?_, hcache'⟩
  have hentries := runEntries_getdents d.identifier d.handed 0 (offset / direntSize) count []
  rw [List.nil_append, List.map_take, List.map_drop] at hentries
  rw [dirInodeGetdents, hround, hrun, ok_bind]
  dsimp only
  rw [hentries]
  rfl

lemma listed_eq_iff : d.listed = d.visible ↔ d.EndsOnce := by
  obtain ⟨rest, hrest, hends⟩ := flatMap_shown vol d.clusters
  rw [listed, visible, hrest, List.map_append, EndsOnce, ← hends, List.append_right_eq_self, List.map_eq_nil_iff]

end Directory

end Getdents

end Pi0Os.Vfs.Fat32
