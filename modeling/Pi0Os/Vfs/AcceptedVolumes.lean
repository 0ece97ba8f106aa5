import Pi0Os.Vfs.ClusterReads
import Pi0Os.Vfs.FatCache
import Pi0Os.Vfs.Fat32Directory

/-! `fat32_try_create`, and which of the volumes it accepts can be read without a wrap. -/

namespace Pi0Os.Vfs.Fat32

open Kernel Byte Buffer Library
open Tempfs (SizedInode)

abbrev bootSignature : ℕ := 0xaa55
abbrev fsinfoLeadSignature : ℕ := 0x41615252
abbrev fsinfoStrucSignature : ℕ := 0x61417272
abbrev fsinfoTrailSignature : ℕ := 0xaa550000

/-- The fields of a boot sector. -/
def BiosParameterBlock.ofSector (sector : Buffer) : BiosParameterBlock :=
  ⟨(sector.getD 13 0).toNat, le16 sector 14, (sector.getD 16 0).toNat, le32 sector 36⟩

def FatCache.fresh : FatCache := ⟨invalidSector, List.replicate sectorSize 0, List.length_replicate⟩

/-- `fat32_try_create`, where `mem` says whether `malloc` succeeds. -/
def tryCreate (storage : Storage) (mem : Bool) : Except ℤ (FilesystemCtx × FatCache) :=
  -- the structures are not initialised, and nothing reads them unless the device has filled them
  let bpb := storage.read 0 (List.replicate sectorSize 0)
  if toInt bpb.1 < 0 then .error (toInt bpb.1)
  else if toInt bpb.1 < sectorSize then .error (-Err.inval)
  else if le16 bpb.2 510 ≠ bootSignature then .error (-Err.inval)
  else if le16 bpb.2 11 ≠ sectorSize then .error (-Err.inval)
  else
    let fsInfo := storage.read (le16 bpb.2 11 * le16 bpb.2 48) (List.replicate sectorSize 0)
    if toInt fsInfo.1 < 0 then .error (toInt fsInfo.1)
    else if toInt fsInfo.1 < sectorSize then .error (-Err.inval)
    else if le32 fsInfo.2 0 ≠ fsinfoLeadSignature ∨ le32 fsInfo.2 484 ≠ fsinfoStrucSignature ∨
        le32 fsInfo.2 508 ≠ fsinfoTrailSignature then .error (-Err.inval)
    else if ¬ mem then .error (-Err.noMem)
    else .ok (⟨storage, .ofSector bpb.2⟩, .fresh)

/-- A lookup in some directory has filled in the inode of the file. -/
def FileFound (ctx : FilesystemCtx) (self : FileInode) : Prop :=
  ∃ cache dir name inode cache', dirInodeLookup ctx cache dir name = .ok (0, some inode, cache') ∧
    inode.type = .regularFile ∧ inode.identifier = self.identifier ∧ inode.size = self.size

/-- The first sector of a cluster. -/
def sectorNumber (bpb : BiosParameterBlock) (c : ℕ) : ℕ :=
  bpb.rsvdSecCnt + bpb.numFATs * bpb.fatSz32 + (c - 2) * bpb.secPerClus

/-- The place of the read is the product of the sector size and a sector number, and no step to it wraps. -/
structure ClusterRead.Unwrapped (bpb : BiosParameterBlock) (r : ClusterRead) : Prop where
  subtraction : 2 ≤ r.cluster
  product : r.diskoff = sectorSize * sectorNumber bpb r.cluster + r.offsetInCluster
  diskoff_lt : r.diskoff < 2 ^ 64

/-- The numbers of which a read of the file may look up the next one. -/
def LookedUp (ctx : FilesystemCtx) (self : FileInode) (c : ℕ) : Prop :=
  c = self.identifier % 2 ^ 32 ∨ ∃ cache c' cache', ctx.nextCluster cache c' = (cache', .ok c)

/-- Every read of the file comes to an end, each of its rounds asks for something, and no place on the disk wraps. -/
structure ReadsSafely (ctx : FilesystemCtx) (cache : FatCache) (file : FileInode) : Prop where
  requests : ∀ offset buffer size, size ≤ buffer.length →
    ∃ r log, loggedRead ctx cache file offset buffer size = .ok (r, log) ∧
      ∀ e ∈ log, 0 < e.size ∧ e.Unwrapped ctx.bpb
  tables : ∀ c, LookedUp ctx file c →
    add32 ctx.bpb.rsvdSecCnt (c * 4 % 2 ^ 32 / sectorSize) = fatSector ctx.bpb c

/-- The device gives all of the cluster from `offset` on. -/
def Delivers (ctx : FilesystemCtx) (c offset : ℕ) : Prop :=
  ∃ block : Buffer, block.length = ctx.clusterSize - offset % ctx.clusterSize ∧
    (ctx.storage.read (sectorSize * clusterIdxToSector ctx.bpb c + offset % ctx.clusterSize) block).1 = block.length

/-- Some read of the file comes to the byte `offset` with `c` for its cluster. -/
inductive Visited (ctx : FilesystemCtx) (cache : FatCache) (self : FileInode) : ℕ → FatCache → ℕ → Prop
  | start {offset cache' c} : offset < self.size →
      ctx.stepClusterChain cache (self.identifier % 2 ^ 32) (offset / ctx.clusterSize) = (cache', .ok c) →
      Visited ctx cache self offset cache' c
  | next {offset cache₁ c cache₂ d} : Visited ctx cache self offset cache₁ c → Delivers ctx c offset →
      (offset / ctx.clusterSize + 1) * ctx.clusterSize < self.size →
      ctx.nextCluster cache₁ c = (cache₂, .ok d) → isValidCluster d →
      Visited ctx cache self ((offset / ctx.clusterSize + 1) * ctx.clusterSize) cache₂ d

/-- The number is that of a cluster, and its first sector has a number of 32 bits. -/
def Addressable (bpb : BiosParameterBlock) (c : ℕ) : Prop := 2 ≤ c ∧ sectorNumber bpb c < 2 ^ 32

section Found

variable {ctx : FilesystemCtx} {cache cache' : FatCache} {self : FileInode} {bpb : BiosParameterBlock} {c : ℕ}

/-- Where the loop over the entries has been told to stop, an entry was handed on. -/
lemma scanEntries_handled {τ : Type} {cb : ℕ → DirectoryEntry → τ → Bool × τ} {es : List DirectoryEntry} {idx idx' : ℕ}
    {t t' : τ} (h : scanEntries cb es idx t = (.handled, idx', t')) :
    ∃ i e t₀, e ∈ es ∧ cb i e t₀ = (true, t') := by
  induction es generalizing idx t with
  | nil => cases h
  | cons e es ih =>
    rw [scanEntries] at h
    by_cases hend : e.isEndOfDirectory = true
    · rw [if_pos hend] at h
      cases h
    rw [if_neg hend] at h
    by_cases hskip : e.isSkipped = true
    · rw [if_pos hskip] at h
      obtain ⟨i, e', t₀, he', hcb⟩ := ih h
      exact ⟨i, e', t₀, List.mem_cons_of_mem e he', hcb⟩
    rw [if_neg hskip] at h
    cases hcb : cb idx e t with
    | mk stop t₁ =>
      rw [hcb] at h
      cases stop with
      | true =>
        cases h
        exact ⟨_, e, t, List.mem_cons_self, hcb⟩
      | false =>
        obtain ⟨i, e', t₀, he', hcb'⟩ := ih h
        exact ⟨i, e', t₀, List.mem_cons_of_mem e he', hcb'⟩

lemma scanSectors_handled {τ : Type} {cb : ℕ → DirectoryEntry → τ → Bool × τ} {start n sectorIdx idx idx' : ℕ}
    {t t' : τ} (h : scanSectors ctx cb start n sectorIdx idx t = (some 0, idx', t')) :
    0 < n ∧ ∃ i sector e t₀, e ∈ entriesIn sector ∧ cb i e t₀ = (true, t') := by
  induction n generalizing sectorIdx idx t with
  | zero => cases h
  | succ n ih =>
    refine ⟨n.succ_pos, ?_⟩
    rw [scanSectors] at h
    generalize ctx.readSector (add32 start sectorIdx) (List.replicate sectorSize 0) = result at h
    obtain ⟨rc, sector⟩ := result
    dsimp only at h
    by_cases hrc : rc ≠ 0
    · rw [if_pos hrc] at h
      cases h
      exact absurd rfl hrc
    rw [if_neg hrc] at h
    cases hscan : scanEntries cb (entriesIn sector) idx t with
    | mk stop rest =>
      rw [hscan] at h
      cases stop with
      | full => exact (ih h).2
      | ended => cases h
      | handled =>
        cases h
        obtain ⟨i, e, t₀, he, hcb⟩ := scanEntries_handled hscan
        exact ⟨i, sector, e, t₀, he, hcb⟩

lemma foreachEntry_handled {τ : Type} {cb : ℕ → DirectoryEntry → τ → Bool × τ} {fuel idx : ℕ} {t t' : τ}
    (h : foreachEntry ctx cb fuel cache c idx t = .ok (0, cache', t')) :
    0 < ctx.bpb.secPerClus ∧ ∃ i sector e t₀, e ∈ entriesIn sector ∧ cb i e t₀ = (true, t') := by
  induction fuel generalizing cache c idx t with
  | zero => cases h
  | succ fuel ih =>
    rw [foreachEntry] at h
    by_cases hvalid : ¬ isValidCluster c
    · rw [if_pos hvalid] at h
      cases h
    rw [if_neg hvalid] at h
    cases hscan : scanSectors ctx cb (clusterIdxToSector ctx.bpb c) ctx.bpb.secPerClus 0 idx t with
    | mk found rest =>
      rw [hscan] at h
      cases found with
      | some rc =>
        cases h
        exact scanSectors_handled hscan
      | none =>
        dsimp only at h
        cases hnext : ctx.nextCluster cache c with
        | mk cache₁ found =>
          rw [hnext] at h
          cases found with
          | error rc =>
            cases h
            exact absurd (nextCluster_error hnext) (lt_irrefl 0)
          | ok next => exact ih h

lemma foreachEntry_found {τ : Type} {cb : ℕ → DirectoryEntry → τ → Bool × τ} {rc : ℤ} {idx idx' : ℕ} {t t' : τ}
    (fuel : ℕ) (cache : FatCache) (hc : isValidCluster c) (h : scanSectors ctx cb (clusterIdxToSector ctx.bpb c)
      ctx.bpb.secPerClus 0 idx t = (some rc, idx', t')) :
    foreachEntry ctx cb (fuel + 1) cache c idx t = .ok (rc, cache, t') := by
  rw [foreachEntry, if_neg (not_not_intro hc), h]

lemma dirInodeLookup_scan {dir : SizedInode} {name : CString} {rc : ℤ} {out : Option SizedInode}
    (hdir : dir.type = .directory) (h : foreachEntry ctx (lookupCallback dir.filesystem name) (maxClusters + 1) cache
      (dir.identifier % 2 ^ 32) 0 none = .ok (rc, cache', out)) :
    dirInodeLookup ctx cache dir name = .ok (rc, out, cache') := by
  rw [dirInodeLookup, kassert, if_pos hdir, ok_bind, h]
  rfl

lemma DirectoryEntry.cluster_lt (e : DirectoryEntry) : e.cluster < 2 ^ 28 :=
  Nat.and_lt_two_pow _ (by decide : 0x0fffffff < 2 ^ 28)

/-- What a lookup tells of a file: its volume has sectors, and its first cluster has a number of 28 bits. -/
lemma FileFound.bounds (h : FileFound ctx self) : 0 < ctx.clusterSize ∧ self.identifier < 2 ^ 28 := by
  obtain ⟨cache, dir, name, inode, cache', hlookup, -, hid, -⟩ := h
  rw [dirInodeLookup] at hlookup
  obtain ⟨-, -, hlookup⟩ := bind_eq_ok.mp hlookup
  obtain ⟨⟨rc, cache₁, out⟩, hscan, hret⟩ := bind_eq_ok.mp hlookup
  cases hret
  obtain ⟨hpos, i, sector, e, t₀, -, hcb⟩ := foreachEntry_handled hscan
  refine ⟨Nat.mul_pos hpos (by decide), ?_⟩
  rw [lookupCallback] at hcb
  by_cases hname : strcasecmp name e.entryName ≠ 0
  · rw [if_pos hname] at hcb
    cases hcb
  · rw [if_neg hname] at hcb
    have hinode : e.inode dir.filesystem = inode := Option.some.inj (Prod.mk.inj hcb).2
    rw [← hid, ← hinode]
    exact e.cluster_lt

end Found

section Sectors

variable {ctx : FilesystemCtx} {fresh cache cache' : FatCache} {self : FileInode} {c : ℕ}

lemma le16_lt (buf : Buffer) (off : ℕ) : le16 buf off < 2 ^ 16 := by
  have hlo := (buf.getD off 0).toNat_lt
  have hhi := (buf.getD (off + 1) 0).toNat_lt
  rw [le16]
  omega

/-- The fields of the boot sector have the widths of their types. -/
lemma tryCreate_bounds {storage : Storage} {mem : Bool} (h : tryCreate storage mem = .ok (ctx, fresh)) :
    ctx.bpb.rsvdSecCnt < 2 ^ 16 ∧ ctx.clusterSize < 2 ^ 17 := by
  simp only [tryCreate] at h
  split_ifs at h
  cases h
  have hspc : (BiosParameterBlock.ofSector (storage.read 0 (List.replicate sectorSize 0)).2).secPerClus < 2 ^ 8 :=
    UInt8.toNat_lt _
  exact ⟨le16_lt _ 14, Nat.mul_lt_mul_of_pos_right hspc (by decide)⟩

lemma nextCluster_lt {d : ℕ} (h : ctx.nextCluster cache c = (cache', .ok d)) : d < 2 ^ 28 := by
  have hmask (x : ℕ) : x &&& 0x0fffffff < 2 ^ 28 := Nat.and_lt_two_pow _ (by decide)
  simp only [FilesystemCtx.nextCluster] at h
  split_ifs at h
  · cases h
  · cases h
    exact hmask _
  · cases h
    exact hmask _

lemma LookedUp.lt (h : LookedUp ctx self c) (hself : self.identifier < 2 ^ 28) : c < 2 ^ 28 := by
  rcases h with rfl | ⟨cache, c', cache', hnext⟩
  · exact (Nat.mod_le _ _).trans_lt hself
  · exact nextCluster_lt hnext

lemma stepClusterChain_lt {c d steps : ℕ} (hc : c < 2 ^ 28) (h : ctx.stepClusterChain cache c steps = (cache', .ok d)) :
    d < 2 ^ 28 := by
  induction steps generalizing cache c with
  | zero =>
    cases h
    exact hc
  | succ steps ih =>
    rw [FilesystemCtx.stepClusterChain] at h
    cases hnext : ctx.nextCluster cache c with
    | mk cache₁ found =>
      rw [hnext] at h
      cases found with
      | error rc => cases h
      | ok next =>
        dsimp only at h
        by_cases hvalid : ¬ isValidCluster next
        · rw [if_pos hvalid] at h
          cases h
          exact nextCluster_lt hnext
        · rw [if_neg hvalid] at h
          exact ih (nextCluster_lt hnext) h

lemma Visited.lt {offset : ℕ} (h : Visited ctx cache self offset cache' c) (hself : self.identifier < 2 ^ 28) :
    c < 2 ^ 28 := by
  cases h with
  | start _ hstep => exact stepClusterChain_lt ((Nat.mod_le _ _).trans_lt hself) hstep
  | next _ _ _ hnext _ => exact nextCluster_lt hnext

/-- `cluster_idx_to_sector` is the sector of the cluster modulo 2 ^ 32. -/
lemma clusterIdxToSector_mod (bpb : BiosParameterBlock) (hge : 2 ≤ c) (hc : c < 2 ^ 28) :
    clusterIdxToSector bpb c = sectorNumber bpb c % 2 ^ 32 := by
  rw [clusterIdxToSector, sectorNumber, sub32_of_le hge (by omega), add32, add32]
  omega

lemma roundRead_unwrapped {offset remaining : ℕ} {post : Buffer} (hpos : 0 < ctx.clusterSize)
    (hcs : ctx.clusterSize < 2 ^ 17) (hc : c < 2 ^ 28) :
    ((ctx.roundRead c offset remaining post).1).Unwrapped ctx.bpb ↔ Addressable ctx.bpb c := by
  constructor
  · intro h
    have hge : 2 ≤ c := h.subtraction
    have hsame : clusterIdxToSector ctx.bpb c = sectorNumber ctx.bpb c :=
      Nat.eq_of_mul_eq_mul_left (by decide : 0 < sectorSize) (Nat.add_right_cancel h.product)
    rw [clusterIdxToSector_mod ctx.bpb hge hc] at hsame
    exact ⟨hge, hsame ▸ Nat.mod_lt _ (by decide)⟩
  · rintro ⟨hge, hlt⟩
    have hsame := (clusterIdxToSector_mod ctx.bpb hge hc).trans (Nat.mod_eq_of_lt hlt)
    refine ⟨hge, congrArg (fun x => sectorSize * x + offset % ctx.clusterSize) hsame, ?_⟩
    have hoffset := Nat.mod_lt offset hpos
    simp only [FilesystemCtx.roundRead, hsame, sectorSize]
    omega

end Sectors

section Reads

variable {ctx : FilesystemCtx} {cache cache₁ : FatCache} {self : FileInode} {c fuel offset remaining : ℕ}
  {post : Buffer}

/-- A round that has to go on has had the rest of its cluster. -/
lemma roundRead_delivers (hp : remaining ≤ post.length)
    (hcode : (ctx.roundRead c offset remaining post).1.code = (ctx.roundRead c offset remaining post).1.size)
    (hlt : (ctx.roundRead c offset remaining post).1.size < remaining) :
    (ctx.roundRead c offset remaining post).1.size = ctx.clusterSize - offset % ctx.clusterSize ∧
      Delivers ctx c offset := by
  have hsize : (ctx.roundRead c offset remaining post).1.size = ctx.clusterSize - offset % ctx.clusterSize := by
    have hmin : (ctx.roundRead c offset remaining post).1.size =
      min remaining (ctx.clusterSize - offset % ctx.clusterSize) := rfl
    omega
  have hlen : (post.take (ctx.roundRead c offset remaining post).1.size).length =
      (ctx.roundRead c offset remaining post).1.size := by
    rw [List.length_take]
    omega
  exact ⟨hsize, _, hlen.trans hsize, hcode.trans (congrArg Nat.cast hlen.symm)⟩

lemma next_offset (hpos : 0 < ctx.clusterSize) :
    offset + (ctx.clusterSize - offset % ctx.clusterSize) = (offset / ctx.clusterSize + 1) * ctx.clusterSize := by
  have hlt := Nat.mod_lt offset hpos
  have hdiv := Nat.div_add_mod' offset ctx.clusterSize
  rw [Nat.succ_mul]
  omega

/-- From a cluster to which a read of the file comes it goes on to its end, and its rounds are at such clusters. -/
lemma loggedClusters_safe (hpos : 0 < ctx.clusterSize)
    (hgood : ∀ o cache' c, Visited ctx cache self o cache' c →
      ∀ remaining post, ((ctx.roundRead c o remaining post).1).Unwrapped ctx.bpb)
    (bytesRead : ℕ) (pre : Buffer) (hv : Visited ctx cache self offset cache₁ c) (hr : 0 < remaining)
    (hfile : offset + remaining ≤ self.size) (hp : remaining ≤ post.length) (hf : remaining ≤ fuel) :
    ∃ r log, ctx.loggedClusters (fuel + 1) cache₁ c offset remaining bytesRead pre.length (pre ++ post) =
      .ok (r, log) ∧ ∀ e ∈ log, 0 < e.size ∧ e.Unwrapped ctx.bpb := by
  induction fuel generalizing cache₁ c offset remaining bytesRead pre post with
  | zero => omega
  | succ fuel ih =>
    have hround := @loggedClusters_round ctx cache₁ c (fuel + 1) offset remaining bytesRead pre post hr hp fuel.succ_pos
    have hentry : 0 < (ctx.roundRead c offset remaining post).1.size :=
      Nat.lt_min.mpr ⟨hr, Nat.sub_pos_of_lt (Nat.mod_lt _ hpos)⟩
    have hunwrapped := hgood offset cache₁ c hv remaining post
    have hdelivers := @roundRead_delivers ctx c offset remaining post hp
    generalize ctx.roundRead c offset remaining post = result at hround hentry hunwrapped hdelivers
    obtain ⟨entry, bytes⟩ := result
    dsimp only at hround hentry hunwrapped hdelivers
    have hone : ∀ e ∈ [entry], 0 < e.size ∧ e.Unwrapped ctx.bpb := fun e he => by
      rw [List.mem_singleton.mp he]
      exact ⟨hentry, hunwrapped⟩
    generalize ctx.loggedClusters (fuel + 1 + 1) cache₁ c offset remaining bytesRead pre.length (pre ++ post) = run
      at hround ⊢
    cases hround with
    | goesOn hcode hlt hnext hvalid =>
      obtain ⟨hsize, hgives⟩ := hdelivers hcode hlt
      have hoffset := @next_offset ctx offset hpos
      rw [← hsize] at hoffset
      have hv' := Visited.next hv hgives (by omega) hnext hvalid
      rw [← hoffset] at hv'
      have hleft : remaining - entry.size ≤ (post.drop entry.size).length := by
        rw [List.length_drop]
        omega
      obtain ⟨r, log, hrun, hlog⟩ := ih (bytesRead + entry.size) (pre ++ bytes) hv' (Nat.sub_pos_of_lt hlt)
        (by omega) hleft (by omega)
      rw [hrun]
      refine ⟨r, entry :: log, rfl, fun e he => ?_⟩
      rcases List.mem_cons.mp he with rfl | he
      · exact ⟨hentry, hunwrapped⟩
      · exact hlog e he
    | _ => exact ⟨_, _, rfl, hone⟩

/-- To every such cluster some read comes. -/
lemma Visited.reached (hpos : 0 < ctx.clusterSize) (hv : Visited ctx cache self offset cache₁ c) (post : Buffer)
    (hpost : 0 < post.length) (hfile : offset + post.length ≤ self.size) :
    ∃ (start size : ℕ) (buffer : Buffer) (fuel bytesRead : ℕ) (pre : Buffer) (before : ReadLog),
      size ≤ buffer.length ∧ post.length ≤ fuel ∧ loggedRead ctx cache self start buffer size = (do
        let (r, log) ← ctx.loggedClusters (fuel + 1) cache₁ c offset post.length bytesRead pre.length (pre ++ post)
        return (r, before ++ log)) := by
  induction hv generalizing post with
  | @start offset cache' c hlt hstep =>
    refine ⟨offset, post.length, post, post.length, 0, [], [], le_rfl, le_rfl, ?_⟩
    rw [loggedRead_eq hpos.ne' cache post (min_toUInt64 hlt.le), hstep, Nat.min_eq_left (by omega)]
    dsimp only
    rw [List.length_nil, List.nil_append]
    cases ctx.loggedClusters (post.length + 1) cache' c offset post.length 0 0 post <;> rfl
  | @next offset cache₁ c cache₂ d hv hdelivers hinside hnext hvalid ih =>
    obtain ⟨block, hblock, hread⟩ := hdelivers
    have hoffset := @next_offset ctx offset hpos
    have hmod := Nat.mod_lt offset hpos
    obtain ⟨start, size, buffer, fuel, bytesRead, pre, before, hsize, hfuel, hrun⟩ := ih (block ++ post)
      (by rw [List.length_append]; omega) (by rw [List.length_append]; omega)
    rw [List.length_append] at hfuel hrun
    obtain ⟨fuel, rfl⟩ := Nat.exists_eq_succ_of_ne_zero (by omega : fuel ≠ 0)
    have hround := @loggedClusters_round ctx cache₁ c (fuel + 1) offset (block.length + post.length) bytesRead pre
      (block ++ post) (by omega) (by rw [List.length_append]) fuel.succ_pos
    have hrest : (ctx.roundRead c offset (block.length + post.length) (block ++ post)).1.size = block.length := by
      have hmin : (ctx.roundRead c offset (block.length + post.length) (block ++ post)).1.size =
        min (block.length + post.length) (ctx.clusterSize - offset % ctx.clusterSize) := rfl
      omega
    have hcode : (ctx.roundRead c offset (block.length + post.length) (block ++ post)).1.code = block.length := by
      have hmin : min (block.length + post.length) block.length = block.length := by omega
      simp only [FilesystemCtx.roundRead]
      rw [← hblock, hmin, List.take_left, hread]
    generalize ctx.roundRead c offset (block.length + post.length) (block ++ post) = result at hround hrest hcode
    obtain ⟨entry, bytes⟩ := result
    dsimp only at hround hrest hcode
    generalize ctx.loggedClusters (fuel.succ + 1) cache₁ c offset (block.length + post.length) bytesRead pre.length
      (pre ++ (block ++ post)) = run at hround hrun
    cases hround with
    | deviceFails hneg => omega
    | short _ hne => omega
    | fatFails _ _ hfail => cases hnext.symm.trans hfail
    | chainEnds _ _ hfound hinvalid =>
      cases hnext.symm.trans hfound
      exact absurd hvalid hinvalid
    | last _ hall => omega
    | goesOn _ _ hfound _ =>
      cases hnext.symm.trans hfound
      rw [hrest, List.drop_left, Nat.add_sub_cancel_left, hblock, hoffset] at hrun
      refine ⟨start, size, buffer, fuel, bytesRead + block.length, pre ++ bytes, before ++ [entry], hsize, by omega, ?_⟩
      rw [hrun, hblock]
      cases ctx.loggedClusters (fuel + 1) cache₂ d ((offset / ctx.clusterSize + 1) * ctx.clusterSize) post.length
        (bytesRead + (ctx.clusterSize - offset % ctx.clusterSize)) (pre ++ bytes).length (pre ++ bytes ++ post) with
      | error e => rfl
      | ok result =>
        rw [ok_bind]
        exact congrArg Except.ok (by rw [List.append_assoc]; rfl)

/-- Reads of a file of an accepted volume. -/
theorem readsSafely_iff {storage : Storage} {mem : Bool} {fresh : FatCache}
    (haccepted : tryCreate storage mem = .ok (ctx, fresh)) (hfound : FileFound ctx self) :
    ReadsSafely ctx cache self ↔ ∀ offset cache' c, Visited ctx cache self offset cache' c → Addressable ctx.bpb c := by
  obtain ⟨hrsvd, hcs⟩ := tryCreate_bounds haccepted
  obtain ⟨hpos, hself⟩ := hfound.bounds
  constructor
  · intro h offset cache' c hv
    have hin : offset < self.size := by
      cases hv with
      | start hlt _ => exact hlt
      | next _ _ hlt _ _ => exact hlt
    obtain ⟨start, size, buffer, fuel, bytesRead, pre, before, hsize, hfuel, hrun⟩ :=
      hv.reached hpos [0] Nat.one_pos hin
    obtain ⟨r, log, hok, hlog⟩ := h.requests start buffer size hsize
    rw [hok] at hrun
    obtain ⟨⟨r', log'⟩, hloop, hret⟩ := bind_eq_ok.mp hrun.symm
    cases hret
    have hmem := roundRead_mem pre Nat.one_pos le_rfl hfuel hloop
    exact (roundRead_unwrapped hpos hcs (hv.lt hself)).mp (hlog _ (List.mem_append_right _ hmem)).2
  · intro h
    refine ⟨fun offset buffer size hsize => ?_, fun c hc => (fatSector_eq hrsvd (hc.lt hself)).1⟩
    rw [loggedRead_eq hpos.ne' cache buffer rfl]
    generalize ho : min (toUInt64 offset) self.size = o
    cases hstep : ctx.stepClusterChain cache (self.identifier % 2 ^ 32) (o / ctx.clusterSize) with
    | mk cache₁ found =>
      cases found with
      | error rc => exact ⟨_, [], rfl, fun e he => by cases he⟩
      | ok d =>
        dsimp only
        rcases Nat.eq_zero_or_pos (min size (self.size - o)) with h0 | hn
        · rw [h0, FilesystemCtx.loggedClusters, if_neg (lt_irrefl 0)]
          exact ⟨_, [], rfl, fun e he => by cases he⟩
        · have hv := Visited.start (by omega : o < self.size) hstep
          exact loggedClusters_safe hpos
            (fun o cache' c hv _ _ => (roundRead_unwrapped hpos hcs (hv.lt hself)).mpr (h o cache' c hv)) 0 [] hv hn
            (by omega) ((Nat.min_le_left _ _).trans hsize) le_rfl

end Reads

section Example

/-- Two tables of one sector more than `high` times 2 ^ 24, one sector a cluster, and the entry "A" of a file of
one byte, whose cluster is 3, in the root directory. -/
def imageByte (high : UInt8) (i : ℕ) : UInt8 :=
  if i = 12 ∨ i = 14 ∨ i = 16 then 2 else if i = 13 ∨ i = 36 ∨ i = 48 then 1 else if i = 39 then high
  else if i = 510 then 0x55 else if i = 511 then 0xaa
  else if i = 512 ∨ i = 513 then 0x52 else if i = 514 then 0x61 else if i = 515 then 0x41
  else if i = 996 ∨ i = 997 then 0x72 else if i = 998 then 0x41 else if i = 999 then 0x61
  else if i = 1022 then 0x55 else if i = 1023 then 0xaa
  else if i = 2048 then 0x41 else if 2048 < i ∧ i ≤ 2058 then 0x20 else if i = 2074 then 3
  else if i = 2076 then 1 else 0

def image (high : UInt8) : Storage := Disk.storage ⟨3072, imageByte high⟩

def imageCtx (high : UInt8) : FilesystemCtx := ⟨image high, ⟨1, 2, 2, 1 + 2 ^ 24 * high.toNat⟩⟩

def imageFile : FileInode := ⟨3, 1, by omega⟩

def imageRoot : SizedInode := ⟨⟨0, .directory, 2, 0, true⟩, 0⟩

/-- With either of two values of `high` the same sectors are read. -/
lemma image_accepted {high : UInt8} (h : high = 0 ∨ high = 0x80) :
    tryCreate (image high) true = .ok (imageCtx high, .fresh) := by
  have hbpb : .ofSector ((image high).read 0 (List.replicate sectorSize 0)).2 = (imageCtx high).bpb := by
    rcases h with rfl | rfl <;> exact BiosParameterBlock.mk.injEq .. ▸ (by decide +kernel)
  simp only [tryCreate]
  rw [hbpb]
  rcases h with rfl | rfl <;> rw [if_neg (by decide +kernel), if_neg (by decide +kernel), if_neg (by decide +kernel),
    if_neg (by decide +kernel), if_neg (by decide +kernel), if_neg (by decide +kernel), if_neg (by decide +kernel),
    if_neg (by decide)] <;> rfl

lemma imageFile_found {high : UInt8} (h : high = 0 ∨ high = 0x80) : FileFound (imageCtx high) imageFile := by
  generalize hscan : scanSectors (imageCtx high) (lookupCallback 0 [0x41])
    (clusterIdxToSector (imageCtx high).bpb 2) 1 0 0 none = result
  obtain ⟨rc, idx, out⟩ := result
  have hcode : rc = some 0 := (congrArg Prod.fst hscan).symm.trans (by rcases h with rfl | rfl <;> decide +kernel)
  have hout : out.map (fun i => (i.type, i.identifier, i.size)) = some (.regularFile, 3, 1) :=
    (congrArg (fun r => r.2.2.map fun i => (i.type, i.identifier, i.size)) hscan).symm.trans
      (by rcases h with rfl | rfl <;> decide +kernel)
  subst hcode
  cases out with
  | none => cases hout
  | some inode =>
    obtain ⟨htype, hrest⟩ := Prod.mk.inj (Option.some.inj hout)
    obtain ⟨hid, hsize⟩ := Prod.mk.inj hrest
    have hvalid : isValidCluster (imageRoot.identifier % 2 ^ 32) := by decide
    have hforeach : foreachEntry (imageCtx high) (lookupCallback imageRoot.filesystem [0x41]) (maxClusters + 1) .fresh
      (imageRoot.identifier % 2 ^ 32) 0 none = .ok (0, .fresh, some inode) := foreachEntry_found _ _ hvalid hscan
    have hdir : imageRoot.type = .directory := rfl
    exact ⟨.fresh, imageRoot, [0x41], inode, .fresh, dirInodeLookup_scan hdir hforeach, htype, hid, hsize⟩

/-- The reads of a file of one byte come to its first cluster only. -/
lemma imageFile_visited {high : UInt8} {offset c : ℕ} {cache' : FatCache}
    (h : Visited (imageCtx high) .fresh imageFile offset cache' c) : c = 3 := by
  have hcs : (imageCtx high).clusterSize = 512 := Nat.one_mul 512
  cases h with
  | start hlt hstep =>
    obtain rfl : offset = 0 := Nat.lt_one_iff.mp hlt
    rw [Nat.zero_div] at hstep
    cases hstep
    rfl
  | @next offset _ _ _ _ _ _ hin _ _ =>
    rw [hcs] at hin
    have hone : imageFile.size = 1 := rfl
    omega

theorem readsSafely_image : ∃ fresh, tryCreate (image 0) true = .ok (imageCtx 0, fresh) ∧
    FileFound (imageCtx 0) imageFile ∧ ReadsSafely (imageCtx 0) .fresh imageFile :=
  ⟨.fresh, image_accepted (.inl rfl), imageFile_found (.inl rfl),
    (readsSafely_iff (image_accepted (.inl rfl)) (imageFile_found (.inl rfl))).mpr fun _ _ _ hv => by
      rw [imageFile_visited hv]
      exact ⟨by decide, by decide⟩⟩

/-- The two tables have 2 ^ 32 + 2 sectors, and the byte is read behind the second sector of them. -/
theorem reads_wrapped : (∃ fresh, tryCreate (image 0x80) true = .ok (imageCtx 0x80, fresh)) ∧
    FileFound (imageCtx 0x80) imageFile ∧ ¬ ReadsSafely (imageCtx 0x80) .fresh imageFile := by
  refine ⟨⟨.fresh, image_accepted (.inr rfl)⟩, imageFile_found (.inr rfl), fun h => ?_⟩
  obtain ⟨r, log, hrun, hlog⟩ := h.requests 0 [0] 1 le_rfl
  have hplaces : (loggedRead (imageCtx 0x80) .fresh imageFile 0 [0] 1).map (fun r => r.2.map ClusterRead.diskoff) =
      .ok [512 * 5] := by decide +kernel
  rw [hrun] at hplaces
  obtain ⟨e, rfl⟩ := List.length_eq_one_iff.mp (by
    simpa using congrArg List.length (Except.ok.inj hplaces))
  have hplace : e.diskoff = 512 * 5 := by simpa using Except.ok.inj hplaces
  obtain ⟨-, hproduct, -⟩ := (hlog e List.mem_cons_self).2
  rw [hplace, sectorNumber] at hproduct
  have hfat : (imageCtx 0x80).bpb.numFATs * (imageCtx 0x80).bpb.fatSz32 = 2 ^ 32 + 2 := by decide
  rw [hfat] at hproduct
  simp only [sectorSize] at hproduct
  omega

end Example

end Pi0Os.Vfs.Fat32
