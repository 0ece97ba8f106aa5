import Pi0Os.Vfs.Fat32
import Pi0Os.Library.TransitionSystem

/-! `fat32_file_inode_read` returns a slice of the cluster chain: what the FAT sector cache
may hold, what one step along the chain finds, and what the read loop copies. -/

namespace Pi0Os.Vfs.Fat32

open Kernel Byte Buffer Library

/-- A volume whose reserved sectors, tables and clusters lie on the device. -/
structure Volume extends FilesystemCtx where
  clusterCount : ℕ
  secPerClus_pos : 0 < bpb.secPerClus
  numFATs_pos : 0 < bpb.numFATs
  fat_covers : (clusterCount + 2) * 4 ≤ bpb.fatSz32 * sectorSize
  sectors_fit : bpb.rsvdSecCnt + bpb.numFATs * bpb.fatSz32 + clusterCount * bpb.secPerClus ≤ 2 ^ 32
  onDevice : sectorSize * (bpb.rsvdSecCnt + bpb.numFATs * bpb.fatSz32 + clusterCount * bpb.secPerClus) ≤ storage.size

namespace Volume

variable (vol : Volume)

def IsCluster (c : ℕ) : Prop := isValidCluster c ∧ c < vol.clusterCount + 2

/-- The entry of a cluster in the first table. -/
def fatEntry (c : ℕ) : ℕ :=
  le32 (slice vol.storage.byte (sectorSize * vol.bpb.rsvdSecCnt + 4 * c) 4) 0 &&& 0x0fffffff

def clusterOffset (c : ℕ) : ℕ :=
  sectorSize * (vol.bpb.rsvdSecCnt + vol.bpb.numFATs * vol.bpb.fatSz32 + (c - 2) * vol.bpb.secPerClus)

def clusterBytes (c : ℕ) : Buffer := slice vol.storage.byte (vol.clusterOffset c) vol.clusterSize

/-- A run of clusters each of which is the entry of the one before it. -/
structure Chains (clusters : List ℕ) : Prop where
  valid : ∀ c ∈ clusters, vol.IsCluster c
  linked : clusters.IsChain (fun a b => vol.fatEntry a = b)

end Volume

section Cache

variable {ctx : FilesystemCtx} {cache : FatCache}

/-- What the cache promises about the sector it names. -/
def FatCache.Coherent (ctx : FilesystemCtx) (cache : FatCache) : Prop :=
  cache.sectorIdx ≠ invalidSector → sectorSize * cache.sectorIdx + sectorSize ≤ ctx.storage.size →
    cache.buffer = slice ctx.storage.byte (sectorSize * cache.sectorIdx) sectorSize

/-- The cache from the creation of the file system on: any clusters may be looked up. -/
def cacheSystem (ctx : FilesystemCtx) : TransitionSystem FatCache ℕ where
  Init cache := cache.sectorIdx = invalidSector
  Step cache cluster cache' := (ctx.nextCluster cache cluster).1 = cache'

lemma readSector_inRange {sectorIdx : ℕ} {buffer : Buffer} (hb : buffer.length = sectorSize)
    (hs : sectorSize * sectorIdx + sectorSize ≤ ctx.storage.size) :
    ctx.readSector sectorIdx buffer =
      (0, slice ctx.storage.byte (sectorSize * sectorIdx) sectorSize) := by
  rw [FilesystemCtx.readSector, ctx.storage.read_inRange _ _ (by rwa [hb]), hb]
  simp

lemma nextCluster_coherent (h : cache.Coherent ctx) (cluster : ℕ) :
    (ctx.nextCluster cache cluster).1.Coherent ctx := by
  rw [FilesystemCtx.nextCluster]
  dsimp only
  split_ifs with hmiss herr
  · exact fun hn => absurd rfl hn
  · intro _ hs
    exact congrArg Prod.snd (readSector_inRange cache.length_buffer hs)
  · exact h

lemma cacheSystem_coherent (h : (cacheSystem ctx).Reachable cache) : cache.Coherent ctx := by
  refine h.invariant ⟨fun cache hi hn => absurd hi hn, ?_⟩
  rintro cache cluster _ hc rfl
  exact nextCluster_coherent hc cluster

end Cache

section Chain

variable {vol : Volume} {cache : FatCache} {c : ℕ}

lemma le32_slice {f : ℕ → UInt8} {o n off : ℕ} (h : off + 4 ≤ n) :
    le32 (slice f o n) off = le32 (slice f (o + off) 4) 0 := by
  have hget {i m k : ℕ} (hi : i < m) : (slice f k m).getD i 0 = f (k + i) := by
    simp [slice, hi]
  rw [le32, le32, hget (by omega), hget (by omega), hget (by omega), hget (by omega), hget (by omega),
    hget (by omega), hget (by omega), hget (by omega)]
  simp only [add_assoc, zero_add, add_zero]

/-- The sector of a cluster's entry: its number does not wrap and it lies on the device. -/
lemma fatSector_bounds (hc : vol.IsCluster c) :
    c * 4 % 2 ^ 32 = c * 4 ∧ add32 vol.bpb.rsvdSecCnt (c * 4 / sectorSize) = vol.bpb.rsvdSecCnt + c * 4 / sectorSize ∧
      vol.bpb.rsvdSecCnt + c * 4 / sectorSize ≠ invalidSector ∧
      sectorSize * (vol.bpb.rsvdSecCnt + c * 4 / sectorSize) + sectorSize ≤ vol.storage.size := by
  obtain ⟨⟨hlt, hge⟩, hcount⟩ := hc
  have hfits := vol.sectors_fit
  have hdev := vol.onDevice
  have hcov := vol.fat_covers
  have hfat : vol.bpb.fatSz32 ≤ vol.bpb.numFATs * vol.bpb.fatSz32 := Nat.le_mul_of_pos_left _ vol.numFATs_pos
  have hclus : vol.clusterCount ≤ vol.clusterCount * vol.bpb.secPerClus := Nat.le_mul_of_pos_right _ vol.secPerClus_pos
  simp only [sectorSize, invalidSector] at hdev hcov ⊢
  have hsec : c * 4 / 512 < vol.bpb.fatSz32 := by omega
  refine ⟨by omega, add32_of_lt (by omega), by omega, by omega⟩

lemma nextCluster_cluster (h : cache.Coherent vol.toFilesystemCtx) (hc : vol.IsCluster c) :
    (vol.nextCluster cache c).2 = .ok (vol.fatEntry c) := by
  obtain ⟨hoff, hsec, hinv, hdev⟩ := fatSector_bounds hc
  have hword : le32 (slice vol.storage.byte (sectorSize * (vol.bpb.rsvdSecCnt + c * 4 / sectorSize)) sectorSize)
      (c * 4 % sectorSize) = le32 (slice vol.storage.byte (sectorSize * vol.bpb.rsvdSecCnt + 4 * c) 4) 0 := by
    have hin : c * 4 % sectorSize + 4 ≤ sectorSize := by
      simp only [sectorSize]
      omega
    have hat : sectorSize * (vol.bpb.rsvdSecCnt + c * 4 / sectorSize) + c * 4 % sectorSize =
        sectorSize * vol.bpb.rsvdSecCnt + 4 * c := by
      simp only [sectorSize]
      omega
    rw [le32_slice hin, hat]
  rw [FilesystemCtx.nextCluster]
  simp only [hoff, hsec]
  by_cases hhit : cache.sectorIdx = vol.bpb.rsvdSecCnt + c * 4 / sectorSize
  · rw [if_neg (by simpa using hhit), h (hhit ▸ hinv) (hhit ▸ hdev), hhit, hword, Volume.fatEntry]
  · rw [if_pos hhit]
    simp only [readSector_inRange cache.length_buffer hdev, lt_irrefl, if_false, hword]
    rfl

lemma nextCluster_step (h : cache.Coherent vol.toFilesystemCtx) (hc : vol.IsCluster c) :
    ∃ cache', vol.nextCluster cache c = (cache', .ok (vol.fatEntry c)) ∧ cache'.Coherent vol.toFilesystemCtx :=
  ⟨_, Prod.ext rfl (nextCluster_cluster h hc), nextCluster_coherent h c⟩

variable {cs : List ℕ}

lemma Volume.Chains.tail (h : vol.Chains (c :: cs)) : vol.Chains cs :=
  ⟨fun d hd => h.valid d (List.mem_cons_of_mem c hd), h.linked.tail⟩

lemma stepClusterChain_chain (h : cache.Coherent vol.toFilesystemCtx) (hc : vol.Chains (c :: cs)) {steps : ℕ}
    (hs : steps ≤ cs.length + 1) :
    ∃ cache' d, vol.stepClusterChain cache c steps = (cache', .ok d) ∧ cache'.Coherent vol.toFilesystemCtx ∧
      ∀ e ∈ (c :: cs)[steps]?, e = d := by
  induction steps generalizing cache c cs with
  | zero => exact ⟨cache, c, rfl, h, by simp⟩
  | succ steps ih =>
    obtain ⟨cache', hn, hcache'⟩ := nextCluster_step h (hc.valid c List.mem_cons_self)
    rw [FilesystemCtx.stepClusterChain, hn]
    cases cs with
    | nil =>
      obtain rfl : steps = 0 := by simpa using hs
      by_cases hv : isValidCluster (vol.fatEntry c)
      · exact ⟨cache', vol.fatEntry c, by simp [hv, FilesystemCtx.stepClusterChain], hcache', by simp⟩
      · exact ⟨cache', vol.fatEntry c, by simp [hv], hcache', by simp⟩
    | cons d cs =>
      obtain rfl : vol.fatEntry c = d := (List.isChain_cons_cons.mp hc.linked).1
      have hv := (hc.valid (vol.fatEntry c) (by simp)).1
      obtain ⟨cache'', e, he, hcache'', hidx⟩ := ih hcache' hc.tail (by simpa using hs)
      exact ⟨cache'', e, by simp [hv, he], hcache'', by simpa using hidx⟩

lemma clusterSize_pos (vol : Volume) : 0 < vol.clusterSize :=
  Nat.mul_pos vol.secPerClus_pos (by norm_num)

lemma clusterIdxToSector_cluster (hc : vol.IsCluster c) :
    sectorSize * clusterIdxToSector vol.bpb c = vol.clusterOffset c ∧
      vol.clusterOffset c + vol.clusterSize ≤ vol.storage.size := by
  obtain ⟨⟨hlt, hge⟩, hcount⟩ := hc
  have hfits := vol.sectors_fit
  have hdev := vol.onDevice
  have hin : (c - 2) * vol.bpb.secPerClus + vol.bpb.secPerClus ≤ vol.clusterCount * vol.bpb.secPerClus := by
    rw [← Nat.succ_mul]
    exact Nat.mul_le_mul_right _ (by omega)
  have hpos := vol.secPerClus_pos
  rw [Volume.clusterOffset, clusterIdxToSector, sub32_of_le hge (by omega), Nat.mod_eq_of_lt (by omega),
    Nat.mod_eq_of_lt (by omega), add32_of_lt (a := vol.bpb.rsvdSecCnt) (by omega), add32_of_lt (by omega),
    FilesystemCtx.clusterSize]
  refine ⟨rfl, ?_⟩
  simp only [sectorSize] at hdev ⊢
  omega

lemma clusterBytes_split {rest : Buffer} {q r : ℕ} (hq : q ≤ vol.clusterSize) :
    ((vol.clusterBytes c ++ rest).drop q).take r =
      slice vol.storage.byte (vol.clusterOffset c + q) (min r (vol.clusterSize - q)) ++
        rest.take (r - (vol.clusterSize - q)) := by
  rw [Volume.clusterBytes, List.drop_append_of_le_length (by simpa using hq), slice_drop hq, List.take_append,
    length_slice]
  congr 1
  rcases le_total r (vol.clusterSize - q) with h | h
  · rw [slice_take h, min_eq_left h]
  · rw [min_eq_right h, List.take_of_length_le (by simpa using h)]

variable {fuel offset remaining bytesRead : ℕ} {pre post : Buffer}

lemma readClusters_round (hc : vol.IsCluster c) (hr : 0 < remaining) (hp : remaining ≤ post.length) :
    let q := offset % vol.clusterSize
    let m := min remaining (vol.clusterSize - q)
    let bytes := slice vol.storage.byte (vol.clusterOffset c + q) m
    vol.readClusters (fuel + 1) cache c offset remaining bytesRead pre.length (pre ++ post) =
      if remaining - m > 0 then
        match vol.nextCluster cache c with
        | (cache, .error rc) => .ok (cache, rc, pre ++ bytes ++ post.drop m)
        | (cache, .ok next) =>
          if next ≥ 0x0ffffff8 ∨ next < 2 then .ok (cache, -Err.io, pre ++ bytes ++ post.drop m)
          else vol.readClusters fuel cache next (offset + m) (remaining - m) (bytesRead + m)
            (pre ++ bytes).length (pre ++ bytes ++ post.drop m)
      else vol.readClusters fuel cache c (offset + m) (remaining - m) (bytesRead + m)
        (pre ++ bytes).length (pre ++ bytes ++ post.drop m) := by
  intro q m bytes
  obtain ⟨hsec, hdev⟩ := clusterIdxToSector_cluster hc
  have hq : q < vol.clusterSize := Nat.mod_lt _ (clusterSize_pos vol)
  have hm : m = min remaining (vol.clusterSize - q) := rfl
  have hread := vol.storage.read_inRange (vol.clusterOffset c + q) (post.take m)
    (by rw [List.length_take]; omega)
  have hlen : (post.take m).length = m := by rw [List.length_take]; omega
  have hcpy := memcpy_mid (r := post) pre bytes (by rw [length_slice]; omega)
  rw [hlen] at hread
  rw [FilesystemCtx.readClusters, if_pos hr]
  simp only [List.drop_left, hsec]
  have hbytes : bytes.length = m := length_slice _ _ _
  rw [← hm, hread, hcpy, hbytes, ok_bind, if_neg (by omega)]
  simp only [Int.toNat_natCast, ne_eq, not_true_eq_false, if_false, List.length_append, hbytes]
  rfl

lemma readClusters_chain (offset remaining bytesRead : ℕ) (pre post : Buffer)
    (h : cache.Coherent vol.toFilesystemCtx) (hc : vol.Chains (c :: cs))
    (hf : remaining < fuel) (hp : remaining ≤ post.length)
    (hr : offset % vol.clusterSize + remaining ≤ (cs.length + 1) * vol.clusterSize) :
    ∃ cache', vol.readClusters fuel cache c offset remaining bytesRead pre.length (pre ++ post) =
        .ok (cache', (bytesRead + remaining : ℕ),
          pre ++ (((c :: cs).flatMap vol.clusterBytes).drop (offset % vol.clusterSize)).take remaining ++
            post.drop remaining) ∧
      cache'.Coherent vol.toFilesystemCtx := by
  induction fuel generalizing cache c cs offset remaining bytesRead pre post with
  | zero => omega
  | succ fuel ih =>
    rcases Nat.eq_zero_or_pos remaining with rfl | hpos
    · exact ⟨cache, by simp [FilesystemCtx.readClusters], h⟩
    have hq : offset % vol.clusterSize < vol.clusterSize := Nat.mod_lt _ (clusterSize_pos vol)
    have hcluster := hc.valid c List.mem_cons_self
    rw [readClusters_round hcluster hpos hp, List.flatMap_cons, clusterBytes_split hq.le]
    by_cases hmore : vol.clusterSize - offset % vol.clusterSize < remaining
    · -- the round takes the rest of this cluster, and the chain goes on
      obtain ⟨d, cs, rfl⟩ : ∃ d cs', cs = d :: cs' := by
        cases cs with
        | nil => simp at hr; omega
        | cons d cs => exact ⟨d, cs, rfl⟩
      obtain rfl : vol.fatEntry c = d := (List.isChain_cons_cons.mp hc.linked).1
      obtain ⟨cache', hn, hcache'⟩ := nextCluster_step h hcluster
      obtain ⟨hlt, hge⟩ := (hc.valid (vol.fatEntry c) (by simp)).1
      have haligned : (offset + (vol.clusterSize - offset % vol.clusterSize)) % vol.clusterSize = 0 := by
        rw [← Nat.mod_add_mod, Nat.add_sub_cancel' hq.le, Nat.mod_self]
      rw [List.length_cons, Nat.succ_mul] at hr
      obtain ⟨cache'', hrest, hcache''⟩ := ih (offset + (vol.clusterSize - offset % vol.clusterSize))
        (remaining - (vol.clusterSize - offset % vol.clusterSize))
        (bytesRead + (vol.clusterSize - offset % vol.clusterSize))
        (pre ++ slice vol.storage.byte (vol.clusterOffset c + offset % vol.clusterSize)
          (vol.clusterSize - offset % vol.clusterSize))
        (post.drop (vol.clusterSize - offset % vol.clusterSize)) hcache' hc.tail (by omega)
        (by rw [List.length_drop]; omega) (by rw [haligned]; omega)
      refine ⟨cache'', ?_, hcache''⟩
      rw [min_eq_right hmore.le, if_pos (by omega), hn]
      simp only [ge_iff_le, not_le.mpr hlt, not_lt.mpr hge, or_self, if_false]
      rw [hrest, haligned, List.drop_zero, List.drop_drop, add_assoc, Nat.add_sub_cancel' hmore.le,
        List.append_assoc pre]
    · -- the request ends in this cluster
      rw [min_eq_left (by omega), if_neg (by omega), Nat.sub_self, Nat.sub_eq_zero_of_le (by omega)]
      obtain ⟨fuel, rfl⟩ : ∃ k, fuel = k + 1 := ⟨fuel - 1, by omega⟩
      exact ⟨cache, by simp [FilesystemCtx.readClusters], h⟩

end Chain

/-- The contents of the clusters of a chain, one after the other. -/
def Volume.contents (vol : Volume) (clusters : List ℕ) : Buffer := clusters.flatMap vol.clusterBytes

lemma Volume.contents_drop {vol : Volume} (clusters : List ℕ) (k : ℕ) :
    (vol.contents clusters).drop (k * vol.clusterSize) = vol.contents (clusters.drop k) := by
  induction k generalizing clusters with
  | zero => simp
  | succ k ih =>
    cases clusters with
    | nil => simp [Volume.contents]
    | cons c clusters =>
      have hlen : (vol.clusterBytes c).length = vol.clusterSize := length_slice _ _ _
      rw [Volume.contents, List.flatMap_cons, Nat.succ_mul, add_comm, ← List.drop_drop, ← hlen, List.drop_left,
        hlen]
      exact ih clusters

lemma Volume.Chains.drop {vol : Volume} {clusters : List ℕ} (h : vol.Chains clusters) (k : ℕ) :
    vol.Chains (clusters.drop k) :=
  ⟨fun c hc => h.valid c (List.mem_of_mem_drop hc), h.linked.drop k⟩

/-- Reading a file whose size its chain covers returns the slice of the chain's contents. -/
theorem fileInodeRead_slice {vol : Volume} {cache : FatCache} {self : FileInode} {cs : List ℕ}
    (hcache : (cacheSystem vol.toFilesystemCtx).Reachable cache) (hc : vol.Chains (self.identifier :: cs))
    (hsize : self.size ≤ (cs.length + 1) * vol.clusterSize) (offset size : ℕ) (ho : offset < 2 ^ 63)
    {buffer : Buffer} (hb : size ≤ buffer.length) :
    let o := min offset self.size
    let n := min size (self.size - o)
    ∃ cache', fileInodeRead vol.toFilesystemCtx cache self offset buffer size =
      .ok (cache', n, ((vol.contents (self.identifier :: cs)).drop o).take n ++ buffer.drop n) := by
  intro o n
  have hpos := clusterSize_pos vol
  have hself := self.size_lt
  have hoff : toUInt64 (offset : ℤ) = offset := by
    unfold toUInt64
    omega
  have hid : self.identifier % 2 ^ 32 = self.identifier := by
    have hlt := (hc.valid self.identifier List.mem_cons_self).1.1
    omega
  have hos : o ≤ self.size := min_le_right _ _
  have hdivle : o / vol.clusterSize ≤ o := Nat.div_le_self _ _
  have hdiv := Nat.div_add_mod' o vol.clusterSize
  have hsteps : o / vol.clusterSize ≤ cs.length + 1 := by
    rw [← Nat.lt_succ_iff, Nat.div_lt_iff_lt_mul hpos, Nat.succ_mul]
    omega
  obtain ⟨cache₁, d, hstep, hcache₁, hidx⟩ := stepClusterChain_chain (cacheSystem_coherent hcache) hc hsteps
  have hmod : o / vol.clusterSize % 2 ^ 32 = o / vol.clusterSize := Nat.mod_eq_of_lt (by omega)
  have hread : fileInodeRead vol.toFilesystemCtx cache self offset buffer size =
      vol.readClusters (n + 1) cache₁ d o n 0 0 buffer := by
    simp only [fileInodeRead, hoff, hid, panicIf, if_neg hpos.ne', ok_bind]
    rw [show min offset self.size / vol.clusterSize % 2 ^ 32 = o / vol.clusterSize from hmod, hstep]
  rw [hread]
  rcases Nat.eq_zero_or_pos n with hn | hn
  · exact ⟨cache₁, by simp [hn, FilesystemCtx.readClusters]⟩
  -- something is left to read, so the walk stayed inside the chain
  have hon : o + n ≤ (cs.length + 1) * vol.clusterSize := by omega
  have hin : o / vol.clusterSize < (self.identifier :: cs).length := by
    rw [List.length_cons, Nat.div_lt_iff_lt_mul hpos]
    omega
  obtain ⟨ds, hds⟩ : ∃ ds, (self.identifier :: cs).drop (o / vol.clusterSize) = d :: ds := by
    refine ⟨(self.identifier :: cs).drop (o / vol.clusterSize + 1), ?_⟩
    have hget := hidx ((self.identifier :: cs)[o / vol.clusterSize]) (List.getElem?_eq_getElem hin)
    rw [List.drop_eq_getElem_cons hin, hget]
  have hlen : ds.length + 1 + o / vol.clusterSize = cs.length + 1 := by
    have hl := congrArg List.length hds
    simp only [List.length_drop, List.length_cons] at hl hin
    omega
  have hchain := hc.drop (o / vol.clusterSize)
  rw [hds] at hchain
  have hbound : o % vol.clusterSize + n ≤ (ds.length + 1) * vol.clusterSize := by
    rw [← hlen, Nat.add_mul] at hon
    omega
  obtain ⟨cache₂, hloop, -⟩ := readClusters_chain o n 0 [] buffer hcache₁ hchain
    n.lt_succ_self (by omega) hbound
  refine ⟨cache₂, ?_⟩
  have hcont : (vol.contents (self.identifier :: cs)).drop o =
      ((d :: ds).flatMap vol.clusterBytes).drop (o % vol.clusterSize) := by
    rw [← hds, ← Volume.contents, ← Volume.contents_drop, List.drop_drop, hdiv]
  rw [hcont]
  simpa using hloop

section Sample

/-- Four sectors: a reserved one, a table in which cluster 2 is followed by 3, and their contents. -/
def sampleByte (i : ℕ) : UInt8 :=
  if i = 520 then 3 else if 524 ≤ i ∧ i < 528 then 0xff else if i < 1024 then 0 else UInt8.ofNat (i / 512)

def sampleVolume : Volume where
  storage :=
    { size := 2048
      byte := sampleByte
      read := fun off buf => (buf.length, slice sampleByte off buf.length)
      length_read := fun _ _ => length_slice _ _ _
      read_inRange := fun _ _ _ => rfl }
  bpb := ⟨1, 1, 1, 1⟩
  clusterCount := 2
  secPerClus_pos := by norm_num
  numFATs_pos := by norm_num
  fat_covers := by norm_num
  sectors_fit := by norm_num
  onDevice := by norm_num

def sampleCache : FatCache := ⟨invalidSector, List.replicate 512 0, List.length_replicate⟩

lemma sampleVolume_chains : sampleVolume.Chains [2, 3] where
  valid c hc := by
    rcases (by simpa using hc : c = 2 ∨ c = 3) with rfl | rfl <;> exact ⟨by decide, by decide⟩
  linked := List.isChain_pair.mpr (by decide)

def sampleFile : FileInode := ⟨2, 600, by omega⟩

/-- A request over the boundary between the two clusters. -/
theorem fileInodeRead_slice_sample : ∃ cache',
    fileInodeRead sampleVolume.toFilesystemCtx sampleCache sampleFile 500 (List.replicate 50 0) 50 =
      .ok (cache', 50, ((sampleVolume.contents [2, 3]).drop 500).take 50 ++ (List.replicate 50 0).drop 50) :=
  @fileInodeRead_slice sampleVolume sampleCache sampleFile [3] (.init rfl) sampleVolume_chains (by decide) 500 50
    (by omega) (List.replicate 50 0) (List.length_replicate).ge

end Sample

end Pi0Os.Vfs.Fat32
