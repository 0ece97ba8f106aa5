import Pi0Os.Vfs.ClusterReads
import Pi0Os.Vfs.FatCache

/-! Reads of a file whose cluster chain ends before its size does. -/

namespace Pi0Os.Vfs.Fat32

open Kernel Byte Buffer Library

/-- From `first` on the chain has the clusters `clusters` and then the number `e`, which is no cluster. -/
structure ChainEnds (vol : Volume) (first : ℕ) (clusters : List ℕ) (e : ℕ) : Prop where
  chain : vol.Chains clusters
  starts : (clusters ++ [e]).head? = some first
  ends : ∀ c ∈ clusters.getLast?, vol.fatEntry c = e
  invalid : ¬ isValidCluster e

/-- The read is one of bytes of a cluster of the chain. -/
structure ClusterRead.InChain (vol : Volume) (clusters : List ℕ) (r : ClusterRead) : Prop where
  cluster : r.cluster ∈ clusters
  diskoff : r.diskoff = vol.clusterOffset r.cluster + r.offsetInCluster
  inside : r.offsetInCluster + r.size ≤ vol.clusterSize

/-- The call returns a negative code, and whatever its reads have brought is of the chain. -/
def ReadRejected (vol : Volume) (clusters : List ℕ) (cache : FatCache) (self : FileInode) (offset : ℕ) (buffer : Buffer)
    (size : ℕ) : Prop :=
  ∃ cache' rc buffer' log, loggedRead vol.toFilesystemCtx cache self offset buffer size =
    .ok ((cache', rc, buffer'), log) ∧ rc < 0 ∧ ∀ r ∈ log, 0 < r.code → r.InChain vol clusters

/-- Where the stepping to the start of the request ends, the device has nothing to read. -/
def NothingThere (vol : Volume) (cache : FatCache) (self : FileInode) (offset : ℕ) (buffer : Buffer) (size : ℕ) :
    Prop :=
  ∀ cache' d, vol.stepClusterChain cache (self.identifier % 2 ^ 32) (offset / vol.clusterSize) = (cache', .ok d) →
    (vol.roundRead d offset (min size (self.size - offset)) buffer).1.code ≤ 0

section Chain

variable {vol : Volume} {cache : FatCache} {c e offset remaining : ℕ} {cs : List ℕ} {post : Buffer}

lemma roundRead_cluster (hc : vol.IsCluster c) (hp : remaining ≤ post.length) :
    (vol.roundRead c offset remaining post).1.code = (vol.roundRead c offset remaining post).1.size ∧
      ((vol.roundRead c offset remaining post).1).InChain vol (c :: cs) := by
  obtain ⟨hsec, hdev⟩ := clusterIdxToSector_cluster hc
  have hq : offset % vol.clusterSize < vol.clusterSize := Nat.mod_lt _ (clusterSize_pos vol)
  have hm : min remaining (vol.clusterSize - offset % vol.clusterSize) ≤ post.length := (Nat.min_le_left _ _).trans hp
  have hread := vol.storage.read_inRange (vol.clusterOffset c + offset % vol.clusterSize)
    (post.take (min remaining (vol.clusterSize - offset % vol.clusterSize)))
    (by rw [List.length_take]; omega)
  rw [List.length_take, Nat.min_eq_left hm] at hread
  have hinside : offset % vol.clusterSize + min remaining (vol.clusterSize - offset % vol.clusterSize) ≤
      vol.clusterSize := by omega
  simp only [FilesystemCtx.roundRead, hsec, hread]
  exact ⟨trivial, List.mem_cons_self, rfl, hinside⟩

lemma ClusterRead.InChain.mono {clusters clusters' : List ℕ} {r : ClusterRead} (h : r.InChain vol clusters)
    (hsub : ∀ c ∈ clusters, c ∈ clusters') : r.InChain vol clusters' :=
  ⟨hsub _ h.cluster, h.diskoff, h.inside⟩

lemma ChainEnds.tail {d : ℕ} {ds : List ℕ} (h : ChainEnds vol c (c :: d :: ds) e) :
    vol.fatEntry c = d ∧ ChainEnds vol d (d :: ds) e :=
  ⟨(List.isChain_cons_cons.mp h.chain.linked).1, h.chain.tail, rfl, h.ends, h.invalid⟩

/-- A round that reads the rest of a cluster and has to go on. -/
lemma loggedClusters_rest (fuel bytesRead : ℕ) (pre : Buffer) (h : cache.Coherent vol.toFilesystemCtx)
    (hc : vol.IsCluster c) (hf : 0 < fuel) (hp : remaining ≤ post.length)
    (hr : vol.clusterSize < offset % vol.clusterSize + remaining) :
    ∃ entry bytes cache', (∀ cs, entry.InChain vol (c :: cs)) ∧
      entry.size = vol.clusterSize - offset % vol.clusterSize ∧ cache'.Coherent vol.toFilesystemCtx ∧
      ((¬ isValidCluster (vol.fatEntry c) ∧ ∃ block,
        vol.loggedClusters (fuel + 1) cache c offset remaining bytesRead pre.length (pre ++ post) =
          .ok ((cache', -Err.io, block), [entry])) ∨
        isValidCluster (vol.fatEntry c) ∧
          vol.loggedClusters (fuel + 1) cache c offset remaining bytesRead pre.length (pre ++ post) = do
            let (r, log) ← vol.loggedClusters fuel cache' (vol.fatEntry c) (offset + entry.size)
              (remaining - entry.size) (bytesRead + entry.size) (pre ++ bytes).length
              (pre ++ bytes ++ post.drop entry.size)
            return (r, entry :: log)) := by
  have hq : offset % vol.clusterSize < vol.clusterSize := Nat.mod_lt _ (clusterSize_pos vol)
  have hread := fun cs => @roundRead_cluster vol c offset remaining cs post hc hp
  obtain ⟨cache', hn, hcache'⟩ := nextCluster_step h hc
  have hround := @loggedClusters_round vol.toFilesystemCtx cache c fuel offset remaining bytesRead pre post
    (by omega) hp hf
  have hsize : (vol.roundRead c offset remaining post).1.size = vol.clusterSize - offset % vol.clusterSize :=
    Nat.min_eq_right (by omega)
  generalize vol.roundRead c offset remaining post = r at hread hround hsize
  obtain ⟨entry, bytes⟩ := r
  refine ⟨entry, bytes, cache', fun cs => (hread cs).2, hsize, hcache', ?_⟩
  have hcode := (hread []).1
  dsimp only at hcode hround hsize
  generalize vol.loggedClusters (fuel + 1) cache c offset remaining bytesRead pre.length (pre ++ post) = run at hround ⊢
  cases hround with
  | deviceFails hneg => omega
  | short _ hne => exact absurd hcode hne
  | fatFails _ _ hfail => cases hn.symm.trans hfail
  | chainEnds _ _ hnext hinvalid =>
    cases hn.symm.trans hnext
    exact .inl ⟨hinvalid, _, rfl⟩
  | last _ hall => omega
  | goesOn _ _ hnext hvalid =>
    cases hn.symm.trans hnext
    exact .inr ⟨hvalid, rfl⟩

/-- The end is met while reading on. -/
lemma loggedClusters_short (fuel offset remaining bytesRead : ℕ) (pre post : Buffer)
    (h : cache.Coherent vol.toFilesystemCtx) (hc : ChainEnds vol c (c :: cs) e) (hf : remaining < fuel)
    (hp : remaining ≤ post.length)
    (hr : (cs.length + 1) * vol.clusterSize < offset % vol.clusterSize + remaining) :
    ∃ cache' rc buffer' log, vol.loggedClusters fuel cache c offset remaining bytesRead pre.length (pre ++ post) =
      .ok ((cache', rc, buffer'), log) ∧ rc < 0 ∧ ∀ r ∈ log, r.InChain vol (c :: cs) := by
  induction cs generalizing fuel cache c offset remaining bytesRead pre post with
  | nil =>
    obtain ⟨fuel, rfl⟩ := Nat.exists_eq_succ_of_ne_zero (Nat.ne_zero_of_lt hf)
    have hq : offset % vol.clusterSize < vol.clusterSize := Nat.mod_lt _ (clusterSize_pos vol)
    rw [List.length_nil, Nat.zero_add, Nat.one_mul] at hr
    have hcluster := hc.chain.valid c List.mem_cons_self
    obtain rfl : vol.fatEntry c = e := hc.ends c rfl
    obtain ⟨entry, bytes, cache', hin, -, -, ⟨-, block, hrun⟩ | ⟨hvalid, -⟩⟩ :=
      loggedClusters_rest fuel bytesRead pre h hcluster (by omega) hp hr
    · exact ⟨cache', _, block, [entry], hrun, by decide, fun r hr => List.mem_singleton.mp hr ▸ hin []⟩
    · exact absurd hvalid hc.invalid
  | cons d ds ih =>
    obtain ⟨fuel, rfl⟩ := Nat.exists_eq_succ_of_ne_zero (Nat.ne_zero_of_lt hf)
    have hq : offset % vol.clusterSize < vol.clusterSize := Nat.mod_lt _ (clusterSize_pos vol)
    rw [List.length_cons, Nat.succ_mul] at hr
    have hlong : vol.clusterSize ≤ (ds.length + 1) * vol.clusterSize := Nat.le_mul_of_pos_left _ (Nat.succ_pos _)
    have hcluster := hc.chain.valid c List.mem_cons_self
    obtain ⟨rfl, hd⟩ := hc.tail
    have hvalid := (hd.chain.valid _ List.mem_cons_self).1
    obtain ⟨entry, bytes, cache', hin, hsize, hcache', ⟨hinvalid, -⟩ | ⟨-, hrun⟩⟩ :=
      loggedClusters_rest fuel bytesRead pre h hcluster (by omega) hp (by omega)
    · exact absurd hvalid hinvalid
    · have haligned : (offset + entry.size) % vol.clusterSize = 0 := by
        rw [hsize, ← Nat.mod_add_mod, Nat.add_sub_cancel' hq.le, Nat.mod_self]
      obtain ⟨cache'', rc, block, log, hrest, hrc, hlog⟩ := ih fuel (offset + entry.size)
        (remaining - entry.size) (bytesRead + entry.size) (pre ++ bytes) (post.drop entry.size) hcache' hd (by omega)
        (by rw [List.length_drop]; omega) (by rw [haligned]; omega)
      rw [hrun, hrest]
      refine ⟨cache'', rc, block, entry :: log, rfl, hrc, fun r hr => ?_⟩
      rcases List.mem_cons.mp hr with rfl | hr
      · exact hin _
      · exact (hlog r hr).mono fun x hx => List.mem_cons_of_mem c hx

/-- The end is met while stepping. -/
lemma stepClusterChain_ends (h : cache.Coherent vol.toFilesystemCtx) (hc : ChainEnds vol c (c :: cs) e) {steps : ℕ}
    (hs : cs.length < steps) :
    ∃ cache', vol.stepClusterChain cache c steps = (cache', .ok e) := by
  induction cs generalizing cache c steps with
  | nil =>
    obtain ⟨steps, rfl⟩ := Nat.exists_eq_succ_of_ne_zero (Nat.ne_zero_of_lt hs)
    obtain ⟨cache', hn, -⟩ := nextCluster_step h (hc.chain.valid c List.mem_cons_self)
    obtain rfl : vol.fatEntry c = e := hc.ends c rfl
    rw [FilesystemCtx.stepClusterChain, hn]
    exact ⟨cache', if_pos hc.invalid⟩
  | cons d ds ih =>
    obtain ⟨steps, rfl⟩ := Nat.exists_eq_succ_of_ne_zero (Nat.ne_zero_of_lt hs)
    obtain ⟨cache', hn, hcache'⟩ := nextCluster_step h (hc.chain.valid c List.mem_cons_self)
    obtain ⟨rfl, hd⟩ := hc.tail
    have hvalid := (hd.chain.valid _ List.mem_cons_self).1
    obtain ⟨cache'', hrest⟩ := ih hcache' hd (Nat.lt_of_succ_lt_succ hs)
    rw [FilesystemCtx.stepClusterChain, hn]
    exact ⟨cache'', (if_neg (not_not_intro hvalid)).trans hrest⟩

end Chain

section Requests

variable {vol : Volume} {cache : FatCache} {self : FileInode} {clusters : List ℕ} {e offset size : ℕ} {buffer : Buffer}

lemma ChainEnds.notMem {first : ℕ} (h : ChainEnds vol first clusters e) : e ∉ clusters := fun he =>
  h.invalid (h.chain.valid e he).1

/-- What is left of the chain at one of its clusters. -/
lemma ChainEnds.drop {first k : ℕ} (h : ChainEnds vol first clusters e) (hk : k < clusters.length) :
    ∃ d ds, clusters.drop k = d :: ds ∧ clusters[k]? = some d ∧ ChainEnds vol d (d :: ds) e := by
  have hdrop := List.drop_eq_getElem_cons hk
  refine ⟨clusters[k], clusters.drop (k + 1), hdrop, List.getElem?_eq_getElem hk, ?_⟩
  rw [← hdrop]
  have hlast : (clusters.drop k).getLast? = clusters.getLast? := by
    rw [List.getLast?_drop, if_neg (by omega)]
  exact ⟨h.chain.drop k, by rw [hdrop]; rfl, hlast ▸ h.ends, h.invalid⟩

/-- `ReadRejected` of the loop alone. -/
def LoopRejected (vol : Volume) (clusters : List ℕ) (run : Except Panic ((FatCache × ℤ × Buffer) × ReadLog)) : Prop :=
  ∃ cache' rc buffer' log, run = .ok ((cache', rc, buffer'), log) ∧ rc < 0 ∧
    ∀ r ∈ log, 0 < r.code → r.InChain vol clusters

variable {first d n : ℕ}

/-- The stepping ends on a cluster of the chain, and the end is met while reading on. -/
lemma loopRejected_inside {cache' : FatCache} (h : cache.Coherent vol.toFilesystemCtx)
    (hc : ChainEnds vol first clusters e) (hin : offset / vol.clusterSize < clusters.length)
    (hstep : vol.stepClusterChain cache first (offset / vol.clusterSize) = (cache', .ok d)) (hnb : n ≤ buffer.length)
    (hshort : clusters.length * vol.clusterSize < offset + n) :
    LoopRejected vol clusters (vol.loggedClusters (n + 1) cache' d offset n 0 0 buffer) := by
  obtain ⟨c, cs, rfl⟩ := List.exists_cons_of_length_pos (Nat.zero_lt_of_lt hin)
  obtain rfl : c = first := Option.some.inj hc.starts
  obtain ⟨d', ds, hdrop, hget, hd⟩ := hc.drop hin
  obtain ⟨cache₂, d₂, hstep₂, hcache₂, hidx⟩ := stepClusterChain_chain h hc.chain hin.le
  cases hstep.symm.trans hstep₂
  obtain rfl := hidx d' hget
  have hlen : ds.length + 1 + offset / vol.clusterSize = (c :: cs).length := by
    have hl := congrArg List.length hdrop
    simp only [List.length_drop, List.length_cons] at hl hin ⊢
    omega
  have hdiv := Nat.div_add_mod' offset vol.clusterSize
  rw [← hlen, Nat.add_mul] at hshort
  obtain ⟨cache', rc, block, log, hrun, hrc, hlog⟩ :=
    loggedClusters_short (n + 1) offset n 0 [] buffer hcache₂ hd n.lt_succ_self hnb (by omega)
  refine ⟨cache', rc, block, log, hrun, hrc, fun r hr _ => (hlog r hr).mono fun x hx => ?_⟩
  exact List.mem_of_mem_drop (hdrop.symm ▸ hx)

/-- The device has nothing at the place of the first cluster. -/
lemma loopRejected_nothing (cache : FatCache) (hcodes : ∀ off buf, -2 ^ 31 ≤ (vol.storage.read off buf).1) (hn : 0 < n)
    (hnb : n ≤ buffer.length) (hnothing : (vol.roundRead d offset n buffer).1.code ≤ 0) :
    LoopRejected vol clusters (vol.loggedClusters (n + 1) cache d offset n 0 0 buffer) := by
  have hround : Round vol.toFilesystemCtx n cache d offset n 0 [] buffer (vol.roundRead d offset n buffer).1
      (vol.roundRead d offset n buffer).2 (vol.loggedClusters (n + 1) cache d offset n 0 0 buffer) :=
    loggedClusters_round 0 [] hn hnb hn
  have hpos : 0 < (vol.roundRead d offset n buffer).1.size := by
    have hq := Nat.mod_lt offset (clusterSize_pos vol)
    exact Nat.lt_min.mpr ⟨hn, Nat.sub_pos_of_lt hq⟩
  have hint : -2 ^ 31 ≤ (vol.roundRead d offset n buffer).1.code := hcodes _ _
  generalize vol.roundRead d offset n buffer = entry at hround hnothing hpos hint
  have hnone : ∀ r ∈ [entry.1], 0 < r.code → r.InChain vol clusters := fun r hr hrc => by
    rw [List.mem_singleton.mp hr] at hrc
    exact absurd hrc (not_lt.mpr hnothing)
  generalize vol.loggedClusters (n + 1) cache d offset n 0 0 buffer = run at hround ⊢
  cases hround with
  | deviceFails hneg =>
    refine ⟨_, _, _, _, rfl, ?_, hnone⟩
    rwa [toInt, Int.bmod_eq_of_le (by omega) (by omega)]
  | short _ _ => exact ⟨_, _, _, _, rfl, by decide, hnone⟩
  | _ => omega

/-- What is no cluster of the chain is read first. -/
lemma LoopRejected.nothing (h : LoopRejected vol clusters (vol.loggedClusters (n + 1) cache d offset n 0 0 buffer))
    (hn : 0 < n) (hnb : n ≤ buffer.length) (hd : d ∉ clusters) : (vol.roundRead d offset n buffer).1.code ≤ 0 := by
  obtain ⟨cache', rc, buffer', log, hrun, -, hlog⟩ := h
  by_contra hpos
  exact hd (hlog _ (roundRead_mem [] hn hnb hn hrun) (not_le.mp hpos)).cluster

/-- Behind the clusters of the file it is the number that ends the chain, which is taken for a cluster. -/
lemma nothingThere_iff {c : ℕ} {cs : List ℕ} (hcache : (cacheSystem vol.toFilesystemCtx).Reachable cache)
    (hc : ChainEnds vol (self.identifier % 2 ^ 32) (c :: cs) e) (hlong : cs.length < offset / vol.clusterSize) :
    NothingThere vol cache self offset buffer size ↔
      (vol.roundRead e offset (min size (self.size - offset)) buffer).1.code ≤ 0 := by
  obtain rfl : c = self.identifier % 2 ^ 32 := Option.some.inj hc.starts
  obtain ⟨cache', hend⟩ := stepClusterChain_ends (cacheSystem_coherent hcache) hc hlong
  refine ⟨fun h => h cache' e hend, fun h cache'' d hstep => ?_⟩
  cases hend.symm.trans hstep
  exact h

end Requests

section Example

/-- Cluster 2 is followed by the mark of a free cluster. -/
def shortDisk : Disk := ⟨2048, fun i => if i < 512 then 0xee else 0⟩

def shortVolume : Volume := { sampleVolume with storage := shortDisk.storage, onDevice := by decide }

/-- A file of two clusters, of which the chain has one. -/
def shortFile : FileInode := ⟨2, 1024, by omega⟩

lemma shortVolume_ends : ChainEnds shortVolume (shortFile.identifier % 2 ^ 32) [2] 0 where
  chain := ⟨fun c hc => by rw [List.mem_singleton.mp hc]; exact ⟨by decide, by decide⟩, List.isChain_singleton _⟩
  starts := rfl
  ends c hc := by
    cases hc
    decide +kernel
  invalid := by decide

lemma shortVolume_codes (off : ℕ) (buf : Buffer) : -2 ^ 31 ≤ (shortVolume.storage.read off buf).1 := by
  have hnonneg : 0 ≤ (shortVolume.storage.read off buf).1 := Int.natCast_nonneg _
  omega

end Example

end Pi0Os.Vfs.Fat32
