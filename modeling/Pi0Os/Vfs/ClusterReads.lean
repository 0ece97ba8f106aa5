import Pi0Os.Vfs.Fat32Read

/-! `fat32_file_inode_read` with a record of its reads of the device, and what one round of its loop does. -/

namespace Pi0Os.Vfs.Fat32

open Kernel Byte Buffer Library

/-- One read of the device, with the value that the device returned. -/
structure ClusterRead where
  cluster : ℕ
  offsetInCluster : ℕ
  diskoff : ℕ
  size : ℕ
  code : ℤ

abbrev ReadLog := List ClusterRead

namespace FilesystemCtx

variable (ctx : FilesystemCtx)

/-- `readClusters`, with its reads in order. -/
def loggedClusters : ℕ → FatCache → ℕ → ℕ → ℕ → ℕ → ℕ → Buffer → Except Panic ((FatCache × ℤ × Buffer) × ReadLog)
  | 0, _, _, _, _, _, _, _ => .error (.undefined "the loop did not end")
  | fuel + 1, cache, currentCluster, currentOffset, remainingSize, bytesRead, ptr, buffer => do
    if remainingSize > 0 then
      let offsetInCluster := currentOffset % ctx.clusterSize
      let remainingSizeInCluster := min remainingSize (ctx.clusterSize - offsetInCluster)
      let diskoff := sectorSize * clusterIdxToSector ctx.bpb currentCluster + offsetInCluster
      let result := ctx.storage.read diskoff ((buffer.drop ptr).take remainingSizeInCluster)
      let entry : ClusterRead := ⟨currentCluster, offsetInCluster, diskoff, remainingSizeInCluster, result.1⟩
      let buffer ← Buffer.memcpy buffer ptr result.2
      if result.1 < 0 then return ((cache, toInt result.1, buffer), [entry])
      let read := result.1.toNat
      if read ≠ remainingSizeInCluster then return ((cache, -Err.io, buffer), [entry])
      if remainingSize - read > 0 then
        match ctx.nextCluster cache currentCluster with
        | (cache, .error rc) => return ((cache, rc, buffer), [entry])
        | (cache, .ok next) =>
          if next ≥ 0x0ffffff8 ∨ next < 2 then return ((cache, -Err.io, buffer), [entry])
          let (r, log) ← loggedClusters fuel cache next (currentOffset + read) (remainingSize - read) (bytesRead + read)
            (ptr + read) buffer
          return (r, entry :: log)
      else
        let (r, log) ← loggedClusters fuel cache currentCluster (currentOffset + read) (remainingSize - read)
          (bytesRead + read) (ptr + read) buffer
        return (r, entry :: log)
    else return ((cache, bytesRead, buffer), [])

end FilesystemCtx

/-- `fileInodeRead`, with its reads in order. -/
def loggedRead (ctx : FilesystemCtx) (cache : FatCache) (self : FileInode) (offset : ℤ) (buffer : Buffer) (size : ℕ) :
    Except Panic ((FatCache × ℤ × Buffer) × ReadLog) := do
  let offset := min (toUInt64 offset) self.size
  let size := min size (self.size - offset)
  panicIf (.undefined "division by zero") (ctx.clusterSize = 0)
  match ctx.stepClusterChain cache (self.identifier % 2 ^ 32) (offset / ctx.clusterSize % 2 ^ 32) with
  | (cache, .error rc) => return ((cache, rc, buffer), [])
  | (cache, .ok currentCluster) => ctx.loggedClusters (size + 1) cache currentCluster offset size 0 0 buffer

section Logged

variable {ctx : FilesystemCtx} {cache : FatCache} {c fuel offset remaining bytesRead ptr : ℕ} {buffer : Buffer}

lemma map_fst_bind {α β : Type} (x : Except Panic (α × List β)) (b : β) :
    (Prod.fst <$> do let (r, log) ← x; return (r, b :: log)) = Prod.fst <$> x := by
  cases x <;> rfl

/-- The record changes nothing. -/
lemma loggedClusters_fst : Prod.fst <$> ctx.loggedClusters fuel cache c offset remaining bytesRead ptr buffer =
    ctx.readClusters fuel cache c offset remaining bytesRead ptr buffer := by
  induction fuel generalizing cache c offset remaining bytesRead ptr buffer with
  | zero => rfl
  | succ fuel ih =>
    rw [FilesystemCtx.loggedClusters, FilesystemCtx.readClusters]
    by_cases hr : remaining > 0
    · rw [if_pos hr, if_pos hr]
      dsimp only
      cases hcpy : Buffer.memcpy buffer ptr _ with
      | error e => rfl
      | ok buffer' =>
        rw [ok_bind, ok_bind]
        generalize ctx.storage.read _ _ = result
        by_cases hneg : result.1 < 0
        · rw [if_pos hneg, if_pos hneg]
          rfl
        rw [if_neg hneg, if_neg hneg]
        by_cases hshort : result.1.toNat ≠ min remaining (ctx.clusterSize - offset % ctx.clusterSize)
        · rw [if_pos hshort, if_pos hshort]
          rfl
        rw [if_neg hshort, if_neg hshort]
        by_cases hmore : remaining - result.1.toNat > 0
        · rw [if_pos hmore, if_pos hmore]
          generalize ctx.nextCluster cache c = found
          obtain ⟨cache', rc | next⟩ := found
          · rfl
          · dsimp only
            by_cases hend : next ≥ 0x0ffffff8 ∨ next < 2
            · rw [if_pos hend, if_pos hend]
              rfl
            · rw [if_neg hend, if_neg hend, map_fst_bind, ih]
        · rw [if_neg hmore, if_neg hmore, map_fst_bind, ih]
    · rw [if_neg hr, if_neg hr]
      rfl

lemma loggedRead_fst (self : FileInode) (offset : ℤ) (size : ℕ) :
    Prod.fst <$> loggedRead ctx cache self offset buffer size = fileInodeRead ctx cache self offset buffer size := by
  rw [loggedRead, fileInodeRead]
  generalize ctx.stepClusterChain cache (self.identifier % 2 ^ 32) _ = found
  rw [panicIf]
  split_ifs
  · rfl
  · obtain ⟨cache', rc | d⟩ := found
    · rfl
    · exact loggedClusters_fst

lemma min_toUInt64 {self : FileInode} (ho : offset ≤ self.size) : min (toUInt64 (offset : ℤ)) self.size = offset := by
  have hself := self.size_lt
  unfold toUInt64
  omega

/-- A read from the offset `o` that is left of the one asked for. -/
lemma loggedRead_eq (hcs : ctx.clusterSize ≠ 0) (cache : FatCache) (buffer : Buffer) {self : FileInode} {offset : ℤ}
    {o size : ℕ} (ho : min (toUInt64 offset) self.size = o) :
    loggedRead ctx cache self offset buffer size =
      match ctx.stepClusterChain cache (self.identifier % 2 ^ 32) (o / ctx.clusterSize) with
      | (cache, .error rc) => .ok ((cache, rc, buffer), [])
      | (cache, .ok d) => ctx.loggedClusters (min size (self.size - o) + 1) cache d o (min size (self.size - o)) 0 0
          buffer := by
  have hself := self.size_lt
  have hsteps : o / ctx.clusterSize % 2 ^ 32 = o / ctx.clusterSize :=
    Nat.mod_eq_of_lt ((Nat.div_le_self _ _).trans_lt (by omega))
  rw [loggedRead]
  simp only [ho, panicIf, if_neg hcs, ok_bind, hsteps]
  rfl

lemma nextCluster_error {cache' : FatCache} {rc : ℤ} (h : ctx.nextCluster cache c = (cache', .error rc)) : rc < 0 := by
  simp only [FilesystemCtx.nextCluster] at h
  split_ifs at h with hmiss hneg
  · cases h
    exact hneg
  · cases h
  · cases h

lemma stepClusterChain_error {cache' : FatCache} {rc : ℤ} {steps : ℕ}
    (h : ctx.stepClusterChain cache c steps = (cache', .error rc)) : rc < 0 := by
  induction steps generalizing cache c with
  | zero => cases h
  | succ steps ih =>
    rw [FilesystemCtx.stepClusterChain] at h
    split at h
    · rename_i hnext
      cases h
      exact nextCluster_error hnext
    · split at h
      · cases h
      · exact ih h

/-- The read of a round of the loop: `free` is what is left of the caller's block. -/
def FilesystemCtx.roundRead (ctx : FilesystemCtx) (c offset remaining : ℕ) (free : Buffer) : ClusterRead × Buffer :=
  let offsetInCluster := offset % ctx.clusterSize
  let size := min remaining (ctx.clusterSize - offsetInCluster)
  let diskoff := sectorSize * clusterIdxToSector ctx.bpb c + offsetInCluster
  let result := ctx.storage.read diskoff (free.take size)
  (⟨c, offsetInCluster, diskoff, size, result.1⟩, result.2)

/-- What a round comes to once its read `entry` has put `bytes` into the block. -/
inductive Round (ctx : FilesystemCtx) (fuel : ℕ) (cache : FatCache) (c offset remaining bytesRead : ℕ)
    (pre post : Buffer) (entry : ClusterRead) (bytes : Buffer) : Except Panic ((FatCache × ℤ × Buffer) × ReadLog) → Prop
  | deviceFails {block} : entry.code < 0 → Round ctx fuel cache c offset remaining bytesRead pre post entry bytes
      (.ok ((cache, toInt entry.code, block), [entry]))
  | short {block} : 0 ≤ entry.code → entry.code ≠ entry.size →
      Round ctx fuel cache c offset remaining bytesRead pre post entry bytes (.ok ((cache, -Err.io, block), [entry]))
  | fatFails {cache' rc block} : entry.code = entry.size → entry.size < remaining →
      ctx.nextCluster cache c = (cache', .error rc) →
      Round ctx fuel cache c offset remaining bytesRead pre post entry bytes (.ok ((cache', rc, block), [entry]))
  | chainEnds {cache' next block} : entry.code = entry.size → entry.size < remaining →
      ctx.nextCluster cache c = (cache', .ok next) → ¬ isValidCluster next →
      Round ctx fuel cache c offset remaining bytesRead pre post entry bytes (.ok ((cache', -Err.io, block), [entry]))
  | last {block} : entry.code = entry.size → remaining = entry.size →
      Round ctx fuel cache c offset remaining bytesRead pre post entry bytes
        (.ok ((cache, (bytesRead + entry.size : ℕ), block), [entry]))
  | goesOn {cache' next} : entry.code = entry.size → entry.size < remaining →
      ctx.nextCluster cache c = (cache', .ok next) → isValidCluster next →
      Round ctx fuel cache c offset remaining bytesRead pre post entry bytes (do
        let (r, log) ← ctx.loggedClusters fuel cache' next (offset + entry.size) (remaining - entry.size)
          (bytesRead + entry.size) (pre ++ bytes).length (pre ++ bytes ++ post.drop entry.size)
        return (r, entry :: log))

lemma loggedClusters_round (bytesRead : ℕ) (pre : Buffer) {post : Buffer} (hr : 0 < remaining)
    (hp : remaining ≤ post.length) (hf : 0 < fuel) :
    Round ctx fuel cache c offset remaining bytesRead pre post (ctx.roundRead c offset remaining post).1
      (ctx.roundRead c offset remaining post).2
      (ctx.loggedClusters (fuel + 1) cache c offset remaining bytesRead pre.length (pre ++ post)) := by
  simp only [FilesystemCtx.roundRead]
  rw [FilesystemCtx.loggedClusters, if_pos hr]
  simp only [List.drop_left]
  have hm : min remaining (ctx.clusterSize - offset % ctx.clusterSize) ≤ remaining := Nat.min_le_left _ _
  generalize min remaining (ctx.clusterSize - offset % ctx.clusterSize) = m at hm ⊢
  have hlen := ctx.storage.length_read (sectorSize * clusterIdxToSector ctx.bpb c + offset % ctx.clusterSize)
    (post.take m)
  rw [List.length_take, Nat.min_eq_left (hm.trans hp)] at hlen
  generalize ctx.storage.read (sectorSize * clusterIdxToSector ctx.bpb c + offset % ctx.clusterSize) (post.take m) =
    result at hlen ⊢
  rw [memcpy_mid pre result.2 (hlen.trans_le (hm.trans hp)), hlen, ok_bind]
  by_cases hneg : result.1 < 0
  · rw [if_pos hneg]
    exact .deviceFails hneg
  rw [if_neg hneg]
  by_cases hshort : result.1.toNat ≠ m
  · rw [if_pos hshort]
    exact .short (not_lt.mp hneg) fun h : result.1 = m => hshort (by rw [h, Int.toNat_natCast])
  have hcode : result.1 = m := by omega
  rw [if_neg hshort, not_not.mp hshort]
  by_cases hmore : remaining - m > 0
  · rw [if_pos hmore]
    generalize hfound : ctx.nextCluster cache c = found
    obtain ⟨cache', rc | next⟩ := found
    · exact .fatFails hcode (Nat.lt_of_sub_pos hmore) hfound
    · dsimp only
      by_cases hend : next ≥ 0x0ffffff8 ∨ next < 2
      · rw [if_pos hend]
        exact .chainEnds hcode (Nat.lt_of_sub_pos hmore) hfound fun h => by
          obtain ⟨hlt, hge⟩ := h
          omega
      · rw [if_neg hend]
        have hvalid : isValidCluster next := ⟨by omega, by omega⟩
        have hptr : pre.length + m = (pre ++ result.2).length := by rw [List.length_append, hlen]
        rw [hptr]
        exact .goesOn hcode (Nat.lt_of_sub_pos hmore) hfound hvalid
  · rw [if_neg hmore]
    obtain ⟨fuel, rfl⟩ := Nat.exists_eq_succ_of_ne_zero hf.ne'
    have hall : remaining = m := by omega
    rw [FilesystemCtx.loggedClusters, if_neg hmore]
    exact .last hcode hall

lemma roundRead_mem (pre : Buffer) {post : Buffer}
    {r : FatCache × ℤ × Buffer} {log : ReadLog} (hr : 0 < remaining) (hp : remaining ≤ post.length) (hf : 0 < fuel)
    (h : ctx.loggedClusters (fuel + 1) cache c offset remaining bytesRead pre.length (pre ++ post) = .ok (r, log)) :
    (ctx.roundRead c offset remaining post).1 ∈ log := by
  have hround := @loggedClusters_round ctx cache c fuel offset remaining bytesRead pre post hr hp hf
  rw [h] at hround
  generalize hrun : (Except.ok (r, log) : Except Panic _) = run at hround
  cases hround with
  | goesOn _ _ _ _ =>
    obtain ⟨rest, -, hlog⟩ := bind_eq_ok.mp hrun.symm
    cases hlog
    exact List.mem_cons_self
  | _ =>
    cases hrun
    exact List.mem_singleton_self _

end Logged

end Pi0Os.Vfs.Fat32
