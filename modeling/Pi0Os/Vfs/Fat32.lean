import Pi0Os.Kernel.CString
import Pi0Os.Library.Slice

/-! Reading files in `fat32.cpp`: the FAT sector cache, the walk along a cluster chain and
`fat32_file_inode_read`, over a block device of which only `read` is used. -/

namespace Pi0Os.Vfs.Fat32

open Kernel Byte Library

abbrev sectorSize : ℕ := 512
abbrev invalidSector : ℕ := 0xffffffff

/-- The block device: `read off buf` is the value returned and the block `buf` afterwards.
Nothing is said about requests that leave the device. -/
structure Storage where
  size : ℕ
  byte : ℕ → UInt8
  read : ℕ → Buffer → ℤ × Buffer
  length_read : ∀ off buf, (read off buf).2.length = buf.length
  read_inRange : ∀ off buf, off + buf.length ≤ size → read off buf = ((buf.length : ℤ), slice byte off buf.length)

/-- The fields of the BIOS parameter block that the modelled functions read. -/
structure BiosParameterBlock where
  secPerClus : ℕ
  rsvdSecCnt : ℕ
  numFATs : ℕ
  fatSz32 : ℕ

structure FatCache where
  sectorIdx : ℕ
  buffer : Buffer
  length_buffer : buffer.length = sectorSize

structure FilesystemCtx where
  storage : Storage
  bpb : BiosParameterBlock

/-- `(int) x` of a 64-bit value. -/
def toInt (x : ℤ) : ℤ := x.bmod (2 ^ 32)

def isValidCluster (cluster : ℕ) : Prop := cluster < 0x0ffffff8 ∧ 2 ≤ cluster

instance (cluster : ℕ) : Decidable (isValidCluster cluster) := inferInstanceAs (Decidable (_ ∧ _))

def clusterIdxToSector (bpb : BiosParameterBlock) (cluster : ℕ) : ℕ :=
  add32 (add32 bpb.rsvdSecCnt (bpb.numFATs * bpb.fatSz32 % 2 ^ 32))
    (sub32 cluster 2 * bpb.secPerClus % 2 ^ 32)

/-- The little-endian 32-bit word at an offset of a buffer. -/
def le32 (buf : Buffer) (off : ℕ) : ℕ :=
  (buf.getD off 0).toNat + 2 ^ 8 * (buf.getD (off + 1) 0).toNat + 2 ^ 16 * (buf.getD (off + 2) 0).toNat +
    2 ^ 24 * (buf.getD (off + 3) 0).toNat

namespace FilesystemCtx

variable (ctx : FilesystemCtx)

/-- `read_sector`: the code it returns and the sector buffer afterwards. -/
def readSector (sectorIdx : ℕ) (buffer : Buffer) : ℤ × Buffer :=
  let result := ctx.storage.read (sectorSize * sectorIdx) buffer
  if result.1 = sectorSize then (0, result.2)
  else if result.1 > 0 then (-Err.io, result.2)
  else (toInt result.1, result.2)

lemma length_readSector (sectorIdx : ℕ) (buffer : Buffer) :
    (ctx.readSector sectorIdx buffer).2.length = buffer.length := by
  rw [readSector, ← ctx.storage.length_read (sectorSize * sectorIdx) buffer]
  split_ifs <;> rfl

/-- `next_cluster`: the cache afterwards, and the code returned or the cluster stored. -/
def nextCluster (cache : FatCache) (cluster : ℕ) : FatCache × Except ℤ ℕ :=
  let fatOffset := cluster * 4 % 2 ^ 32
  let fatSector := add32 ctx.bpb.rsvdSecCnt (fatOffset / sectorSize)
  let fatSectorOffset := fatOffset % sectorSize
  if cache.sectorIdx ≠ fatSector then
    let buffer := (ctx.readSector fatSector cache.buffer).2
    have hlen := (ctx.length_readSector fatSector cache.buffer).trans cache.length_buffer
    if (ctx.readSector fatSector cache.buffer).1 < 0 then
      (⟨invalidSector, buffer, hlen⟩, .error (ctx.readSector fatSector cache.buffer).1)
    else (⟨fatSector, buffer, hlen⟩, .ok (le32 buffer fatSectorOffset &&& 0x0fffffff))
  else (cache, .ok (le32 cache.buffer fatSectorOffset &&& 0x0fffffff))

/-- `step_cluster_chain`. -/
def stepClusterChain (cache : FatCache) (current : ℕ) : ℕ → FatCache × Except ℤ ℕ
  | 0 => (cache, .ok current)
  | steps + 1 =>
    match ctx.nextCluster cache current with
    | (cache, .error rc) => (cache, .error rc)
    | (cache, .ok next) =>
      if ¬ isValidCluster next then (cache, .ok next) else stepClusterChain cache next steps

def clusterSize : ℕ := ctx.bpb.secPerClus * sectorSize

/-- The loop of `fat32_file_inode_read`, with at most `fuel` rounds; `buffer` has advanced
to index `ptr` of the caller's block. -/
def readClusters : ℕ → FatCache → ℕ → ℕ → ℕ → ℕ → ℕ → Buffer → Except Panic (FatCache × ℤ × Buffer)
  | 0, _, _, _, _, _, _, _ => .error (.undefined "the loop did not end")
  | fuel + 1, cache, currentCluster, currentOffset, remainingSize, bytesRead, ptr, buffer => do
    if remainingSize > 0 then
      let offsetInCluster := currentOffset % ctx.clusterSize
      let remainingSizeInCluster := min remainingSize (ctx.clusterSize - offsetInCluster)
      let diskoff := sectorSize * clusterIdxToSector ctx.bpb currentCluster + offsetInCluster
      let result := ctx.storage.read diskoff ((buffer.drop ptr).take remainingSizeInCluster)
      let buffer ← Buffer.memcpy buffer ptr result.2
      if result.1 < 0 then return (cache, toInt result.1, buffer)
      let read := result.1.toNat
      if read ≠ remainingSizeInCluster then return (cache, -Err.io, buffer)
      if remainingSize - read > 0 then
        match ctx.nextCluster cache currentCluster with
        | (cache, .error rc) => return (cache, rc, buffer)
        | (cache, .ok next) =>
          if next ≥ 0x0ffffff8 ∨ next < 2 then return (cache, -Err.io, buffer)
          readClusters fuel cache next (currentOffset + read) (remainingSize - read) (bytesRead + read)
            (ptr + read) buffer
      else
        readClusters fuel cache currentCluster (currentOffset + read) (remainingSize - read)
          (bytesRead + read) (ptr + read) buffer
    else return (cache, bytesRead, buffer)

end FilesystemCtx

/-- The inode of a regular file: its first cluster is its identifier, and its size is the
32-bit field of a directory entry. -/
structure FileInode where
  identifier : ℕ
  size : ℕ
  size_lt : size < 2 ^ 32

/-- The conversion of a signed 64-bit value to an unsigned one. -/
def toUInt64 (x : ℤ) : ℕ := (x % 2 ^ 64).toNat

/-- `fat32_file_inode_read`: the cache afterwards, the value returned and the caller's block. -/
def fileInodeRead (ctx : FilesystemCtx) (cache : FatCache) (self : FileInode) (offset : ℤ) (buffer : Buffer)
    (size : ℕ) : Except Panic (FatCache × ℤ × Buffer) := do
  let offset := min (toUInt64 offset) self.size
  let size := min size (self.size - offset)
  panicIf (.undefined "division by zero") (ctx.clusterSize = 0)
  match ctx.stepClusterChain cache (self.identifier % 2 ^ 32) (offset / ctx.clusterSize % 2 ^ 32) with
  | (cache, .error rc) => return (cache, rc, buffer)
  | (cache, .ok currentCluster) => ctx.readClusters (size + 1) cache currentCluster offset size 0 0 buffer

end Pi0Os.Vfs.Fat32
