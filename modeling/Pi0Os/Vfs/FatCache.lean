import Pi0Os.Vfs.Fat32Read

/-! The FAT sector cache over a device that ends somewhere and may fail at any call: what runs of
`next_cluster` find in it. -/

namespace Pi0Os.Vfs.Fat32

open Kernel Byte Library

/-- The bytes that a device holds. -/
structure Disk where
  size : ℕ
  byte : ℕ → UInt8

namespace Disk

variable (disk : Disk)

/-- How many of the bytes asked for lie on the device. -/
def available (off n : ℕ) : ℕ := min n (disk.size - off)

/-- Each read fails with a negative `int`, after whatever it has done to the buffer, or it copies the bytes that the
device has there, as `SimpleBlockDevice::read` does. -/
def Answers (storage : Storage) : Prop :=
  ∀ off buf, (-2 ^ 31 ≤ (storage.read off buf).1 ∧ (storage.read off buf).1 < 0) ∨
    storage.read off buf = (((disk.available off buf.length : ℕ) : ℤ),
      slice disk.byte off (disk.available off buf.length) ++ buf.drop (disk.available off buf.length))

end Disk

/-- The sector with the FAT entry of a cluster. -/
def fatSector (bpb : BiosParameterBlock) (cluster : ℕ) : ℕ := bpb.rsvdSecCnt + cluster * 4 / sectorSize

def Disk.HasSector (disk : Disk) (sector : ℕ) : Prop := sectorSize * sector + sectorSize ≤ disk.size

instance (disk : Disk) (sector : ℕ) : Decidable (disk.HasSector sector) := inferInstanceAs (Decidable (_ ≤ _))

/-- The FAT entry of a cluster on the device. -/
def Disk.fatEntry (disk : Disk) (bpb : BiosParameterBlock) (cluster : ℕ) : ℕ :=
  le32 (slice disk.byte (sectorSize * bpb.rsvdSecCnt + 4 * cluster) 4) 0 &&& 0x0fffffff

/-- The cache through calls of `next_cluster`, each with a device that fails or not as it likes. -/
def fatSystem (disk : Disk) (bpb : BiosParameterBlock) : TransitionSystem FatCache (Storage × ℕ) where
  Init cache := cache.sectorIdx = invalidSector
  Step cache call cache' := disk.Answers call.1 ∧ call.2 < 2 ^ 28 ∧
    (FilesystemCtx.nextCluster ⟨call.1, bpb⟩ cache call.2).1 = cache'

/-- One call is as good as an uncached read: the entry that it finds is on the device, and when it has to read the
sector and does not get it in full, it fails and leaves a cache of something else. -/
structure CallFaithful (disk : Disk) (bpb : BiosParameterBlock) (cache : FatCache) (call : Storage × ℕ) : Prop where
  entry : ∀ cache' next, FilesystemCtx.nextCluster ⟨call.1, bpb⟩ cache call.2 = (cache', .ok next) →
    disk.HasSector (fatSector bpb call.2) ∧ next = disk.fatEntry bpb call.2
  unread : cache.sectorIdx ≠ fatSector bpb call.2 →
    (call.1.read (sectorSize * fatSector bpb call.2) cache.buffer).1 ≠ sectorSize →
    ∃ cache' rc, FilesystemCtx.nextCluster ⟨call.1, bpb⟩ cache call.2 = (cache', .error rc) ∧ rc ≠ 0 ∧
      cache'.sectorIdx ≠ fatSector bpb call.2

/-- The sector begins on the device, or the device fails. -/
def BeginsOnDevice (disk : Disk) (bpb : BiosParameterBlock) (cache : FatCache) (call : Storage × ℕ) : Prop :=
  sectorSize * fatSector bpb call.2 < disk.size ∨
    (call.1.read (sectorSize * fatSector bpb call.2) cache.buffer).1 < 0

/-- A cached sector is on the device, with these bytes. -/
def FatCache.Holds (disk : Disk) (cache : FatCache) : Prop :=
  cache.sectorIdx ≠ invalidSector →
    disk.HasSector cache.sectorIdx ∧ cache.buffer = slice disk.byte (sectorSize * cache.sectorIdx) sectorSize

section Calls

variable {disk : Disk} {bpb : BiosParameterBlock} {cache : FatCache} {storage : Storage} {cluster : ℕ}

lemma toInt_of_bounds {x : ℤ} (hlo : -2 ^ 31 ≤ x) (hhi : x < 2 ^ 31) : toInt x = x := by
  rw [toInt, Int.bmod_eq_of_le] <;> omega

lemma fatSector_eq (hrsvd : bpb.rsvdSecCnt < 2 ^ 16) (hc : cluster < 2 ^ 28) :
    add32 bpb.rsvdSecCnt (cluster * 4 % 2 ^ 32 / sectorSize) = fatSector bpb cluster ∧
      cluster * 4 % 2 ^ 32 % sectorSize = cluster * 4 % sectorSize ∧ fatSector bpb cluster ≠ invalidSector := by
  simp only [fatSector, sectorSize, invalidSector]
  rw [Nat.mod_eq_of_lt (by omega : cluster * 4 < 2 ^ 32), add32_of_lt (by omega)]
  omega

lemma le32_sector (disk : Disk) (bpb : BiosParameterBlock) (cluster : ℕ) :
    le32 (slice disk.byte (sectorSize * fatSector bpb cluster) sectorSize) (cluster * 4 % sectorSize) &&& 0x0fffffff =
      disk.fatEntry bpb cluster := by
  have hin : cluster * 4 % sectorSize + 4 ≤ sectorSize := by
    simp only [sectorSize]
    omega
  have hat : sectorSize * fatSector bpb cluster + cluster * 4 % sectorSize =
      sectorSize * bpb.rsvdSecCnt + 4 * cluster := by
    simp only [fatSector, sectorSize]
    omega
  rw [le32_slice hin, hat, Disk.fatEntry]

/-- What `read_sector` makes of the answers of such a device. -/
lemma readSector_answers (bpb : BiosParameterBlock) (hanswers : disk.Answers storage) (sector : ℕ) {buffer : Buffer}
    (hb : buffer.length = sectorSize) :
    let r := storage.read (sectorSize * sector) buffer
    let result := FilesystemCtx.readSector ⟨storage, bpb⟩ sector buffer
    result.1 < 0 ∧ (r.1 < 0 ∨ sectorSize * sector < disk.size ∧ ¬ disk.HasSector sector) ∨
      result = (0, slice disk.byte (sectorSize * sector) sectorSize) ∧ r.1 = sectorSize ∧ disk.HasSector sector ∨
        result.1 = 0 ∧ r.1 = 0 ∧ disk.size ≤ sectorSize * sector := by
  intro r result
  have hresult : result = if r.1 = sectorSize then (0, r.2) else if r.1 > 0 then (-Err.io, r.2)
    else (toInt r.1, r.2) := rfl
  have hanswer := hanswers (sectorSize * sector) buffer
  rw [hb] at hanswer
  rcases hanswer with ⟨hlo, hneg⟩ | hread
  · -- the device fails
    have hlo : -2 ^ 31 ≤ r.1 := hlo
    have hneg : r.1 < 0 := hneg
    rw [if_neg (by simp only [sectorSize]; omega), if_neg (by omega), toInt_of_bounds hlo (by omega)] at hresult
    exact .inl ⟨by rw [hresult]; exact hneg, .inl hneg⟩
  have hread : r = _ := hread
  clear_value r
  by_cases hfull : disk.HasSector sector
  · -- all of the sector is on the device
    have hall : disk.available (sectorSize * sector) sectorSize = sectorSize := by
      simp only [Disk.HasSector, Disk.available, sectorSize] at hfull ⊢
      omega
    rw [hall, List.drop_of_length_le hb.le, List.append_nil] at hread
    rw [if_pos (by rw [hread])] at hresult
    exact .inr (.inl ⟨by rw [hresult, hread], by rw [hread], hfull⟩)
  have hshort : disk.available (sectorSize * sector) sectorSize < sectorSize := by
    simp only [Disk.HasSector, Disk.available, sectorSize] at hfull ⊢
    omega
  have hcount : r.1 = (disk.available (sectorSize * sector) sectorSize : ℕ) := by rw [hread]
  by_cases hbegins : sectorSize * sector < disk.size
  · -- the device ends inside the sector
    have hpos : 0 < disk.available (sectorSize * sector) sectorSize := by
      simp only [Disk.available, sectorSize] at hbegins ⊢
      omega
    rw [if_neg (by omega), if_pos (by omega)] at hresult
    exact .inl ⟨by rw [hresult]; exact (by decide : -Err.io < 0), .inr ⟨hbegins, hfull⟩⟩
  · -- the device ends before the sector
    have hzero : disk.available (sectorSize * sector) sectorSize = 0 := by
      simp only [Disk.available]
      omega
    rw [hzero, Nat.cast_zero] at hcount
    rw [if_neg (by rw [hcount]; decide), if_neg (by rw [hcount]; decide), hcount] at hresult
    exact .inr (.inr ⟨by rw [hresult]; exact (by decide : toInt 0 = 0), hcount, not_lt.mp hbegins⟩)

lemma nextCluster_hit (storage : Storage) (hrsvd : bpb.rsvdSecCnt < 2 ^ 16) (hc : cluster < 2 ^ 28)
    (hhit : cache.sectorIdx = fatSector bpb cluster) : FilesystemCtx.nextCluster ⟨storage, bpb⟩ cache cluster =
      (cache, .ok (le32 cache.buffer (cluster * 4 % sectorSize) &&& 0x0fffffff)) := by
  obtain ⟨hsector, hoffset, -⟩ := fatSector_eq hrsvd hc
  simp only [FilesystemCtx.nextCluster, hsector, hoffset]
  rw [if_neg (not_not_intro hhit)]

lemma nextCluster_miss (storage : Storage) (hrsvd : bpb.rsvdSecCnt < 2 ^ 16) (hc : cluster < 2 ^ 28)
    (hmiss : cache.sectorIdx ≠ fatSector bpb cluster) :
    let result := FilesystemCtx.readSector ⟨storage, bpb⟩ (fatSector bpb cluster) cache.buffer
    ∃ cache', cache'.buffer = result.2 ∧
      if result.1 < 0 then cache'.sectorIdx = invalidSector ∧
        FilesystemCtx.nextCluster ⟨storage, bpb⟩ cache cluster = (cache', .error result.1)
      else cache'.sectorIdx = fatSector bpb cluster ∧
        FilesystemCtx.nextCluster ⟨storage, bpb⟩ cache cluster =
          (cache', .ok (le32 result.2 (cluster * 4 % sectorSize) &&& 0x0fffffff)) := by
  intro result
  obtain ⟨hsector, hoffset, -⟩ := fatSector_eq hrsvd hc
  have hlen : result.2.length = sectorSize :=
    (FilesystemCtx.length_readSector _ _ _).trans cache.length_buffer
  simp only [FilesystemCtx.nextCluster, hsector, hoffset, if_pos hmiss]
  by_cases hneg : result.1 < 0
  · refine ⟨⟨invalidSector, result.2, hlen⟩, rfl, ?_⟩
    rw [if_pos hneg, if_pos hneg]
    exact ⟨rfl, rfl⟩
  · refine ⟨⟨fatSector bpb cluster, result.2, hlen⟩, rfl, ?_⟩
    rw [if_neg hneg, if_neg hneg]
    exact ⟨rfl, rfl⟩

lemma FatCache.Holds.sector (h : cache.Holds disk) (hrsvd : bpb.rsvdSecCnt < 2 ^ 16) (hc : cluster < 2 ^ 28)
    (hhit : cache.sectorIdx = fatSector bpb cluster) : disk.HasSector (fatSector bpb cluster) ∧
      cache.buffer = slice disk.byte (sectorSize * fatSector bpb cluster) sectorSize :=
  hhit ▸ h (hhit ▸ (fatSector_eq hrsvd hc).2.2)

lemma FatCache.Holds.nextCluster (h : cache.Holds disk) (hrsvd : bpb.rsvdSecCnt < 2 ^ 16)
    (hanswers : disk.Answers storage) (hc : cluster < 2 ^ 28)
    (hbegins : BeginsOnDevice disk bpb cache (storage, cluster)) : CallFaithful disk bpb cache (storage, cluster) ∧
      (FilesystemCtx.nextCluster ⟨storage, bpb⟩ cache cluster).1.Holds disk := by
  have hinv := (fatSector_eq hrsvd hc).2.2
  by_cases hhit : cache.sectorIdx = fatSector bpb cluster
  · obtain ⟨hsector, hbuffer⟩ := h.sector hrsvd hc hhit
    have hnext := nextCluster_hit storage hrsvd hc hhit
    rw [hbuffer, le32_sector] at hnext
    refine ⟨⟨fun cache' next hrun => ?_, fun hmiss => absurd hhit hmiss⟩, ?_⟩
    · cases hnext.symm.trans hrun
      exact ⟨hsector, rfl⟩
    · rwa [hnext]
  · obtain ⟨cache', hbuffer, hnext⟩ := nextCluster_miss storage hrsvd hc hhit
    rcases readSector_answers bpb hanswers (fatSector bpb cluster) cache.length_buffer with
      ⟨hneg, -⟩ | ⟨hresult, hfull, hsector⟩ | ⟨-, hzero, hend⟩
    · rw [if_pos hneg] at hnext
      obtain ⟨htag, hnext⟩ := hnext
      refine ⟨⟨fun cache'' next hrun => ?_, fun _ _ => ⟨cache', _, hnext, hneg.ne, htag ▸ hinv.symm⟩⟩, ?_⟩
      · cases hnext.symm.trans hrun
      · rw [hnext]
        exact fun hvalid => absurd htag hvalid
    · rw [hresult] at hbuffer hnext
      rw [if_neg (lt_irrefl _), le32_sector] at hnext
      obtain ⟨htag, hnext⟩ := hnext
      refine ⟨⟨fun cache'' next hrun => ?_, fun _ hshort => absurd hfull hshort⟩, ?_⟩
      · cases hnext.symm.trans hrun
        exact ⟨hsector, rfl⟩
      · rw [hnext]
        intro _
        rw [htag]
        exact ⟨hsector, hbuffer⟩
    · rcases hbegins with hbegins | hneg
      · exact absurd hbegins (not_lt.mpr hend)
      · exact absurd hzero hneg.ne

lemma CallFaithful.hasSector (h : CallFaithful disk bpb cache (storage, cluster)) {cache' : FatCache} {next : ℕ}
    (hrun : FilesystemCtx.nextCluster ⟨storage, bpb⟩ cache cluster = (cache', .ok next)) :
    disk.HasSector (fatSector bpb cluster) :=
  (h.entry cache' next hrun).1

lemma fatSystem_holds (hrsvd : bpb.rsvdSecCnt < 2 ^ 16)
    (h : ((fatSystem disk bpb).restrict (BeginsOnDevice disk bpb)).Reachable cache) : cache.Holds disk := by
  refine h.invariant ⟨fun cache hinit hvalid => absurd hinit hvalid, ?_⟩
  rintro cache ⟨storage, cluster⟩ _ hcache ⟨⟨hanswers, hc, rfl⟩, hbegins⟩
  exact (hcache.nextCluster hrsvd hanswers hc hbegins).2

/-- In a run whose calls all begin on the device, one more call is faithful just when it does too. -/
theorem fatCache_faithful_iff (hrsvd : bpb.rsvdSecCnt < 2 ^ 16)
    (h : ((fatSystem disk bpb).restrict (BeginsOnDevice disk bpb)).Reachable cache) (hanswers : disk.Answers storage)
    (hc : cluster < 2 ^ 28) :
    CallFaithful disk bpb cache (storage, cluster) ↔ BeginsOnDevice disk bpb cache (storage, cluster) := by
  have hcache := fatSystem_holds hrsvd h
  refine ⟨fun hcall => ?_, fun hbegins => (hcache.nextCluster hrsvd hanswers hc hbegins).1⟩
  by_contra hbegins
  obtain ⟨hend, hok⟩ := not_or.mp hbegins
  have hoff : ¬ disk.HasSector (fatSector bpb cluster) := by
    simp only [Disk.HasSector, sectorSize] at hend ⊢
    omega
  have hmiss : cache.sectorIdx ≠ fatSector bpb cluster := fun hhit => hoff (hcache.sector hrsvd hc hhit).1
  obtain ⟨cache', -, hnext⟩ := nextCluster_miss storage hrsvd hc hmiss
  rcases readSector_answers bpb hanswers (fatSector bpb cluster) cache.length_buffer with
    ⟨-, hneg | ⟨hstart, -⟩⟩ | ⟨-, -, hsector⟩ | ⟨hresult, -, -⟩
  · exact hok hneg
  · exact hend hstart
  · exact hoff hsector
  · rw [if_neg (by rw [hresult]; decide)] at hnext
    exact hoff (hcall.hasSector hnext.2)

end Calls

section Example

/-- A device that does not fail. -/
def Disk.storage (disk : Disk) : Storage where
  size := disk.size
  byte := disk.byte
  read off buf := (disk.available off buf.length,
    slice disk.byte off (disk.available off buf.length) ++ buf.drop (disk.available off buf.length))
  length_read off buf := by
    rw [List.length_append, length_slice, List.length_drop, Disk.available]
    omega
  read_inRange off buf h := by
    have hall : disk.available off buf.length = buf.length := by
      rw [Disk.available]
      omega
    rw [hall, List.drop_length, List.append_nil]

lemma Disk.storage_answers (disk : Disk) : disk.Answers disk.storage := fun _ _ => .inr rfl

/-- The first two sectors of `sampleVolume`, and nothing behind them. -/
def cutDisk : Disk := ⟨1024, sampleByte⟩

def cutBpb : BiosParameterBlock := ⟨1, 1, 1, 2⟩

theorem fatCache_faithful_cut : CallFaithful cutDisk cutBpb sampleCache (cutDisk.storage, 2) := by
  have hinit : sampleCache.sectorIdx = invalidSector := rfl
  exact (fatCache_faithful_iff (by decide) (.init hinit) cutDisk.storage_answers (by decide)).mpr (.inl (by decide))

/-- The table ends with the device before the entry of cluster 130: what the cache has of cluster 2 is returned. -/
theorem fatCache_stale : ∃ cache, (fatSystem cutDisk cutBpb).Reachable cache ∧
    (FilesystemCtx.nextCluster ⟨cutDisk.storage, cutBpb⟩ cache 130).2 = .ok 3 ∧
    cutDisk.size ≤ sectorSize * fatSector cutBpb 130 ∧
    ¬ CallFaithful cutDisk cutBpb cache (cutDisk.storage, 130) := by
  have hinit : (fatSystem cutDisk cutBpb).Reachable sampleCache := .init rfl
  have hstep := hinit.step ⟨cutDisk.storage_answers, (by decide : (cutDisk.storage, 2).2 < 2 ^ 28), rfl⟩
  generalize hcache : (FilesystemCtx.nextCluster ⟨cutDisk.storage, cutBpb⟩ sampleCache 2).1 = cache at hstep
  have hstale : (FilesystemCtx.nextCluster ⟨cutDisk.storage, cutBpb⟩ cache 130).2 = .ok 3 := by
    rw [← hcache]
    decide +kernel
  have hoff : ¬ cutDisk.HasSector (fatSector cutBpb 130) := by decide +kernel
  exact ⟨cache, hstep, hstale, by decide +kernel, fun h => hoff (h.hasSector (Prod.ext rfl hstale))⟩

end Example

end Pi0Os.Vfs.Fat32
