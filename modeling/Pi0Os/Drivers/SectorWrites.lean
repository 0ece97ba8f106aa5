import Pi0Os.Kernel.CString
import Pi0Os.Library.Slice

/-! `SimpleBlockDevice::write` of `device.cpp`, over a device that is read and written by whole sectors. -/

namespace Pi0Os.Drivers

open Kernel Buffer Library

/-- `read_sector` and `write_sector` of a device whose content is part of the state `σ`. A call that fails may have
done anything to the buffer and to the device. -/
structure SectorDriver (σ : Type) where
  blockSize : ℕ
  size : ℕ
  isReadOnly : Bool
  sector : σ → ℕ → Buffer
  readSector : ℕ → σ → ℤ × Buffer × σ
  writeSector : ℕ → Buffer → σ → ℤ × σ
  blockSize_pos : 0 < blockSize
  length_sector : ∀ s i, (sector s i).length = blockSize
  length_readSector : ∀ i s, (readSector i s).2.1.length = blockSize
  readSector_ok : ∀ i s, (readSector i s).1 = 0 →
    (readSector i s).2.1 = sector s i ∧ sector (readSector i s).2.2 = sector s
  writeSector_ok : ∀ i bytes s, bytes.length = blockSize → (writeSector i bytes s).1 = 0 →
    ∀ j, sector (writeSector i bytes s).2 j = if j = i then bytes else sector s j

namespace SectorDriver

/-- The value returned and the state of the device, with the codes of the sector calls. -/
abbrev Outcome (σ : Type) := (ℤ × σ) × List ℤ

variable {σ : Type} (dev : SectorDriver σ)

/-- `read_sector` into `temp_buffer`, `memcpy` to its byte `r` and `write_sector`, at the head and at the tail. -/
def modifySector (i r : ℕ) (bytes : Buffer) (s : σ) : Except Panic (Outcome σ) := do
  let (rc, temp, s) := dev.readSector i s
  if rc ≠ 0 then return ((rc, s), [rc])
  let temp ← memcpy temp r bytes
  let (rc', s) := dev.writeSector i temp s
  return ((rc', s), [rc, rc'])

/-- The last step of `write`, with `ptr` and `temp` as in `SimpleBlockDevice.readTail`. -/
def writeTail (malloc : ℕ → Bool) (temp : Bool) (offset size written ptr : ℕ) (buffer : Buffer) (s : σ) :
    Except Panic (Outcome σ) := do
  kassert "size < sector_size" (size < dev.blockSize)
  kassert "offset % sector_size == 0" (offset % dev.blockSize = 0)
  if size > 0 then
    if ¬ temp ∧ ¬ malloc dev.blockSize then return ((-Err.noMem, s), [])
    let ((rc, s), codes) ← dev.modifySector (offset / dev.blockSize) 0 ((buffer.drop ptr).take size) s
    if rc ≠ 0 then return ((rc, s), codes)
    return (((written + size : ℕ), s), codes)
  else
    kassert "size == 0" (size = 0)
    return (((written : ℤ), s), [])

/-- `while (size >= sector_size)`, with as many rounds at hand as `fuel`. -/
def writeSectors (malloc : ℕ → Bool) (temp : Bool) : ℕ → ℕ → ℕ → ℕ → ℕ → Buffer → σ → Except Panic (Outcome σ)
  | 0, _, _, _, _, _, _ => .error (.undefined "the loop did not end")
  | fuel + 1, offset, size, written, ptr, buffer, s => do
    if size ≥ dev.blockSize then
      let (rc, s) := dev.writeSector (offset / dev.blockSize) ((buffer.drop ptr).take dev.blockSize) s
      if rc ≠ 0 then return ((rc, s), [rc])
      let (result, codes) ← writeSectors malloc temp fuel (offset + dev.blockSize) (size - dev.blockSize)
        (written + dev.blockSize) (ptr + dev.blockSize) buffer s
      return (result, rc :: codes)
    else dev.writeTail malloc temp offset size written ptr buffer s

def write (malloc : ℕ → Bool) (offset : ℤ) (buffer : Buffer) (size : ℕ) (s : σ) : Except Panic (Outcome σ) := do
  if dev.isReadOnly then return ((-Err.roFs, s), [])
  let offset := (clamp 0 offset dev.size).toNat
  let size := (clamp 0 size (dev.size - offset)).toNat
  if offset % dev.blockSize ≠ 0 then
    if ¬ malloc dev.blockSize then return ((-Err.noMem, s), [])
    let toWrite := min size (dev.blockSize - offset % dev.blockSize)
    let ((rc, s), codes) ←
      dev.modifySector (offset / dev.blockSize) (offset % dev.blockSize) (buffer.take toWrite) s
    if rc ≠ 0 then return ((rc, s), codes)
    kassert "offset % sector_size == 0" ((offset + toWrite) % dev.blockSize = 0)
    let (result, codes') ← dev.writeSectors malloc true (size + 1) (offset + toWrite) (size - toWrite) toWrite toWrite
      buffer s
    return (result, codes ++ codes')
  else
    kassert "offset % sector_size == 0" (offset % dev.blockSize = 0)
    dev.writeSectors malloc false (size + 1) offset size 0 0 buffer s

/-- The bytes of the device. -/
def byte (s : σ) : ℕ → UInt8 := unblock (dev.sector s) dev.blockSize

/-- The run comes to a value; if none of its sector calls fails, the value is `n` and the device has `bytes` at
`offset`, and nothing else has changed. -/
def Writes (run : Except Panic (Outcome σ)) (s : σ) (n offset : ℕ) (bytes : Buffer) : Prop :=
  ∃ rc s' codes, run = .ok ((rc, s'), codes) ∧
    ((∀ code ∈ codes, code = 0) → rc = n ∧ dev.byte s' = overwrite (dev.byte s) offset bytes)

variable {dev} {malloc : ℕ → Bool} {temp : Bool} {fuel i r offset size written ptr : ℕ} {buffer bytes : Buffer} {s : σ}

lemma writeSector_splice {k : ℕ} {w : Buffer} (hw : r + w.length ≤ dev.blockSize)
    (hbytes : bytes = (dev.sector s k).take r ++ w ++ (dev.sector s k).drop (r + w.length))
    (hrc : (dev.writeSector k bytes s).1 = 0) :
    dev.byte (dev.writeSector k bytes s).2 = overwrite (dev.byte s) (k * dev.blockSize + r) w := by
  have hlen : bytes.length = dev.blockSize := by
    have hsector := dev.length_sector s k
    rw [hbytes, List.length_append, List.length_append, List.length_take, List.length_drop]
    omega
  refine unblock_splice dev.blockSize_pos (dev.length_sector s k) hw fun j => ?_
  rw [dev.writeSector_ok k bytes s hlen hrc, hbytes]

lemma writeSector_whole {k : ℕ} (hlen : bytes.length = dev.blockSize) (hrc : (dev.writeSector k bytes s).1 = 0) :
    dev.byte (dev.writeSector k bytes s).2 = overwrite (dev.byte s) (k * dev.blockSize) bytes := by
  have hdrop : (dev.sector s k).drop (0 + bytes.length) = [] := by
    rw [List.drop_eq_nil_iff, dev.length_sector, zero_add, hlen]
  exact writeSector_splice (r := 0) (by omega) (by rw [hdrop, List.take_zero, List.nil_append, List.append_nil]) hrc

/-- One sector is read, changed and written back. -/
lemma modifySector_writes (hw : r + bytes.length ≤ dev.blockSize) :
    dev.Writes (dev.modifySector i r bytes s) s 0 (i * dev.blockSize + r) bytes := by
  have hlen := dev.length_readSector i s
  have hread := dev.readSector_ok i s
  rw [modifySector]
  generalize dev.readSector i s = result at hlen hread
  obtain ⟨rc, sector, s₁⟩ := result
  dsimp only at hlen hread ⊢
  by_cases hrc : rc ≠ 0
  · rw [if_pos hrc]
    exact ⟨rc, s₁, [rc], rfl, fun h => absurd (h rc List.mem_cons_self) hrc⟩
  obtain ⟨hsector, hsame⟩ := hread (not_not.mp hrc)
  rw [if_neg hrc, memcpy, if_pos (by omega), ok_bind]
  refine ⟨_, _, _, rfl, fun h => ?_⟩
  have hrc' := h _ (List.mem_cons_of_mem rc List.mem_cons_self)
  have hsplice := writeSector_splice (s := s₁) hw (by rw [hsame, hsector]) hrc'
  have hbyte : dev.byte s₁ = dev.byte s := by rw [byte, byte, hsame]
  exact ⟨hrc', hbyte ▸ hsplice⟩

lemma writeTail_writes (hm : malloc dev.blockSize = true) (ho : offset % dev.blockSize = 0)
    (hs : size < dev.blockSize) (hp : ptr + size ≤ buffer.length) :
    dev.Writes (dev.writeTail malloc temp offset size written ptr buffer s) s (written + size) offset
      ((buffer.drop ptr).take size) := by
  rw [writeTail, kassert_of hs, ok_bind, kassert_of ho, ok_bind]
  rcases Nat.eq_zero_or_pos size with rfl | hpos
  · rw [if_neg (lt_irrefl 0), List.take_zero]
    exact ⟨written, s, [], rfl, fun _ => ⟨rfl, (overwrite_nil ..).symm⟩⟩
  have hlen : ((buffer.drop ptr).take size).length = size := by
    rw [List.length_take, List.length_drop]
    omega
  obtain ⟨rc, s', codes, hrun, hcodes⟩ :=
    @modifySector_writes σ dev (offset / dev.blockSize) 0 ((buffer.drop ptr).take size) s (by omega)
  rw [add_zero, Nat.div_mul_cancel (Nat.dvd_of_mod_eq_zero ho)] at hcodes
  rw [if_pos hpos, if_neg (by simp [hm]), hrun, ok_bind]
  by_cases hrc : rc ≠ 0
  · exact ⟨rc, s', codes, if_pos hrc, fun h => absurd (hcodes h).1 hrc⟩
  · exact ⟨_, s', codes, if_neg hrc, fun h => ⟨rfl, (hcodes h).2⟩⟩

/-- A part of the request that is written before the rest of it. -/
lemma Writes.append {s₁ : σ} {n : ℕ} {u w : Buffer} {codes : List ℤ} {run : Except Panic (Outcome σ)}
    (hfirst : (∀ code ∈ codes, code = 0) → dev.byte s₁ = overwrite (dev.byte s) offset u)
    (hrest : dev.Writes run s₁ n (offset + u.length) w) :
    dev.Writes (do let (result, codes') ← run; return (result, codes ++ codes')) s n offset (u ++ w) := by
  obtain ⟨rc, s', codes', hrun, hcodes⟩ := hrest
  refine ⟨rc, s', codes ++ codes', by rw [hrun]; rfl, fun h => ?_⟩
  obtain ⟨hrc, hbyte⟩ := hcodes fun code hc => h code (List.mem_append_right _ hc)
  have hbefore := hfirst fun code hc => h code (List.mem_append_left _ hc)
  rw [hbyte, hbefore, overwrite_append]
  exact ⟨hrc, rfl⟩

lemma writeSectors_writes (written : ℕ) (s : σ) (hm : malloc dev.blockSize = true) (ho : offset % dev.blockSize = 0)
    (hf : size < fuel) (hp : ptr + size ≤ buffer.length) :
    dev.Writes (dev.writeSectors malloc temp fuel offset size written ptr buffer s) s (written + size) offset
      ((buffer.drop ptr).take size) := by
  induction fuel generalizing offset size written ptr s with
  | zero => omega
  | succ fuel ih =>
    have hpos := dev.blockSize_pos
    rw [writeSectors]
    by_cases hs : size ≥ dev.blockSize
    · have hlen : ((buffer.drop ptr).take dev.blockSize).length = dev.blockSize := by
        rw [List.length_take, List.length_drop]
        omega
      have hsplit : (buffer.drop ptr).take size = (buffer.drop ptr).take dev.blockSize ++
          (buffer.drop (ptr + dev.blockSize)).take (size - dev.blockSize) := by
        rw [← List.drop_drop, ← List.take_add, Nat.add_sub_cancel' hs]
      have hwhole := @writeSector_whole σ dev _ s (offset / dev.blockSize) hlen
      rw [Nat.div_mul_cancel (Nat.dvd_of_mod_eq_zero ho)] at hwhole
      rw [if_pos hs]
      generalize dev.writeSector (offset / dev.blockSize) ((buffer.drop ptr).take dev.blockSize) s = result at hwhole
      obtain ⟨rc, s₁⟩ := result
      dsimp only at hwhole ⊢
      by_cases hrc : rc ≠ 0
      · rw [if_pos hrc]
        exact ⟨rc, s₁, [rc], rfl, fun h => absurd (h rc List.mem_cons_self) hrc⟩
      · rw [if_neg hrc, hsplit]
        have hrest : dev.Writes (dev.writeSectors malloc temp fuel (offset + dev.blockSize) (size - dev.blockSize)
            (written + dev.blockSize) (ptr + dev.blockSize) buffer s₁) s₁
            (written + dev.blockSize + (size - dev.blockSize)) (offset + dev.blockSize)
            ((buffer.drop (ptr + dev.blockSize)).take (size - dev.blockSize)) :=
          ih _ s₁ (by simpa using ho) (by omega) (by omega)
        rw [add_assoc written, Nat.add_sub_cancel' hs] at hrest
        exact .append (fun _ : ∀ code ∈ [rc], code = 0 => hwhole (not_not.mp hrc)) (hlen.symm ▸ hrest)
    · rw [if_neg hs]
      exact writeTail_writes hm ho (by omega) hp

/-- `write` within the device. -/
lemma write_writes {o n : ℕ} (hrw : dev.isReadOnly = false) (hm : malloc dev.blockSize = true) {offset : ℤ}
    (ho : (clamp 0 offset dev.size).toNat = o) (hn : (clamp 0 (size : ℤ) (dev.size - (o : ℕ))).toNat = n)
    (hnb : n ≤ buffer.length)
    (hassert : ∀ expr, dev.write malloc offset buffer size s ≠ .error (.assertion expr)) :
    dev.Writes (dev.write malloc offset buffer size s) s n o (buffer.take n) := by
  simp only [write, hrw, ho, hn] at hassert ⊢
  rw [if_neg Bool.false_ne_true] at hassert ⊢
  by_cases ha : o % dev.blockSize ≠ 0
  · have hmod := Nat.mod_lt o dev.blockSize_pos
    generalize ht : min n (dev.blockSize - o % dev.blockSize) = t at hassert ⊢
    have hlen : (buffer.take t).length = t := by
      rw [List.length_take]
      omega
    obtain ⟨rc, s₁, codes, hrun, hcodes⟩ :=
      @modifySector_writes σ dev (o / dev.blockSize) (o % dev.blockSize) (buffer.take t) s (by omega)
    rw [Nat.div_add_mod'] at hcodes
    rw [if_pos ha, if_neg (not_not_intro hm), hrun, ok_bind] at hassert ⊢
    dsimp only at hassert ⊢
    by_cases hrc : rc ≠ 0
    · exact ⟨rc, s₁, codes, if_pos hrc, fun h => absurd (hcodes h).1 hrc⟩
    rw [if_neg hrc] at hassert ⊢
    by_cases hal : (o + t) % dev.blockSize = 0
    · -- the head ends with its sector, and the rest of the request is aligned
      have htn : t ≤ n := by omega
      have hsplit : buffer.take n = buffer.take t ++ (buffer.drop t).take (n - t) := by
        rw [← List.take_add, Nat.add_sub_cancel' htn]
      have hrest := @writeSectors_writes σ dev malloc true (n + 1) (o + t) (n - t) t buffer t s₁ hm hal (by omega)
        (by omega)
      rw [Nat.add_sub_cancel' htn] at hrest
      rw [kassert_of hal, ok_bind, hsplit]
      exact .append (fun h => (hcodes h).2) (hlen.symm ▸ hrest)
    · rw [kassert_of_not hal] at hassert
      exact absurd rfl (hassert _)
  · have haligned := not_not.mp ha
    have hall := @writeSectors_writes σ dev malloc false (n + 1) o n 0 buffer 0 s hm haligned n.lt_succ_self
      (by omega)
    rw [zero_add, List.drop_zero] at hall
    rwa [if_neg ha, kassert_of haligned, ok_bind]

/-- A disk in memory, with sectors of two bytes. -/
def pairDisk : SectorDriver (ℕ → UInt8 × UInt8) where
  blockSize := 2
  size := 8
  isReadOnly := false
  sector s i := [(s i).1, (s i).2]
  readSector i s := (0, [(s i).1, (s i).2], s)
  writeSector i bytes s := (0, Function.update s i (bytes.getD 0 0, bytes.getD 1 0))
  blockSize_pos := by decide
  length_sector _ _ := rfl
  length_readSector _ _ := rfl
  readSector_ok _ _ _ := ⟨rfl, rfl⟩
  writeSector_ok i bytes s h _ j := by
    obtain ⟨a, b, rfl⟩ := List.length_eq_two.mp h
    dsimp only
    by_cases hj : j = i
    · rw [if_pos hj, hj, Function.update_self]
      rfl
    · rw [if_neg hj, Function.update_of_ne hj]

end SectorDriver

end Pi0Os.Drivers
