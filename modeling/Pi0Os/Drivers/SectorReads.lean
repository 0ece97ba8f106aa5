import Pi0Os.Drivers.SimpleBlockDevice

/-! `SimpleBlockDevice::read` against the flat byte array of its sectors: what each part of
a request reads, and the requests on which the parts fit together. -/

namespace Pi0Os.Drivers

open Kernel Buffer Library

namespace SimpleBlockDevice

variable (dev : SimpleBlockDevice)

/-- The sectors that a request of `n` bytes at `o` touches. -/
def Touches (o n i : ℕ) : Prop := o / dev.blockSize ≤ i ∧ (i * dev.blockSize < o + n ∨ i * dev.blockSize < o)

variable {dev} {malloc : ℕ → Bool} {temp : Bool} {fuel offset size read : ℕ} {pre post : Buffer}

lemma slice_byte (dev : SimpleBlockDevice) {k r t : ℕ} (ht : r + t ≤ dev.blockSize) :
    slice dev.byte (k * dev.blockSize + r) t = ((dev.readSector k).2.drop r).take t :=
  slice_unblock (fun k => (dev.readSector k).2) (dev.length_readSector k) ht

lemma slice_byte_aligned (dev : SimpleBlockDevice) {offset t : ℕ} (ho : offset % dev.blockSize = 0)
    (ht : t ≤ dev.blockSize) :
    slice dev.byte offset t = (dev.readSector (offset / dev.blockSize)).2.take t := by
  have h := slice_byte dev (k := offset / dev.blockSize) (r := 0) (by omega : 0 + t ≤ _)
  rwa [add_zero, Nat.div_mul_cancel (Nat.dvd_of_mod_eq_zero ho), List.drop_zero] at h

lemma readTail_ok (hm : malloc dev.blockSize = true) (ho : offset % dev.blockSize = 0)
    (hs : size < dev.blockSize) (hrc : 0 < size → (dev.readSector (offset / dev.blockSize)).1 = 0)
    (hp : size ≤ post.length) :
    dev.readTail malloc temp offset size read pre.length (pre ++ post) =
      .ok ((read + size : ℕ), pre ++ slice dev.byte offset size ++ post.drop size) := by
  rw [readTail, kassert_of hs, ok_bind, kassert_of ho, ok_bind]
  rcases Nat.eq_zero_or_pos size with rfl | hpos
  · simp
  have hlen : ((dev.readSector (offset / dev.blockSize)).2.take size).length = size := by
    rw [List.length_take, dev.length_readSector]
    omega
  have hcpy := memcpy_mid pre _ (hlen.trans_le hp)
  rw [if_pos hpos, if_neg (by simp [hm])]
  simp only [hrc hpos, ne_eq, not_true_eq_false, if_false]
  rw [hcpy, ok_bind, hlen, slice_byte_aligned dev ho hs.le]
  rfl

lemma readSectors_step (hs : dev.blockSize ≤ size) (hp : size ≤ post.length)
    (hrc : (dev.readSector (offset / dev.blockSize)).1 = 0) :
    dev.readSectors malloc temp (fuel + 1) offset size read pre.length (pre ++ post) =
      dev.readSectors malloc temp fuel (offset + dev.blockSize) (size - dev.blockSize) (read + dev.blockSize)
        (pre ++ (dev.readSector (offset / dev.blockSize)).2).length
        (pre ++ (dev.readSector (offset / dev.blockSize)).2 ++ post.drop dev.blockSize) := by
  have hlen := dev.length_readSector (offset / dev.blockSize)
  have hcpy := memcpy_mid (r := post) pre (dev.readSector (offset / dev.blockSize)).2 (by omega)
  rw [readSectors, if_pos hs]
  simp only [hcpy, ok_bind, hrc, ne_eq, not_true_eq_false, if_false]
  rw [List.length_append, hlen]

lemma readSectors_ok (temp : Bool) (read : ℕ) (pre : Buffer) (hm : malloc dev.blockSize = true)
    (ho : offset % dev.blockSize = 0) (hf : size < fuel)
    (hrc : ∀ i, offset / dev.blockSize ≤ i → i * dev.blockSize < offset + size → (dev.readSector i).1 = 0)
    (hp : size ≤ post.length) :
    dev.readSectors malloc temp fuel offset size read pre.length (pre ++ post) =
      .ok ((read + size : ℕ), pre ++ slice dev.byte offset size ++ post.drop size) := by
  induction fuel generalizing offset size read pre post with
  | zero => omega
  | succ fuel ih =>
    have hpos := dev.blockSize_pos
    have hdiv := Nat.div_mul_cancel (Nat.dvd_of_mod_eq_zero ho)
    by_cases hs : dev.blockSize ≤ size
    · have hrc₀ := hrc (offset / dev.blockSize) le_rfl (by omega)
      have hnext : (offset + dev.blockSize) / dev.blockSize = offset / dev.blockSize + 1 :=
        Nat.add_div_right _ hpos
      rw [readSectors_step hs hp hrc₀, ih _ _ (by simpa using ho) (by omega)
        (fun i hi hlt => hrc i (by omega) (by omega)) (by rw [List.length_drop]; omega)]
      have hblock := slice_byte_aligned dev ho le_rfl
      rw [List.take_of_length_le (dev.length_readSector _).le] at hblock
      rw [← hblock, List.append_assoc pre, slice_append, List.drop_drop, Nat.add_sub_cancel' hs, add_assoc,
        Nat.add_sub_cancel' hs]
    · rw [readSectors, if_neg hs, readTail_ok hm ho (by omega) (fun h => hrc _ le_rfl (by omega)) hp]

lemma readSectors_fail (temp : Bool) (read : ℕ) (pre : Buffer) (hm : malloc dev.blockSize = true)
    (ho : offset % dev.blockSize = 0) (hf : size < fuel)
    {i : ℕ} (hi : offset / dev.blockSize ≤ i) (hlt : i * dev.blockSize < offset + size)
    (hrc : (dev.readSector i).1 ≠ 0) (hfirst : ∀ j, offset / dev.blockSize ≤ j → j < i → (dev.readSector j).1 = 0)
    (hp : size ≤ post.length) :
    ∃ buffer, dev.readSectors malloc temp fuel offset size read pre.length (pre ++ post) =
      .ok ((dev.readSector i).1, buffer) := by
  induction fuel generalizing offset size read pre post with
  | zero => omega
  | succ fuel ih =>
    have hpos := dev.blockSize_pos
    have hdiv := Nat.div_mul_cancel (Nat.dvd_of_mod_eq_zero ho)
    by_cases hs : dev.blockSize ≤ size
    · rcases hi.eq_or_lt with rfl | hgt
      · have hcpy := memcpy_mid (r := post) pre (dev.readSector (offset / dev.blockSize)).2
          (by rw [dev.length_readSector]; omega)
        rw [readSectors, if_pos hs]
        simp only [hcpy, ok_bind, if_pos hrc]
        exact ⟨_, rfl⟩
      · have hnext : (offset + dev.blockSize) / dev.blockSize = offset / dev.blockSize + 1 :=
          Nat.add_div_right _ hpos
        rw [readSectors_step hs hp (hfirst _ le_rfl hgt)]
        exact ih _ _ (by simpa using ho) (by omega) (by omega) (by omega)
          (fun j hj hji => hfirst j (by omega) hji) (by rw [List.length_drop]; omega)
    · -- less than a sector is left, so the failing sector is the last one
      have hik : i = offset / dev.blockSize := by
        refine le_antisymm (Nat.le_of_lt_succ ?_) hi
        refine Nat.lt_of_mul_lt_mul_right (a := dev.blockSize) ?_
        rw [Nat.succ_mul, hdiv]
        omega
      subst hik
      rw [readSectors, if_neg hs, readTail, kassert_of (by omega), ok_bind, kassert_of ho, ok_bind,
        if_pos (by omega), if_neg (by simp [hm])]
      simp only [if_pos hrc]
      exact ⟨_, rfl⟩

def Healthy (dev : SimpleBlockDevice) : Prop := ∀ i < dev.size / dev.blockSize, (dev.readSector i).1 = 0

section Read

variable {buffer : Buffer}

lemma clamp_request (dev : SimpleBlockDevice) (offset size : ℕ) :
    (clamp 0 (offset : ℤ) dev.size).toNat = min offset dev.size ∧
      (clamp 0 (size : ℤ) (dev.size - (min offset dev.size : ℕ))).toNat =
        min size (dev.size - min offset dev.size) := by
  unfold clamp
  omega

variable {o n : ℕ}

lemma read_aligned {offset : ℕ} (ho : min offset dev.size = o) (hn : min size (dev.size - o) = n)
    (ha : o % dev.blockSize = 0) :
    dev.read malloc offset buffer size = dev.readSectors malloc false (n + 1) o n 0 0 buffer := by
  subst ho hn
  obtain ⟨h₁, h₂⟩ := clamp_request dev offset size
  simp only [read, h₁, h₂, ha, ne_eq, not_true_eq_false, if_false]
  rw [kassert_of trivial, ok_bind]

lemma read_head_fail {offset : ℕ} (ho : min offset dev.size = o) (hm : malloc dev.blockSize = true)
    (ha : o % dev.blockSize ≠ 0) (hrc : (dev.readSector (o / dev.blockSize)).1 ≠ 0) :
    dev.read malloc offset buffer size = .ok ((dev.readSector (o / dev.blockSize)).1, buffer) := by
  subst ho
  obtain ⟨h₁, -⟩ := clamp_request dev offset size
  simp only [read, h₁, if_pos ha, hm, not_true_eq_false, if_false, if_pos hrc]
  rfl

lemma read_head {offset : ℕ} (ho : min offset dev.size = o) (hn : min size (dev.size - o) = n)
    (hm : malloc dev.blockSize = true) (ha : o % dev.blockSize ≠ 0)
    (hrc : (dev.readSector (o / dev.blockSize)).1 = 0) (hb : n ≤ buffer.length) :
    let toRead := min n (dev.blockSize - o % dev.blockSize)
    dev.read malloc offset buffer size =
      (kassert "offset % sector_size == 0" ((o + toRead) % dev.blockSize = 0) >>= fun _ =>
        dev.readSectors malloc true (n + 1) (o + toRead) (n - toRead) toRead
          (slice dev.byte o toRead).length (slice dev.byte o toRead ++ buffer.drop toRead)) := by
  intro toRead
  have hmod := Nat.mod_lt o dev.blockSize_pos
  have hto : toRead = min n (dev.blockSize - o % dev.blockSize) := rfl
  have hs : ((dev.readSector (o / dev.blockSize)).2.drop (o % dev.blockSize)).take toRead =
      slice dev.byte o toRead := by
    have h := slice_byte dev (k := o / dev.blockSize) (r := o % dev.blockSize) (t := toRead) (by omega)
    rw [Nat.div_add_mod'] at h
    exact h.symm
  have hcpy := memcpy_mid (r := buffer) [] (slice dev.byte o toRead)
    (by rw [length_slice]; omega)
  rw [length_slice] at hcpy ⊢
  simp only [List.nil_append, List.length_nil] at hcpy
  subst ho hn
  obtain ⟨h₁, h₂⟩ := clamp_request dev offset size
  simp only [read, h₁, h₂, if_pos ha, hm, not_true_eq_false, if_false, hrc, ne_eq, ← hto, hs, hcpy, ok_bind]

lemma head_reaches (ha : o % dev.blockSize ≠ 0) :
    (o + min n (dev.blockSize - o % dev.blockSize)) % dev.blockSize = 0 ↔
      dev.blockSize ≤ o % dev.blockSize + n := by
  have hmod := Nat.mod_lt o dev.blockSize_pos
  rw [← Nat.mod_add_mod]
  by_cases hn : dev.blockSize ≤ o % dev.blockSize + n
  · have he : o % dev.blockSize + min n (dev.blockSize - o % dev.blockSize) = dev.blockSize := by omega
    rw [he, Nat.mod_self]
    exact iff_of_true rfl hn
  · have he : o % dev.blockSize + min n (dev.blockSize - o % dev.blockSize) = o % dev.blockSize + n := by omega
    rw [he, Nat.mod_eq_of_lt (by omega)]
    exact iff_of_false (by omega) hn

end Read

/-- `read` refines a flat byte array except where the head of the request ends inside its
sector; the first code other than 0 is returned in any case. -/
theorem read_refines (hd : dev.blockSize ∣ dev.size) (hm : malloc dev.blockSize = true) (offset size : ℕ)
    {buffer : Buffer} (hb : size ≤ buffer.length) :
    let o := min offset dev.size
    let n := min size (dev.size - o)
    (dev.Healthy → (dev.read malloc offset buffer size = .ok (n, slice dev.byte o n ++ buffer.drop n) ↔
      o % dev.blockSize = 0 ∨ dev.blockSize ≤ o % dev.blockSize + n)) ∧
    ∀ i, dev.Touches o n i → (dev.readSector i).1 ≠ 0 →
      (∀ j, dev.Touches o n j → j < i → (dev.readSector j).1 = 0) →
      ∃ buffer', dev.read malloc offset buffer size = .ok ((dev.readSector i).1, buffer') := by
  intro o n
  have hpos := dev.blockSize_pos
  have ho : min offset dev.size = o := rfl
  have hn : min size (dev.size - o) = n := rfl
  have hon : o + n ≤ dev.size := by omega
  have hnb : n ≤ buffer.length := by omega
  have hdiv := Nat.div_add_mod' o dev.blockSize
  have hmod := Nat.mod_lt o hpos
  clear_value o n
  have hin {i : ℕ} (hi : i * dev.blockSize < dev.size) : i < dev.size / dev.blockSize :=
    (Nat.lt_div_iff_mul_lt' hd i).mpr (by rwa [mul_comm])
  by_cases ha : o % dev.blockSize = 0
  · -- an aligned request goes straight to the loop
    rw [read_aligned ho hn ha]
    refine ⟨fun hh => iff_of_true ?_ (.inl ha), fun i hi hrc hfirst => ?_⟩
    · have hok := readSectors_ok false 0 [] hm ha n.lt_succ_self
        (fun i _ hlt => hh i (hin (by omega))) hnb
      simpa using hok
    · have hlt : i * dev.blockSize < o + n := by
        rcases hi.2 with h | h
        · exact h
        · omega
      exact readSectors_fail false 0 [] hm ha n.lt_succ_self
        hi.1 hlt hrc (fun j hj hji => hfirst j ⟨hj, .inl (by nlinarith)⟩ hji) hnb
  · have hnext {t : ℕ} (ht : o % dev.blockSize + t = dev.blockSize) :
        (o + t) / dev.blockSize = o / dev.blockSize + 1 := by
      have he : o + t = (o / dev.blockSize + 1) * dev.blockSize := by rw [Nat.succ_mul]; omega
      rw [he, Nat.mul_div_cancel _ hpos]
    refine ⟨fun hh => ?_, fun i hi hrc hfirst => ?_⟩
    · rw [read_head ho hn hm ha (hh _ (hin (by omega))) hnb]
      by_cases hc : dev.blockSize ≤ o % dev.blockSize + n
      · refine iff_of_true ?_ (.inr hc)
        have hal := (head_reaches (n := n) ha).mpr hc
        rw [kassert_of hal, ok_bind]
        rw [readSectors_ok _ _ _ hm hal (by omega) (fun i _ hlt => hh i (hin (by omega)))
          (by rw [List.length_drop]; omega), slice_append, List.drop_drop]
        rw [Nat.add_sub_cancel' (Nat.min_le_left _ _)]
      · refine iff_of_false ?_ (by tauto)
        rw [kassert_of_not (fun h => hc ((head_reaches ha).mp h))]
        exact fun h => by cases h
    · rcases hi.1.eq_or_lt with rfl | hgt
      · exact ⟨buffer, read_head_fail ho hm ha hrc⟩
      · -- a later sector fails: the head ends at its sector's end
        have hrc₀ := hfirst (o / dev.blockSize) ⟨le_rfl, .inr (by omega)⟩ hgt
        have hle : (o / dev.blockSize + 1) * dev.blockSize ≤ i * dev.blockSize := Nat.mul_le_mul_right _ hgt
        rw [Nat.succ_mul] at hle
        have hlt : i * dev.blockSize < o + n := hi.2.resolve_right (by omega)
        have hal := (head_reaches (n := n) ha).mpr (by omega)
        have hdiv' := hnext (t := min n (dev.blockSize - o % dev.blockSize)) (by omega)
        rw [read_head ho hn hm ha hrc₀ hnb, kassert_of hal, ok_bind]
        refine readSectors_fail _ _ _ hm hal (by omega) (by omega) (by omega) hrc (fun j hj hji => ?_)
          (by rw [List.length_drop]; omega)
        exact hfirst j ⟨by omega, .inl (by nlinarith)⟩ hji

/-- Two sectors of 512 bytes, as `VirtioBlockDevice` has them, all zero. -/
def zeroDisk : SimpleBlockDevice where
  blockSize := 512
  size := 1024
  readSector _ := (0, List.replicate 512 0)
  blockSize_pos := by norm_num
  length_readSector _ := List.length_replicate

lemma zeroDisk_healthy : zeroDisk.Healthy := fun _ _ => rfl

/-- A request over a sector boundary. -/
theorem read_refines_boundary : zeroDisk.read (fun _ => true) 510 [1, 1, 1] 3 =
    .ok (3, slice zeroDisk.byte 510 3) := by
  have h := (@read_refines zeroDisk (fun _ => true) (by decide) rfl 510 3 [1, 1, 1] (by decide)).1
    zeroDisk_healthy
  exact h.mpr (.inr (by decide))

/-- A request of one byte inside a sector trips the assertion after the head. -/
theorem read_inside_sector : zeroDisk.Healthy ∧ zeroDisk.blockSize ∣ zeroDisk.size ∧
    zeroDisk.read (fun _ => true) 1 [1] 1 = .error (.assertion "offset % sector_size == 0") :=
  ⟨zeroDisk_healthy, by decide, by rfl⟩

end SimpleBlockDevice

end Pi0Os.Drivers
