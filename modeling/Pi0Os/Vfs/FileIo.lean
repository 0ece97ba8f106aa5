import Pi0Os.Vfs.InodeCache

/-! `vfs_read`, `vfs_write` and `vfs_seek` on a custody of an inode that is not a directory. -/

namespace Pi0Os.Vfs

open Kernel

abbrev ofAccmode : ℕ := 0x3
abbrev ofRdonly : ℕ := 0x0
abbrev ofWronly : ℕ := 0x1
abbrev ofRdwr : ℕ := 0x2
abbrev ofNonblock : ℕ := 0x4000

/-- The `file_ops` of an inode, over the state `σ` of what the inode stands for. -/
structure FileOps (σ : Type) where
  read : σ → ℕ → ℕ → Except Panic (ℤ × List UInt8 × σ)
  write : σ → ℕ → List UInt8 → Except Panic (ℤ × σ)
  seekCur : σ → ℕ → ℤ → ℤ
  poll : σ → ℕ → ℤ × ℕ

/-- The conversion of an `int64_t` to the 32-bit `ssize_t`. -/
def ssize (rc : ℤ) : ℤ := Int.bmod rc (2 ^ 32)

lemma ssize_of_lt {n : ℕ} (h : n < 2 ^ 31) : ssize n = n := by
  rw [ssize, Int.bmod_eq_of_le] <;> omega

variable {σ : Type} (ops : FileOps σ) (s : σ) (custody : FileCustody)

/-- The condition on which the blocking loops call `sys$yield` and poll again. -/
def waitsFor (event : ℕ) : Bool :=
  let (rc, events) := ops.poll s event
  rc = 0 ∧ events &&& event = 0

/-- `vfs_seek` from the current offset. -/
def vfsSeekCur (offset : ℤ) : FileCustody :=
  let newSeek := ssize (ops.seekCur s custody.offset offset)
  if newSeek < 0 then custody else { custody with offset := newSeek.toNat }

/-- No result stands for a `sys$yield` in the loop that waits for input. -/
def vfsRead (size : ℕ) : Except Panic (Option (ℤ × List UInt8 × FileCustody × σ)) :=
  if custody.flags &&& ofAccmode = ofWronly then .ok (some (-Err.perm, [], custody, s))
  else if custody.flags &&& ofNonblock = 0 ∧ waitsFor ops s fPollIn then .ok none
  else do
    let (rc, out, s) ← ops.read s custody.offset size
    let rc := ssize rc
    return some (rc, out, if rc > 0 then vfsSeekCur ops s custody rc else custody, s)

/-- No result stands for a `sys$yield` in the loop that waits for room. -/
def vfsWrite (buffer : List UInt8) : Except Panic (Option (ℤ × FileCustody × σ)) :=
  if custody.flags &&& ofAccmode = ofRdonly then .ok (some (-Err.perm, custody, s))
  else if custody.flags &&& ofNonblock = 0 ∧ waitsFor ops s fPollOut then .ok none
  else do
    let (rc, s) ← ops.write s custody.offset buffer
    let rc := ssize rc
    return some (rc, if rc > 0 then vfsSeekCur ops s custody rc else custody, s)

section Inversion

variable {ops s custody}

lemma vfsRead_some {size : ℕ} {rc : ℤ} {out : List UInt8} {custody' : FileCustody} {s' : σ}
    (h : vfsRead ops s custody size = .ok (some (rc, out, custody', s'))) :
    (out = [] ∧ rc = -Err.perm ∧ s' = s) ∨
      ∃ rc', ops.read s custody.offset size = .ok (rc', out, s') ∧ rc = ssize rc' := by
  unfold vfsRead at h
  split at h
  · cases h
    exact Or.inl ⟨rfl, rfl, rfl⟩
  · split at h
    · cases h
    · obtain ⟨⟨rc', out', s₁⟩, hr, h⟩ := bind_eq_ok.mp h
      cases h
      exact Or.inr ⟨rc', hr, rfl⟩

lemma vfsWrite_some {buffer : List UInt8} {rc : ℤ} {custody' : FileCustody} {s' : σ}
    (h : vfsWrite ops s custody buffer = .ok (some (rc, custody', s'))) :
    (custody.flags &&& ofAccmode = ofRdonly ∧ rc = -Err.perm ∧ s' = s) ∨
      custody.flags &&& ofAccmode ≠ ofRdonly ∧
        ∃ rc', ops.write s custody.offset buffer = .ok (rc', s') ∧ rc = ssize rc' := by
  unfold vfsWrite at h
  split at h
  · rename_i hro
    cases h
    exact Or.inl ⟨hro, rfl, rfl⟩
  · rename_i hrw
    split at h
    · cases h
    · obtain ⟨⟨rc', s₁⟩, hr, h⟩ := bind_eq_ok.mp h
      cases h
      exact Or.inr ⟨hrw, rc', hr, rfl⟩

lemma vfsSeekCur_inode (offset : ℤ) : (vfsSeekCur ops s custody offset).inode = custody.inode := by
  rw [vfsSeekCur, apply_ite FileCustody.inode]
  exact ite_self _

lemma vfsRead_inode {size : ℕ} {rc : ℤ} {out : List UInt8} {custody' : FileCustody} {s' : σ}
    (h : vfsRead ops s custody size = .ok (some (rc, out, custody', s'))) : custody'.inode = custody.inode := by
  unfold vfsRead at h
  split at h
  · cases h
    rfl
  · split at h
    · cases h
    · obtain ⟨⟨rc', out', s₁⟩, -, h⟩ := bind_eq_ok.mp h
      cases h
      split
      · exact vfsSeekCur_inode _
      · rfl

lemma vfsWrite_inode {buffer : List UInt8} {rc : ℤ} {custody' : FileCustody} {s' : σ}
    (h : vfsWrite ops s custody buffer = .ok (some (rc, custody', s'))) : custody'.inode = custody.inode := by
  unfold vfsWrite at h
  split at h
  · cases h
    rfl
  · split at h
    · cases h
    · obtain ⟨⟨rc', s₁⟩, -, h⟩ := bind_eq_ok.mp h
      cases h
      split
      · exact vfsSeekCur_inode _
      · rfl

end Inversion

end Pi0Os.Vfs
