import Pi0Os.Library.TransitionSystem
import Pi0Os.Vfs.InodeCache
import Pi0Os.Vfs.MountResolution

/-! The order of the list of mount points over the calls of `vfs_mount`. -/

namespace Pi0Os.Vfs

open Kernel Byte Buffer Library

structure MountCall where
  env : MountEnv
  path : CString
  fs : ℕ

def mountCalls : TransitionSystem VfsState MountCall where
  Init s := s.mounts = []
  Step s call s' := ∃ rc, vfsMount s call.env call.path call.fs = .ok (rc, s')

/-- The mount point that a call links into the list; none when an allocation fails. -/
def MountCall.entry (call : MountCall) : Option (MountPoint ℕ) :=
  match canonicalizePath call.env.malloc call.path with
  | .ok (some cpath) =>
    if ¬ call.env.inodeMem ∨ ¬ call.env.mountMem then none else (newMountPoint call.fs cpath).toOption
  | _ => none

/-- Longest path first. -/
def Ordered (mounts : List (MountPoint ℕ)) : Prop := mounts.Pairwise fun m m' => m'.pathSkip ≤ m.pathSkip

/-- The new path is longer than one that is mounted, or no shorter than any. -/
def KeepsOrder (mounts : List (MountPoint ℕ)) (mp : MountPoint ℕ) : Prop :=
  (∃ m ∈ mounts, m.pathSkip < mp.pathSkip) ∨ ∀ m ∈ mounts, m.pathSkip ≤ mp.pathSkip

section Link

variable {mounts mounts' : List (MountPoint ℕ)} {mp : MountPoint ℕ}

lemma linkMountPoint_perm (h : linkMountPoint mounts mp = .ok mounts') : mounts'.Perm (mounts ++ [mp]) := by
  rcases linkMountPoint_spec mounts mp with ⟨hl, -⟩ | ⟨before, after, rest, rfl, hl, -, -⟩
  · obtain rfl := Except.ok.inj (hl.symm.trans h)
    exact (List.perm_append_singleton mp mounts).symm
  · obtain rfl := Except.ok.inj (hl.symm.trans h)
    exact List.perm_middle.trans (List.perm_append_singleton mp _).symm

lemma linkMountPoint_ordered (h : linkMountPoint mounts mp = .ok mounts') :
    Ordered mounts' ↔ Ordered mounts ∧ KeepsOrder mounts mp := by
  rcases linkMountPoint_spec mounts mp with ⟨hl, hge⟩ | ⟨before, after, rest, rfl, hl, hge, hlt⟩
  · -- no shorter path: the new mount point is the head
    obtain rfl := Except.ok.inj (hl.symm.trans h)
    rw [Ordered, List.pairwise_cons, and_comm]
    refine and_congr_right fun _ => ⟨.inr, ?_⟩
    rintro (⟨m, hm, hlt⟩ | hle)
    · exact absurd (hge m hm) (by omega)
    · exact hle
  · obtain rfl := Except.ok.inj (hl.symm.trans h)
    have hkeeps : KeepsOrder (before ++ after :: rest) mp := .inl ⟨after, by simp, hlt⟩
    constructor
    · intro ho
      exact ⟨ho.sublist ((List.sublist_cons_self mp (after :: rest)).append_left before), hkeeps⟩
    · rintro ⟨ho, -⟩
      obtain ⟨hbefore, hrest, hcross⟩ := List.pairwise_append.mp ho
      refine List.pairwise_append.mpr ⟨hbefore, List.pairwise_cons.mpr ⟨fun m hm => ?_, hrest⟩, fun m hm m' hm' => ?_⟩
      · rcases List.mem_cons.mp hm with rfl | hm
        · exact hlt.le
        · exact ((List.pairwise_cons.mp hrest).1 m hm).trans hlt.le
      · rcases List.mem_cons.mp hm' with rfl | hm'
        · exact hge m hm
        · exact hcross m hm m' hm'

end Link

section Calls

variable {s s' : VfsState} {run : List (VfsState × MountCall)} {call : MountCall} {rc : ℤ}

lemma openInode_mounts (s : VfsState) (a : ℕ) (rc : ℤ) : (openInode s a rc).2.mounts = s.mounts := by
  unfold openInode
  dsimp only
  split_ifs <;> rfl

lemma icacheInsert_mounts {fs identifier a : ℕ} {mem : Bool}
    (h : icacheInsert s fs identifier a mem = .ok (rc, s')) : s'.mounts = s.mounts := by
  obtain ⟨-, h⟩ := kassert_bind_eq_ok.mp h
  split_ifs at h
  · cases h
    rfl
  · cases h
    rfl

lemma mountRoot_mounts {env : MountEnv} {fs : ℕ} (h : mountRoot s env fs = .ok (rc, s')) : s'.mounts = s.mounts := by
  obtain ⟨-, h⟩ := kassert_bind_eq_ok.mp h
  obtain ⟨⟨rc', s₁⟩, hi, h⟩ := bind_eq_ok.mp h
  cases h
  exact (icacheInsert_mounts hi).trans (openInode_mounts _ _ _)

/-- One call of `vfs_mount` leaves the list as it is, or links one entry into it. -/
lemma vfsMount_entry (h : vfsMount s call.env call.path call.fs = .ok (rc, s')) :
    (call.entry = none ∧ s'.mounts = s.mounts) ∨
      ∃ mp, call.entry = some mp ∧ linkMountPoint s.mounts mp = .ok s'.mounts := by
  rw [vfsMount] at h
  obtain ⟨found, hc, h⟩ := bind_eq_ok.mp h
  cases found with
  | none =>
    cases h
    exact .inl ⟨by rw [MountCall.entry, hc], rfl⟩
  | some cpath =>
    by_cases hmem : ¬ call.env.inodeMem ∨ ¬ call.env.mountMem
    · dsimp only at h
      rw [if_pos hmem] at h
      cases h
      exact .inl ⟨by rw [MountCall.entry, hc]; exact if_pos hmem, rfl⟩
    · dsimp only at h
      rw [if_neg hmem] at h
      obtain ⟨mp, hmp, h⟩ := bind_eq_ok.mp h
      obtain ⟨mounts, hl, h⟩ := bind_eq_ok.mp h
      refine .inr ⟨mp, ?_, ?_⟩
      · rw [MountCall.entry, hc]
        dsimp only
        rw [if_neg hmem, hmp]
        rfl
      · rw [mountRoot_mounts h]
        exact hl

end Calls

/-- What the list of mount points is to be after a run: in order, with each entry that was mounted once. -/
structure MountsListed (run : List (VfsState × MountCall)) (mounts : List (MountPoint ℕ)) : Prop where
  ordered : Ordered mounts
  entries : mounts.Perm (run.filterMap fun step => step.2.entry)

/-- The list of mount points is as `traverse` assumes iff every earlier call of `vfs_mount` met the condition. -/
theorem mountsListed_iff {run : List (VfsState × MountCall)} {s : VfsState} (h : mountCalls.Trace run s) :
    MountsListed run s.mounts ↔ ∀ step ∈ run, ∀ mp, step.2.entry = some mp → KeepsOrder step.1.mounts mp := by
  have hruns : s.mounts.Perm (run.filterMap fun step => step.2.entry) ∧
      (Ordered s.mounts ↔ ∀ step ∈ run, ∀ mp, step.2.entry = some mp → KeepsOrder step.1.mounts mp) := by
    induction h with
    | init hi =>
      rw [show _ = _ from hi]
      exact ⟨.nil, by simp [Ordered]⟩
    | @step run s s' call ht hstep ih =>
      obtain ⟨rc, hcall⟩ := hstep
      rw [List.filterMap_append, List.forall_mem_append]
      rcases vfsMount_entry hcall with ⟨he, hm⟩ | ⟨mp, he, hl⟩
      · rw [hm]
        refine ⟨by simpa [he] using ih.1, ?_⟩
        rw [ih.2]
        simp [he]
      · refine ⟨(linkMountPoint_perm hl).trans ?_, ?_⟩
        · simpa [he] using ih.1.append_right [mp]
        · rw [linkMountPoint_ordered hl, ih.2]
          simp [he]
  exact ⟨fun hm => hruns.2.mp hm.ordered, fun hc => ⟨hruns.2.mpr hc, hruns.1⟩⟩

section Examples

def bareVfs : VfsState where
  inodes _ := ⟨0, .directory, 0, 0, false⟩
  nextInode := 0
  filesystems _ := ⟨[], 0⟩
  mounts := []
  custodies := []
  roots := []
  returned := []

def mountEnv : MountEnv := ⟨⟨true, 0, true⟩, fun _ => true, true, ⟨0, .directory, 0, 0, false⟩⟩

/-- The mounts of `main.cpp`: `/`, then `/dev`. -/
theorem mountsListed_boot : ∃ run s, mountCalls.Trace run s ∧ run.length = 2 ∧ MountsListed run s.mounts := by
  have h : ∃ s₁ s₂, vfsMount bareVfs mountEnv [slash] 0 = .ok (0, s₁) ∧
      vfsMount s₁ mountEnv devPath 1 = .ok (0, s₂) ∧ s₁.mounts.map MountPoint.pathSkip = [1] :=
    ⟨_, _, rfl, rfl, rfl⟩
  obtain ⟨s₁, s₂, h₁, h₂, hskips⟩ := h
  have hrun : mountCalls.Trace ([(bareVfs, ⟨mountEnv, [slash], 0⟩)] ++ [(s₁, ⟨mountEnv, devPath, 1⟩)]) s₂ :=
    .step (@TransitionSystem.Trace.step _ _ _ [] _ _ _ (.init (s := bareVfs) rfl) ⟨0, h₁⟩) ⟨0, h₂⟩
  refine ⟨_, s₂, hrun, rfl, (mountsListed_iff hrun).mpr fun step hstep mp _ => .inr fun m hm => ?_⟩
  rcases (by simpa using hstep : step = _ ∨ step = _) with rfl | rfl
  · cases hm
  · have hmap := List.mem_map_of_mem (f := MountPoint.pathSkip) hm
    rw [hskips, List.mem_singleton] at hmap
    exact hmap ▸ mp.pathSkip_pos

/-- `/a`, then `/`. -/
theorem mountsListed_rootLast : ∃ run s, mountCalls.Trace run s ∧ ¬ MountsListed run s.mounts := by
  have h : ∃ s, (vfsMount bareVfs mountEnv [slash, 0x61] 0 >>= fun r => vfsMount r.2 mountEnv [slash] 1) = .ok (0, s) ∧
      s.mounts.map MountPoint.pathSkip = [1, 3] := ⟨_, rfl, rfl⟩
  obtain ⟨s, hrun, hskips⟩ := h
  obtain ⟨⟨rc, s₁⟩, h₁, h₂⟩ := bind_eq_ok.mp hrun
  refine ⟨_, s, .step (a := ⟨mountEnv, [slash], 1⟩)
    (.step (a := ⟨mountEnv, [slash, 0x61], 0⟩) (.init (s := bareVfs) rfl) ⟨rc, h₁⟩)
    ⟨0, h₂⟩, fun hl => ?_⟩
  have ho := hl.ordered
  rw [Ordered, ← List.pairwise_map (f := MountPoint.pathSkip) (R := fun m m' => m' ≤ m), hskips] at ho
  exact absurd ho (by decide)

end Examples

end Pi0Os.Vfs
