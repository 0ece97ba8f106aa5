import Pi0Os.Vfs.PathEncoding

/-! The list of mount points of `vfs.cpp`: the part of `vfs_mount` that links a new mount
point into it and the part of `traverse` that selects one. -/

namespace Pi0Os.Vfs

open Kernel Byte Buffer

/-- `find_first` of an intrusive list: the node found, between those before and after it. -/
def findFirst {α : Type} (filter : α → Except Panic Bool) : List α → Except Panic (Option (List α × α × List α))
  | [] => .ok none
  | a :: l => do
    if ← filter a then return some ([], a, l)
    match ← findFirst filter l with
    | none => return none
    | some (before, b, after) => return some (a :: before, b, after)

structure MountPoint (F : Type) where
  fs : F
  path : Buffer
  pathSkip : ℕ
  strlen_path : canonicalizedPathStrlen path = .ok (pathSkip - 1)
  pathSkip_pos : 0 < pathSkip

variable {F : Type}

lemma MountPoint.startswith (mp : MountPoint F) {cpath : Buffer} {n : ℕ}
    (hlen : canonicalizedPathStrlen cpath = .ok n) :
    canonicalizedPathStartswith cpath mp.path =
      .ok (decide (mp.pathSkip ≤ n + 1 ∧ cpath.take (mp.pathSkip - 1) = mp.path.take (mp.pathSkip - 1))) := by
  have hpos := mp.pathSkip_pos
  rw [canonicalizedPathStartswith, hlen, mp.strlen_path, ok_bind, ok_bind]
  by_cases hl : n < mp.pathSkip - 1
  · rw [if_pos hl, decide_eq_false fun h => absurd h.1 (by omega)]
    rfl
  · have hle : mp.pathSkip ≤ n + 1 := by omega
    rw [if_neg hl]
    simp [hle]

def newMountPoint (fs : F) (cpath : Buffer) : Except Panic (MountPoint F) :=
  match h : canonicalizedPathStrlen cpath with
  | .ok n => .ok ⟨fs, cpath, n + 1, h, n.succ_pos⟩
  | .error e => .error e

def shorterPath (mp m : MountPoint F) : Except Panic Bool := do
  return (← canonicalizedPathStrlen m.path) < (← canonicalizedPathStrlen mp.path)

/-- `append_before` the first mount point with a shorter path, else `add` at the head. -/
def linkMountPoint (mounts : List (MountPoint F)) (mp : MountPoint F) :
    Except Panic (List (MountPoint F)) := do
  match ← findFirst (shorterPath mp) mounts with
  | some (before, after, rest) => return before ++ mp :: after :: rest
  | none => return mp :: mounts

/-- The part of `vfs_mount` that concerns the list: `none` when `malloc` fails. -/
def mountAt (malloc : ℕ → Bool) (mounts : List (MountPoint F)) (path : CString) (fs : F) :
    Except Panic (Option (List (MountPoint F))) := do
  match ← canonicalizePath malloc path with
  | none => return none
  | some cpath => return some (← linkMountPoint mounts (← newMountPoint fs cpath))

/-- The part of `traverse` before `traverse_in_fs`: the mount point found and the path
handed on, or the error code. -/
def mountOf (malloc : ℕ → Bool) (mounts : List (MountPoint F)) (path : CString) :
    Except Panic (Except ℤ (MountPoint F × Buffer)) := do
  match ← canonicalizePath malloc path with
  | none => return .error (-Err.noMem)
  | some cpath =>
    match ← findFirst (fun mp => canonicalizedPathStartswith cpath mp.path) mounts with
    | none => return .error (-Err.noEnt)
    | some (_, mp, _) => return .ok (mp, cpath.drop mp.pathSkip)

/-- Successive calls of `vfs_mount`, with the paths and filesystems in the list. -/
def mountAll (malloc : ℕ → Bool) : List (MountPoint F) → List (CString × F) →
    Except Panic (List (MountPoint F))
  | mounts, [] => .ok mounts
  | mounts, (path, fs) :: reqs => do
    match ← mountAt malloc mounts path fs with
    | none => mountAll malloc mounts reqs
    | some mounts => mountAll malloc mounts reqs

end Pi0Os.Vfs
