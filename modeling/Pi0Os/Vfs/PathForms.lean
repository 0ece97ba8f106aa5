import Pi0Os.Vfs.CreatedFiles
import Pi0Os.Vfs.PathTrace

/-! What `vfs_open` reads of a canonicalized path, absolute or not: the bytes before the two NULs that end it. -/

namespace Pi0Os.Vfs

open Kernel Byte Buffer VfsState

/-- The bytes of the canonicalized path before the two NULs that end it. -/
def canonicalForm (path : CString) : Option Buffer :=
  match canonicalizePath (fun _ => true) path with
  | .ok (some cpath) => (canonicalizedPathStrlen cpath).toOption.map cpath.take
  | _ => none

section Forms

variable {path path' : CString} {cpath form left r cur : Buffer} {cs : List CString} {n : ℕ} {a : UInt8}

lemma layout_of_strlen (h : canonicalizedPathStrlen cpath = .ok n) :
    ∃ form left, cpath = form ++ nul :: nul :: left ∧ form.length = n := by
  induction cpath generalizing n with
  | nil => cases h
  | cons a cpath ih =>
    obtain _ | ⟨b, r⟩ := cpath
    · cases h
    · obtain ⟨rfl, rfl, rfl⟩ | ⟨-, m, hm, rfl⟩ := canonicalizedPathStrlen_cons h
      · exact ⟨[], r, rfl, rfl⟩
      · obtain ⟨form, left, hlayout, hlen⟩ := ih hm
        exact ⟨a :: form, left, by rw [hlayout, List.cons_append], by rw [List.length_cons, hlen]⟩

/-- The block that `canonicalize_path` returns. -/
lemma canonicalForm_spec (hn : nul ∉ path) : ∃ form left,
    canonicalizePath (fun _ => true) path = .ok (some (form ++ nul :: nul :: left)) ∧
      canonicalizedPathStrlen (form ++ nul :: nul :: left) = .ok form.length ∧ canonicalForm path = some form := by
  obtain ⟨left₀, hc⟩ := @canonicalizePath_text path hn (fun _ => true) rfl
  obtain ⟨n, hlen⟩ := strlen_canonicalizePath hc
  obtain ⟨form, left, hlayout, rfl⟩ := layout_of_strlen hlen
  rw [hlayout] at hc hlen
  refine ⟨form, left, hc, hlen, ?_⟩
  rw [canonicalForm, hc]
  simp only [hlen, Except.toOption, Option.map_some, List.take_left]

lemma componentsFrom_left (r left left' cur : Buffer) :
    componentsFrom cur (r ++ nul :: nul :: left) = componentsFrom cur (r ++ nul :: nul :: left') := by
  induction r generalizing cur with
  | nil => simp [componentsFrom]
  | cons c r ih =>
    rw [List.cons_append, List.cons_append, componentsFrom, componentsFrom, ih, ih]

/-- The components behind the mount point do not depend on what the block holds behind the NULs. -/
lemma components_drop_left {k : ℕ} (hk : k ≤ form.length + 1) (left left' : Buffer) :
    components ((form ++ nul :: nul :: left).drop k) = components ((form ++ nul :: nul :: left').drop k) := by
  rcases hk.lt_or_eq with hlt | rfl
  · rw [List.drop_append_of_le_length (by omega), List.drop_append_of_le_length (by omega)]
    exact componentsFrom_left _ _ _ _
  · rw [← List.drop_drop, ← List.drop_drop, List.drop_left, List.drop_left]
    rfl

/-- A walk over a block that is in a component, or at the start of one. -/
lemma componentsFrom_strlen (h : canonicalizedPathStrlen r = .ok n) (hcur : cur ≠ [] ∨ r.head? ≠ some nul) :
    ∃ c cs left, r = c ++ (encode cs ++ nul :: nul :: left) ∧ nul ∉ c ∧ cur ++ c ≠ [] ∧
      (∀ d ∈ cs, d ≠ [] ∧ nul ∉ d) ∧ componentsFrom cur r = (cur ++ c) :: cs := by
  induction r generalizing n cur with
  | nil => cases h
  | cons a r ih =>
    obtain _ | ⟨b, r⟩ := r
    · cases h
    obtain ⟨rfl, rfl, rfl⟩ | ⟨hab, m, hm, rfl⟩ := canonicalizedPathStrlen_cons h
    · have hne : cur ≠ [] := hcur.resolve_right fun hhead => hhead rfl
      exact ⟨[], [], r, rfl, by simp, by simpa using hne, by simp, by simp [componentsFrom, hne]⟩
    by_cases ha : a = nul
    · subst ha
      have hne : cur ≠ [] := hcur.resolve_right fun hhead => hhead rfl
      have hb : b ≠ nul := fun hb => hab ⟨rfl, hb⟩
      obtain ⟨c, cs, left, hr, hc, hcne, hcs, hrun⟩ := @ih [] _ hm (.inr (by simpa using hb))
      refine ⟨[], c :: cs, left, by simp [hr], by simp, by simpa using hne, ?_, ?_⟩
      · rintro d (_ | ⟨_, hd⟩)
        · exact ⟨hcne, hc⟩
        · exact hcs d hd
      · rw [componentsFrom, if_neg (not_not_intro rfl), if_neg hne, hrun]
        simp
    · obtain ⟨c, cs, left, hr, hc, -, hcs, hrun⟩ := @ih (cur ++ [a]) _ hm (.inl (by simp))
      refine ⟨a :: c, cs, left, by simp [hr], by simp [Ne.symm ha, hc], by simp, hcs, ?_⟩
      rw [componentsFrom, if_pos ha, hrun]
      simp

lemma strlen_tail (h : canonicalizedPathStrlen (a :: r) = .ok n) (hr : r.head? ≠ some nul) :
    ∃ m, canonicalizedPathStrlen r = .ok m := by
  obtain _ | ⟨b, r⟩ := r
  · cases h
  · obtain ⟨-, rfl, -⟩ | ⟨-, m, hm, -⟩ := canonicalizedPathStrlen_cons h
    · exact absurd rfl hr
    · exact ⟨m, hm⟩

/-- The walk ends at once exactly when no component follows the first byte. -/
lemma encodedComponents_eq_nil (h : canonicalizedPathStrlen (a :: r) = .ok n) :
    encodedComponents (a :: r) = [] ↔ r.head? = some nul := by
  constructor
  · intro hnil
    by_contra hhead
    obtain ⟨m, hm⟩ := strlen_tail h hhead
    obtain ⟨c, cs, left, -, -, -, -, hrun⟩ := @componentsFrom_strlen r [] m hm (.inr hhead)
    rw [encodedComponents, List.drop_one, List.tail_cons, components, hrun] at hnil
    cases hnil
  · intro hhead
    obtain ⟨r, rfl⟩ := List.head?_eq_some_iff.mp hhead
    rfl

/-- A block with components that starts with a NUL is laid out as an absolute path. -/
lemma encodes_of_nul (h : canonicalizedPathStrlen (nul :: r) = .ok n) (hne : encodedComponents (nul :: r) ≠ []) :
    Encodes (nul :: r) (encodedComponents (nul :: r)) := by
  have hhead : r.head? ≠ some nul := fun hhead => hne ((encodedComponents_eq_nil h).mpr hhead)
  obtain ⟨m, hm⟩ := strlen_tail h hhead
  obtain ⟨c, cs, left, hr, hc, hcne, hcs, hrun⟩ := @componentsFrom_strlen r [] m hm (.inr hhead)
  rw [encodedComponents, List.drop_one, List.tail_cons, components, hrun]
  refine ⟨?_, left, by rw [hr]; simp⟩
  rintro d (_ | ⟨_, hd⟩)
  · exact ⟨hcne, hc⟩
  · exact hcs d hd

lemma canonicalForm_of_encodes (h : canonicalizePath (fun _ => true) path = .ok (some cpath)) (he : Encodes cpath cs) :
    canonicalForm path = some (encode cs) := by
  obtain ⟨left, hlayout⟩ := he.layout
  rw [canonicalForm, h]
  simp only [he.strlen, Except.toOption, Option.map_some]
  rw [hlayout, List.take_left]

end Forms

section Opens

variable {s s' : VfsState} {env : OpenEnv} {path path' : CString} {form left left' : Buffer} {rc : ℤ} {t : Traversal}

lemma startswith_left (mp : MountPoint ℕ) (h : canonicalizedPathStrlen (form ++ nul :: nul :: left) = .ok form.length)
    (h' : canonicalizedPathStrlen (form ++ nul :: nul :: left') = .ok form.length) :
    canonicalizedPathStartswith (form ++ nul :: nul :: left) mp.path =
      canonicalizedPathStartswith (form ++ nul :: nul :: left') mp.path := by
  rw [mp.startswith h, mp.startswith h']
  refine congrArg Except.ok (decide_eq_decide.mpr (and_congr_right fun hle => ?_))
  rw [List.take_append_of_le_length (by omega), List.take_append_of_le_length (by omega)]

lemma traverseInFs_congr {fs : ℕ} {rest rest' : Buffer} (h : components rest = components rest') :
    traverseInFs s env fs rest = traverseInFs s env fs rest' := by rw [traverseInFs, traverseInFs, h]

lemma malloc_eq (hm : ∀ n, env.malloc n = true) : env.malloc = fun _ => true := funext hm

lemma traverse_of_block (hm : ∀ n, env.malloc n = true) {cpath : Buffer}
    (h : canonicalizePath (fun _ => true) path = .ok (some cpath)) :
    traverse s env path =
      (findFirst (fun mp => canonicalizedPathStartswith cpath mp.path) s.mounts >>= fun found =>
        match found with
        | none => .ok ⟨.error (-Err.noEnt), none, s⟩
        | some (_, mp, _) => traverseInFs s env mp.fs (cpath.drop mp.pathSkip)) := by
  rw [traverse, mountOf, malloc_eq hm, h, ok_bind]
  dsimp only
  rw [bind_assoc]
  congr 1
  funext found
  obtain _ | ⟨x, mp, y⟩ := found <;> rfl

/-- Paths that are canonicalized to the same bytes are traversed alike. -/
lemma traverse_sameForm (hm : ∀ n, env.malloc n = true) (hn : nul ∉ path) (hn' : nul ∉ path')
    (h : canonicalForm path = canonicalForm path') : traverse s env path = traverse s env path' := by
  obtain ⟨form, left, hc, hlen, hform⟩ := canonicalForm_spec hn
  obtain ⟨form', left', hc', hlen', hform'⟩ := canonicalForm_spec hn'
  obtain rfl : form = form' := Option.some.inj (hform.symm.trans (h.trans hform'))
  rw [traverse_of_block hm hc, traverse_of_block hm hc', funext fun mp => startswith_left mp hlen hlen']
  rcases findFirst_spec (fun mp _ => mp.startswith hlen') (l := s.mounts) with
    ⟨hnone, -⟩ | ⟨x, mp, y, -, hsome, -, hmp⟩
  · rw [hnone, ok_bind, ok_bind]
  · rw [hsome, ok_bind, ok_bind]
    exact traverseInFs_congr (components_drop_left (of_decide_eq_true hmp).1 left left')

lemma createMissing_zero (path : CString) : createMissing env path 0 t = .ok (t.result, t.state) := by
  unfold createMissing
  cases t.result <;> cases t.parent <;> rfl

lemma vfsOpen_sameForm (hm : ∀ n, env.malloc n = true) (hn : nul ∉ path) (hn' : nul ∉ path')
    (h : canonicalForm path = canonicalForm path') : vfsOpen s env path 0 = vfsOpen s env path' 0 := by
  simp only [vfsOpen, traverse_sameForm hm hn hn' h, createMissing_zero]

/-- A traversal that ends in an error or in a directory opens nothing. -/
lemma vfsOpen_not_opened (ht : traverse s env path = .ok t) (herr : ∀ rc, t.result = .error rc → rc ≠ 0)
    (hdir : ∀ a, t.result = .ok a → (t.state.inodes a).type = .directory)
    (h : vfsOpen s env path 0 = .ok (rc, s')) : rc ≠ 0 := by
  cases hres : t.result with
  | error rc' =>
    rw [vfsOpen_missing ht hres rfl h]
    exact herr rc' hres
  | ok a =>
    simp only [vfsOpen, ht, ok_bind, createMissing_zero, hres] at h
    rw [if_pos ⟨hdir a hres, rfl⟩] at h
    obtain ⟨s₁, -, h⟩ := bind_eq_ok.mp h
    obtain ⟨s₂, -, h⟩ := bind_eq_ok.mp h
    cases h
    decide

end Opens

end Pi0Os.Vfs
