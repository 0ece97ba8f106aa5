import Pi0Os.Library.TransitionSystem
import Pi0Os.Vfs.InodeReferences
import Pi0Os.Vfs.Pipefs

/-! Pipes over every run of `vfs_create_pipe` and of reads and writes on their ends. -/

namespace Pi0Os.Vfs

open Kernel Library VfsState Byte

/-- `pipefs` is mounted where `/pipe/new` leads, with its root directory open, and no identifier
from `nextPipeId` on has been given to an inode. -/
structure PipefsAt (s : VfsState) (fs root nextPipeId : ℕ) : Prop where
  resolves : ∃ mp rest, mountOf (fun _ => true) s.mounts pipeNew = .ok (.ok (mp, rest)) ∧ mp.fs = fs ∧
    components rest = [newName]
  rooted : icacheLookup (s.filesystems fs).icache (s.filesystems fs).root = some root
  root_lt : root < s.nextInode
  type : (s.inodes root).type = .directory
  filesystem : (s.inodes root).filesystem = fs
  refcount : 0 < (s.inodes root).refcount
  ids : ∀ entry ∈ (s.filesystems fs).icache, entry.1 < nextPipeId

/-- What opening a pipe leaves alone: the inodes below `base` other than the root of `pipefs`. -/
structure PipeFrame (root base : ℕ) (s s' : VfsState) : Prop where
  next : s.nextInode ≤ s'.nextInode
  others : ∀ b, b < base → b ≠ root → s'.inodes b = s.inodes b
  custodies : s'.custodies = s.custodies

section Frame

variable {s s' s'' : VfsState} {fs root base nextPipeId n a : ℕ}

lemma PipeFrame.refl (root base : ℕ) (s : VfsState) : PipeFrame root base s s :=
  ⟨le_refl _, fun _ _ _ => rfl, rfl⟩

lemma PipeFrame.trans (h : PipeFrame root base s s') (h' : PipeFrame root base s' s'') : PipeFrame root base s s'' where
  next := h.next.trans h'.next
  others b hb hr := (h'.others b hb hr).trans (h.others b hb hr)
  custodies := h'.custodies.trans h.custodies

lemma frame_setInode (inode : Inode) (ha : a = root ∨ base ≤ a) : PipeFrame root base s (s.setInode a inode) where
  next := le_refl _
  others b hb hr := by
    refine setInode_of_ne s ?_ inode
    rcases ha with rfl | ha
    · exact hr
    · exact (hb.trans_le ha).ne
  custodies := rfl

lemma frame_newInode (temp : Inode) (hb : base ≤ s.nextInode) : PipeFrame root base s (s.newInode temp) where
  next := Nat.le_succ _
  others _ hlt _ := newInode_of_ne s (hlt.trans_le hb).ne temp
  custodies := rfl

lemma PipefsAt.mono (h : PipefsAt s fs root nextPipeId) (hn : nextPipeId ≤ n) : PipefsAt s fs root n :=
  { h with ids := fun entry he => (h.ids entry he).trans_le hn }

lemma PipefsAt.uncached (h : PipefsAt s fs root nextPipeId) :
    icacheLookup (s.filesystems fs).icache nextPipeId = none := by
  rw [icacheLookup, Option.map_eq_none_iff, List.find?_eq_none]
  intro entry he
  simpa using (h.ids entry he).ne

lemma PipefsAt.setInode (h : PipefsAt s fs root nextPipeId) {inode : Inode}
    (ha : a = root → inode.type = .directory ∧ inode.filesystem = fs ∧ 0 < inode.refcount) :
    PipefsAt (s.setInode a inode) fs root nextPipeId := by
  by_cases har : a = root
  · subst har
    obtain ⟨ht, hf, hr⟩ := ha rfl
    exact { h with
      type := by rwa [setInode_self]
      filesystem := by rwa [setInode_self]
      refcount := by rwa [setInode_self] }
  · have hroot : (s.setInode a inode).inodes root = s.inodes root := setInode_of_ne s (Ne.symm har) _
    exact { h with
      type := by rw [hroot]; exact h.type
      filesystem := by rw [hroot]; exact h.filesystem
      refcount := by rw [hroot]; exact h.refcount }

lemma PipefsAt.newInode (h : PipefsAt s fs root nextPipeId) (temp : Inode) :
    PipefsAt (s.newInode temp) fs root nextPipeId := by
  have hroot : (s.newInode temp).inodes root = s.inodes root := newInode_of_ne s h.root_lt.ne temp
  exact { h with
    root_lt := Nat.lt_succ_of_lt h.root_lt
    type := by rw [hroot]; exact h.type
    filesystem := by rw [hroot]; exact h.filesystem
    refcount := by rw [hroot]; exact h.refcount }

lemma PipefsAt.addEntry (h : PipefsAt s fs root nextPipeId) (a : ℕ) :
    PipefsAt (s.addEntry fs nextPipeId a) fs root (nextPipeId + 1) := by
  refine { h with rooted := ?_, ids := ?_ }
  · have hne : nextPipeId ≠ (s.filesystems fs).root := (h.ids _ (icacheLookup_mem h.rooted)).ne'
    simp only [VfsState.addEntry, Function.update_self]
    rw [icacheLookup, List.find?_cons_of_neg (by simpa using hne)]
    exact h.rooted
  · intro entry he
    simp only [VfsState.addEntry, Function.update_self] at he
    rcases List.mem_cons.mp he with rfl | he
    · exact Nat.lt_succ_self _
    · exact Nat.lt_succ_of_lt (h.ids entry he)

lemma PipefsAt.openRoot (h : PipefsAt s fs root nextPipeId) (base : ℕ) :
    ∃ s', openInode s root 0 = (0, s') ∧ PipefsAt s' fs root nextPipeId ∧ PipeFrame root base s s' ∧
      s'.nextInode = s.nextInode :=
  ⟨_, if_pos h.refcount, h.setInode fun _ => ⟨h.type, h.filesystem, Nat.succ_pos _⟩,
    frame_setInode _ (Or.inl rfl), rfl⟩

lemma PipefsAt.closeInode (h : PipefsAt s fs root nextPipeId) (base : ℕ) (ha : a = root ∨ base ≤ a)
    (hpos : 0 < (s.inodes a).refcount) :
    ∃ s', closeInode s (some a) = .ok s' ∧ PipefsAt s' fs root nextPipeId ∧ PipeFrame root base s s' ∧
      ∀ b, b ≠ a → s'.inodes b = s.inodes b := by
  simp only [Vfs.closeInode, kassert_of hpos, ok_bind, pure_eq_ok]
  split
  · rename_i hmore
    refine ⟨_, rfl, h.setInode ?_, frame_setInode _ ha, fun b hb => setInode_of_ne s hb _⟩
    rintro rfl
    exact ⟨h.type, h.filesystem, Nat.sub_pos_of_lt hmore⟩
  · refine ⟨_, rfl, h.setInode ?_, frame_setInode _ ha, fun b hb => setInode_of_ne s hb _⟩
    rintro rfl
    exact ⟨h.type, h.filesystem, hpos⟩

end Frame

section Open

variable {s : VfsState} {fs root base nextPipeId a : ℕ}

/-- The new inode of a pipe, opened and cached at the address `a`. -/
def IsPipe (s : VfsState) (a : ℕ) : Prop :=
  a < s.nextInode ∧ (s.inodes a).type = .pipe ∧ (s.inodes a).live ∧ 0 < (s.inodes a).refcount

lemma cacheNewInode_pipe (h : PipefsAt s fs root nextPipeId) (hb : base ≤ s.nextInode) (env : NewInodeEnv)
    (temp : Inode) (ht : temp.type = .pipe) (hid : temp.identifier = nextPipeId) :
    ∃ r s', cacheNewInode s env fs temp = .ok (r, s') ∧ PipefsAt s' fs root (nextPipeId + 1) ∧
      PipeFrame root base s s' ∧ ((∃ rc, r = .error rc) ∨ r = .ok s.nextInode ∧ IsPipe s' s.nextInode) := by
  subst hid
  obtain ⟨inodeMem, openRc, entryMem⟩ := env
  have hnew := h.newInode temp
  have hfnew : PipeFrame root base s (s.newInode temp) := frame_newInode temp hb
  have hroot : s.nextInode ≠ root := h.root_lt.ne'
  cases inodeMem with
  | false => exact ⟨.error (-Err.noMem), s, rfl, h.mono (Nat.le_succ _), .refl root base s, Or.inl ⟨_, rfl⟩⟩
  | true =>
    by_cases hrc : openRc = 0
    · subst hrc
      set inode : Inode := { temp with refcount := 1, live := true } with hinode
      have ho : openInode (s.newInode temp) s.nextInode 0 = (0, (s.newInode temp).setInode s.nextInode inode) := by
        simp [openInode, hinode]
      set s₁ := (s.newInode temp).setInode s.nextInode inode with hs₁
      have h₁ : PipefsAt s₁ fs root temp.identifier := hnew.setInode fun he => absurd he hroot
      have hf₁ : PipeFrame root base s s₁ := hfnew.trans (frame_setInode _ (Or.inr hb))
      have hi₁ : s₁.inodes s.nextInode = inode := setInode_self ..
      cases entryMem with
      | true =>
        refine ⟨.ok s.nextInode, s₁.addEntry fs temp.identifier s.nextInode, ?_, h₁.addEntry _,
          ⟨hf₁.next, hf₁.others, hf₁.custodies⟩, Or.inr ⟨rfl, Nat.lt_succ_self _, ?_⟩⟩
        · simp only [cacheNewInode, ho, icacheInsert, kassert_of h₁.uncached]
          rfl
        · change (s₁.inodes s.nextInode).type = _ ∧ (s₁.inodes s.nextInode).live ∧ 0 < (s₁.inodes s.nextInode).refcount
          rw [hi₁]
          exact ⟨ht, rfl, Nat.one_pos⟩
      | false =>
        obtain ⟨s₂, hc, h₂, hf₂, -⟩ := h₁.closeInode base (Or.inr hb) (by rw [hi₁]; exact Nat.one_pos)
        refine ⟨.error (-Err.noMem), s₂, ?_, h₂.mono (Nat.le_succ _), hf₁.trans hf₂, Or.inl ⟨_, rfl⟩⟩
        simp [cacheNewInode, ho, icacheInsert, kassert_of h₁.uncached, hc]
    · have ho : openInode (s.newInode temp) s.nextInode openRc = (openRc, s.newInode temp) := by
        simp [openInode, hrc]
      refine ⟨.error openRc, s.newInode temp, ?_, hnew.mono (Nat.le_succ _), hfnew, Or.inl ⟨_, rfl⟩⟩
      simp [cacheNewInode, ho, hrc]

lemma canonicalize_pipeNew (malloc : ℕ → Bool) :
    ∃ cpath, canonicalizePath malloc pipeNew = .ok (if malloc 11 then some cpath else none) := by
  have hlen : (skipSlashes pipeNew).length + 2 = 11 := rfl
  unfold canonicalizePath
  simp only [hlen]
  cases malloc 11 with
  | false => exact ⟨[], rfl⟩
  | true => exact ⟨_, rfl⟩

lemma mountOf_pipeNew (malloc : ℕ → Bool) (mounts : List (MountPoint ℕ)) :
    mountOf malloc mounts pipeNew =
      if malloc 11 then mountOf (fun _ => true) mounts pipeNew else .ok (.error (-Err.noMem)) := by
  obtain ⟨cpath, hc⟩ := canonicalize_pipeNew malloc
  have ht : canonicalizePath malloc pipeNew =
      if malloc 11 then canonicalizePath (fun _ => true) pipeNew else .ok none := by
    have hlen : (skipSlashes pipeNew).length + 2 = 11 := rfl
    unfold canonicalizePath
    simp only [hlen]
    cases malloc 11 <;> rfl
  rw [mountOf, ht]
  cases malloc 11 <;> rfl

lemma lookupInode_pipe (h : PipefsAt s fs root nextPipeId) (hb : base ≤ s.nextInode) (env : PipeEnv) :
    ∃ r s', lookupInode s ((env.openEnv fs nextPipeId).walk 0) root newName = .ok (r, s') ∧
      PipefsAt s' fs root (nextPipeId + 1) ∧ PipeFrame root base s s' ∧
      ((∃ rc, r = .error rc) ∨ r = .ok s.nextInode ∧ IsPipe s' s.nextInode) := by
  obtain ⟨r, s₁, hn, h₁, hf, hr⟩ := cacheNewInode_pipe h hb ((env.openEnv fs nextPipeId).walk 0).toNewInodeEnv
    ⟨1, .pipe, nextPipeId, fs, false⟩ rfl rfl
  have hans : ((env.openEnv fs nextPipeId).walk 0).answer newName = .ok ⟨1, .pipe, nextPipeId, fs, false⟩ := rfl
  simp only [lookupInode, hans, h.filesystem, h.uncached, hn, ok_bind]
  rcases hr with ⟨rc, rfl⟩ | ⟨rfl, hp⟩
  · exact ⟨.error rc, s₁, rfl, h₁, hf, Or.inl ⟨rc, rfl⟩⟩
  · exact ⟨.ok s.nextInode, s₁.logReturn s.nextInode, rfl, { h₁ with }, ⟨hf.next, hf.others, hf.custodies⟩,
      Or.inr ⟨rfl, hp⟩⟩

lemma traverse_pipe (h : PipefsAt s fs root nextPipeId) (env : PipeEnv) (hm : env.malloc 11) :
    ∃ t, traverse s (env.openEnv fs nextPipeId) pipeNew = .ok t ∧ t.parent = some root ∧
      PipefsAt t.state fs root (nextPipeId + 1) ∧ PipeFrame root s.nextInode s t.state ∧
      ((∃ rc, t.result = .error rc) ∨ t.result = .ok s.nextInode ∧ IsPipe t.state s.nextInode) := by
  obtain ⟨mp, rest, hmount, rfl, hrest⟩ := h.resolves
  obtain ⟨s₁, ho, h₁, hf₁, hnext⟩ := h.openRoot s.nextInode
  obtain ⟨r, s₂, hl, h₂, hf₂, hr⟩ := lookupInode_pipe h₁ hnext.ge env
  have ht : traverse s (env.openEnv mp.fs nextPipeId) pipeNew =
      traverseLoop (env.openEnv mp.fs nextPipeId).walk s₁ none root 0 [newName] := by
    have hmount' : mountOf (env.openEnv mp.fs nextPipeId).malloc s.mounts pipeNew = .ok (.ok (mp, rest)) := by
      rw [mountOf_pipeNew]
      exact (if_pos hm).trans hmount
    have ho' : openInode s root (env.openEnv mp.fs nextPipeId).rootOpenRc = (0, s₁) := ho
    simp only [traverse, hmount', ok_bind, traverseInFs, h.rooted, ho', hrest, ne_eq, not_true_eq_false, if_false]
  rw [ht, traverseLoop, closeInode, ok_bind, if_neg (not_not_intro h₁.type), hl]
  rw [hnext] at hr
  rcases hr with ⟨rc, rfl⟩ | ⟨rfl, hp⟩
  · exact ⟨_, rfl, rfl, h₂, hf₁.trans hf₂, Or.inl ⟨_, rfl⟩⟩
  · exact ⟨_, rfl, rfl, h₂, hf₁.trans hf₂, Or.inr ⟨rfl, hp⟩⟩

lemma vfsOpen_pipe (h : PipefsAt s fs root nextPipeId) (env : PipeEnv) (hm : env.malloc 11) :
    ∃ rc s', vfsOpen s (env.openEnv fs nextPipeId) pipeNew ofCreate = .ok (rc, s') ∧
      PipefsAt s' fs root (nextPipeId + 1) ∧ (∀ b, b < s.nextInode → b ≠ root → s'.inodes b = s.inodes b) ∧
      s.nextInode ≤ s'.nextInode ∧
      (rc < 0 ∧ s'.custodies = s.custodies ∨
        rc = 0 ∧ s'.custodies = s.custodies ++ [⟨s.nextInode, ofCreate, 0⟩] ∧ IsPipe s' s.nextInode) := by
  obtain ⟨t, ht, hparent, h₁, hf₁, hr⟩ := traverse_pipe h env hm
  obtain ⟨s₂, hc₂, h₂, hf₂, hother⟩ := h₁.closeInode s.nextInode (Or.inl rfl) h₁.refcount
  have hf := hf₁.trans hf₂
  have hroot : s.nextInode ≠ root := h.root_lt.ne'
  obtain ⟨result, parent, s₁⟩ := t
  cases hparent
  simp only at h₁ hf₁ hr hc₂ hother
  rcases hr with ⟨rc, rfl⟩ | ⟨rfl, hp⟩
  · refine ⟨-Err.notSup, s₂, ?_, h₂, hf.others, hf.next, Or.inl ⟨by decide, hf.custodies⟩⟩
    have hk : slash ∈ pipeNew := List.mem_cons_self
    simp only [vfsOpen, ht, ok_bind, createMissing]
    rw [if_pos (by decide : ofCreate &&& ofCreate ≠ 0), kassert_of h₁.type, kassert_of hk]
    simp only [ok_bind, createInode, PipeEnv.openEnv, pure_eq_ok, failOpen, hc₂]
    rfl
  · have htype : (s₁.inodes s.nextInode).type ≠ .directory := by rw [hp.2.1]; decide
    by_cases hmem : env.custodyMem
    · refine ⟨0, { s₁.logReturn s.nextInode with custodies := s₁.custodies ++ [⟨s.nextInode, ofCreate, 0⟩] }, ?_,
        { h₁ with }, hf₁.others, hf₁.next, Or.inr ⟨rfl, ?_, hp⟩⟩
      · have hmem' : (env.openEnv fs nextPipeId).custodyMem := hmem
        simp only [vfsOpen, ht, ok_bind, createMissing]
        rw [if_neg fun hd => htype hd.1, if_neg (not_not_intro hmem')]
        rfl
      · change s₁.custodies ++ _ = _
        rw [hf₁.custodies]
    · have hpos : 0 < (s₂.inodes s.nextInode).refcount := by
        rw [hother _ hroot]
        exact hp.2.2.2
      obtain ⟨s₃, hc₃, h₃, hf₃, -⟩ := h₂.closeInode s.nextInode (Or.inr (le_refl _)) hpos
      have hf₄ := hf.trans hf₃
      refine ⟨-Err.noMem, s₃, ?_, h₃, hf₄.others, hf₄.next, Or.inl ⟨by decide, hf₄.custodies⟩⟩
      have hmem' : ¬ (env.openEnv fs nextPipeId).custodyMem := hmem
      simp only [vfsOpen, ht, ok_bind, createMissing]
      rw [if_neg fun hd => htype hd.1, if_pos hmem']
      simp only [failOpen, hc₂, hc₃, ok_bind, pure_eq_ok]

end Open

section Create

variable {s : PipeFS} {root : ℕ}

/-- What one `vfs_create_pipe` does: without a result it leaves the custodies alone, else it adds
the two ends of one new and empty pipe. -/
structure CreatedPipe (s : PipeFS) (root : ℕ) (rc : ℤ) (s' : PipeFS) : Prop where
  pipefs : PipefsAt s'.vfs s'.fs root s'.nextPipeId
  next : s.vfs.nextInode ≤ s'.vfs.nextInode
  inodes : ∀ b, b < s.vfs.nextInode → b ≠ root → s'.vfs.inodes b = s.vfs.inodes b
  data : ∀ b, b < s.vfs.nextInode → s'.data b = s.data b
  ends : rc ≠ 0 ∧ s'.vfs.custodies = s.vfs.custodies ∨
    rc = 0 ∧ s'.vfs.custodies = s.vfs.custodies ++ [⟨s.vfs.nextInode, ofWronly, 0⟩, ⟨s.vfs.nextInode, ofRdonly, 0⟩] ∧
      IsPipe s'.vfs s.vfs.nextInode ∧ (s'.data s.vfs.nextInode).contents = []

lemma openPipe_spec (h : PipefsAt s.vfs s.fs root s.nextPipeId) (env : PipeEnv) :
    ∃ rc s', openPipe s env = .ok (rc, s') ∧ PipefsAt s'.vfs s'.fs root s'.nextPipeId ∧
      s.vfs.nextInode ≤ s'.vfs.nextInode ∧
      (∀ b, b < s.vfs.nextInode → b ≠ root → s'.vfs.inodes b = s.vfs.inodes b) ∧
      s'.data = Function.update s.data s.vfs.nextInode env.ring.clear ∧
      (rc < 0 ∧ s'.vfs.custodies = s.vfs.custodies ∨
        rc = 0 ∧ s'.vfs.custodies = s.vfs.custodies ++ [⟨s.vfs.nextInode, ofCreate, 0⟩] ∧
          IsPipe s'.vfs s.vfs.nextInode) := by
  obtain ⟨cpath, hc⟩ := canonicalize_pipeNew env.malloc
  by_cases hm : env.malloc 11
  · obtain ⟨rc, vfs, ho, h', hinodes, hnext, hends⟩ := vfsOpen_pipe h env hm
    refine ⟨rc, ⟨vfs, s.fs, s.nextPipeId + 1, Function.update s.data s.vfs.nextInode env.ring.clear⟩, ?_,
      h', hnext, hinodes, rfl, hends⟩
    simp only [openPipe, hc, ok_bind, ho, pure_eq_ok, hm, if_true, Option.isSome_some]
  · have ho : vfsOpen s.vfs (env.openEnv s.fs s.nextPipeId) pipeNew ofCreate = .ok (-Err.noMem, s.vfs) := by
      have hmount : mountOf (env.openEnv s.fs s.nextPipeId).malloc s.vfs.mounts pipeNew = .ok
        (.error (-Err.noMem)) := by
        rw [mountOf_pipeNew]
        exact if_neg hm
      simp only [vfsOpen, traverse, hmount]
      rfl
    refine ⟨-Err.noMem, { s with data := Function.update s.data s.vfs.nextInode env.ring.clear }, ?_, h, le_refl _,
      fun _ _ _ => rfl, rfl, Or.inl ⟨by decide, rfl⟩⟩
    simp only [openPipe, hc, ok_bind, ho, pure_eq_ok, hm]
    rfl

lemma vfsCreatePipe_spec (h : PipefsAt s.vfs s.fs root s.nextPipeId) (env : PipeEnv) :
    ∃ rc s', vfsCreatePipe s env = .ok (rc, s') ∧ CreatedPipe s root rc s' := by
  obtain ⟨rc, s₁, ho, h₁, hnext, hinodes, hdata, hends⟩ := openPipe_spec h env
  have hold : ∀ b, b < s.vfs.nextInode → s₁.data b = s.data b := by
    intro b hb
    rw [hdata, Function.update_of_ne hb.ne]
  rcases hends with ⟨hrc, hcust⟩ | ⟨rfl, hcust, hp⟩
  · refine ⟨rc, s₁, ?_, h₁, hnext, hinodes, hold, Or.inl ⟨hrc.ne, hcust⟩⟩
    simp only [vfsCreatePipe, ho, ok_bind, if_pos hrc.ne, pure_eq_ok]
  · set a := s.vfs.nextInode with ha
    have hroot : a ≠ root := h.root_lt.ne'
    have hlast : s₁.vfs.custodies.getLast? = some ⟨a, ofCreate, 0⟩ := by rw [hcust, List.getLast?_concat]
    simp only [vfsCreatePipe, ho, ok_bind, ne_eq, not_true_eq_false, if_false, hlast]
    by_cases hmem : env.duplicateMem
    · rw [if_neg (not_not_intro hmem)]
      refine ⟨0, { s₁ with vfs :=
          { s₁.vfs.setInode a { s₁.vfs.inodes a with refcount := (s₁.vfs.inodes a).refcount + 1 } with
            custodies := s₁.vfs.custodies.dropLast ++ [⟨a, ofWronly, 0⟩, ⟨a, ofRdonly, 0⟩] } },
        rfl, ?_, hnext, ?_, hold, Or.inr ⟨rfl, ?_, ⟨hp.1, ?_⟩, ?_⟩⟩
      · exact { h₁.setInode (fun he => absurd he hroot) with }
      · intro b hb hr
        rw [← hinodes b hb hr]
        exact setInode_of_ne s₁.vfs hb.ne _
      · change s₁.vfs.custodies.dropLast ++ _ = _
        rw [hcust, List.dropLast_concat]
      · change (((s₁.vfs.setInode a _).inodes a).type = _ ∧ ((s₁.vfs.setInode a _).inodes a).live ∧
          0 < ((s₁.vfs.setInode a _).inodes a).refcount)
        rw [setInode_self]
        exact ⟨hp.2.1, hp.2.2.1, Nat.succ_pos _⟩
      · change (s₁.data a).contents = []
        rw [hdata, Function.update_self, RingBuffer.contents_clear]
    · obtain ⟨s₂, hc, h₂, hf₂, -⟩ := h₁.closeInode a (Or.inr (le_refl _)) hp.2.2.2
      rw [if_pos hmem, vfsClose, hc]
      refine ⟨-Err.noMem,
        { s₁ with vfs := { s₂ with custodies := s₂.custodies.eraseIdx (s₁.vfs.custodies.length - 1) } },
        rfl, { h₂ with }, hnext.trans hf₂.next, ?_, hold, Or.inl ⟨by decide, ?_⟩⟩
      · exact fun b hb hr => (hf₂.others b hb hr).trans (hinodes b hb hr)
      · change s₂.custodies.eraseIdx (s₁.vfs.custodies.length - 1) = _
        rw [hf₂.custodies, hcust, List.length_append, List.length_singleton, Nat.add_sub_cancel,
          List.eraseIdx_append_of_length_le (le_refl _), Nat.sub_self]
        exact List.append_nil _

end Create

/-- The pipes with the bytes that the writes on each have accepted and the reads have returned, by
the address of its inode. -/
structure PipeTraffic where
  fs : PipeFS
  accepted : ℕ → List UInt8
  returned : ℕ → List UInt8

/-- Reads and writes name the custody and have come through the loops in which they wait. -/
inductive PipeCall where
  | create (env : PipeEnv)
  | read (i size : ℕ)
  | write (i : ℕ) (buffer : List UInt8)

/-- The `i`-th open custody is an end of a pipe. -/
def PipeEnd (s : PipeFS) (i : ℕ) (c : FileCustody) : Prop :=
  s.vfs.custodies[i]? = some c ∧ (s.vfs.inodes c.inode).type = .pipe

inductive PipeStep : PipeTraffic → PipeCall → PipeTraffic → Prop
  | create {s env rc fs'} : vfsCreatePipe s.fs env = .ok (rc, fs') → PipeStep s (.create env) { s with fs := fs' }
  | read {s i size c rc out c' fs'} : PipeEnd s.fs i c →
      vfsRead (pipeOps c.inode) s.fs c size = .ok (some (rc, out, c', fs')) →
      PipeStep s (.read i size) { s with
        fs := fs'.setCustody i c'
        returned := Function.update s.returned c.inode (s.returned c.inode ++ out.take rc.toNat) }
  | write {s i buffer c rc c' fs'} : PipeEnd s.fs i c →
      vfsWrite (pipeOps c.inode) s.fs c buffer = .ok (some (rc, c', fs')) →
      PipeStep s (.write i buffer) { s with
        fs := fs'.setCustody i c'
        accepted := Function.update s.accepted c.inode (s.accepted c.inode ++ buffer.take rc.toNat) }

/-- `pipefs` has been mounted and no pipe has been made. -/
def pipeTraffic : TransitionSystem PipeTraffic PipeCall where
  Init s := (∃ root, PipefsAt s.fs.vfs s.fs.fs root s.fs.nextPipeId) ∧
    (∀ c ∈ s.fs.vfs.custodies, c.inode < s.fs.vfs.nextInode ∧ (s.fs.vfs.inodes c.inode).type ≠ .pipe) ∧
    s.accepted = (fun _ => []) ∧ s.returned = fun _ => []
  Step := PipeStep

/-- The inode that a read or a write is about. -/
def PipeCall.pipe (s : PipeFS) : PipeCall → Option ℕ
  | .create _ => none
  | .read i _ => s.vfs.custodies[i]?.map FileCustody.inode
  | .write i _ => s.vfs.custodies[i]?.map FileCustody.inode

def NewPipe (s s' : PipeFS) : Prop :=
  ∃ a, s'.vfs.custodies = s.vfs.custodies ++ [⟨a, ofWronly, 0⟩, ⟨a, ofRdonly, 0⟩] ∧
    (∀ c ∈ s.vfs.custodies, c.inode ≠ a) ∧ (s'.vfs.inodes a).type = .pipe ∧ (s'.data a).contents = []

structure PipesIndependent (s : PipeTraffic) : Prop where
  lossless : ∀ i c, PipeEnd s.fs i c →
    s.returned c.inode ++ (s.fs.data c.inode).contents = s.accepted c.inode ∧ (s.fs.data c.inode).contents.length ≤ 4096
  apart : ∀ call s', PipeStep s call s' → ∀ i c, PipeEnd s.fs i c → call.pipe s.fs ≠ some c.inode →
    s'.fs.data c.inode = s.fs.data c.inode
  creates : ∀ env, ∃ rc fs', vfsCreatePipe s.fs env = .ok (rc, fs') ∧
    (rc ≠ 0 ∧ fs'.vfs.custodies = s.fs.vfs.custodies ∨ rc = 0 ∧ NewPipe s.fs fs')
  runs : ∀ i c, PipeEnd s.fs i c → (∀ size, ∃ r, vfsRead (pipeOps c.inode) s.fs c size = .ok r) ∧
    ∀ buffer, ∃ r, vfsWrite (pipeOps c.inode) s.fs c buffer = .ok r

structure PipeInv (s : PipeTraffic) : Prop where
  pipefs : ∃ root, PipefsAt s.fs.vfs s.fs.fs root s.fs.nextPipeId
  custodies : ∀ c ∈ s.fs.vfs.custodies, c.inode < s.fs.vfs.nextInode ∧
    ((s.fs.vfs.inodes c.inode).type = .pipe → (s.fs.vfs.inodes c.inode).live ∧
      s.returned c.inode ++ (s.fs.data c.inode).contents = s.accepted c.inode)
  fresh : ∀ a, s.fs.vfs.nextInode ≤ a → s.accepted a = [] ∧ s.returned a = []

section Runs

variable {s s' : PipeTraffic} {i : ℕ} {c : FileCustody}

lemma PipeEnd.mem (h : PipeEnd s.fs i c) : c ∈ s.fs.vfs.custodies := List.mem_of_getElem? h.1

lemma PipeInv.create (h : PipeInv s) {env : PipeEnv} {rc : ℤ} {fs' : PipeFS}
    (hc : vfsCreatePipe s.fs env = .ok (rc, fs')) : PipeInv { s with fs := fs' } := by
  obtain ⟨root, hroot⟩ := h.pipefs
  obtain ⟨rc', s₁, hc', hnew⟩ := vfsCreatePipe_spec hroot env
  rw [hc] at hc'
  cases hc'
  have hold : ∀ c ∈ s.fs.vfs.custodies, c.inode < fs'.vfs.nextInode ∧
      ((fs'.vfs.inodes c.inode).type = .pipe → (fs'.vfs.inodes c.inode).live ∧
        s.returned c.inode ++ (fs'.data c.inode).contents = s.accepted c.inode) := by
    intro c hmem
    obtain ⟨hlt, hp⟩ := h.custodies c hmem
    refine ⟨hlt.trans_le hnew.next, fun ht => ?_⟩
    -- the root changes its reference count, and it is no pipe
    have hne : c.inode ≠ root := by
      intro he
      rw [he, hnew.pipefs.type] at ht
      cases ht
    rw [hnew.inodes _ hlt hne] at ht ⊢
    rw [hnew.data _ hlt]
    exact hp ht
  refine ⟨⟨root, hnew.pipefs⟩, ?_, fun a ha => h.fresh a (hnew.next.trans ha)⟩
  intro c hmem
  rcases hnew.ends with ⟨-, hcust⟩ | ⟨-, hcust, hp, hdata⟩
  · exact hold c (hcust ▸ hmem)
  · change c ∈ fs'.vfs.custodies at hmem
    rw [hcust, List.mem_append] at hmem
    rcases hmem with hmem | hmem
    · exact hold c hmem
    · have hinode : c.inode = s.fs.vfs.nextInode := by
        simp only [List.mem_cons, List.not_mem_nil, or_false] at hmem
        rcases hmem with rfl | rfl <;> rfl
      obtain ⟨ha, hr⟩ := h.fresh _ (le_refl _)
      rw [hinode]
      exact ⟨hp.1, fun _ => ⟨hp.2.2.1, by rw [ha, hr, hdata]; rfl⟩⟩

lemma PipeInv.transfer (h : PipeInv s) (he : PipeEnd s.fs i c) {c' : FileCustody} (hc' : c'.inode = c.inode)
    {b : RingBuffer 4096 UInt8} (acc ret : List UInt8) (hkept : ret ++ b.contents = acc) :
    PipeInv ⟨({ s.fs with data := Function.update s.fs.data c.inode b } : PipeFS).setCustody i c',
      Function.update s.accepted c.inode acc, Function.update s.returned c.inode ret⟩ := by
  obtain ⟨root, hroot⟩ := h.pipefs
  refine ⟨⟨root, { hroot with }⟩, ?_, ?_⟩
  · have hmem' : ∀ d ∈ s.fs.vfs.custodies, d.inode < s.fs.vfs.nextInode ∧
        ((s.fs.vfs.inodes d.inode).type = .pipe → (s.fs.vfs.inodes d.inode).live ∧
          Function.update s.returned c.inode ret d.inode ++
            (Function.update s.fs.data c.inode b d.inode).contents =
          Function.update s.accepted c.inode acc d.inode) := by
      intro d hd
      obtain ⟨hlt, hp⟩ := h.custodies d hd
      refine ⟨hlt, fun ht => ⟨(hp ht).1, ?_⟩⟩
      by_cases hdc : d.inode = c.inode
      · rw [hdc, Function.update_self, Function.update_self, Function.update_self]
        exact hkept
      · rw [Function.update_of_ne hdc, Function.update_of_ne hdc, Function.update_of_ne hdc]
        exact (hp ht).2
    intro d hd
    rcases List.mem_or_eq_of_mem_set hd with hd | rfl
    · exact hmem' d hd
    · rw [hc']
      exact hmem' c he.mem
  · intro a ha
    have hne : a ≠ c.inode := ((h.custodies c he.mem).1.trans_le ha).ne'
    change Function.update s.accepted c.inode acc a = [] ∧ Function.update s.returned c.inode ret a = []
    rw [Function.update_of_ne hne, Function.update_of_ne hne]
    exact h.fresh a ha

lemma PipeInv.read (h : PipeInv s) (he : PipeEnd s.fs i c) {size : ℕ} {rc : ℤ} {out : List UInt8}
    {c' : FileCustody} {fs' : PipeFS} (hr : vfsRead (pipeOps c.inode) s.fs c size = .ok (some (rc, out, c', fs'))) :
    PipeInv { s with
      fs := fs'.setCustody i c'
      returned := Function.update s.returned c.inode (s.returned c.inode ++ out.take rc.toNat) } := by
  have hkept := ((h.custodies c he.mem).2 he.2).2
  have hinode := vfsRead_inode hr
  rcases vfsRead_some hr with ⟨rfl, rfl, rfl⟩ | ⟨rc', hread, rfl⟩
  · have ht := h.transfer he hinode _ _ hkept
    rw [Function.update_eq_self, Function.update_eq_self] at ht
    rw [List.take_nil, List.append_nil, Function.update_eq_self]
    rwa [Function.update_eq_self] at ht
  · obtain ⟨rfl, hlen, b, rfl, hout⟩ := pipeRead_spec hread
    rw [ssize_of_lt (by omega), Int.toNat_natCast, List.take_length]
    have ht := h.transfer he hinode (b := b) (s.accepted c.inode) (s.returned c.inode ++ out)
      (by rw [List.append_assoc, hout, hkept])
    rwa [Function.update_eq_self] at ht

lemma PipeInv.write (h : PipeInv s) (he : PipeEnd s.fs i c) {buffer : List UInt8} {rc : ℤ}
    {c' : FileCustody} {fs' : PipeFS} (hw : vfsWrite (pipeOps c.inode) s.fs c buffer = .ok (some (rc, c', fs'))) :
    PipeInv { s with
      fs := fs'.setCustody i c'
      accepted := Function.update s.accepted c.inode (s.accepted c.inode ++ buffer.take rc.toNat) } := by
  have hkept := ((h.custodies c he.mem).2 he.2).2
  have hinode := vfsWrite_inode hw
  rcases vfsWrite_some hw with ⟨-, rfl, rfl⟩ | ⟨-, rc', hwrite, rfl⟩
  · have ht := h.transfer he hinode _ _ hkept
    rw [Function.update_eq_self, Function.update_eq_self] at ht
    rw [show (-Err.perm).toNat = 0 from rfl, List.take_zero, List.append_nil, Function.update_eq_self]
    rwa [Function.update_eq_self] at ht
  · obtain ⟨n, rfl, hn, b, rfl, hb⟩ := pipeWrite_spec hwrite
    rw [ssize_of_lt (by omega), Int.toNat_natCast]
    have ht := h.transfer he hinode (b := b) (s.accepted c.inode ++ buffer.take n) (s.returned c.inode)
      (by rw [hb, ← List.append_assoc, hkept])
    rwa [Function.update_eq_self] at ht

lemma pipeInv_inductive : pipeTraffic.Inductive PipeInv := by
  constructor
  · rintro s ⟨hroot, hcust, hacc, hret⟩
    refine ⟨hroot, fun c hc => ⟨(hcust c hc).1, fun ht => absurd ht (hcust c hc).2⟩, fun a _ => ?_⟩
    rw [hacc, hret]
    exact ⟨rfl, rfl⟩
  · intro s call s' h hs
    cases hs with
    | create hc => exact h.create hc
    | read he hr => exact h.read he hr
    | write he hw => exact h.write he hw

lemma PipeInv.runs (h : PipeInv s) (he : PipeEnd s.fs i c) :
    (∀ size, ∃ r, vfsRead (pipeOps c.inode) s.fs c size = .ok r) ∧
      ∀ buffer, ∃ r, vfsWrite (pipeOps c.inode) s.fs c buffer = .ok r := by
  have hlive := ((h.custodies c he.mem).2 he.2).1
  refine ⟨fun size => ?_, fun buffer => ?_⟩
  · have hr : ∃ r, pipefsFileInodeRead s.fs c.inode size = .ok r := by
      rw [pipefsFileInodeRead, panicIf, if_neg (not_not_intro hlive), ok_bind]
      split <;> exact ⟨_, rfl⟩
    obtain ⟨⟨rc, out, fs'⟩, hr⟩ := hr
    have hr' : (pipeOps c.inode).read s.fs c.offset size = .ok (rc, out, fs') := hr
    rw [vfsRead, hr']
    split
    · exact ⟨_, rfl⟩
    · split <;> exact ⟨_, rfl⟩
  · have hw : ∃ r, pipefsFileInodeWrite s.fs c.inode buffer = .ok r := by
      rw [pipefsFileInodeWrite, panicIf, if_neg (not_not_intro hlive), ok_bind]
      exact ⟨_, rfl⟩
    obtain ⟨⟨rc, fs'⟩, hw⟩ := hw
    have hw' : (pipeOps c.inode).write s.fs c.offset buffer = .ok (rc, fs') := hw
    rw [vfsWrite, hw']
    split
    · exact ⟨_, rfl⟩
    · split <;> exact ⟨_, rfl⟩

lemma PipeInv.creates (h : PipeInv s) (env : PipeEnv) : ∃ rc fs', vfsCreatePipe s.fs env = .ok (rc, fs') ∧
    (rc ≠ 0 ∧ fs'.vfs.custodies = s.fs.vfs.custodies ∨ rc = 0 ∧ NewPipe s.fs fs') := by
  obtain ⟨root, hroot⟩ := h.pipefs
  obtain ⟨rc, fs', hc, hnew⟩ := vfsCreatePipe_spec hroot env
  refine ⟨rc, fs', hc, hnew.ends.imp_right ?_⟩
  rintro ⟨hrc, hcust, hp, hdata⟩
  exact ⟨hrc, _, hcust, fun c hmem => (h.custodies c hmem).1.ne, hp.2.1, hdata⟩

lemma PipeInv.apart (h : PipeInv s) {call : PipeCall} (hs : PipeStep s call s') (he : PipeEnd s.fs i c)
    (hne : call.pipe s.fs ≠ some c.inode) : s'.fs.data c.inode = s.fs.data c.inode := by
  have hother : ∀ {j d}, PipeEnd s.fs j d → s.fs.vfs.custodies[j]?.map FileCustody.inode ≠ some c.inode →
      ∀ b, Function.update s.fs.data d.inode b c.inode = s.fs.data c.inode := by
    intro j d hd hne b
    refine Function.update_of_ne (fun hcd => hne ?_) _ _
    rw [hd.1, hcd]
    rfl
  cases hs with
  | create hc =>
    obtain ⟨root, hroot⟩ := h.pipefs
    obtain ⟨rc', s₁, hc', hnew⟩ := vfsCreatePipe_spec hroot _
    rw [hc] at hc'
    cases hc'
    exact hnew.data _ (h.custodies c he.mem).1
  | read hd hr =>
    rcases vfsRead_some hr with ⟨-, -, rfl⟩ | ⟨rc', hread, -⟩
    · rfl
    · obtain ⟨-, -, b, rfl, -⟩ := pipeRead_spec hread
      exact hother hd hne b
  | write hd hw =>
    rcases vfsWrite_some hw with ⟨-, -, rfl⟩ | ⟨-, rc', hwrite, -⟩
    · rfl
    · obtain ⟨-, -, -, b, rfl, -⟩ := pipeWrite_spec hwrite
      exact hother hd hne b

theorem pipes_independent (h : pipeTraffic.Reachable s) : PipesIndependent s := by
  have hi := h.invariant pipeInv_inductive
  constructor
  · exact fun i c he => ⟨((hi.custodies c he.mem).2 he.2).2, RingBuffer.length_contents_le _⟩
  · exact fun call s' hs i c he hne => hi.apart hs he hne
  · exact hi.creates
  · exact fun i c he => hi.runs he

def noBytes : RingBuffer 4096 UInt8 := RingBuffer.zeroed 4096

def roomyEnv : PipeEnv := ⟨fun _ => true, true, true, true, true, true, noBytes⟩

/-- The state after `vfs_mount("/pipe/", pipefs)`. -/
def pipeBoot : PipeTraffic where
  fs :=
    { vfs :=
        { inodes := fun _ => ⟨1, .directory, 0, 0, true⟩
          nextInode := 1
          filesystems := fun _ => ⟨[(0, 0)], 0⟩
          mounts := [⟨0, [0, 0x70, 0x69, 0x70, 0x65, 0, 0], 6, rfl, Nat.succ_pos _⟩]
          custodies := []
          roots := [0]
          returned := [] }
      fs := 0
      nextPipeId := 1
      data := fun _ => noBytes }
  accepted _ := []
  returned _ := []

lemma pipeBoot_init : pipeTraffic.Init pipeBoot := by
  refine ⟨⟨0, ⟨⟨_, _, rfl, rfl, rfl⟩, rfl, Nat.one_pos, rfl, rfl, Nat.one_pos, ?_⟩⟩, ?_, rfl, rfl⟩
  · intro entry he
    cases List.mem_singleton.mp he
    exact Nat.one_pos
  · exact fun c hc => absurd hc List.not_mem_nil

theorem pipes_independent_created : ∃ s, pipeTraffic.Step pipeBoot (.create roomyEnv) s ∧
    PipeEnd s.fs 0 ⟨1, ofWronly, 0⟩ ∧ PipesIndependent s :=
  ⟨_, .create rfl, ⟨rfl, rfl⟩, pipes_independent (.step (a := .create roomyEnv) (.init pipeBoot_init) (.create rfl))⟩

end Runs

end Pi0Os.Vfs
