import Pi0Os.Vfs.MountTable
import Pi0Os.Vfs.PathComponents

/-! Which mount point `traverse` selects, and when it is the one with the longest
component prefix of the path. -/

namespace Pi0Os.Vfs

open Kernel Byte Buffer

/-- The component list `canonicalize_path` gives a path. -/
def canonicalComponents (path : CString) : List CString :=
  match canonicalizePath (fun _ => true) path with
  | .ok (some cpath) => encodedComponents cpath
  | _ => []

structure AbsolutePath (path : CString) : Prop where
  absolute : path.head? = some slash
  terminated : nul ∉ path

lemma canonicalizePath_encodes {malloc : ℕ → Bool} {path : CString} (hp : AbsolutePath path)
    (hm : ∀ n, malloc n = true) :
    ∃ cpath, canonicalizePath malloc path = .ok (some cpath) ∧ Encodes cpath (canonicalComponents path) := by
  obtain ⟨cpath, hc, he⟩ := encodes_canonicalizePath hp.absolute hp.terminated (hm _)
  have hmt : malloc = fun _ => true := funext hm
  subst hmt
  refine ⟨cpath, hc, ?_⟩
  rw [canonicalComponents, hc]
  simpa [he.components] using he

section FindFirst

variable {α : Type} {filter : α → Except Panic Bool} {q : α → Bool} {l : List α}

lemma findFirst_spec (hq : ∀ a ∈ l, filter a = .ok (q a)) :
    (findFirst filter l = .ok none ∧ ∀ a ∈ l, q a = false) ∨
    ∃ before a after, l = before ++ a :: after ∧ findFirst filter l = .ok (some (before, a, after)) ∧
      (∀ b ∈ before, q b = false) ∧ q a = true := by
  induction l with
  | nil => exact .inl ⟨rfl, by simp⟩
  | cons a l ih =>
    have ha := hq a List.mem_cons_self
    cases hqa : q a with
    | true => exact .inr ⟨[], a, l, rfl, by simp [findFirst, ha, hqa], by simp, hqa⟩
    | false =>
      rcases ih (fun b hb => hq b (List.mem_cons_of_mem a hb)) with ⟨hf, hn⟩ | ⟨before, b, after, rfl, hf, hn, hb⟩
      · exact .inl ⟨by simp [findFirst, ha, hqa, hf], by simpa [hqa] using hn⟩
      · exact .inr ⟨a :: before, b, after, rfl, by simp [findFirst, ha, hqa, hf], by simpa [hqa] using hn, hb⟩

end FindFirst

variable {F : Type}

/-- A mount point made for a request of `vfs_mount`. -/
structure Serves (mp : MountPoint F) (req : CString × F) : Prop where
  fs : mp.fs = req.2
  encodes : Encodes mp.path (canonicalComponents req.1)
  skip : mp.pathSkip = (encode (canonicalComponents req.1)).length + 1

section Link

variable {malloc : ℕ → Bool} {mounts : List (MountPoint F)} {mp : MountPoint F} {req : CString × F}

lemma newMountPoint_serves {cpath : Buffer} (h : Encodes cpath (canonicalComponents req.1)) :
    ∃ mp : MountPoint F, newMountPoint req.2 cpath = .ok mp ∧ Serves mp req := by
  unfold newMountPoint
  split
  · next n hn =>
    have hl : n = (encode (canonicalComponents req.1)).length := by
      rw [h.strlen] at hn
      exact (Except.ok.inj hn).symm
    exact ⟨_, rfl, rfl, h, by simp [hl]⟩
  · next e hn =>
    rw [h.strlen] at hn
    cases hn

/-- Linking puts the new mount point before the first shorter one, else at the head. -/
lemma linkMountPoint_spec (mounts : List (MountPoint F)) (mp : MountPoint F) :
    (linkMountPoint mounts mp = .ok (mp :: mounts) ∧ ∀ m ∈ mounts, mp.pathSkip ≤ m.pathSkip) ∨
    ∃ before after rest, mounts = before ++ after :: rest ∧
      linkMountPoint mounts mp = .ok (before ++ mp :: after :: rest) ∧
      (∀ m ∈ before, mp.pathSkip ≤ m.pathSkip) ∧ after.pathSkip < mp.pathSkip := by
  have hshort : ∀ m ∈ mounts, shorterPath mp m = .ok (decide (m.pathSkip < mp.pathSkip)) := by
    intro m _
    have hm := m.pathSkip_pos
    have hp := mp.pathSkip_pos
    rw [shorterPath, m.strlen_path, ok_bind, mp.strlen_path, ok_bind, pure_eq_ok]
    congr 2
    exact propext (by omega)
  rcases findFirst_spec hshort with ⟨hf, hn⟩ | ⟨before, after, rest, rfl, hf, hn, ha⟩
  · exact .inl ⟨by simp [linkMountPoint, hf], fun m hm => by simpa using hn m hm⟩
  · exact .inr ⟨before, after, rest, rfl, by simp [linkMountPoint, hf], fun m hm => by simpa using hn m hm,
      by simpa using ha⟩

lemma mountAt_serves (hp : AbsolutePath req.1) (hm : ∀ n, malloc n = true) (mounts : List (MountPoint F)) :
    ∃ mp mounts', Serves mp req ∧ linkMountPoint mounts mp = .ok mounts' ∧
      mountAt malloc mounts req.1 req.2 = .ok (some mounts') ∧ ∀ m ∈ mounts', m = mp ∨ m ∈ mounts := by
  obtain ⟨cpath, hc, he⟩ := canonicalizePath_encodes hp hm
  obtain ⟨mp, hn, hs⟩ := newMountPoint_serves he
  obtain ⟨mounts', hl, hmem⟩ : ∃ mounts', linkMountPoint mounts mp = .ok mounts' ∧
      ∀ m ∈ mounts', m = mp ∨ m ∈ mounts := by
    rcases linkMountPoint_spec mounts mp with ⟨hl, -⟩ | ⟨before, after, rest, rfl, hl, -, -⟩
    · exact ⟨_, hl, by simp⟩
    · exact ⟨_, hl, by simp; tauto⟩
  exact ⟨mp, mounts', hs, hl, by simp [mountAt, hc, hn, hl], hmem⟩

lemma mountAll_append (mounts : List (MountPoint F)) (a b : List (CString × F)) :
    mountAll malloc mounts (a ++ b) = mountAll malloc mounts a >>= fun mounts => mountAll malloc mounts b := by
  induction a generalizing mounts with
  | nil => rfl
  | cons r a ih =>
    simp only [List.cons_append, mountAll, bind_assoc]
    congr 1
    funext o
    cases o <;> exact ih _

end Link

/-- The list after `/` was mounted: what was mounted later stands before it, longest first,
and what was mounted earlier behind it. -/
structure Layered (root : CString × F) (late : List (CString × F)) (mounts : List (MountPoint F)) : Prop where
  shape : ∃ front rmp back, mounts = front ++ rmp :: back ∧ Serves rmp root ∧
    front.Pairwise (fun a b => b.pathSkip ≤ a.pathSkip) ∧ (∀ m ∈ front, ∃ r ∈ late, Serves m r) ∧
    (∀ r ∈ late, ∃ m ∈ front, Serves m r) ∧ ∀ m ∈ back, ∃ r, Serves m r

section Runs

variable {malloc : ℕ → Bool} {mounts : List (MountPoint F)} {root req : CString × F} {late : List (CString × F)}

lemma mountAll_early (hm : ∀ n, malloc n = true) {early : List (CString × F)}
    (mounts : List (MountPoint F)) (he : ∀ r ∈ early, AbsolutePath r.1)
    (hmounts : ∀ m ∈ mounts, ∃ r, Serves m r) :
    ∃ mounts', mountAll malloc mounts early = .ok mounts' ∧ ∀ m ∈ mounts', ∃ r, Serves m r := by
  induction early generalizing mounts with
  | nil => exact ⟨mounts, rfl, hmounts⟩
  | cons r early ih =>
    obtain ⟨mp, mounts', hs, -, hr, hmem⟩ := mountAt_serves (he r List.mem_cons_self) hm mounts
    obtain ⟨mounts'', ha, hb⟩ := ih mounts' (fun r hr => he r (List.mem_cons_of_mem _ hr))
      (fun m hm => (hmem m hm).elim (fun h => ⟨r, h ▸ hs⟩) (hmounts m))
    exact ⟨mounts'', by simp [mountAll, hr, ha], hb⟩

lemma layered_root (hm : ∀ n, malloc n = true) (hp : AbsolutePath root.1) (hr : canonicalComponents root.1 = [])
    (hmounts : ∀ m ∈ mounts, ∃ r, Serves m r) :
    ∃ mounts', mountAt malloc mounts root.1 root.2 = .ok (some mounts') ∧ Layered root [] mounts' := by
  obtain ⟨mp, mounts', hs, hl, ha, -⟩ := mountAt_serves hp hm mounts
  refine ⟨mounts', ha, ?_⟩
  have hskip := hs.skip
  rw [hr, encode_nil] at hskip
  rcases linkMountPoint_spec mounts mp with ⟨hl', -⟩ | ⟨before, after, rest, -, -, -, hlt⟩
  · obtain rfl := Except.ok.inj (hl'.symm.trans hl)
    exact ⟨[], mp, mounts, rfl, hs, .nil, by simp, by simp, hmounts⟩
  · have hpos := after.pathSkip_pos
    simp at hskip
    omega

lemma Layered.mountLate (h : Layered root late mounts) (hm : ∀ n, malloc n = true) (hp : AbsolutePath req.1)
    (hroot : canonicalComponents root.1 = []) (hr : canonicalComponents req.1 ≠ []) :
    ∃ mounts', mountAt malloc mounts req.1 req.2 = .ok (some mounts') ∧ Layered root (req :: late) mounts' := by
  obtain ⟨front, rmp, back, rfl, hrmp, hsorted, hfront, hlate, hback⟩ := h.shape
  obtain ⟨mp, mounts', hs, hl, ha, -⟩ := mountAt_serves hp hm (front ++ rmp :: back)
  refine ⟨mounts', ha, ?_⟩
  have hshort : rmp.pathSkip < mp.pathSkip := by
    obtain ⟨c, cs, hc⟩ := List.exists_cons_of_ne_nil hr
    rw [hrmp.skip, hs.skip, hroot, hc]
    simp
  rcases linkMountPoint_spec (front ++ rmp :: back) mp with ⟨-, hle⟩ | ⟨before, after, rest, he, hl', hge, hlt⟩
  · exact absurd (hle rmp (by simp)) (by omega)
  obtain rfl := Except.ok.inj (hl'.symm.trans hl)
  -- the place found lies in front of `/`, whose path is shorter than the new one
  obtain ⟨tail, rfl, htail⟩ : ∃ tail, front = before ++ tail ∧ tail ++ rmp :: back = after :: rest := by
    rcases List.append_eq_append_iff.mp he with ⟨tail, rfl, ht⟩ | ⟨tail, rfl, ht⟩
    · cases tail with
      | nil => exact ⟨[], by simp, by simpa using ht⟩
      | cons m tail =>
        obtain ⟨rfl, -⟩ := List.cons.inj ht
        exact absurd (hge rmp (by simp)) (by omega)
    · exact ⟨tail, rfl, ht.symm⟩
  refine ⟨before ++ mp :: tail, rmp, back, by simp [htail], hrmp, ?_, ?_, ?_, hback⟩
  · rw [List.pairwise_append] at hsorted ⊢
    refine ⟨hsorted.1, List.pairwise_cons.mpr ⟨fun m hmem => ?_, hsorted.2.1⟩, fun a hab b hb => ?_⟩
    · cases tail with
      | nil => cases hmem
      | cons a tail =>
        obtain ⟨rfl, -⟩ := List.cons.inj htail
        rcases List.mem_cons.mp hmem with rfl | hmem
        · exact hlt.le
        · exact ((List.pairwise_cons.mp hsorted.2.1).1 m hmem).trans hlt.le
    · rcases List.mem_cons.mp hb with rfl | hb
      · exact hge a hab
      · exact hsorted.2.2 a hab b hb
  · intro m hmem
    rcases (by simpa using hmem : m ∈ before ∨ m = mp ∨ m ∈ tail) with hmem | rfl | hmem
    · obtain ⟨r, hr, hs'⟩ := hfront m (List.mem_append_left _ hmem)
      exact ⟨r, List.mem_cons_of_mem _ hr, hs'⟩
    · exact ⟨req, List.mem_cons_self, hs⟩
    · obtain ⟨r, hr, hs'⟩ := hfront m (List.mem_append_right _ hmem)
      exact ⟨r, List.mem_cons_of_mem _ hr, hs'⟩
  · intro r hr
    rcases List.mem_cons.mp hr with rfl | hr
    · exact ⟨mp, by simp, hs⟩
    · obtain ⟨m, hmem, hs'⟩ := hlate r hr
      exact ⟨m, by simp at hmem ⊢; tauto, hs'⟩

lemma Layered.mountAll (h : Layered root late mounts) (hm : ∀ n, malloc n = true)
    (hroot : canonicalComponents root.1 = []) (reqs : List (CString × F))
    (hp : ∀ r ∈ reqs, AbsolutePath r.1 ∧ canonicalComponents r.1 ≠ []) :
    ∃ mounts' late', mountAll malloc mounts reqs = .ok mounts' ∧ Layered root late' mounts' ∧
      ∀ r, r ∈ late' ↔ r ∈ late ∨ r ∈ reqs := by
  induction reqs generalizing mounts late with
  | nil => exact ⟨mounts, late, rfl, h, by simp⟩
  | cons r reqs ih =>
    obtain ⟨hr, hne⟩ := hp r List.mem_cons_self
    obtain ⟨mounts', ha, hl⟩ := h.mountLate hm hr hroot hne
    obtain ⟨mounts'', late', hb, hl', hmem⟩ := ih hl (fun r hr => hp r (List.mem_cons_of_mem _ hr))
    refine ⟨mounts'', late', by simp [Vfs.mountAll, ha, hb], hl', fun r' => ?_⟩
    rw [hmem, List.mem_cons, List.mem_cons]
    tauto

end Runs

/-- `req` is mounted at the longest component prefix of `path`. -/
structure IsLongestMount (reqs : List (CString × F)) (path : CString) (req : CString × F) : Prop where
  mem : req ∈ reqs
  isPrefix : canonicalComponents req.1 <+: canonicalComponents path
  longest : ∀ r ∈ reqs, canonicalComponents r.1 <+: canonicalComponents path →
    (canonicalComponents r.1).length ≤ (canonicalComponents req.1).length

/-- The bytes of the mount path are a prefix of the path's. -/
def BytePrefix (req : CString × F) (path : CString) : Prop :=
  encode (canonicalComponents req.1) <+: encode (canonicalComponents path)

def byteLength (req : CString × F) : ℕ := (encode (canonicalComponents req.1)).length

section Selection

variable {malloc : ℕ → Bool} {mounts : List (MountPoint F)} {root req : CString × F} {late : List (CString × F)}
  {path : CString} {cpath : Buffer}

lemma Serves.startswith {mp : MountPoint F} (h : Serves mp req) (he : Encodes cpath (canonicalComponents path)) :
    canonicalizedPathStartswith cpath mp.path =
      .ok (decide (encode (encodedComponents mp.path) <+: encode (canonicalComponents path))) := by
  rw [he.startswith h.encodes, h.encodes.components]

lemma Serves.bytePrefix {mp : MountPoint F} (h : Serves mp req) :
    encode (encodedComponents mp.path) <+: encode (canonicalComponents path) ↔ BytePrefix req path := by
  rw [h.encodes.components, BytePrefix]

/-- What `find_first` selects: the longest byte prefix among the later mounts, else `/`. -/
lemma Layered.select (h : Layered root late mounts) (hroot : canonicalComponents root.1 = [])
    (he : Encodes cpath (canonicalComponents path)) :
    ∃ x mp y, findFirst (fun mp => canonicalizedPathStartswith cpath mp.path) mounts = .ok (some (x, mp, y)) ∧
      ((∃ r ∈ late, Serves mp r ∧ BytePrefix r path ∧
          ∀ r' ∈ late, BytePrefix r' path → byteLength r' ≤ byteLength r) ∨
        (Serves mp root ∧ ∀ r ∈ late, ¬ BytePrefix r path)) := by
  obtain ⟨front, rmp, back, rfl, hrmp, hsorted, hfront, hlate, hback⟩ := h.shape
  have hserves : ∀ m ∈ front ++ rmp :: back, ∃ r, Serves m r := by
    intro m hm
    rcases (by simpa using hm : m ∈ front ∨ m = rmp ∨ m ∈ back) with hm | rfl | hm
    · exact (hfront m hm).imp (fun _ h => h.2)
    · exact ⟨root, hrmp⟩
    · exact hback m hm
  rcases findFirst_spec (fun m hm => (hserves m hm).choose_spec.startswith he) with
    ⟨-, hn⟩ | ⟨x, mp, y, heq, hf, hn, hmp⟩
  · have hr := hn rmp (by simp)
    rw [decide_eq_false_iff_not, hrmp.bytePrefix, BytePrefix, hroot] at hr
    exact absurd (List.nil_prefix) hr
  refine ⟨x, mp, y, hf, ?_⟩
  have hnot {m : MountPoint F} {r : CString × F} (hm : m ∈ x) (hs : Serves m r) : ¬ BytePrefix r path := by
    rw [← hs.bytePrefix, ← decide_eq_false_iff_not]
    exact hn m hm
  have hroot' : BytePrefix root path := by
    rw [BytePrefix, hroot]
    exact List.nil_prefix
  rcases List.append_eq_append_iff.mp heq with ⟨t, rfl, ht⟩ | ⟨t, rfl, ht⟩
  · cases t with
    | nil =>
      obtain ⟨rfl, -⟩ := List.cons.inj ht
      refine .inr ⟨hrmp, fun r hr => ?_⟩
      obtain ⟨m, hm, hs⟩ := hlate r hr
      exact hnot (List.mem_append_left _ hm) hs
    | cons m t =>
      obtain ⟨rfl, -⟩ := List.cons.inj ht
      exact absurd hroot' (hnot (by simp) hrmp)
  · cases t with
    | nil =>
      obtain ⟨rfl, -⟩ := List.cons.inj ht
      refine .inr ⟨hrmp, fun r hr => ?_⟩
      obtain ⟨m, hm, hs⟩ := hlate r hr
      exact hnot (by simpa using hm) hs
    | cons m t =>
      obtain ⟨rfl, -⟩ := List.cons.inj ht
      obtain ⟨r, hr, hs⟩ := hfront mp (by simp)
      refine .inl ⟨r, hr, hs, hs.bytePrefix.mp (by simpa using hmp), fun r' hr' hp => ?_⟩
      obtain ⟨m, hm, hs'⟩ := hlate r' hr'
      have hle : m.pathSkip ≤ mp.pathSkip := by
        rcases (by simpa using hm : m ∈ x ∨ m = mp ∨ m ∈ t) with hm | rfl | hm
        · exact absurd hp (hnot hm hs')
        · exact le_rfl
        · exact (List.pairwise_cons.mp (List.pairwise_append.mp hsorted).2.1).1 m hm
      have h₁ := hs.skip
      have h₂ := hs'.skip
      rw [byteLength, byteLength]
      omega

end Selection

section Encoding

variable {cs ds : List CString}

lemma encode_mono (h : cs <+: ds) : encode cs <+: encode ds := by
  obtain ⟨es, rfl⟩ := h
  exact ⟨encode es, (encode_append cs es).symm⟩

lemma encode_injective (hc : ∀ c ∈ cs, c ≠ [] ∧ nul ∉ c) (hd : ∀ c ∈ ds, c ≠ [] ∧ nul ∉ c)
    (h : encode cs = encode ds) : cs = ds := by
  rw [← encodedComponents_encode hc [], ← encodedComponents_encode hd [], h]

end Encoding

section Resolution

variable {malloc : ℕ → Bool} {early late : List (CString × F)} {root : CString × F} {path : CString}

/-- The mount table `/` was mounted in: before it `early`, after it `late`, at distinct
component lists. -/
structure Mounted (early : List (CString × F)) (root : CString × F) (late : List (CString × F)) : Prop where
  absolute : ∀ r ∈ early ++ root :: late, AbsolutePath r.1
  distinct : ((early ++ root :: late).map (fun r => canonicalComponents r.1)).Nodup
  root : canonicalComponents root.1 = []

/-- The mount point and path handed to `traverse_in_fs` are the longest component prefix
and the remaining components. -/
def Resolves (reqs : List (CString × F)) (path : CString) (mp : MountPoint F) (rest : Buffer) : Prop :=
  ∃ req, IsLongestMount reqs path req ∧ Serves mp req ∧
    canonicalComponents path = canonicalComponents req.1 ++ components rest

namespace Mounted

variable {r r' : CString × F}

lemma eq_of_components (h : Mounted early root late) (hr : r ∈ early ++ root :: late)
    (hr' : r' ∈ early ++ root :: late) (he : canonicalComponents r.1 = canonicalComponents r'.1) : r = r' :=
  List.inj_on_of_nodup_map h.distinct hr hr' he

lemma late_ne (h : Mounted early root late) (hr : r ∈ late) : canonicalComponents r.1 ≠ [] := by
  have hd := h.distinct
  rw [List.map_append, List.map_cons] at hd
  have hnot := (List.nodup_cons.mp (List.nodup_append.mp hd).2.1).1
  intro he
  exact hnot (by rw [h.root, ← he]; exact List.mem_map_of_mem hr)

lemma valid (h : Mounted early root late) (hr : r ∈ early ++ root :: late) :
    ∀ c ∈ canonicalComponents r.1, c ≠ [] ∧ nul ∉ c := by
  obtain ⟨_, -, he⟩ := canonicalizePath_encodes (h.absolute r hr) (fun _ => Eq.refl true)
  exact he.valid

lemma eq_of_byteLength (h : Mounted early root late) (hr : r ∈ early ++ root :: late)
    (hr' : r' ∈ early ++ root :: late) (hp : BytePrefix r path) (hp' : BytePrefix r' path)
    (hl : byteLength r = byteLength r') : r = r' := by
  have he := (List.prefix_of_prefix_length_le hp hp' hl.le).eq_of_length hl
  exact h.eq_of_components hr hr' (encode_injective (h.valid hr) (h.valid hr') he)

lemma eq_of_serves (h : Mounted early root late) {mp : MountPoint F} (hr : r ∈ early ++ root :: late)
    (hr' : r' ∈ early ++ root :: late) (hs : Serves mp r) (hs' : Serves mp r') : r = r' :=
  h.eq_of_components hr hr' (hs.encodes.components.symm.trans hs'.encodes.components)

lemma mountAll (h : Mounted early root late) (hm : ∀ n, malloc n = true) :
    ∃ mounts late', Vfs.mountAll malloc [] (early ++ root :: late) = .ok mounts ∧
      Layered root late' mounts ∧ ∀ r, r ∈ late' ↔ r ∈ late := by
  obtain ⟨mounts₁, h₁, hs₁⟩ := mountAll_early hm
    ([] : List (MountPoint F)) (fun r hr => h.absolute r (List.mem_append_left _ hr)) (by simp)
  obtain ⟨mounts₂, h₂, hl₂⟩ := layered_root hm (h.absolute root (by simp)) h.root hs₁
  obtain ⟨mounts, late', h₃, hl₃, hmem⟩ := hl₂.mountAll hm h.root late
    (fun r hr => ⟨h.absolute r (by simp [hr]), h.late_ne hr⟩)
  refine ⟨mounts, late', ?_, hl₃, fun r => by simpa using hmem r⟩
  rw [mountAll_append, h₁, ok_bind, Vfs.mountAll, h₂, ok_bind]
  exact h₃

end Mounted

/-- `traverse` hands on the longest component prefix exactly when that is `/` or was mounted
after `/`, and no later mount is a longer byte prefix. -/
theorem mountOf_resolves (h : Mounted early root late) (hm : ∀ n, malloc n = true) (hp : AbsolutePath path) :
    ∃ mounts mp rest, mountAll malloc [] (early ++ root :: late) = .ok mounts ∧
      mountOf malloc mounts path = .ok (.ok (mp, rest)) ∧
      (Resolves (early ++ root :: late) path mp rest ↔
        ∃ req ∈ root :: late, IsLongestMount (early ++ root :: late) path req ∧
          ∀ r ∈ late, BytePrefix r path → byteLength r ≤ byteLength req) := by
  obtain ⟨mounts, late', hall, hlayer, hmem⟩ := h.mountAll hm
  obtain ⟨cpath, hc, he⟩ := canonicalizePath_encodes hp hm
  obtain ⟨x, mp, y, hf, hsel⟩ := hlayer.select h.root he
  refine ⟨mounts, mp, cpath.drop mp.pathSkip, hall, by simp [mountOf, hc, hf], ?_⟩
  have hin {r : CString × F} (hr : r ∈ late) : r ∈ early ++ root :: late := by simp [hr]
  have hresolves {req : CString × F} (hreq : IsLongestMount (early ++ root :: late) path req)
      (hs : Serves mp req) : Resolves (early ++ root :: late) path mp (cpath.drop mp.pathSkip) := by
    refine ⟨req, hreq, hs, ?_⟩
    obtain ⟨ds, hds⟩ := hreq.isPrefix
    rw [← hds] at he
    rw [hs.skip, components_drop he, hds]
  rcases hsel with ⟨r, hr, hs, hbp, hmax⟩ | ⟨hs, hnone⟩
  · rw [hmem] at hr
    constructor
    · rintro ⟨req, hreq, hs', -⟩
      obtain rfl := h.eq_of_serves (hin hr) hreq.mem hs hs'
      exact ⟨r, List.mem_cons_of_mem _ hr, hreq, fun r' hr' hp' => hmax r' ((hmem r').mpr hr') hp'⟩
    · rintro ⟨req, hmemreq, hreq, hbound⟩
      have hle := hbound r hr hbp
      rcases List.mem_cons.mp hmemreq with rfl | hlate
      · rw [byteLength, byteLength, h.root, encode_nil, List.length_nil, Nat.le_zero, List.length_eq_zero_iff] at hle
        exact absurd (encode_injective (h.valid (hin hr)) (List.forall_mem_nil _) hle) (h.late_ne hr)
      · have hbp' : BytePrefix req path := encode_mono hreq.isPrefix
        have hge := hmax req ((hmem req).mpr hlate) hbp'
        obtain rfl := h.eq_of_byteLength (hin hr) hreq.mem hbp hbp' (le_antisymm hle hge)
        exact hresolves hreq hs
  · constructor
    · rintro ⟨req, hreq, hs', -⟩
      obtain rfl := h.eq_of_serves (by simp) hreq.mem hs hs'
      exact ⟨root, List.mem_cons_self, hreq, fun r hr hp' => absurd hp' (hnone r ((hmem r).mpr hr))⟩
    · rintro ⟨req, hmemreq, hreq, -⟩
      rcases List.mem_cons.mp hmemreq with rfl | hlate
      · exact hresolves hreq hs
      · exact absurd (encode_mono hreq.isPrefix) (hnone req ((hmem req).mpr hlate))

end Resolution

section Boot

/-- `/dev`, as `main.cpp` mounts it after `/`. -/
def devPath : CString := [slash, 0x64, 0x65, 0x76]

def bootMounts : List (CString × ℕ) := [([slash], 0), (devPath, 1)]

lemma bootMounts_mounted : Mounted [] ([slash], 0) [(devPath, 1)] where
  absolute r hr := by
    rcases (by simpa using hr : r = ([slash], 0) ∨ r = (devPath, 1)) with rfl | rfl
    · exact ⟨rfl, by decide⟩
    · exact ⟨rfl, by decide⟩
  distinct := by decide
  root := by decide

/-- `/dev/x` is looked up as `x` in the filesystem mounted at `/dev`. -/
theorem mountOf_resolves_dev : ∃ mounts mp rest, mountAll (fun _ => true) [] bootMounts = .ok mounts ∧
    mountOf (fun _ => true) mounts (devPath ++ [slash, 0x78]) = .ok (.ok (mp, rest)) ∧
    Resolves bootMounts (devPath ++ [slash, 0x78]) mp rest := by
  obtain ⟨mounts, mp, rest, hall, hof, hiff⟩ := @mountOf_resolves _ (fun _ => true) _ _ _
    (devPath ++ [slash, 0x78]) bootMounts_mounted (fun _ => rfl) ⟨rfl, by decide⟩
  refine ⟨mounts, mp, rest, hall, hof, hiff.mpr ⟨(devPath, 1), by simp, ⟨by simp, by decide, ?_⟩, ?_⟩⟩
  · intro r hr _
    rcases (by simpa using hr : r = ([slash], 0) ∨ r = (devPath, 1)) with rfl | rfl
    · decide
    · exact le_rfl
  · intro r hr _
    rw [List.mem_singleton.mp hr]

/-- `/device` is looked up as `ce` in the filesystem mounted at `/dev`. -/
theorem mountOf_device : ∃ mounts mp rest, mountAll (fun _ => true) [] bootMounts = .ok mounts ∧
    mountOf (fun _ => true) mounts (devPath ++ [0x69, 0x63, 0x65]) = .ok (.ok (mp, rest)) ∧
    ¬ Resolves bootMounts (devPath ++ [0x69, 0x63, 0x65]) mp rest := by
  have hrun : (mountAll (fun _ => true) [] bootMounts >>= fun mounts =>
      mountOf (fun _ => true) mounts (devPath ++ [0x69, 0x63, 0x65])).map
        (fun r => r.map (fun found => components found.2)) = .ok (.ok [[0x63, 0x65]]) := by
    rfl
  cases hall : mountAll (fun _ => true) [] bootMounts with
  | error e =>
    rw [hall] at hrun
    cases hrun
  | ok mounts =>
    rw [hall, ok_bind] at hrun
    cases hof : mountOf (fun _ => true) mounts (devPath ++ [0x69, 0x63, 0x65]) with
    | error e =>
      rw [hof] at hrun
      cases hrun
    | ok found =>
      rw [hof] at hrun
      cases found with
      | error e => cases hrun
      | ok found =>
        obtain ⟨mp, rest⟩ := found
        refine ⟨mounts, mp, rest, rfl, hof, ?_⟩
        rintro ⟨req, -, -, hc⟩
        have hrest : components rest = [[0x63, 0x65]] := by simpa [Except.map] using hrun
        have hpath : canonicalComponents (devPath ++ [0x69, 0x63, 0x65]) =
            [[0x64, 0x65, 0x76, 0x69, 0x63, 0x65]] := by decide
        rw [hpath, hrest] at hc
        have hlast := congrArg List.getLast? hc
        rw [List.getLast?_concat] at hlast
        exact absurd hlast (by decide)

end Boot

end Pi0Os.Vfs
