import Pi0Os.Vfs.PathEncoding

/-! The component list of a path: the reference normalizer, what `canonicalize_path`
keeps of the pieces between separators, and the paths on which the two agree. -/

namespace Pi0Os.Vfs

open Kernel Byte Buffer

def dotDot : CString := [dot, dot]

section Pieces

variable {s v y w : CString} {segs : List CString}

lemma eraseSlashDot_slash (w : CString) : ∃ x, eraseSlashDot (slash :: w) = slash :: x := by
  cases w with
  | nil => exact ⟨[], by simp [eraseSlashDot]⟩
  | cons d w =>
    by_cases hd : d = dot
    · exact ⟨_, by rw [eraseSlashDot, if_pos ⟨rfl, hd⟩]⟩
    · exact ⟨_, by rw [eraseSlashDot, if_neg (fun h => hd h.2)]⟩

lemma eraseSlashDot_append (v w : CString) :
    eraseSlashDot (v ++ slash :: w) = eraseSlashDot v ++ eraseSlashDot (slash :: w) := by
  induction v using eraseSlashDot.induct with
  | case1 c d v hcd ih =>
    rw [List.cons_append, List.cons_append, eraseSlashDot, if_pos hcd, eraseSlashDot, if_pos hcd]
    simpa using ih
  | case2 c d v hcd ih =>
    rw [List.cons_append, List.cons_append, eraseSlashDot, if_neg hcd, eraseSlashDot, if_neg hcd]
    simpa using ih
  | case3 v h =>
    obtain _ | ⟨c, _ | ⟨d, v⟩⟩ := v
    · simp [eraseSlashDot]
    · simp [eraseSlashDot]
    · exact absurd rfl (h c d v)

/-- What the later passes leave of a text after the `..` pass. -/
def residue (text : CString) : List CString := names (eraseSlashDot text)

def stripDots (s : CString) : CString := s.dropWhile (· = dot)

lemma eraseSlashDot_of_notMem (hs : slash ∉ s) : eraseSlashDot s = s := by
  induction s using eraseSlashDot.induct with
  | case1 c d s hcd ih => simp [hcd.1] at hs
  | case2 c d s hcd ih =>
    rw [eraseSlashDot, if_neg hcd, ih (fun h => hs (List.mem_cons_of_mem _ h))]
  | case3 s h => rw [eraseSlashDot.eq_2 _ h]

@[simp] lemma residue_nil : residue [] = [] := by simp [residue, eraseSlashDot]

lemma residue_append (v w : CString) : residue (v ++ slash :: w) = residue v ++ residue (slash :: w) := by
  obtain ⟨x, hx⟩ := eraseSlashDot_slash w
  rw [residue, eraseSlashDot_append, hx, names_append_slash, residue, residue, hx, names_slash]

lemma residue_piece (hs : slash ∉ s) : residue (slash :: s) = names (stripDots s) := by
  induction s with
  | nil => simp [residue, eraseSlashDot, stripDots]
  | cons c s ih =>
    have hs' : slash ∉ s := fun h => hs (List.mem_cons_of_mem _ h)
    by_cases hc : c = dot
    · have hr := ih hs'
      rw [residue] at hr
      rw [residue, eraseSlashDot, if_pos ⟨rfl, hc⟩, names_slash, hr]
      simp [stripDots, hc]
    · rw [residue, eraseSlashDot, if_neg (fun h => hc h.2), names_slash, eraseSlashDot_of_notMem hs]
      simp [stripDots, hc]

lemma residue_slashes (n : ℕ) : residue (slashes n) = [] := by
  induction n with
  | zero => simp [slashes]
  | succ n ih =>
    rw [slashes, List.replicate_succ', residue_append]
    rw [slashes] at ih
    rw [ih, residue_piece (by simp)]
    rfl

lemma eraseDotDot_plain (hs : slash ∉ s) (hd : ¬ dotDot <:+: s) (hw : w.head? ≠ some dot) :
    eraseDotDot v y (s ++ w) = eraseDotDot v (y ++ s) w := by
  induction s generalizing y with
  | nil => simp
  | cons c s ih =>
    have hc : c ≠ slash := fun h => hs (by simp [h])
    have hp : ¬ (c = dot ∧ (s ++ w).head? = some dot) := by
      rintro ⟨rfl, h⟩
      cases s with
      | nil => exact hw h
      | cons d s =>
        obtain rfl : d = dot := by simpa using h
        exact hd ⟨[], s, rfl⟩
    rw [List.cons_append, eraseDotDot, if_neg hc, if_neg hp,
      ih (fun h => hs (List.mem_cons_of_mem _ h)) (fun h => hd (h.trans (List.suffix_cons _ _).isInfix))]
    simp

lemma eraseDotDot_head (hv : ∀ c ∈ v.head?, c = slash) (rest : CString) :
    ∃ x, eraseDotDot v y rest = slash :: x := by
  have hcons {v : CString} (hv : ∀ c ∈ v.head?, c = slash) (x : CString) :
      ∃ x', v ++ slash :: x = slash :: x' := by
    cases v with
    | nil => exact ⟨x, rfl⟩
    | cons c v => exact ⟨v ++ slash :: x, by simp [hv c rfl]⟩
  induction v, y, rest using eraseDotDot.induct with
  | case1 v y => simpa [eraseDotDot] using hcons hv y
  | case2 v y rest ih =>
    obtain ⟨x, hx⟩ := ih (by simp)
    simpa [eraseDotDot, hx] using hcons hv x
  | case3 v y c rest hc hd ih =>
    rw [eraseDotDot, if_neg hc, if_pos hd]
    exact ih (fun c hc => by cases hl : v.length <;> simp_all [slashes, List.replicate_succ])
  | case4 v y c rest hc hd ih =>
    rw [eraseDotDot, if_neg hc, if_neg hd]
    exact ih hv

/-- The pieces not directly followed by `..`. -/
def kept : List CString → List CString
  | [] => []
  | s :: segs => if segs.head? = some dotDot then kept segs else s :: kept segs

def keptNames (segs : List CString) : List CString :=
  (kept segs).flatMap (fun s => names (stripDots s))

@[simp] lemma names_stripDots_dotDot : names (stripDots dotDot) = [] := by
  simp [stripDots, dotDot]

lemma keptNames_dotDot (segs : List CString) : keptNames (dotDot :: segs) = keptNames segs := by
  by_cases h : segs.head? = some dotDot <;> simp [keptNames, kept, h]

lemma eraseDotDot_dotDot (v w : CString) :
    eraseDotDot v [] (dotDot ++ w) = eraseDotDot (slashes v.length) [slash, dot] w := by
  simp [dotDot, eraseDotDot, slashes]

lemma residue_slashes_append (n : ℕ) (x : CString) : residue (slashes n ++ slash :: x) = residue (slash :: x) := by
  rw [residue_append, residue_slashes, List.nil_append]

def WellDotted (s : CString) : Prop := s = dotDot ∨ ¬ dotDot <:+: s

lemma residue_slash_slash_dot : residue [slash, slash, dot] = [] := by
  simp [residue, eraseSlashDot]

lemma residue_eraseDotDot (s : CString) (segs : List CString) (hv : ∀ c ∈ v.head?, c = slash)
    (hs : ∀ t ∈ s :: segs, slash ∉ t ∧ WellDotted t) :
    residue (eraseDotDot v [] ([slash].intercalate (s :: segs))) =
      (if s = dotDot then [] else residue v) ++ keptNames (s :: segs) := by
  induction segs generalizing s v with
  | nil =>
    obtain ⟨hss, hsd⟩ := hs s List.mem_cons_self
    rw [List.intercalate_singleton, ← List.append_nil s]
    rcases hsd with rfl | hsd
    · rw [eraseDotDot_dotDot, eraseDotDot, residue_slashes_append, residue_slash_slash_dot]
      simp [keptNames, kept]
    · have hne : s ≠ dotDot := by
        rintro rfl
        exact hsd (List.infix_refl _)
      rw [eraseDotDot_plain hss hsd (by simp), eraseDotDot, List.nil_append, residue_append,
        residue_piece hss]
      simp [keptNames, kept, hne]
  | cons t segs ih =>
    obtain ⟨hss, hsd⟩ := hs s List.mem_cons_self
    have ht := fun v hv => ih t (v := v) hv (fun u hu => hs u (List.mem_cons_of_mem _ hu))
    rw [List.intercalate_cons_cons, List.append_assoc, List.singleton_append]
    rcases hsd with rfl | hsd
    · obtain ⟨x, hx⟩ := eraseDotDot_head (v := slash :: [slash, dot]) (y := []) (by simp)
        ([slash].intercalate (t :: segs))
      have hr := ht (slash :: [slash, dot]) (by simp)
      rw [eraseDotDot_dotDot, eraseDotDot, if_pos rfl, hx, residue_slashes_append, ← hx, hr,
        residue_slash_slash_dot, keptNames_dotDot]
      simp
    · have hne : s ≠ dotDot := by
        rintro rfl
        exact hsd (List.infix_refl _)
      obtain ⟨x, hx⟩ := eraseDotDot_head (v := slash :: s) (y := []) (by simp)
        ([slash].intercalate (t :: segs))
      have hr := ht (slash :: s) (by simp)
      rw [eraseDotDot_plain hss hsd (by simp), eraseDotDot, if_pos rfl, List.nil_append, hx,
        residue_append, ← hx, hr, residue_piece hss]
      by_cases htd : t = dotDot <;> simp [keptNames, kept, htd, hne]

end Pieces

lemma encodes_canonicalText {q : CString} (hn : nul ∉ q) (left : Buffer) :
    Encodes ((canonicalText q).map nulOfSlash ++ nul :: nul :: left) (residue (eraseDotDot [] [] q)) := by
  have hn₁ := nul_notMem_eraseSlashDot (nul_notMem_eraseDotDot (v := []) (y := []) (by simp) (by simp) hn)
  obtain ⟨x, hx⟩ := eraseDotDot_head (v := []) (y := []) (by simp) q
  obtain ⟨x', hx'⟩ := eraseSlashDot_slash x
  refine ⟨fun c hc => ⟨by simpa using (List.mem_filter.mp hc).2, fun h => hn₁ ?_⟩, ?_⟩
  · rw [hx] at hc
    exact hx ▸ (mem_pieces (List.mem_filter.mp hc).1).2 h
  · obtain ⟨left', he⟩ := encode_squeezed (x'.dropWhile (· = slash)) left [] (by simp)
      (fun _ h => by
        have hd := List.head?_dropWhile_not (· = slash) x'
        simp [h] at hd)
    refine ⟨left', ?_⟩
    rw [residue, canonicalText, hx, hx', squeezeSlashes, if_pos rfl, names_slash, ← names_dropSlashes x']
    simpa [nulOfSlash] using he

lemma encodes_canonicalizePath {path : CString} {malloc : ℕ → Bool} (ha : path.head? = some slash)
    (hn : nul ∉ path) (hm : malloc ((skipSlashes path).length + 2) = true) :
    ∃ cpath, canonicalizePath malloc path = .ok (some cpath) ∧
      Encodes cpath (residue (eraseDotDot [] [] (skipSlashes path).tail)) := by
  obtain ⟨q, rfl⟩ := List.head?_eq_some_iff.mp ha
  obtain ⟨q', hq, n, hp⟩ := skipSlashes_absolute q
  have hn' : nul ∉ q' := fun h => hn (by rw [hp]; simp [h])
  obtain ⟨left, hc⟩ := canonicalizePath_absolute hq hn' (by simpa [hq] using hm)
  refine ⟨_, hc, ?_⟩
  rw [hq]
  exact encodes_canonicalText hn' left

end Pi0Os.Vfs
