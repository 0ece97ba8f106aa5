import Pi0Os.Vfs.PathComponents

/-! The reference normalizer of absolute paths, and the comparison of `canonicalize_path`
with it. -/

namespace Pi0Os.Vfs

open Kernel Byte Buffer

def pushPiece (stack : List CString) (s : CString) : List CString :=
  if s = [] ∨ s = [dot] then stack
  else if s = dotDot then stack.dropLast
  else stack ++ [s]

def normalize (path : CString) : List CString := (pieces path).foldl pushPiece []

/-- A piece the reference normalizer pushes. -/
def IsName (s : CString) : Prop := s ≠ [] ∧ s ≠ [dot] ∧ s ≠ dotDot

instance (s : CString) : Decidable (IsName s) := inferInstanceAs (Decidable (_ ∧ _))

/-- With `depth` names on the stack, every `..` directly follows a name, or finds the
stack empty. -/
def DotDotsPaired : ℕ → List CString → Prop
  | _, [] => True
  | depth, [s] => s = dotDot → depth = 0
  | depth, s :: t :: segs =>
    if s = dotDot then depth = 0 ∧ DotDotsPaired 0 (t :: segs)
    else if ¬ IsName s then DotDotsPaired depth (t :: segs)
    else if t = dotDot then DotDotsPaired depth segs
    else DotDotsPaired (depth + 1) (t :: segs)

instance decidableDotDotsPaired : ∀ depth segs, Decidable (DotDotsPaired depth segs)
  | _, [] => .isTrue trivial
  | depth, [s] => inferInstanceAs (Decidable (s = dotDot → depth = 0))
  | depth, s :: t :: segs =>
    have := decidableDotDotsPaired 0 (t :: segs)
    have := decidableDotDotsPaired depth (t :: segs)
    have := decidableDotDotsPaired depth segs
    have := decidableDotDotsPaired (depth + 1) (t :: segs)
    inferInstanceAs (Decidable (if s = dotDot then depth = 0 ∧ DotDotsPaired 0 (t :: segs)
      else if ¬ IsName s then DotDotsPaired depth (t :: segs)
      else if t = dotDot then DotDotsPaired depth segs
      else DotDotsPaired (depth + 1) (t :: segs)))

instance (s : CString) : Decidable (WellDotted s) := inferInstanceAs (Decidable (_ ∨ _))

/-- No name contains `..`. -/
def NoInnerDotDot (path : CString) : Prop := ∀ s ∈ pieces path, WellDotted s

structure Faithful (path : CString) : Prop where
  inner : NoInnerDotDot path
  paired : DotDotsPaired 0 (pieces path)
  plain : ∀ a s b, pieces path = a ++ s :: b → IsName s → b.head? ≠ some dotDot → s.head? ≠ some dot

section Lists

variable {s : CString} {segs stack : List CString}

lemma pushPiece_name (h : IsName s) : pushPiece stack s = stack ++ [s] := by
  rw [pushPiece, if_neg (not_or.mpr ⟨h.1, h.2.1⟩), if_neg h.2.2]

lemma pushPiece_skip (h : ¬ IsName s) (hd : s ≠ dotDot) : pushPiece stack s = stack := by
  rw [pushPiece, if_pos (by by_contra hn; exact h ⟨fun e => hn (.inl e), fun e => hn (.inr e), hd⟩)]

@[simp] lemma pushPiece_dotDot : pushPiece stack dotDot = stack.dropLast := by
  simp [pushPiece, dotDot]

def keptPieces (segs : List CString) : List CString := (kept segs).filter IsName

lemma keptPieces_of_not_isName (h : ¬ IsName s) (segs : List CString) :
    keptPieces (s :: segs) = keptPieces segs := by
  by_cases hd : segs.head? = some dotDot <;> simp [keptPieces, kept, hd, h]

lemma keptPieces_popped (s : CString) (segs : List CString) :
    keptPieces (s :: dotDot :: segs) = keptPieces segs := by
  have h := keptPieces_of_not_isName (s := dotDot) (fun h => h.2.2 rfl) segs
  rw [← h]
  simp [keptPieces, kept]

lemma keptPieces_name (h : IsName s) (ht : segs.head? ≠ some dotDot) :
    keptPieces (s :: segs) = s :: keptPieces segs := by
  simp [keptPieces, kept, h, ht]

lemma dotDotsPaired_skip {depth : ℕ} (h : ¬ IsName s) (hs : s ≠ dotDot) :
    DotDotsPaired depth (s :: segs) ↔ DotDotsPaired depth segs := by
  cases segs <;> simp [DotDotsPaired, h, hs]

lemma dotDotsPaired_dotDot {depth : ℕ} :
    DotDotsPaired depth (dotDot :: segs) ↔ depth = 0 ∧ DotDotsPaired 0 segs := by
  cases segs <;> simp [DotDotsPaired]

lemma dotDotsPaired_popped {depth : ℕ} (h : IsName s) :
    DotDotsPaired depth (s :: dotDot :: segs) ↔ DotDotsPaired depth segs := by
  simp [DotDotsPaired, h, h.2.2]

lemma dotDotsPaired_name {depth : ℕ} (h : IsName s) (ht : segs.head? ≠ some dotDot) :
    DotDotsPaired depth (s :: segs) ↔ DotDotsPaired (depth + 1) segs := by
  cases segs with
  | nil => simp [DotDotsPaired, h.2.2]
  | cons t segs =>
    have htd : t ≠ dotDot := by simpa using ht
    simp [DotDotsPaired, h, h.2.2, htd]

/-- How the reference's stack compares with what the code keeps: equal to it when the `..`
pair off, shorter when one of them does not. -/
structure Compares (stack segs : List CString) : Prop where
  eq : DotDotsPaired stack.length segs → segs.foldl pushPiece stack = stack ++ keptPieces segs
  le : (segs.foldl pushPiece stack).length ≤ stack.length + (keptPieces segs).length
  lt : ¬ DotDotsPaired stack.length segs →
    (segs.foldl pushPiece stack).length < stack.length + (keptPieces segs).length

namespace Compares

lemma nil : Compares stack [] := by
  constructor <;> simp [DotDotsPaired, keptPieces, kept]

lemma skip (hn : ¬ IsName s) (hs : s ≠ dotDot) (h : Compares stack segs) : Compares stack (s :: segs) := by
  constructor <;> rw [List.foldl_cons, pushPiece_skip hn hs, keptPieces_of_not_isName hn]
  · rw [dotDotsPaired_skip hn hs]
    exact h.eq
  · exact h.le
  · rw [dotDotsPaired_skip hn hs]
    exact h.lt

lemma popEmpty (h : Compares [] segs) : Compares [] (dotDot :: segs) := by
  constructor <;> rw [List.foldl_cons, pushPiece_dotDot, keptPieces_of_not_isName (fun h => h.2.2 rfl)]
  · rw [dotDotsPaired_dotDot]
    exact fun hp => h.eq hp.2
  · exact h.le
  · rw [dotDotsPaired_dotDot]
    exact fun hp => h.lt (fun h => hp ⟨rfl, h⟩)

/-- A `..` that is not next to the name it pops: the code keeps that name. -/
lemma popFar (hs : stack ≠ []) (h : Compares stack.dropLast segs) : Compares stack (dotDot :: segs) := by
  have hl := List.length_pos_iff.mpr hs
  have hle := h.le
  rw [List.length_dropLast] at hle
  constructor <;> rw [List.foldl_cons, pushPiece_dotDot, keptPieces_of_not_isName (fun h => h.2.2 rfl)]
  · rw [dotDotsPaired_dotDot]
    exact fun hp => absurd hp.1 (by omega)
  · omega
  · exact fun _ => by omega

lemma popped (hn : IsName s) (h : Compares stack segs) : Compares stack (s :: dotDot :: segs) := by
  constructor <;> rw [List.foldl_cons, List.foldl_cons, pushPiece_name hn, pushPiece_dotDot,
    List.dropLast_concat, keptPieces_popped]
  · rw [dotDotsPaired_popped hn]
    exact h.eq
  · exact h.le
  · rw [dotDotsPaired_popped hn]
    exact h.lt

lemma name (hn : IsName s) (ht : segs.head? ≠ some dotDot) (h : Compares (stack ++ [s]) segs) :
    Compares stack (s :: segs) := by
  have hle := h.le
  have hlt := h.lt
  have heq := h.eq
  rw [List.length_append, List.length_singleton] at hle hlt heq
  constructor <;> rw [List.foldl_cons, pushPiece_name hn, keptPieces_name hn ht]
  · rw [dotDotsPaired_name hn ht]
    intro hp
    simpa using heq hp
  · rw [List.length_cons]
    omega
  · rw [dotDotsPaired_name hn ht, List.length_cons]
    intro hp
    have := hlt hp
    omega

lemma pop (h : ∀ stack, Compares stack segs) (stack : List CString) : Compares stack (dotDot :: segs) := by
  by_cases hs : stack = []
  · subst hs
    exact (h []).popEmpty
  · exact popFar hs (h _)

end Compares

lemma compares (segs stack : List CString) : Compares stack segs := by
  induction segs using List.twoStepInduction generalizing stack with
  | nil => exact .nil
  | singleton s =>
    by_cases hs : s = dotDot
    · subst hs
      exact Compares.pop (fun _ => .nil) stack
    by_cases hn : IsName s
    · exact Compares.nil.name hn (by simp)
    · exact Compares.nil.skip hn hs
  | cons_cons s t segs ih iht =>
    by_cases hs : s = dotDot
    · subst hs
      exact Compares.pop (iht t) stack
    by_cases hn : IsName s
    · by_cases ht : t = dotDot
      · subst ht
        exact (ih stack).popped hn
      · exact (iht t _).name hn (by simpa using ht)
    · exact (iht t stack).skip hn hs

lemma mem_kept {l : List CString} :
    s ∈ kept l ↔ ∃ a b, l = a ++ s :: b ∧ b.head? ≠ some dotDot := by
  induction l with
  | nil => simp [kept]
  | cons t l ih =>
    have hsplit : (∃ a b, t :: l = a ++ s :: b ∧ b.head? ≠ some dotDot) ↔
        (t = s ∧ l.head? ≠ some dotDot) ∨ ∃ a b, l = a ++ s :: b ∧ b.head? ≠ some dotDot := by
      constructor
      · rintro ⟨_ | ⟨u, a⟩, b, he, hb⟩
        · obtain ⟨rfl, rfl⟩ := List.cons.inj he
          exact .inl ⟨rfl, hb⟩
        · exact .inr ⟨a, b, (List.cons.inj he).2, hb⟩
      · rintro (⟨rfl, hb⟩ | ⟨a, b, rfl, hb⟩)
        · exact ⟨[], l, rfl, hb⟩
        · exact ⟨t :: a, b, rfl, hb⟩
    rw [hsplit, kept, ← ih]
    by_cases hd : l.head? = some dotDot
    · simp [hd]
    · simp [hd, eq_comm]

lemma mem_of_mem_kept {l : List CString} (h : s ∈ kept l) : s ∈ l := by
  obtain ⟨a, b, rfl, -⟩ := mem_kept.mp h
  simp

lemma stripDots_eq_self : stripDots s = s ↔ s.head? ≠ some dot := by
  cases s with
  | nil => simp [stripDots]
  | cons c s =>
    by_cases hc : c = dot
    · have hl := (List.dropWhile_suffix (fun c : UInt8 => decide (c = dot)) (l := s)).length_le
      simp only [stripDots, hc, List.dropWhile_cons, decide_true, if_true, List.head?_cons, ne_eq,
        not_true_eq_false, iff_false]
      intro he
      rw [he, List.length_cons] at hl
      omega
    · simp [stripDots, hc]

lemma stripDots_ne_nil (hn : IsName s) (hd : WellDotted s) : stripDots s ≠ [] := by
  have hd := hd.resolve_left hn.2.2
  obtain _ | ⟨c, s⟩ := s
  · exact absurd rfl hn.1
  by_cases hc : c = dot
  · subst hc
    obtain _ | ⟨d, s⟩ := s
    · exact absurd rfl hn.2.1
    have hdd : d ≠ dot := by
      rintro rfl
      exact hd ⟨[], s, rfl⟩
    simp [stripDots, hdd]
  · simp [stripDots, hc]

lemma names_stripDots (hs : slash ∉ s) (hd : WellDotted s) :
    names (stripDots s) = if IsName s then [stripDots s] else [] := by
  have hss : slash ∉ stripDots s := fun h => hs ((List.dropWhile_suffix _).mem h)
  rw [names_of_notMem hss]
  by_cases hn : IsName s
  · rw [if_neg (stripDots_ne_nil hn hd), if_pos hn]
  · have h : s = [] ∨ s = [dot] ∨ s = dotDot := by
      by_contra h
      simp only [not_or] at h
      exact hn h
    rw [if_neg hn]
    rcases h with rfl | rfl | rfl <;> simp [stripDots, dotDot]

lemma keptNames_eq {l : List CString} (hl : ∀ s ∈ l, slash ∉ s ∧ WellDotted s) :
    keptNames l = (keptPieces l).map stripDots := by
  have h : ∀ m : List CString, (∀ s ∈ m, slash ∉ s ∧ WellDotted s) →
      m.flatMap (fun s => names (stripDots s)) = (m.filter IsName).map stripDots := by
    intro m hm
    induction m with
    | nil => rfl
    | cons s m ih =>
      obtain ⟨hs, hd⟩ := hm s List.mem_cons_self
      rw [List.flatMap_cons, ih (fun t ht => hm t (List.mem_cons_of_mem _ ht)), names_stripDots hs hd]
      by_cases hn : IsName s <;> simp [hn]
  exact h _ (fun s hs => hl s (mem_of_mem_kept hs))

end Lists

section Paths

variable {path q : CString} {malloc : ℕ → Bool}

lemma pieces_slash (w : CString) : pieces (slash :: w) = [] :: pieces w := by
  have h := List.splitOn_append_cons_self (a := slash) [] w
  rwa [List.nil_append, List.splitOn_nil] at h

lemma keptNames_nil_cons (segs : List CString) : keptNames ([] :: segs) = keptNames segs := by
  by_cases h : segs.head? = some dotDot <;> simp [keptNames, kept, h, stripDots]

lemma canonicalizePath_keptNames (ha : path.head? = some slash) (hn : nul ∉ path)
    (hm : malloc ((skipSlashes path).length + 2) = true) :
    ∃ cpath, canonicalizePath malloc path = .ok (some cpath) ∧
      (NoInnerDotDot path → encodedComponents cpath = keptNames (pieces path)) := by
  obtain ⟨q, rfl⟩ := List.head?_eq_some_iff.mp ha
  obtain ⟨cpath, hc, he⟩ := encodes_canonicalizePath ha hn hm
  obtain ⟨q', hq, n, hp⟩ := skipSlashes_absolute q
  rw [hq, List.tail_cons] at he
  refine ⟨cpath, hc, fun hd => ?_⟩
  have hpieces : pieces (slash :: q) = List.replicate (n + 1) [] ++ pieces q' := by
    rw [hp]
    clear hp
    induction n with
    | zero => simpa [slashes] using pieces_slash q'
    | succ n ih =>
      rw [slashes, List.replicate_succ, List.cons_append, pieces_slash, ← slashes, ih]
      simp [List.replicate_succ]
  have hkept : keptNames (pieces (slash :: q)) = keptNames (pieces q') := by
    rw [hpieces]
    clear hpieces hp
    induction n with
    | zero => simpa using keptNames_nil_cons (pieces q')
    | succ n ih => rw [List.replicate_succ, List.cons_append, keptNames_nil_cons, ih]
  rw [he.components, hkept]
  obtain ⟨s, segs, hs⟩ := List.exists_cons_of_ne_nil (List.splitOn_ne_nil slash q')
  have hq' : [slash].intercalate (s :: segs) = q' := by rw [← hs, List.intercalate_splitOn]
  have hr := residue_eraseDotDot (v := []) s segs (by simp) (fun t ht =>
    ⟨(mem_pieces (by rwa [← hs] at ht : t ∈ pieces q')).1, hd t (by
      rw [hpieces, pieces, hs]
      exact List.mem_append_right _ ht)⟩)
  rw [hq'] at hr
  rw [hr, pieces, hs]
  simp

/-- `canonicalize_path` runs to its end on every absolute path; the components it encodes
are the reference's on every faithful path, and only on those when no name contains `..`. -/
theorem canonicalizePath_normalizes (ha : path.head? = some slash) (hn : nul ∉ path)
    (hm : malloc ((skipSlashes path).length + 2) = true) :
    ∃ cpath, canonicalizePath malloc path = .ok (some cpath) ∧
      (Faithful path → encodedComponents cpath = normalize path) ∧
      (NoInnerDotDot path → encodedComponents cpath = normalize path → Faithful path) := by
  obtain ⟨cpath, hc, hk⟩ := canonicalizePath_keptNames ha hn hm
  have hkept (hd : NoInnerDotDot path) :
      encodedComponents cpath = (keptPieces (pieces path)).map stripDots :=
    (hk hd).trans (keptNames_eq (fun s hs => ⟨(mem_pieces hs).1, hd s hs⟩))
  have hcmp := compares (pieces path) []
  refine ⟨cpath, hc, fun hf => ?_, fun hd he => ?_⟩
  · have hstrip : (keptPieces (pieces path)).map stripDots = keptPieces (pieces path) := by
      refine (List.map_congr_left (fun s hs => ?_)).trans (List.map_id _)
      obtain ⟨hs, hname⟩ := List.mem_filter.mp hs
      obtain ⟨a, b, hp, hb⟩ := mem_kept.mp hs
      exact stripDots_eq_self.mpr (hf.plain a s b hp (by simpa using hname) hb)
    rw [hkept hf.inner, hstrip, normalize, hcmp.eq hf.paired, List.nil_append]
  · rw [hkept hd] at he
    have hpaired : DotDotsPaired 0 (pieces path) := by
      by_contra hp
      have hlt := hcmp.lt hp
      have hlen := congrArg List.length he
      rw [List.length_map, normalize] at hlen
      simp only [List.length_nil] at hlt
      omega
    rw [normalize, hcmp.eq hpaired, List.nil_append] at he
    refine ⟨hd, hpaired, fun a s b hp hname hb => stripDots_eq_self.mp ?_⟩
    have hs : s ∈ keptPieces (pieces path) :=
      List.mem_filter.mpr ⟨mem_kept.mpr ⟨a, b, hp, hb⟩, by simpa using hname⟩
    exact List.map_inj_left.mp (he.trans (List.map_id _).symm) s hs

end Paths

/-- `/a/../b/c`. -/
def popPath : CString := [slash, 0x61, slash, dot, dot, slash, 0x62, slash, 0x63]

theorem canonicalizePath_normalizes_pop : ∃ cpath,
    canonicalizePath (fun _ => true) popPath = .ok (some cpath) ∧
      encodedComponents cpath = [[0x62], [0x63]] := by
  have hf : Faithful popPath := by
    refine ⟨by unfold NoInnerDotDot; decide, by decide, fun a s b hp hname hb => ?_⟩
    have hs : s ∈ keptPieces (pieces popPath) :=
      List.mem_filter.mpr ⟨mem_kept.mpr ⟨a, b, hp, hb⟩, by simpa using hname⟩
    have hall : ∀ t ∈ keptPieces (pieces popPath), t.head? ≠ some dot := by decide
    exact hall s hs
  obtain ⟨cpath, hc, hn, -⟩ := @canonicalizePath_normalizes popPath (fun _ => true)
    (by decide) (by decide) (by decide)
  exact ⟨cpath, hc, hn hf⟩

/-- `/.profile` comes out as the component `profile`. -/
theorem canonicalizePath_profile :
    canonicalizePath (fun _ => true) [slash, dot, 0x70, 0x72, 0x6f, 0x66, 0x69, 0x6c, 0x65] =
        .ok (some [nul, 0x70, 0x72, 0x6f, 0x66, 0x69, 0x6c, 0x65, nul, nul, nul]) ∧
      encodedComponents [nul, 0x70, 0x72, 0x6f, 0x66, 0x69, 0x6c, 0x65, nul, nul, nul] ≠
        normalize [slash, dot, 0x70, 0x72, 0x6f, 0x66, 0x69, 0x6c, 0x65] := by
  constructor <;> decide

end Pi0Os.Vfs
