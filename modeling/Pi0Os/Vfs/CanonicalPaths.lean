import Pi0Os.Vfs.MountResolution
import Pi0Os.Vfs.PathNormalizer

/-! Canonicalized paths: what no component of one is, and `decanonicalize_path`, which gives a path that is
canonicalized to the same components. -/

namespace Pi0Os.Vfs

open Kernel Byte Buffer

/-- The loop of `decanonicalize_path`, with the pointer at the start of the block. -/
def decanonicalizeLoop : Buffer → Except Panic Buffer
  | a :: b :: path =>
    if a ≠ nul ∨ b ≠ nul then do return (if a = nul then slash else a) :: (← decanonicalizeLoop (b :: path))
    else .ok (a :: b :: path)
  | _ => .error (.undefined "unterminated canonicalized path")

def decanonicalizePath : Buffer → Except Panic Buffer
  | a :: b :: path =>
    if a = nul ∧ b = nul then .ok (slash :: b :: path) else decanonicalizeLoop (a :: b :: path)
  | _ => .error (.undefined "unterminated canonicalized path")

/-- The string at the start of a block. -/
def cString (buf : Buffer) : CString := buf.takeWhile (· ≠ nul)

/-- The string of a component list. -/
def joined (cs : List CString) : CString := if cs = [] then [slash] else cs.flatMap (fun c => slash :: c)

/-- What every component of a canonicalized path is. -/
structure CanonicalName (c : CString) : Prop where
  ne_nil : c ≠ []
  nul : nul ∉ c
  slash : slash ∉ c
  head : c.head? ≠ some dot
  inner : ¬ dotDot <:+: c

section DotPairs

/-- Two dots in a row only stand at the beginning of a component. -/
def DotsLead (t : CString) : Prop := ∀ a c b, t = a ++ c :: dot :: dot :: b → c = slash ∨ c = dot

/-- The text does not end in one dot that another one follows. -/
def Open (t rest : CString) : Prop := ∀ a c, t = a ++ [c, dot] → rest.head? = some dot → c = slash ∨ c = dot

variable {t v w y rest : CString} {c : UInt8}

lemma DotsLead.of_infix (h : DotsLead t) (hw : w <:+: t) : DotsLead w := by
  obtain ⟨x, z, rfl⟩ := hw
  rintro a c b rfl
  exact h (x ++ a) c (b ++ z) (by simp)

lemma dotsLead_concat (h : DotsLead t) (ho : Open t (c :: rest)) : DotsLead (t ++ [c]) := by
  intro a d b he
  rcases List.eq_nil_or_concat b with rfl | ⟨b, e, rfl⟩
  · have he' : t ++ [c] = (a ++ [d, dot]) ++ [dot] := by simpa using he
    obtain ⟨ht, hc⟩ := List.append_inj' he' rfl
    exact ho a d ht (by simpa using (List.cons.inj hc).1)
  · have he' : t ++ [c] = (a ++ d :: dot :: dot :: b) ++ [e] := by simpa using he
    exact h a d b (List.append_inj' he' rfl).1

lemma dotsLead_append_slash (hv : DotsLead v) (hw : DotsLead (slash :: w)) : DotsLead (v ++ slash :: w) := by
  intro a c b he
  rcases List.append_eq_append_iff.mp he with ⟨x, rfl, hx⟩ | ⟨x, rfl, hx⟩
  · exact hw x c b hx
  · obtain _ | ⟨e, _ | ⟨d, _ | ⟨d', x⟩⟩⟩ := x
    · exact .inl (List.cons.inj hx).1
    · exact absurd (List.cons.inj (List.cons.inj hx).2).1 dot_ne_slash
    · exact absurd (List.cons.inj (List.cons.inj (List.cons.inj hx).2).2).1 dot_ne_slash
    · simp only [List.cons_append, List.cons.injEq] at hx
      obtain ⟨rfl, rfl, rfl, -⟩ := hx
      exact hv a c x rfl

lemma dotsLead_slashes (n : ℕ) : DotsLead (slashes n ++ [dot]) := by
  intro a c b he
  have hmem : dot ∈ slashes n := by
    rcases List.eq_nil_or_concat b with rfl | ⟨b, e, rfl⟩
    · have he' : slashes n ++ [dot] = (a ++ [c, dot]) ++ [dot] := by simpa using he
      rw [(List.append_inj' he' rfl).1]
      simp
    · have he' : slashes n ++ [dot] = (a ++ c :: dot :: dot :: b) ++ [e] := by simpa using he
      rw [(List.append_inj' he' rfl).1]
      simp
  exact absurd (List.eq_of_mem_replicate hmem) dot_ne_slash

/-- The `..` pass leaves two dots in a row only behind a separator. -/
lemma dotsLead_eraseDotDot (hv : DotsLead (v ++ slash :: y)) (ho : Open (v ++ slash :: y) rest) :
    DotsLead (eraseDotDot v y rest) := by
  induction v, y, rest using eraseDotDot.induct with
  | case1 v y => simpa [eraseDotDot] using hv
  | case2 v y rest ih =>
    rw [eraseDotDot, if_pos rfl]
    have hy : DotsLead (slash :: y ++ [slash]) := by
      refine @dotsLead_concat _ rest _ (hv.of_infix (List.suffix_append _ _).isInfix) fun a d he hd => ?_
      exact absurd (Option.some.inj hd) slash_ne_dot
    have hr := ih hy fun a d he _ => by
      have he' : (slash :: y) ++ [slash] = (a ++ [d]) ++ [dot] := by simpa using he
      exact absurd (List.cons.inj (List.append_inj' he' rfl).2).1 slash_ne_dot
    obtain ⟨x, hx⟩ := eraseDotDot_head (v := slash :: y) (y := []) (by simp) rest
    rw [hx] at hr ⊢
    exact dotsLead_append_slash (hv.of_infix (List.prefix_append _ _).isInfix) hr
  | case3 v y c rest hc hd ih =>
    have htext : slashes v.length ++ slash :: (slashes (y.length + 1) ++ [dot]) =
        slashes (v.length + (y.length + 2)) ++ [dot] := by
      rw [← List.cons_append, ← List.append_assoc]
      simp only [slashes, ← List.replicate_succ, List.replicate_append_replicate]
    rw [eraseDotDot, if_neg hc, if_pos hd]
    refine ih ?_ ?_
    · rw [htext]
      exact dotsLead_slashes _
    · intro a d he _
      rw [htext] at he
      have he' : slashes (v.length + (y.length + 2)) ++ [dot] = (a ++ [d]) ++ [dot] := by simpa using he
      refine .inl (List.eq_of_mem_replicate (n := v.length + (y.length + 2)) ?_)
      rw [← slashes, (List.append_inj' he' rfl).1]
      simp
  | case4 v y c rest hc hd ih =>
    rw [eraseDotDot, if_neg hc, if_neg hd]
    have htext : v ++ slash :: (y ++ [c]) = (v ++ slash :: y) ++ [c] := by simp
    refine ih ?_ ?_
    · rw [htext]
      exact dotsLead_concat hv ho
    · intro a d he hhead
      rw [htext] at he
      have he' : (v ++ slash :: y) ++ [c] = (a ++ [d]) ++ [dot] := by simpa using he
      exact absurd ⟨(List.cons.inj (List.append_inj' he' rfl).2).1, hhead⟩ hd

lemma eraseSlashDot_cons (c : UInt8) (w : CString) : ∃ x, eraseSlashDot (c :: w) = c :: x := by
  cases w with
  | nil => exact ⟨[], by simp [eraseSlashDot]⟩
  | cons d w =>
    by_cases hcd : c = slash ∧ d = dot
    · exact ⟨_, by rw [eraseSlashDot, if_pos hcd, hcd.1]⟩
    · exact ⟨_, by rw [eraseSlashDot, if_neg hcd]⟩

lemma dotDot_infix_cons (h : dotDot <:+: c :: w) : (c = dot ∧ w.head? = some dot) ∨ dotDot <:+: w := by
  rcases List.infix_cons_iff.mp h with ⟨x, hx⟩ | h
  · obtain ⟨hc, rfl⟩ := List.cons.inj hx
    exact .inl ⟨hc.symm, rfl⟩
  · exact .inr h

/-- The `/.` pass takes the two dots behind a separator away. -/
lemma not_dotDot_eraseSlashDot (h : DotsLead t) (hhead : ¬ dotDot <+: t) : ¬ dotDot <:+: eraseSlashDot t := by
  induction t using eraseSlashDot.induct with
  | case1 c d rest hcd ih =>
    obtain ⟨rfl, rfl⟩ := hcd
    rw [eraseSlashDot, if_pos ⟨rfl, rfl⟩]
    intro hin
    rcases dotDot_infix_cons hin with ⟨hc, -⟩ | hin
    · exact absurd hc slash_ne_dot
    · refine ih (fun a c b he => ?_) (by simp [dotDot, List.cons_prefix_cons]) hin
      cases a with
      | nil => exact .inl (List.cons.inj he).1.symm
      | cons e a =>
        obtain ⟨-, rfl⟩ := List.cons.inj he
        exact h (slash :: dot :: a) c b rfl
  | case2 c d rest hcd ih =>
    rw [eraseSlashDot, if_neg hcd]
    intro hin
    obtain ⟨x, hx⟩ := eraseSlashDot_cons d rest
    rcases dotDot_infix_cons hin with ⟨rfl, hd⟩ | hin
    · rw [hx] at hd
      obtain rfl := Option.some.inj hd
      exact hhead ⟨rest, rfl⟩
    · refine ih (h.of_infix (List.suffix_cons _ _).isInfix) ?_ hin
      rintro ⟨z, hz⟩
      obtain ⟨rfl, rfl⟩ := List.cons.inj hz
      rcases h [] c z rfl with rfl | rfl
      · exact hcd ⟨rfl, rfl⟩
      · exact hhead ⟨dot :: z, rfl⟩
  | case3 rest hshort =>
    rw [eraseSlashDot.eq_2 _ hshort]
    intro hin
    obtain _ | ⟨c, _ | ⟨d, rest⟩⟩ := rest
    · exact absurd hin.length_le (by simp [dotDot])
    · exact absurd hin.length_le (by simp [dotDot])
    · exact hshort c d rest rfl

end DotPairs

section Names

variable {path q s t w : CString} {cs : List CString} {malloc : ℕ → Bool}

lemma infix_intercalate (h : s ∈ cs) : s <:+: [slash].intercalate cs := by
  induction cs with
  | nil => cases h
  | cons c cs ih =>
    cases cs with
    | nil =>
      rw [List.mem_singleton.mp h, List.intercalate_singleton]
    | cons d cs =>
      rw [List.intercalate_cons_cons, List.append_assoc]
      rcases List.mem_cons.mp h with rfl | h
      · exact (List.prefix_append _ _).isInfix
      · exact (ih h).trans ((List.suffix_append _ _).trans (List.suffix_append _ _)).isInfix

lemma infix_of_mem_pieces (h : s ∈ pieces path) : s <:+: path := by
  have hi := infix_intercalate h
  rwa [pieces, List.intercalate_splitOn] at hi

lemma residue_pieces (w : CString) : residue (slash :: w) = (pieces w).flatMap (fun s => names (stripDots s)) := by
  have h : ∀ l : List CString, l ≠ [] → (∀ s ∈ l, slash ∉ s) →
      residue (slash :: [slash].intercalate l) = l.flatMap (fun s => names (stripDots s)) := by
    intro l hl hs
    induction l with
    | nil => exact absurd rfl hl
    | cons s l ih =>
      have hss := hs s List.mem_cons_self
      cases l with
      | nil => simp [residue_piece hss]
      | cons t l =>
        have hr := ih (List.cons_ne_nil _ _) (fun s h => hs s (List.mem_cons_of_mem _ h))
        rw [List.intercalate_cons_cons, List.append_assoc, List.singleton_append, ← List.cons_append, residue_append,
          residue_piece hss, hr]
        rfl
  have hw := h (pieces w) (List.splitOn_ne_nil slash w) fun s hs => (mem_pieces hs).1
  rwa [pieces, List.intercalate_splitOn] at hw

lemma head_residue {c : CString} (h : c ∈ residue (slash :: w)) : c.head? ≠ some dot := by
  rw [residue_pieces, List.mem_flatMap] at h
  obtain ⟨s, hs, hc⟩ := h
  have hss : slash ∉ stripDots s := fun hm => (mem_pieces hs).1 ((List.dropWhile_suffix _).mem hm)
  rw [names_of_notMem hss] at hc
  split_ifs at hc with hnil
  · cases hc
  · obtain rfl := List.mem_singleton.mp hc
    intro hd
    have hn := List.head?_dropWhile_not (· = dot) s
    rw [stripDots] at hd
    simp [hd] at hn

lemma residue_canonical (hn : nul ∉ q) : ∀ c ∈ residue (eraseDotDot [] [] q), CanonicalName c := by
  intro c hc
  have hlead : DotsLead (eraseDotDot [] [] q) := by
    refine dotsLead_eraseDotDot (fun a c b he => ?_) (fun a c he => ?_)
    · exact absurd (congrArg List.length he) (by simp; omega)
    · exact absurd (congrArg List.length he) (by simp)
  have hvalid := (encodes_canonicalText hn []).valid c hc
  obtain ⟨x, hx⟩ := eraseDotDot_head (v := []) (y := []) (by simp) q
  have hpiece := (List.mem_filter.mp hc).1
  refine ⟨hvalid.1, hvalid.2, (mem_pieces hpiece).1, ?_, fun hd => ?_⟩
  · rw [hx] at hc
    exact head_residue hc
  · refine not_dotDot_eraseSlashDot hlead ?_ (hd.trans (infix_of_mem_pieces hpiece))
    rw [hx]
    rintro ⟨z, hz⟩
    exact absurd (List.cons.inj hz).1 dot_ne_slash

lemma canonicalizePath_components (hp : AbsolutePath path) (hm : malloc ((skipSlashes path).length + 2) = true) :
    ∃ cpath, canonicalizePath malloc path = .ok (some cpath) ∧ Encodes cpath (canonicalComponents path) ∧
      ∀ c ∈ canonicalComponents path, CanonicalName c := by
  obtain ⟨cpath, hc, he⟩ := encodes_canonicalizePath hp.absolute hp.terminated hm
  obtain ⟨cpath', hc', he'⟩ := @encodes_canonicalizePath _ (fun _ => true) hp.absolute hp.terminated rfl
  have hcs : canonicalComponents path = residue (eraseDotDot [] [] (skipSlashes path).tail) := by
    rw [canonicalComponents, hc']
    exact he'.components
  rw [hcs]
  refine ⟨cpath, hc, he, residue_canonical fun hm => ?_⟩
  obtain ⟨q, rfl⟩ := List.head?_eq_some_iff.mp hp.absolute
  obtain ⟨q', hq, n, hpath⟩ := skipSlashes_absolute q
  rw [hq] at hm
  exact hp.terminated (by rw [hpath]; exact List.mem_append_right _ (List.mem_cons_of_mem _ hm))

end Names

section Joined

variable {c t : CString} {cs : List CString} {cpath r : Buffer}

lemma decanonicalizeLoop_component (hc : nul ∉ c) (hr : decanonicalizeLoop r = .ok t) (hne : r ≠ []) :
    decanonicalizeLoop (c ++ r) = .ok (c ++ t) := by
  obtain ⟨d, r, rfl⟩ := List.exists_cons_of_ne_nil hne
  induction c with
  | nil => exact hr
  | cons a c ih =>
    simp only [List.mem_cons, not_or] at hc
    obtain ⟨b, rest, hb⟩ : ∃ b rest, c ++ d :: r = b :: rest := List.exists_cons_of_ne_nil (by simp)
    have hi := ih hc.2
    rw [hb] at hi
    rw [List.cons_append, hb, decanonicalizeLoop, if_pos (.inl (Ne.symm hc.1)), hi, ok_bind, if_neg (Ne.symm hc.1)]
    rfl

lemma decanonicalizeLoop_encode (hcs : ∀ c ∈ cs, c ≠ [] ∧ nul ∉ c) (left : Buffer) :
    decanonicalizeLoop (encode cs ++ nul :: nul :: left) = .ok (cs.flatMap (slash :: ·) ++ nul :: nul :: left) := by
  induction cs with
  | nil => simp [decanonicalizeLoop]
  | cons c cs ih =>
    obtain ⟨hne, hn⟩ := hcs c List.mem_cons_self
    have hr := decanonicalizeLoop_component hn (ih fun d hd => hcs d (List.mem_cons_of_mem c hd)) (by simp)
    obtain ⟨a, c, rfl⟩ := List.exists_cons_of_ne_nil hne
    have ha : a ≠ nul := fun h => hn (by simp [h])
    simp only [List.cons_append] at hr
    rw [encode_cons, List.cons_append, List.append_assoc, List.cons_append, decanonicalizeLoop, if_pos (.inr ha), hr,
      ok_bind, if_pos rfl]
    simp

lemma joined_ne_nil (hcs : cs ≠ []) : joined cs = slash :: [slash].intercalate cs := by
  rw [joined, if_neg hcs]
  induction cs with
  | nil => exact absurd rfl hcs
  | cons c cs ih =>
    cases cs with
    | nil => simp
    | cons d cs =>
      rw [List.flatMap_cons, ih (List.cons_ne_nil _ _), List.intercalate_cons_cons]
      simp

lemma nul_notMem_joined (hcs : ∀ c ∈ cs, nul ∉ c) : nul ∉ joined cs := by
  rw [joined]
  split_ifs
  · simp
  · intro hm
    obtain ⟨c, hc, hm⟩ := List.mem_flatMap.mp hm
    exact hcs c hc (by simpa using hm)

lemma cString_append (hn : nul ∉ t) (left : Buffer) : cString (t ++ nul :: left) = t := by
  have hall : ∀ a ∈ t, decide (a ≠ nul) = true := fun a ha => decide_eq_true fun h => hn (h ▸ ha)
  rw [cString, List.takeWhile_append_of_pos hall]
  simp

lemma Encodes.decanonicalize (h : Encodes cpath cs) :
    ∃ text, decanonicalizePath cpath = .ok text ∧ text.length = cpath.length ∧ cString text = joined cs := by
  obtain ⟨left, rfl⟩ := h.layout
  have hn : nul ∉ joined cs := nul_notMem_joined fun c hc => (h.valid c hc).2
  obtain _ | ⟨c, cs⟩ := cs
  · exact ⟨slash :: nul :: left, by simp [decanonicalizePath], by simp, cString_append (t := [slash]) (by simp) left⟩
  · obtain ⟨hne, hc⟩ := h.valid c List.mem_cons_self
    have hloop := decanonicalizeLoop_encode h.valid left
    have hj : joined (c :: cs) = (c :: cs).flatMap (slash :: ·) := if_neg (List.cons_ne_nil _ _)
    rw [← hj] at hloop
    refine ⟨_, ?_, ?_, cString_append hn (nul :: left)⟩
    · obtain ⟨a, c, rfl⟩ := List.exists_cons_of_ne_nil hne
      have ha : a ≠ nul := fun h => hc (by simp [h])
      rw [← hloop, encode_cons, List.cons_append, List.append_assoc, List.cons_append, decanonicalizePath,
        if_neg fun h => ha h.2]
    · rw [hj, List.length_append, List.length_append]
      simp [encode]

lemma keptNames_canonical (hcs : ∀ c ∈ cs, CanonicalName c) : keptNames cs = cs := by
  have hkept : kept cs = cs := by
    induction cs with
    | nil => rfl
    | cons c cs ih =>
      have hd : cs.head? ≠ some dotDot := by
        intro hd
        have hc := hcs dotDot (List.mem_cons_of_mem _ (List.mem_of_mem_head? hd))
        exact hc.inner (List.infix_refl _)
      rw [kept, if_neg hd, ih fun d hd => hcs d (List.mem_cons_of_mem _ hd)]
  rw [keptNames, hkept]
  clear hkept
  induction cs with
  | nil => rfl
  | cons c cs ih =>
    have hc := hcs c List.mem_cons_self
    rw [List.flatMap_cons, ih fun d hd => hcs d (List.mem_cons_of_mem _ hd), stripDots_eq_self.mpr hc.head,
      names_of_notMem hc.slash, if_neg hc.ne_nil]
    rfl

lemma canonicalComponents_joined (hcs : ∀ c ∈ cs, CanonicalName c) :
    AbsolutePath (joined cs) ∧ canonicalComponents (joined cs) = cs := by
  have hpieces : keptNames (pieces (joined cs)) = cs ∧ NoInnerDotDot (joined cs) := by
    by_cases hnil : cs = []
    · subst hnil
      exact ⟨by decide, by unfold NoInnerDotDot; decide⟩
    · have hsplit : pieces (joined cs) = [] :: cs := by
        rw [joined_ne_nil hnil, pieces_slash, pieces,
          List.splitOn_intercalate slash (fun c hc => (hcs c hc).slash) hnil]
      rw [hsplit, keptNames_nil_cons, keptNames_canonical hcs, NoInnerDotDot, hsplit]
      refine ⟨rfl, fun s hs => .inr ?_⟩
      rcases List.mem_cons.mp hs with rfl | hs
      · decide
      · exact (hcs s hs).inner
  have hp : AbsolutePath (joined cs) := by
    refine ⟨?_, nul_notMem_joined fun c hc => (hcs c hc).nul⟩
    obtain _ | ⟨c, cs⟩ := cs
    · rfl
    · rfl
  obtain ⟨cpath, hc, hk⟩ := @canonicalizePath_keptNames _ (fun _ => true) hp.absolute hp.terminated rfl
  refine ⟨hp, ?_⟩
  rw [canonicalComponents, hc]
  exact (hk hpieces.2).trans hpieces.1

end Joined

section Length

variable {buf buf' cpath : Buffer} {path : CString} {malloc : ℕ → Bool} {fuel src start last : ℕ}

lemma length_memset {dst n : ℕ} {c : UInt8} (h : memset buf dst c n = .ok buf') : buf'.length = buf.length := by
  rw [memset] at h
  split_ifs at h with hle
  cases h
  simp
  omega

lemma length_memmove {dst off n : ℕ} (h : memmove buf dst off n = .ok buf') : buf'.length = buf.length := by
  rw [memmove] at h
  split_ifs at h with hle
  cases h
  simp
  omega

lemma length_store {i : ℕ} {c : UInt8} (h : store buf i c = .ok buf') : buf'.length = buf.length := by
  rw [store] at h
  split_ifs at h
  cases h
  exact List.length_set

lemma length_handleDotDot (h : handleDotDot fuel buf src start last = .ok buf') : buf'.length = buf.length := by
  induction fuel generalizing buf src start last with
  | zero => cases h
  | succ fuel ih =>
    obtain ⟨c, -, h⟩ := bind_eq_ok.mp h
    dsimp only at h
    split_ifs at h
    · cases h
      rfl
    all_goals try exact ih h
    all_goals
      obtain ⟨d, -, h⟩ := bind_eq_ok.mp h
      split_ifs at h
      · exact ih h
      · obtain ⟨buf₁, hset, h⟩ := bind_eq_ok.mp h
        exact (ih h).trans (length_memset hset)

lemma length_handleSlashDot (h : handleSlashDot fuel buf src = .ok buf') : buf'.length = buf.length := by
  induction fuel generalizing buf src with
  | zero => cases h
  | succ fuel ih =>
    obtain ⟨c, -, h⟩ := bind_eq_ok.mp h
    split_ifs at h
    · cases h
      rfl
    · obtain ⟨d, -, h⟩ := bind_eq_ok.mp h
      split_ifs at h
      · cases h
        rfl
      · obtain ⟨buf₁, hstore, h⟩ := bind_eq_ok.mp h
        exact (ih h).trans (length_store hstore)
      · exact ih h

lemma length_collapseSlashes (h : collapseSlashes fuel buf src = .ok buf') : buf'.length = buf.length := by
  induction fuel generalizing buf src with
  | zero => cases h
  | succ fuel ih =>
    obtain ⟨c, -, h⟩ := bind_eq_ok.mp h
    split_ifs at h
    · cases h
      rfl
    · exact ih h
    · obtain ⟨count, -, h⟩ := bind_eq_ok.mp h
      split_ifs at h
      · exact ih h
      · obtain ⟨-, h⟩ := kassert_bind_eq_ok.mp h
        obtain ⟨buf₁, hmove, h⟩ := bind_eq_ok.mp h
        exact (ih h).trans (length_memmove hmove)

lemma length_canonicalizePath (h : canonicalizePath malloc path = .ok (some cpath)) :
    cpath.length = (skipSlashes path).length + 2 := by
  rw [canonicalizePath] at h
  dsimp only at h
  split_ifs at h
  · obtain ⟨buf₁, h₁, h⟩ := bind_eq_ok.mp h
    obtain ⟨buf₂, h₂, h⟩ := bind_eq_ok.mp h
    obtain ⟨buf₃, h₃, h⟩ := bind_eq_ok.mp h
    obtain ⟨n, -, h⟩ := bind_eq_ok.mp h
    obtain ⟨buf₄, h₄, h⟩ := bind_eq_ok.mp h
    obtain ⟨buf₅, h₅, h⟩ := bind_eq_ok.mp h
    cases h
    rw [length_store h₅, length_store h₄, List.length_append, List.length_map, ← List.length_append,
      List.take_append_drop, length_collapseSlashes h₃, length_handleSlashDot h₂, length_handleDotDot h₁]
    simp
  · cases h

end Length

/-- The block has the bytes that were asked for, and holds a NUL, the components with NULs between them and two
NULs at the end. -/
structure WellFormed (path : CString) (cpath : Buffer) (cs : List CString) : Prop where
  length : cpath.length = (skipSlashes path).length + 2
  layout : ∃ left, cpath = encode cs ++ nul :: nul :: left
  names : ∀ c ∈ cs, c ≠ [] ∧ nul ∉ c ∧ c ≠ [dot] ∧ c ≠ dotDot

/-- The canonicalized path, and the string that `decanonicalize_path` makes of it, which has the same components. -/
theorem canonicalizePath_stable {path : CString} {malloc : ℕ → Bool} (hp : AbsolutePath path)
    (hm : malloc ((skipSlashes path).length + 2) = true) :
    ∃ cpath cs text, canonicalizePath malloc path = .ok (some cpath) ∧ WellFormed path cpath cs ∧
      decanonicalizePath cpath = .ok text ∧ text.length = cpath.length ∧
      (cs = [] → cString text = [slash]) ∧ AbsolutePath (cString text) ∧
      ∀ malloc' : ℕ → Bool, malloc' ((skipSlashes (cString text)).length + 2) = true →
        ∃ again, canonicalizePath malloc' (cString text) = .ok (some again) ∧ WellFormed (cString text) again cs := by
  obtain ⟨cpath, hc, he, hcs⟩ := canonicalizePath_components hp hm
  obtain ⟨text, htext, hlen, hstring⟩ := he.decanonicalize
  obtain ⟨habs, hagain⟩ := canonicalComponents_joined hcs
  have hnames : ∀ c ∈ canonicalComponents path, c ≠ [] ∧ nul ∉ c ∧ c ≠ [dot] ∧ c ≠ dotDot := by
    intro c hc
    have hname := hcs c hc
    refine ⟨hname.ne_nil, hname.nul, ?_, ?_⟩
    · rintro rfl
      exact hname.head rfl
    · rintro rfl
      exact hname.head rfl
  refine ⟨cpath, canonicalComponents path, text, hc, ⟨length_canonicalizePath hc, he.layout, hnames⟩, htext, hlen,
    fun hnil => ?_, hstring ▸ habs, fun malloc' hm' => ?_⟩
  · rw [hstring, hnil]
    rfl
  · rw [hstring] at hm' ⊢
    obtain ⟨again, hc', he', -⟩ := canonicalizePath_components habs hm'
    rw [hagain] at he'
    exact ⟨again, hc', ⟨length_canonicalizePath hc', he'.layout, hnames⟩⟩

/-- `//a/./.b/../c.d/`. -/
def untidyPath : CString :=
  [slash, slash, 0x61, slash, dot, slash, dot, 0x62, slash, dot, dot, slash, 0x63, dot, 0x64, slash]

theorem canonicalizePath_stable_untidy : ∃ cpath cs text,
    canonicalizePath (fun _ => true) untidyPath = .ok (some cpath) ∧ WellFormed untidyPath cpath cs ∧
      decanonicalizePath cpath = .ok text ∧ AbsolutePath (cString text) := by
  obtain ⟨cpath, cs, text, hc, hw, ht, -, -, ha, -⟩ :=
    @canonicalizePath_stable untidyPath (fun _ => true) ⟨rfl, by decide⟩ rfl
  exact ⟨cpath, cs, text, hc, hw, ht, ha⟩

end Pi0Os.Vfs
