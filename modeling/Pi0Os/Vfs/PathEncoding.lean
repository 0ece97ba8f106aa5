import Pi0Os.Library.Runs
import Pi0Os.Vfs.PathPasses

/-! The layout of a canonicalized path: each component behind a NUL, and two NULs at the
end. What reads such a block, and that `canonicalize_path` writes one. -/

namespace Pi0Os.Vfs

open Kernel Library Byte Buffer

def pieces (path : CString) : List CString := path.splitOn slash

def names (text : CString) : List CString := (pieces text).filter (· ≠ [])

lemma mem_pieces {path s : CString} (h : s ∈ pieces path) : slash ∉ s ∧ s ⊆ path := by
  induction path generalizing s with
  | nil => simp_all [pieces]
  | cons c path ih =>
    obtain ⟨t, segs, ht⟩ := List.exists_cons_of_ne_nil (List.splitOn_ne_nil slash path)
    rw [pieces, List.splitOn_cons_eq_if_modifyHead, ht] at h
    have hmem : ∀ u ∈ t :: segs, slash ∉ u ∧ u ⊆ path := fun u hu => ih (by rwa [pieces, ht])
    by_cases hc : c = slash
    · rw [if_pos (by simpa using hc)] at h
      rcases List.mem_cons.mp h with rfl | h
      · simp
      · exact ⟨(hmem s h).1, List.subset_cons_of_subset c (hmem s h).2⟩
    · rw [if_neg (by simpa using hc)] at h
      rcases List.mem_cons.mp h with rfl | h
      · obtain ⟨hs, hsub⟩ := hmem t List.mem_cons_self
        exact ⟨by simpa [Ne.symm hc] using hs, List.cons_subset_cons c hsub⟩
      · obtain ⟨hs, hsub⟩ := hmem s (List.mem_cons_of_mem _ h)
        exact ⟨hs, List.subset_cons_of_subset c hsub⟩

section Names

variable {s v w : CString}

lemma names_of_notMem (hs : slash ∉ s) : names s = if s = [] then [] else [s] := runs_of_notMem hs

@[simp] lemma names_nil : names [] = [] := names_of_notMem (by simp)

lemma names_append_slash (v w : CString) : names (v ++ slash :: w) = names v ++ names w := runs_append_sep slash v w

@[simp] lemma names_slash (w : CString) : names (slash :: w) = names w := runs_sep w

lemma names_dropSlashes (w : CString) : names (w.dropWhile (· = slash)) = names w := by
  induction w with
  | nil => rfl
  | cons c w ih =>
    by_cases hc : c = slash
    · simp [hc, ih]
    · simp [hc]

end Names

def encode (cs : List CString) : Buffer := cs.flatMap (fun c => nul :: c)

structure Encodes (cpath : Buffer) (cs : List CString) : Prop where
  valid : ∀ c ∈ cs, c ≠ [] ∧ nul ∉ c
  layout : ∃ left, cpath = encode cs ++ nul :: nul :: left

section Layout

variable {c cur : CString} {cs : List CString} {cpath r : Buffer}

@[simp] lemma encode_nil : encode [] = [] := rfl

@[simp] lemma encode_cons (c : CString) (cs : List CString) : encode (c :: cs) = nul :: (c ++ encode cs) := rfl

lemma encode_append (cs ds : List CString) : encode (cs ++ ds) = encode cs ++ encode ds :=
  List.flatMap_append

lemma componentsFrom_append (hc : nul ∉ c) : componentsFrom cur (c ++ r) = componentsFrom (cur ++ c) r := by
  induction c generalizing cur with
  | nil => simp
  | cons d c ih =>
    simp only [List.mem_cons, not_or] at hc
    simp [componentsFrom, Ne.symm hc.1, ih hc.2]

lemma componentsFrom_encode (hcs : ∀ c ∈ cs, c ≠ [] ∧ nul ∉ c) (hcur : cur ≠ []) (left : Buffer) :
    componentsFrom cur (encode cs ++ nul :: nul :: left) = cur :: cs := by
  induction cs generalizing cur with
  | nil => simp [componentsFrom, hcur]
  | cons c cs ih =>
    obtain ⟨hne, hn⟩ := hcs c List.mem_cons_self
    have hr := ih (fun d hd => hcs d (List.mem_cons_of_mem c hd)) hne
    simp only [encode_cons, List.cons_append, List.append_assoc, componentsFrom, ne_eq, not_true_eq_false,
      if_false, hcur, componentsFrom_append hn, List.nil_append, hr]

lemma encodedComponents_encode (hcs : ∀ c ∈ cs, c ≠ [] ∧ nul ∉ c) (left : Buffer) :
    encodedComponents (encode cs ++ nul :: nul :: left) = cs := by
  cases cs with
  | nil => simp [encodedComponents, components, componentsFrom]
  | cons c cs =>
    obtain ⟨hne, hn⟩ := hcs c List.mem_cons_self
    have hr := componentsFrom_encode (fun d hd => hcs d (List.mem_cons_of_mem c hd)) hne left
    simpa [encodedComponents, components, componentsFrom_append hn] using hr

lemma Encodes.components (h : Encodes cpath cs) : encodedComponents cpath = cs := by
  obtain ⟨left, rfl⟩ := h.layout
  exact encodedComponents_encode h.valid left

lemma canonicalizedPathStrlen_component (hc : nul ∉ c) (n : ℕ)
    (hr : canonicalizedPathStrlen r = .ok n) (hne : r ≠ []) :
    canonicalizedPathStrlen (c ++ r) = .ok (c.length + n) := by
  obtain ⟨d, r, rfl⟩ := List.exists_cons_of_ne_nil hne
  induction c with
  | nil => simpa using hr
  | cons a c ih =>
    simp only [List.mem_cons, not_or] at hc
    have hi := ih hc.2
    cases c with
    | nil => simp [canonicalizedPathStrlen, Ne.symm hc.1, hr, add_comm]
    | cons b c =>
      rw [List.cons_append] at hi
      simp [canonicalizedPathStrlen, Ne.symm hc.1, hi]
      omega

lemma Encodes.strlen (h : Encodes cpath cs) : canonicalizedPathStrlen cpath = .ok (encode cs).length := by
  obtain ⟨left, rfl⟩ := h.layout
  have hv := h.valid
  clear h
  induction cs with
  | nil => simp [canonicalizedPathStrlen]
  | cons c cs ih =>
    obtain ⟨hne, hn⟩ := hv c List.mem_cons_self
    have hr := canonicalizedPathStrlen_component hn _ (ih (fun d hd => hv d (List.mem_cons_of_mem c hd)))
      (by simp)
    obtain ⟨a, c, rfl⟩ := List.exists_cons_of_ne_nil hne
    have ha : a ≠ nul := fun h => hn (by simp [h])
    simp only [encode_cons, List.cons_append, List.append_assoc] at hr ⊢
    simp [canonicalizedPathStrlen, ha, hr]
    omega

lemma components_drop {ds : List CString} (h : Encodes cpath (cs ++ ds)) :
    Vfs.components (cpath.drop ((encode cs).length + 1)) = ds := by
  obtain ⟨left, rfl⟩ := h.layout
  rw [encode_append, List.append_assoc, ← List.drop_drop, List.drop_left]
  exact encodedComponents_encode (fun c hc => h.valid c (List.mem_append_right cs hc)) left

lemma Encodes.startswith {pre : Buffer} {ds : List CString} (h : Encodes cpath cs) (hp : Encodes pre ds) :
    canonicalizedPathStartswith cpath pre = .ok (decide (encode ds <+: encode cs)) := by
  rw [canonicalizedPathStartswith, h.strlen, hp.strlen, ok_bind, ok_bind]
  by_cases hl : (encode cs).length < (encode ds).length
  · have hn : ¬ encode ds <+: encode cs := fun hpre => absurd hpre.length_le (by omega)
    simp [hl, hn]
  · obtain ⟨left, hc⟩ := h.layout
    obtain ⟨left', hd⟩ := hp.layout
    rw [if_neg hl, hc, hd, List.take_append_of_le_length (by omega), List.take_left]
    simp [List.prefix_iff_eq_take, eq_comm]

lemma encode_squeezed (text : CString) (left : Buffer) (cur : CString) (hs : slash ∉ cur)
    (hc : cur = [] → text.head? ≠ some slash) :
    ∃ left', nul :: (cur ++ ((squeezeSlashes text).map nulOfSlash ++ nul :: nul :: left)) =
      encode (names (cur ++ text)) ++ nul :: nul :: left' := by
  induction text using squeezeSlashes.induct generalizing cur with
  | case1 =>
    rw [List.append_nil, names_of_notMem hs]
    by_cases h : cur = []
    · exact ⟨nul :: left, by simp [squeezeSlashes, h]⟩
    · exact ⟨left, by simp [squeezeSlashes, h]⟩
  | case2 rest ih =>
    have hcur : cur ≠ [] := fun h => hc h rfl
    obtain ⟨left', hr⟩ := ih [] (by simp) (fun _ h => by
      have hd := List.head?_dropWhile_not (· = slash) rest
      simp [h] at hd)
    refine ⟨left', ?_⟩
    rw [names_append_slash, names_of_notMem hs, if_neg hcur, squeezeSlashes, if_pos rfl]
    simpa [nulOfSlash, names_dropSlashes] using hr
  | case3 c rest hcs ih =>
    obtain ⟨left', hr⟩ := ih (cur ++ [c]) (by simpa [hs] using Ne.symm hcs) (by simp)
    exact ⟨left', by simpa [squeezeSlashes, nulOfSlash, hcs] using hr⟩

end Layout

end Pi0Os.Vfs
