import Pi0Os.Vfs.CanonicalizePath

/-! What each pass of `canonicalize_path` does to the text of a path, as a function of
the text, and the proof that the pass over the block computes it. -/

namespace Pi0Os.Vfs

open Kernel Byte Buffer

def slashes (n : ℕ) : CString := List.replicate n slash

/-- The text after the `..` pass met `rest`: `v` is the separator and the component
before the current one, `y` what the pass has seen of the current one. -/
def eraseDotDot (v y : CString) : CString → CString
  | [] => v ++ slash :: y
  | c :: rest =>
    if c = slash then v ++ eraseDotDot (slash :: y) [] rest
    else if c = dot ∧ rest.head? = some dot then
      eraseDotDot (slashes v.length) (slashes (y.length + 1) ++ [dot]) rest.tail
    else eraseDotDot v (y ++ [c]) rest
termination_by rest => rest.length

/-- The text after the `..` pass met `rest` with no separator before it: `y` is what the pass has seen. -/
def eraseDotDotFirst (y : CString) : CString → CString
  | [] => y
  | c :: rest =>
    if c = slash then eraseDotDot y [] rest
    else if c = dot ∧ rest.head? = some dot then eraseDotDotFirst (slashes (y.length + 1) ++ [dot]) rest.tail
    else eraseDotDotFirst (y ++ [c]) rest
termination_by rest => rest.length

def eraseSlashDot : CString → CString
  | c :: d :: rest =>
    if c = slash ∧ d = dot then slash :: eraseSlashDot (slash :: rest)
    else c :: eraseSlashDot (d :: rest)
  | rest => rest
termination_by rest => rest.length

def squeezeSlashes : CString → CString
  | [] => []
  | c :: rest =>
    if c = slash then slash :: squeezeSlashes (rest.dropWhile (· = slash))
    else c :: squeezeSlashes rest
termination_by rest => rest.length
decreasing_by
  · exact Nat.lt_succ_of_le (List.dropWhile_suffix _).length_le
  · simp

lemma load_succ (pre : Buffer) {r : Buffer} {c d : UInt8} (hd : d ≠ nul) :
    ∃ e, load (pre ++ c :: (r ++ [nul, nul])) (pre.length + 1) = .ok e ∧ (e = d ↔ r.head? = some d) := by
  cases r with
  | nil => exact ⟨nul, load_mid_succ, by simpa using hd.symm⟩
  | cons e r => exact ⟨e, load_mid_succ, by simp⟩

section Steps

variable {fuel src start last : ℕ} {cpath : Buffer} {c : UInt8}

lemma handleDotDot_nul (hc : load cpath src = .ok nul) :
    handleDotDot (fuel + 1) cpath src start last = .ok cpath := by
  simp [handleDotDot, hc]

lemma handleDotDot_slash (hc : load cpath src = .ok slash) :
    handleDotDot (fuel + 1) cpath src start last = handleDotDot fuel cpath (src + 1) last src := by
  simp [handleDotDot, hc]

lemma handleDotDot_skip (hc : load cpath src = .ok c) (hn : c ≠ nul) (hs : c ≠ slash) {d : UInt8}
    (hd : load cpath (src + 1) = .ok d) (hp : ¬ (c = dot ∧ d = dot)) :
    handleDotDot (fuel + 1) cpath src start last = handleDotDot fuel cpath (src + 1) start last := by
  by_cases hcd : c = dot
  · have hdd : d ≠ dot := fun h => hp ⟨hcd, h⟩
    simp [handleDotDot, hc, hd, hcd, hdd]
  · simp [handleDotDot, hc, hn, hs, hcd]

lemma handleDotDot_pair (hc : load cpath src = .ok dot) (hd : load cpath (src + 1) = .ok dot) :
    handleDotDot (fuel + 1) cpath src start last =
      (memset cpath start slash (src + 1 - start) >>= fun cpath =>
        handleDotDot fuel cpath (src + 2) start last) := by
  simp [handleDotDot, hc, hd]

end Steps

/-- The block during the `..` pass is `pre`, finished, then `v`, the separator and `y` before
`src`, and the rest of the path after it. -/
lemma handleDotDot_text {v y rest : CString} (hn : nul ∉ rest) (pre : Buffer) {fuel src : ℕ}
    (hf : rest.length < fuel) (hs : src = (pre ++ (v ++ slash :: y)).length) :
    handleDotDot fuel (pre ++ (v ++ slash :: y) ++ (rest ++ [nul, nul])) src pre.length
        (pre.length + v.length) = .ok (pre ++ eraseDotDot v y rest ++ [nul, nul]) := by
  subst hs
  obtain ⟨fuel, rfl⟩ : ∃ k, fuel = k + 1 := ⟨fuel - 1, by omega⟩
  induction v, y, rest using eraseDotDot.induct generalizing pre fuel with
  | case1 v y =>
    rw [handleDotDot_nul (by rw [List.nil_append, load_mid]), eraseDotDot]
    rfl
  | case2 v y rest ih =>
    obtain ⟨fuel, rfl⟩ : ∃ k, fuel = k + 1 := ⟨fuel - 1, by simp at hf; omega⟩
    rw [List.cons_append, handleDotDot_slash load_mid, eraseDotDot, if_pos rfl]
    have hr := ih (fun h => hn (List.mem_cons_of_mem _ h)) (pre ++ v) fuel (by simpa using hf)
    simpa [add_assoc] using hr
  | case3 v y c rest hc hd ih =>
    obtain ⟨rfl, hd⟩ := hd
    obtain ⟨rest, rfl⟩ := List.head?_eq_some_iff.mp hd
    rw [List.cons_append, List.cons_append, handleDotDot_pair load_mid load_mid_succ]
    have hm := memset_mid (c := slash) (r := dot :: (rest ++ [nul, nul])) pre
      (v ++ slash :: y ++ [dot])
    have hl : (pre ++ (v ++ slash :: y)).length + 1 - pre.length = (v ++ slash :: y ++ [dot]).length := by
      simp
      omega
    have hv : List.replicate (v ++ slash :: y ++ [dot]).length slash =
        slashes v.length ++ slash :: slashes (y.length + 1) := by
      simp [slashes, ← List.replicate_succ]
    rw [hl, show pre ++ (v ++ slash :: y) ++ dot :: dot :: (rest ++ [nul, nul]) =
      pre ++ (v ++ slash :: y ++ [dot] ++ dot :: (rest ++ [nul, nul])) by simp, hm, ok_bind, hv]
    obtain ⟨fuel, rfl⟩ : ∃ k, fuel = k + 1 := ⟨fuel - 1, by simp at hf; omega⟩
    have hr := ih (fun h => hn (by simp_all)) pre fuel (by simp at hf ⊢; omega)
    rw [eraseDotDot, if_neg (by simp), if_pos (by simp)]
    simpa [slashes, add_assoc] using hr
  | case4 v y c rest hc hd ih =>
    obtain ⟨fuel, rfl⟩ : ∃ k, fuel = k + 1 := ⟨fuel - 1, by simp at hf; omega⟩
    obtain ⟨d, hl, hd'⟩ := load_succ (pre ++ (v ++ slash :: y)) (c := c) (r := rest)
      (d := dot) (by decide)
    have hcn : c ≠ nul := fun h => hn (by simp [h])
    rw [List.cons_append, handleDotDot_skip load_mid hcn hc hl (by simpa only [hd'] using hd),
      eraseDotDot, if_neg hc, if_neg hd]
    have hr := ih (fun h => hn (List.mem_cons_of_mem _ h)) pre fuel (by simpa using hf)
    simpa [add_assoc] using hr

/-- Before the first separator the component before the current one is the empty one at the start of the block. -/
lemma handleDotDot_first {y rest : CString} (hn : nul ∉ rest) {fuel : ℕ} (hf : rest.length < fuel) :
    handleDotDot fuel (y ++ (rest ++ [nul, nul])) y.length 0 0 = .ok (eraseDotDotFirst y rest ++ [nul, nul]) := by
  obtain ⟨fuel, rfl⟩ : ∃ k, fuel = k + 1 := ⟨fuel - 1, by omega⟩
  induction y, rest using eraseDotDotFirst.induct generalizing fuel with
  | case1 y =>
    rw [handleDotDot_nul (by rw [List.nil_append, load_mid]), eraseDotDotFirst]
    rfl
  | case2 y rest =>
    have hr := @handleDotDot_text y [] rest (fun h => hn (List.mem_cons_of_mem _ h)) [] fuel _ (by simpa using hf) rfl
    rw [List.cons_append, handleDotDot_slash load_mid, eraseDotDotFirst, if_pos rfl]
    simpa using hr
  | case3 y c rest hc hd ih =>
    obtain ⟨rfl, hd⟩ := hd
    obtain ⟨rest, rfl⟩ := List.head?_eq_some_iff.mp hd
    have hm := memset_mid (c := slash) (r := dot :: (rest ++ [nul, nul])) [] (y ++ [dot])
    simp only [List.nil_append, List.length_nil, List.length_append, List.length_singleton] at hm
    obtain ⟨fuel, rfl⟩ : ∃ k, fuel = k + 1 := ⟨fuel - 1, by simp at hf; omega⟩
    have hr := ih (fun h => hn (by simp_all)) fuel (by simp at hf ⊢; omega)
    rw [List.cons_append, List.cons_append, handleDotDot_pair load_mid load_mid_succ, Nat.sub_zero,
      show y ++ dot :: dot :: (rest ++ [nul, nul]) = y ++ [dot] ++ dot :: (rest ++ [nul, nul]) by simp, hm, ok_bind,
      eraseDotDotFirst, if_neg (by simp), if_pos (by simp)]
    simpa [slashes, add_assoc] using hr
  | case4 y c rest hc hd ih =>
    obtain ⟨fuel, rfl⟩ : ∃ k, fuel = k + 1 := ⟨fuel - 1, by simp at hf; omega⟩
    obtain ⟨d, hl, hd'⟩ := load_succ y (c := c) (r := rest) (d := dot) (by decide)
    have hcn : c ≠ nul := fun h => hn (by simp [h])
    rw [List.cons_append, handleDotDot_skip load_mid hcn hc hl (by simpa only [hd'] using hd), eraseDotDotFirst,
      if_neg hc, if_neg hd]
    have hr := ih (fun h => hn (List.mem_cons_of_mem _ h)) fuel (by simpa using hf)
    simpa using hr

lemma handleSlashDot_text {rest : CString} (hn : nul ∉ rest) (pre : Buffer) {fuel : ℕ}
    (hf : rest.length < fuel) :
    handleSlashDot fuel (pre ++ (rest ++ [nul, nul])) pre.length =
      .ok (pre ++ (eraseSlashDot rest ++ [nul, nul])) := by
  obtain ⟨fuel, rfl⟩ : ∃ k, fuel = k + 1 := ⟨fuel - 1, by omega⟩
  induction rest using eraseSlashDot.induct generalizing pre fuel with
  | case1 c d rest hcd ih =>
    obtain ⟨fuel, rfl⟩ : ∃ k, fuel = k + 1 := ⟨fuel - 1, by simp at hf; omega⟩
    obtain ⟨rfl, rfl⟩ := hcd
    have hr := ih (fun h => hn (by simp_all)) (pre ++ [slash]) fuel (by simpa using hf)
    rw [handleSlashDot]
    simpa [eraseSlashDot] using hr
  | case2 c d rest hcd ih =>
    obtain ⟨fuel, rfl⟩ : ∃ k, fuel = k + 1 := ⟨fuel - 1, by simp at hf; omega⟩
    have hc : c ≠ nul := fun h => hn (by simp [h])
    have hd : d ≠ nul := fun h => hn (by simp [h])
    have hr := ih (fun h => hn (List.mem_cons_of_mem _ h)) (pre ++ [c]) fuel (by simpa using hf)
    rw [handleSlashDot]
    simpa [eraseSlashDot, hcd, hc, hd] using hr
  | case3 rest h =>
    obtain _ | ⟨c, _ | ⟨d, rest⟩⟩ := rest
    · simp [handleSlashDot, eraseSlashDot]
    · simp [handleSlashDot, eraseSlashDot]
    · exact absurd rfl (h c d rest)

lemma countSlashes_text {r : Buffer} {c : UInt8} (rest : CString) (hc : c ≠ slash) :
    countSlashes (rest ++ c :: r) = .ok (rest.takeWhile (· = slash)).length := by
  induction rest with
  | nil => simp [countSlashes, hc]
  | cons d rest ih =>
    by_cases hd : d = slash
    · simp [countSlashes, hd, ih]
    · simp [countSlashes, hd]

/-- What the collapse leaves behind the terminators is arbitrary. -/
lemma collapseSlashes_text {rest : CString} (hn : nul ∉ rest) (pre left : Buffer) {fuel : ℕ}
    (hf : rest.length < fuel) :
    ∃ left', collapseSlashes fuel (pre ++ (rest ++ nul :: nul :: left)) pre.length =
      .ok (pre ++ (squeezeSlashes rest ++ nul :: nul :: left')) := by
  obtain ⟨fuel, rfl⟩ : ∃ k, fuel = k + 1 := ⟨fuel - 1, by omega⟩
  induction rest using squeezeSlashes.induct generalizing pre left fuel with
  | case1 => exact ⟨left, by simp [collapseSlashes, squeezeSlashes]⟩
  | case2 rest ih =>
    obtain ⟨fuel, rfl⟩ : ∃ k, fuel = k + 1 := ⟨fuel - 1, by simp at hf; omega⟩
    have hd : (rest.dropWhile (· = slash)).length ≤ rest.length := (List.dropWhile_suffix _).length_le
    have hr := fun left => ih (fun h => hn (List.mem_cons_of_mem _ ((List.dropWhile_suffix _).mem h)))
      (pre ++ [slash]) left fuel (by simp at hf; omega)
    have hc : countSlashes ((pre ++ (slash :: rest ++ nul :: nul :: left)).drop pre.length) =
        .ok ((rest.takeWhile (· = slash)).length + 1) := by
      rw [List.drop_left, countSlashes_text _ nul_ne_slash, List.takeWhile_cons]
      simp
    rw [collapseSlashes, List.cons_append, load_mid, ok_bind, if_neg slash_ne_nul, if_neg (by simp),
      ← List.cons_append, hc, ok_bind]
    have hw := List.takeWhile_append_dropWhile (p := (· = slash)) (l := rest)
    rcases Nat.eq_zero_or_pos (rest.takeWhile (· = slash)).length with hz | hz
    · obtain ⟨left', hr⟩ := hr left
      rw [List.length_eq_zero_iff.mp hz, List.nil_append] at hw
      refine ⟨left', ?_⟩
      rw [if_pos (by omega), squeezeSlashes, if_pos rfl]
      simpa [hw] using hr
    · obtain ⟨left₁, hm⟩ := memmove_down (pre ++ [slash]) (rest.takeWhile (· = slash))
        (rest.dropWhile (· = slash) ++ nul :: nul :: left)
      obtain ⟨left', hr⟩ := hr (left ++ left₁)
      refine ⟨left', ?_⟩
      rw [if_neg (by omega), kassert_of (by omega), ok_bind, squeezeSlashes, if_pos rfl]
      have hb : pre ++ (slash :: rest ++ nul :: nul :: left) = pre ++ [slash] ++
          (rest.takeWhile (· = slash) ++ (rest.dropWhile (· = slash) ++ nul :: nul :: left)) := by
        rw [← List.append_assoc (rest.takeWhile _), hw]
        simp
      have hl : (pre ++ (slash :: rest ++ nul :: nul :: left)).length -
          (pre.length + ((rest.takeWhile (· = slash)).length + 1)) =
          (rest.dropWhile (· = slash) ++ nul :: nul :: left).length := by
        rw [hb]
        simp
        omega
      rw [hl, hb, show pre.length + ((rest.takeWhile (· = slash)).length + 1) =
        (pre ++ [slash]).length + (rest.takeWhile (· = slash)).length by simp; omega,
        show pre.length + 1 = (pre ++ [slash]).length by simp, hm, ok_bind]
      simpa using hr
  | case3 c rest hc ih =>
    obtain ⟨fuel, rfl⟩ : ∃ k, fuel = k + 1 := ⟨fuel - 1, by simp at hf; omega⟩
    have hcn : c ≠ nul := fun h => hn (by simp [h])
    obtain ⟨left', hr⟩ := ih (fun h => hn (List.mem_cons_of_mem _ h)) (pre ++ [c]) left fuel
      (by simpa using hf)
    refine ⟨left', ?_⟩
    rw [collapseSlashes]
    simpa [squeezeSlashes, hc, hcn] using hr

lemma nul_notMem_eraseDotDot {v y rest : CString} (hv : nul ∉ v) (hy : nul ∉ y) (hr : nul ∉ rest) :
    nul ∉ eraseDotDot v y rest := by
  induction v, y, rest using eraseDotDot.induct with
  | case1 v y => simp [eraseDotDot, hv, hy]
  | case2 v y rest ih =>
    rw [eraseDotDot, if_pos rfl, List.mem_append]
    exact not_or.mpr ⟨hv, ih (by simpa using hy) (by simp) (fun h => hr (List.mem_cons_of_mem _ h))⟩
  | case3 v y c rest hc hd ih =>
    rw [eraseDotDot, if_neg hc, if_pos hd]
    refine ih (by simp [slashes]) (by simp [slashes]) (fun h => hr ?_)
    exact List.mem_cons_of_mem _ (List.mem_of_mem_tail h)
  | case4 v y c rest hc hd ih =>
    rw [eraseDotDot, if_neg hc, if_neg hd]
    simp only [List.mem_cons, not_or] at hr
    exact ih hv (by simp [hy, hr.1]) hr.2

lemma nul_notMem_eraseDotDotFirst {y rest : CString} (hy : nul ∉ y) (hr : nul ∉ rest) :
    nul ∉ eraseDotDotFirst y rest := by
  induction y, rest using eraseDotDotFirst.induct with
  | case1 y => simpa [eraseDotDotFirst] using hy
  | case2 y rest =>
    rw [eraseDotDotFirst, if_pos rfl]
    exact nul_notMem_eraseDotDot hy (by simp) (fun h => hr (List.mem_cons_of_mem _ h))
  | case3 y c rest hc hd ih =>
    rw [eraseDotDotFirst, if_neg hc, if_pos hd]
    exact ih (by simp [slashes]) fun h => hr (List.mem_cons_of_mem _ (List.mem_of_mem_tail h))
  | case4 y c rest hc hd ih =>
    rw [eraseDotDotFirst, if_neg hc, if_neg hd]
    simp only [List.mem_cons, not_or] at hr
    exact ih (by simp [hy, hr.1]) hr.2

lemma nul_notMem_eraseSlashDot {rest : CString} (hr : nul ∉ rest) : nul ∉ eraseSlashDot rest := by
  induction rest using eraseSlashDot.induct with
  | case1 c d rest hcd ih =>
    rw [eraseSlashDot, if_pos hcd]
    simp_all
  | case2 c d rest hcd ih =>
    rw [eraseSlashDot, if_neg hcd]
    simp_all
  | case3 rest h => rwa [eraseSlashDot.eq_2 _ h]

lemma nul_notMem_squeezeSlashes {rest : CString} (hr : nul ∉ rest) : nul ∉ squeezeSlashes rest := by
  induction rest using squeezeSlashes.induct with
  | case1 => simp [squeezeSlashes]
  | case2 rest ih =>
    have hd := ih (fun h => hr (List.mem_cons_of_mem _ ((List.dropWhile_suffix _).mem h)))
    simp [squeezeSlashes, hd]
  | case3 c rest hc ih =>
    simp only [List.mem_cons, not_or] at hr
    simp [squeezeSlashes, hc, hr.1, ih hr.2]

/-- The text of a path `/q` before its separators become NULs. -/
def canonicalText (q : CString) : CString :=
  squeezeSlashes (eraseSlashDot (eraseDotDot [] [] q))

lemma skipSlashes_absolute (q : CString) : ∃ q', skipSlashes (slash :: q) = slash :: q' ∧
    ∃ n, slash :: q = slashes n ++ slash :: q' := by
  induction q with
  | nil => exact ⟨[], rfl, 0, rfl⟩
  | cons c q ih =>
    by_cases hc : c = slash
    · obtain ⟨q', hq, n, hn⟩ := ih
      exact ⟨q', by simp [skipSlashes, hc, hq], n + 1, by simp [hc, hn, slashes, List.replicate_succ]⟩
    · exact ⟨c :: q, by simp [skipSlashes, hc], 0, rfl⟩

lemma skipSlashes_suffix (path : CString) : skipSlashes path <:+ path := by
  induction path using skipSlashes.induct with
  | case1 a b path h ih =>
    rw [skipSlashes, if_pos h]
    exact ih.trans (List.suffix_cons _ _)
  | case2 a b path h => rw [skipSlashes, if_neg h]
  | case3 path h => rw [skipSlashes.eq_2 _ h]

/-- `canonicalize_path` returns for every string, absolute or not. -/
lemma canonicalizePath_text {path : CString} (hn : nul ∉ path) {malloc : ℕ → Bool}
    (hm : malloc ((skipSlashes path).length + 2) = true) :
    ∃ left, canonicalizePath malloc path = .ok (some
      ((squeezeSlashes (eraseSlashDot (eraseDotDotFirst [] (skipSlashes path)))).map nulOfSlash ++
        nul :: nul :: left)) := by
  have hn₀ : nul ∉ skipSlashes path := fun h => hn ((skipSlashes_suffix path).mem h)
  have h₁ := @handleDotDot_first [] (skipSlashes path) hn₀ ((skipSlashes path).length + 2) (by omega)
  have hn₁ := @nul_notMem_eraseDotDotFirst [] _ (by simp) hn₀
  have h₂ := handleSlashDot_text hn₁ [] (Nat.lt_add_of_pos_right (k := 2) (by omega))
  have hn₂ := nul_notMem_eraseSlashDot hn₁
  obtain ⟨left, h₃⟩ := collapseSlashes_text hn₂ [] [] (Nat.lt_add_of_pos_right (k := 2) (by omega))
  have hn₃ := nul_notMem_squeezeSlashes hn₂
  simp only [List.nil_append, List.length_nil] at h₁ h₂ h₃
  have hl (s : CString) : (s ++ [nul, nul]).length = s.length + 2 := by simp
  refine ⟨left, ?_⟩
  rw [canonicalizePath]
  simp only [hm, not_true_eq_false, if_false]
  rw [hl, h₁, ok_bind, hl, h₂, ok_bind, hl, h₃, ok_bind, strlen_append hn₃, ok_bind, List.take_left, List.drop_left,
    ← List.length_map nulOfSlash, store_mid, ok_bind, store_mid_succ]
  rfl

lemma canonicalizePath_absolute {q q' : CString} (hq : skipSlashes (slash :: q) = slash :: q')
    (hn : nul ∉ q') {malloc : ℕ → Bool} (hm : malloc (q'.length + 3) = true) :
    ∃ left, canonicalizePath malloc (slash :: q) =
      .ok (some ((canonicalText q').map nulOfSlash ++ nul :: nul :: left)) := by
  obtain ⟨q'', hq'', n, hpath⟩ := skipSlashes_absolute q
  obtain rfl : q'' = q' := (List.cons.inj (hq''.symm.trans hq)).2
  have hn' : nul ∉ slash :: q := by
    rw [hpath]
    simp [slashes, hn]
  obtain ⟨left, hc⟩ := @canonicalizePath_text (slash :: q) hn' malloc (by rwa [hq])
  rw [hq, eraseDotDotFirst, if_pos rfl] at hc
  exact ⟨left, hc⟩

end Pi0Os.Vfs
