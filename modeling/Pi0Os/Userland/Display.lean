import Pi0Os.Kernel.Base

/-! The display of the graphics library, a framebuffer of rows, and the filling of a rectangle. -/

namespace Pi0Os.Userland

open Kernel

structure Display where
  width : ℤ
  height : ℤ
  framebuffer : List UInt32
  width_nonneg : 0 ≤ width
  height_nonneg : 0 ≤ height
  length_framebuffer : (framebuffer.length : ℤ) = width * height

namespace Display

def OnScreen (d : Display) (x y : ℤ) : Prop := 0 ≤ x ∧ x < d.width ∧ 0 ≤ y ∧ y < d.height

instance decidableOnScreen (d : Display) (x y : ℤ) : Decidable (d.OnScreen x y) :=
  inferInstanceAs (Decidable (_ ∧ _ ∧ _ ∧ _))

/-- The index of a pixel in the framebuffer. -/
def cell (d : Display) (x y : ℤ) : ℤ := y * d.width + x

def store (d : Display) (i : ℕ) (color : UInt32) : Display where
  width := d.width
  height := d.height
  framebuffer := d.framebuffer.set i color
  width_nonneg := d.width_nonneg
  height_nonneg := d.height_nonneg
  length_framebuffer := by rw [List.length_set, d.length_framebuffer]

/-- `*fb = color`, where `fb` points at the cell `fb`. -/
def storeAt (d : Display) (fb : ℤ) (color : UInt32) : Except Panic Display :=
  if 0 ≤ fb ∧ fb < d.framebuffer.length then .ok (d.store fb.toNat color)
  else .error (.undefined "write outside the framebuffer")

def pixel (d : Display) (x y : ℤ) : Option UInt32 := d.framebuffer[(d.cell x y).toNat]?

variable {d : Display} {x y x' y' : ℤ}

lemma cell_bounds (h : d.OnScreen x y) : 0 ≤ d.cell x y ∧ d.cell x y < d.framebuffer.length := by
  obtain ⟨hx, hx', hy, hy'⟩ := h
  have hlow : 0 ≤ y * d.width := mul_nonneg hy d.width_nonneg
  have hhigh : (y + 1) * d.width ≤ d.height * d.width := mul_le_mul_of_nonneg_right (by omega) d.width_nonneg
  rw [d.length_framebuffer, cell, mul_comm d.width]
  rw [add_mul, one_mul] at hhigh
  omega

lemma cell_inj (h : d.OnScreen x y) (h' : d.OnScreen x' y') (heq : d.cell x y = d.cell x' y') :
    x = x' ∧ y = y' := by
  have hdiv : ∀ {x y : ℤ}, d.OnScreen x y → d.cell x y / d.width = y := by
    intro x y h
    rw [cell, Int.add_comm, Int.add_mul_ediv_right x y (by have := h.1; have := h.2.1; omega),
      Int.ediv_eq_zero_of_lt h.1 h.2.1, zero_add]
  have hy : y = y' := by rw [← hdiv h, heq, hdiv h']
  rw [cell, cell, hy] at heq
  exact ⟨add_left_cancel heq, hy⟩

end Display

section FilledRect

variable (color : UInt32)

/-- `for (; x < x2; x++, fb++) *fb = color`, with `n` rounds to go. -/
def fillRow : ℕ → ℤ → Display → Except Panic Display
  | 0, _, d => .ok d
  | n + 1, fb, d => do fillRow n (fb + 1) (← d.storeAt fb color)

/-- `for (; y < y2; y++)`, with `n` rounds to go. -/
def fillRows (x1 x2 : ℤ) : ℕ → ℤ → Display → Except Panic Display
  | 0, _, d => .ok d
  | n + 1, y, d => do fillRows x1 x2 n (y + 1) (← fillRow color (x2 - x1).toNat (y * d.width + x1) d)

def drawFilledRect (d : Display) (x y w h : ℤ) : Except Panic Display :=
  let x1 := max 0 (min x (x + w))
  let x2 := min d.width (max x (x + w))
  let y1 := max 0 (min y (y + h))
  let y2 := min d.height (max y (y + h))
  fillRows color x1 x2 (y2 - y1).toNat y1 d

end FilledRect

/-- `d'` is `d` with the cells in the set coloured. -/
structure Painted (color : UInt32) (cells : Set ℤ) (d d' : Display) : Prop where
  width : d'.width = d.width
  height : d'.height = d.height
  inside : ∀ i : ℕ, (i : ℤ) ∈ cells → d'.framebuffer[i]? = some color
  outside : ∀ i : ℕ, (i : ℤ) ∉ cells → d'.framebuffer[i]? = d.framebuffer[i]?

variable {color : UInt32} {d d' d'' : Display}

lemma Painted.refl : Painted color ∅ d d := ⟨rfl, rfl, fun _ h => h.elim, fun _ _ => rfl⟩

lemma Painted.trans {cells cells' : Set ℤ} (h : Painted color cells d d') (h' : Painted color cells' d' d'') :
    Painted color (cells ∪ cells') d d'' := by
  refine ⟨h'.width.trans h.width, h'.height.trans h.height, fun i hi => ?_, fun i hi => ?_⟩
  · by_cases hi' : (i : ℤ) ∈ cells'
    · exact h'.inside i hi'
    · rw [h'.outside i hi', h.inside i (hi.resolve_right hi')]
  · rw [Set.mem_union, not_or] at hi
    rw [h'.outside i hi.2, h.outside i hi.1]

lemma storeAt_painted (color : UInt32) {fb : ℤ} (hfb : 0 ≤ fb) (hfb' : fb < d.framebuffer.length) :
    ∃ d', d.storeAt fb color = .ok d' ∧ Painted color {fb} d d' := by
  refine ⟨d.store fb.toNat color, if_pos ⟨hfb, hfb'⟩, rfl, rfl, fun i hi => ?_, fun i hi => ?_⟩
  · have hfb : fb.toNat = i := by
      rw [← Set.mem_singleton_iff.mp hi, Int.toNat_natCast]
    subst hfb
    exact List.getElem?_set_self (by omega)
  · have hne : fb.toNat ≠ i := by
      rintro rfl
      exact hi (Set.mem_singleton_iff.mpr (Int.toNat_of_nonneg hfb))
    exact List.getElem?_set_ne hne

lemma length_framebuffer_eq {cells : Set ℤ} (h : Painted color cells d d') :
    (d'.framebuffer.length : ℤ) = d.framebuffer.length := by
  rw [d'.length_framebuffer, d.length_framebuffer, h.width, h.height]

lemma fillRow_painted (color : UInt32) (n : ℕ) : ∀ {fb : ℤ} {d : Display},
    (n ≠ 0 → 0 ≤ fb ∧ fb + n ≤ d.framebuffer.length) →
    ∃ d', fillRow color n fb d = .ok d' ∧ Painted color (Set.Ico fb (fb + n)) d d' := by
  induction n with
  | zero =>
    intro fb d _
    refine ⟨d, rfl, ?_⟩
    rw [Nat.cast_zero, add_zero, Set.Ico_self]
    exact .refl
  | succ n ih =>
    intro fb d h
    obtain ⟨hfb, hend⟩ := h n.succ_ne_zero
    obtain ⟨d₁, hstore, h₁⟩ := storeAt_painted color hfb (show fb < d.framebuffer.length by omega)
    have hlen := length_framebuffer_eq h₁
    obtain ⟨d₂, hrow, h₂⟩ := ih (d := d₁) fun _ => show 0 ≤ fb + 1 ∧ fb + 1 + n ≤ d₁.framebuffer.length by omega
    have hcells : Set.Ico fb (fb + (n + 1 : ℕ)) = {fb} ∪ Set.Ico (fb + 1) (fb + 1 + n) := by
      ext i
      simp only [Set.mem_Ico, Set.mem_union, Set.mem_singleton_iff]
      omega
    refine ⟨d₂, ?_, hcells ▸ h₁.trans h₂⟩
    rw [fillRow, hstore, ok_bind, hrow]

/-- The cells of the pixels from `x1` to `x2` and from `y1` to `y2`. -/
def Display.rectCells (d : Display) (x1 x2 y1 y2 : ℤ) : Set ℤ :=
  {i | ∃ px py, x1 ≤ px ∧ px < x2 ∧ y1 ≤ py ∧ py < y2 ∧ d.cell px py = i}

lemma rowCells_eq (d : Display) (x1 x2 y : ℤ) :
    Set.Ico (y * d.width + x1) (y * d.width + x1 + (x2 - x1).toNat) = d.rectCells x1 x2 y (y + 1) := by
  ext i
  simp only [Set.mem_Ico, Display.rectCells, Set.mem_ofPred_eq, Display.cell]
  constructor
  · rintro ⟨hlo, hhi⟩
    exact ⟨i - y * d.width, y, by omega, by omega, le_rfl, by omega, by ring⟩
  · rintro ⟨px, py, hx, hx', hy, hy', rfl⟩
    obtain rfl : py = y := by omega
    omega

lemma rectCells_succ (d : Display) (x1 x2 y : ℤ) (n : ℕ) :
    d.rectCells x1 x2 y (y + (n + 1 : ℕ)) = d.rectCells x1 x2 y (y + 1) ∪ d.rectCells x1 x2 (y + 1) (y + 1 + n) := by
  ext i
  simp only [Display.rectCells, Set.mem_union, Set.mem_ofPred_eq]
  constructor
  · rintro ⟨px, py, hx, hx', hy, hy', hi⟩
    rcases hy.eq_or_lt with rfl | hlt
    · exact Or.inl ⟨px, y, hx, hx', le_rfl, by omega, hi⟩
    · exact Or.inr ⟨px, py, hx, hx', by omega, by omega, hi⟩
  · rintro (⟨px, py, hx, hx', hy, hy', hi⟩ | ⟨px, py, hx, hx', hy, hy', hi⟩)
    · exact ⟨px, py, hx, hx', hy, by omega, hi⟩
    · exact ⟨px, py, hx, hx', by omega, by omega, hi⟩

lemma fillRows_painted (color : UInt32) {x1 x2 : ℤ} (n : ℕ) : ∀ {y : ℤ} {d : Display}, 0 ≤ x1 → x2 ≤ d.width → 0 ≤ y →
    (n ≠ 0 → y + n ≤ d.height) →
    ∃ d', fillRows color x1 x2 n y d = .ok d' ∧ Painted color (d.rectCells x1 x2 y (y + n)) d d' := by
  induction n with
  | zero =>
    intro y d _ _ _ _
    refine ⟨d, rfl, ?_⟩
    have hempty : d.rectCells x1 x2 y (y + (0 : ℕ)) = ∅ := by
      refine Set.eq_empty_of_forall_notMem ?_
      rintro i ⟨px, py, -, -, hy, hy', -⟩
      omega
    rw [hempty]
    exact .refl
  | succ n ih =>
    intro y d hx1 hx2 hy h
    have hend := h n.succ_ne_zero
    have hrange : (x2 - x1).toNat ≠ 0 →
        0 ≤ y * d.width + x1 ∧ y * d.width + x1 + (x2 - x1).toNat ≤ d.framebuffer.length := by
      intro hne
      have hfirst := Display.cell_bounds (d := d) (x := x1) (y := y) ⟨hx1, by omega, hy, by omega⟩
      have hlast := Display.cell_bounds (d := d) (x := x2 - 1) (y := y) ⟨by omega, by omega, hy, by omega⟩
      rw [Display.cell] at hfirst hlast
      omega
    obtain ⟨d₁, hrow, h₁⟩ := fillRow_painted color (x2 - x1).toNat hrange
    rw [rowCells_eq] at h₁
    have hheight := h₁.height
    obtain ⟨d₂, hrows, h₂⟩ := ih (d := d₁) (y := y + 1) hx1 (h₁.width ▸ hx2) (by omega) fun _ => by omega
    refine ⟨d₂, ?_, ?_⟩
    · rw [fillRows, hrow, ok_bind, hrows]
    · rw [rectCells_succ]
      have hsame : d₁.rectCells x1 x2 (y + 1) (y + 1 + n) = d.rectCells x1 x2 (y + 1) (y + 1 + n) := by
        simp only [Display.rectCells, Display.cell, h₁.width]
      exact hsame ▸ h₁.trans h₂

/-- The rectangle with a corner at `(x, y)` whose sides `w` and `h` may be negative. -/
def InRect (x y w h px py : ℤ) : Prop :=
  min x (x + w) ≤ px ∧ px < max x (x + w) ∧ min y (y + h) ≤ py ∧ py < max y (y + h)

instance decidableInRect (x y w h px py : ℤ) : Decidable (InRect x y w h px py) :=
  inferInstanceAs (Decidable (_ ∧ _ ∧ _ ∧ _))

lemma drawFilledRect_painted (d : Display) (x y w h : ℤ) (color : UInt32) :
    ∃ d', drawFilledRect color d x y w h = .ok d' ∧
      Painted color {i | ∃ px py, d.OnScreen px py ∧ InRect x y w h px py ∧ d.cell px py = i} d d' := by
  generalize hx1 : max 0 (min x (x + w)) = x1
  generalize hx2 : min d.width (max x (x + w)) = x2
  generalize hy1 : max 0 (min y (y + h)) = y1
  generalize hy2 : min d.height (max y (y + h)) = y2
  have hx1' : 0 ≤ x1 := by omega
  have hx2' : x2 ≤ d.width := by omega
  obtain ⟨d', hrun, hd'⟩ := fillRows_painted color (y2 - y1).toNat (y := y1) (d := d) hx1' hx2' (by omega) (by omega)
  refine ⟨d', ?_, ?_⟩
  · rw [drawFilledRect, hx1, hx2, hy1, hy2]
    exact hrun
  · have hcells : d.rectCells x1 x2 y1 (y1 + (y2 - y1).toNat) =
        {i | ∃ px py, d.OnScreen px py ∧ InRect x y w h px py ∧ d.cell px py = i} := by
      ext i
      simp only [Display.rectCells, Set.mem_ofPred_eq, Display.OnScreen, InRect]
      constructor
      · rintro ⟨px, py, hx, hx', hy, hy', hi⟩
        exact ⟨px, py, by omega, by omega, hi⟩
      · rintro ⟨px, py, hon, hin, hi⟩
        exact ⟨px, py, by omega, by omega, by omega, by omega, hi⟩
    exact hcells ▸ hd'

theorem drawFilledRect_clipped (d : Display) (x y w h : ℤ) (color : UInt32) :
    ∃ d', drawFilledRect color d x y w h = .ok d' ∧ d'.width = d.width ∧ d'.height = d.height ∧
      (∀ px py, d.OnScreen px py →
        d'.pixel px py = if InRect x y w h px py then some color else d.pixel px py) ∧
      ∀ i : ℕ, (∀ px py, d.OnScreen px py → InRect x y w h px py → d.cell px py ≠ i) →
        d'.framebuffer[i]? = d.framebuffer[i]? := by
  obtain ⟨d', hrun, hd'⟩ := drawFilledRect_painted d x y w h color
  refine ⟨d', hrun, hd'.width, hd'.height, fun px py hon => ?_, fun i hi => ?_⟩
  · have hcell : ((d.cell px py).toNat : ℤ) = d.cell px py := Int.toNat_of_nonneg (Display.cell_bounds hon).1
    rw [Display.pixel, Display.pixel, Display.cell, hd'.width, ← Display.cell]
    split_ifs with hin
    · exact hd'.inside _ ⟨px, py, hon, hin, hcell.symm⟩
    · refine hd'.outside _ ?_
      rintro ⟨px', py', hon', hin', hi⟩
      obtain ⟨rfl, rfl⟩ := Display.cell_inj hon' hon (hi.trans hcell)
      exact hin hin'
  · refine hd'.outside i ?_
    rintro ⟨px, py, hon, hin, hpx⟩
    exact hi px py hon hin hpx

end Pi0Os.Userland
