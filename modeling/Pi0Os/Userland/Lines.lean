import Pi0Os.Library.DigitalLine
import Pi0Os.Userland.Display

/-! The lines of the graphics library, drawn as a square around each of the positions that the
loop of `_draw_line` visits. -/

namespace Pi0Os.Userland

open Library

def Display.setPixel (d : Display) (x y : ℤ) (color : UInt32) : Display :=
  if 0 ≤ x ∧ x < d.width ∧ 0 ≤ y ∧ y < d.height then d.store (d.cell x y).toNat color else d

/-- The guard of `set_pixel` keeps its write inside of the framebuffer. -/
lemma Display.storeAt_cell {d : Display} {x y : ℤ} (h : d.OnScreen x y) (color : UInt32) :
    d.storeAt (d.cell x y) color = .ok (d.setPixel x y color) := by
  rw [storeAt, if_pos (cell_bounds h)]
  exact congrArg _ (if_pos h).symm

/-- `for (; i <= ..; i++)`, with `n` rounds to go. -/
def forEach {σ : Type} (body : ℤ → σ → σ) : ℕ → ℤ → σ → σ
  | 0, _, s => s
  | n + 1, i, s => forEach body n (i + 1) (body i s)

/-- The square around a position. -/
def drawSquare (half : ℤ) (color : UInt32) (d : Display) (x y : ℤ) : Display :=
  let rounds := (2 * half + 1).toNat
  forEach (fun i => forEach (fun j d => d.setPixel (x + i) (y + j) color) rounds (-half)) rounds (-half) d

/-- What `_draw_line` computes before its loop. -/
structure Segment where
  dx : ℤ
  dy : ℤ
  sx : ℤ
  sy : ℤ
  x2 : ℤ
  y2 : ℤ

structure Pen where
  err : ℤ
  x : ℤ
  y : ℤ

def lineStep (l : Segment) (p : Pen) : Pen :=
  let e2 := 2 * p.err
  let p := if -l.dy < e2 then { p with err := p.err - l.dy, x := p.x + l.sx } else p
  if e2 < l.dx then { p with err := p.err + l.dx, y := p.y + l.sy } else p

/-- The loop; `visit` is the body up to the test for the end. -/
def lineLoop {σ : Type} (visit : σ → ℤ → ℤ → σ) (l : Segment) : ℕ → Pen → σ → Option σ
  | 0, _, _ => none
  | fuel + 1, p, s =>
    let s := visit s p.x p.y
    if p.x = l.x2 ∧ p.y = l.y2 then some s else lineLoop visit l fuel (lineStep l p) s

def segment (x1 y1 x2 y2 : ℤ) : Segment where
  dx := |x2 - x1|
  dy := |y2 - y1|
  sx := if x1 < x2 then 1 else -1
  sy := if y1 < y2 then 1 else -1
  x2 := x2
  y2 := y2

def walkLine {σ : Type} (visit : σ → ℤ → ℤ → σ) (fuel : ℕ) (x1 y1 x2 y2 : ℤ) (s : σ) : Option σ :=
  let l := segment x1 y1 x2 y2
  lineLoop visit l fuel ⟨l.dx - l.dy, x1, y1⟩ s

/-- `_draw_line`, which `draw_line` calls. -/
def drawLine (fuel : ℕ) (d : Display) (x1 y1 x2 y2 thickness : ℤ) (color : UInt32) : Option Display :=
  walkLine (drawSquare (thickness.tdiv 2) color) fuel x1 y1 x2 y2 d

/-- Neighbours in a grid, diagonal ones included. -/
def Adjacent (p q : ℤ × ℤ) : Prop := |q.1 - p.1| ≤ 1 ∧ |q.2 - p.2| ≤ 1

/-- The positions that the loop visits from the pen `p` on. -/
structure Visits (l : Segment) (p : Pen) (positions : List (ℤ × ℤ)) : Prop where
  head : positions.head? = some (p.x, p.y)
  last : positions.getLast? = some (l.x2, l.y2)
  chain : positions.IsChain Adjacent
  loop : ∀ {σ : Type} (visit : σ → ℤ → ℤ → σ) (s : σ) (fuel : ℕ), lineLoop visit l fuel p s =
    if positions.length ≤ fuel then some (positions.foldl (fun s q => visit s q.1 q.2) s) else none

section Loop

variable {l : Segment} {p : Pen} {positions : List (ℤ × ℤ)}

lemma Visits.stop (hx : p.x = l.x2) (hy : p.y = l.y2) : Visits l p [(p.x, p.y)] where
  head := rfl
  last := by rw [List.getLast?_singleton, hx, hy]
  chain := .singleton _
  loop visit s fuel := by
    cases fuel with
    | zero => rfl
    | succ fuel =>
      rw [lineLoop, if_pos ⟨hx, hy⟩]
      exact (if_pos (Nat.le_add_left 1 fuel)).symm

lemma lineStep_adjacent (hsx : |l.sx| ≤ 1) (hsy : |l.sy| ≤ 1) :
    Adjacent (p.x, p.y) ((lineStep l p).x, (lineStep l p).y) := by
  rw [Adjacent, lineStep]
  constructor
  · dsimp only
    split_ifs <;> simp [hsx]
  · dsimp only
    split_ifs <;> simp [hsy]

lemma Visits.step (h : Visits l (lineStep l p) positions) (hsx : |l.sx| ≤ 1) (hsy : |l.sy| ≤ 1)
    (hne : ¬ (p.x = l.x2 ∧ p.y = l.y2)) : Visits l p ((p.x, p.y) :: positions) := by
  obtain ⟨rest, rfl⟩ := List.head?_eq_some_iff.mp h.head
  refine ⟨rfl, ?_, ?_, ?_⟩
  · rw [List.getLast?_cons_cons, h.last]
  · exact .cons_cons (lineStep_adjacent hsx hsy) h.chain
  · intro σ visit s fuel
    cases fuel with
    | zero => rfl
    | succ fuel =>
      rw [lineLoop, if_neg hne, h.loop]
      exact if_congr Nat.succ_le_succ_iff.symm rfl rfl

/-- A loop that counts `r` down to the end of the segment visits `r + 1` positions. -/
lemma exists_visits {Good : ℕ → Pen → Prop} {InBox : ℤ → ℤ → Prop} (hsx : |l.sx| ≤ 1) (hsy : |l.sy| ≤ 1)
    (hend : ∀ p, Good 0 p → p.x = l.x2 ∧ p.y = l.y2)
    (hstep : ∀ r p, Good (r + 1) p → ¬ (p.x = l.x2 ∧ p.y = l.y2) ∧ Good r (lineStep l p))
    (hbox : ∀ r p, Good r p → InBox p.x p.y) : ∀ r p, Good r p →
    ∃ positions, Visits l p positions ∧ positions.length = r + 1 ∧ ∀ q ∈ positions, InBox q.1 q.2 := by
  intro r
  induction r with
  | zero =>
    intro p hp
    obtain ⟨hx, hy⟩ := hend p hp
    refine ⟨_, .stop hx hy, rfl, fun q hq => ?_⟩
    rw [List.mem_singleton.mp hq]
    exact hbox 0 p hp
  | succ r ih =>
    intro p hp
    obtain ⟨hne, hnext⟩ := hstep r p hp
    obtain ⟨positions, hv, hlen, hin⟩ := ih (lineStep l p) hnext
    refine ⟨_, hv.step hsx hsy hne, congrArg (· + 1) hlen, fun q hq => ?_⟩
    rcases List.mem_cons.mp hq with rfl | hq
    · exact hbox (r + 1) p hp
    · exact hin q hq

lemma lineStep_both (hx : -l.dy < 2 * p.err) (hy : 2 * p.err < l.dx) :
    lineStep l p = ⟨p.err - l.dy + l.dx, p.x + l.sx, p.y + l.sy⟩ := by
  rw [lineStep, if_pos hx, if_pos hy]

lemma lineStep_x (hx : -l.dy < 2 * p.err) (hy : ¬ 2 * p.err < l.dx) :
    lineStep l p = ⟨p.err - l.dy, p.x + l.sx, p.y⟩ := by
  rw [lineStep, if_pos hx, if_neg hy]

lemma lineStep_y (hx : ¬ -l.dy < 2 * p.err) (hy : 2 * p.err < l.dx) :
    lineStep l p = ⟨p.err + l.dx, p.x, p.y + l.sy⟩ := by
  rw [lineStep, if_neg hx, if_pos hy]

end Loop

section Octants

variable {x1 y1 x2 y2 a : ℤ}

lemma abs_direction (x1 x2 : ℤ) : |if x1 < x2 then (1 : ℤ) else -1| ≤ 1 := by
  split_ifs <;> simp

lemma offset_end (x1 x2 : ℤ) : x1 + |x2 - x1| * (if x1 < x2 then 1 else -1) = x2 := by
  split_ifs with h
  · rw [abs_of_pos (by omega)]
    omega
  · rw [abs_of_nonpos (by omega)]
    omega

lemma offset_ne (h : a < |x2 - x1|) : x1 + a * (if x1 < x2 then 1 else -1) ≠ x2 := by
  have hend := offset_end x1 x2
  split_ifs at hend ⊢ <;> omega

lemma offset_bounds (h0 : 0 ≤ a) (h : a ≤ |x2 - x1|) :
    min x1 x2 ≤ x1 + a * (if x1 < x2 then 1 else -1) ∧ x1 + a * (if x1 < x2 then 1 else -1) ≤ max x1 x2 := by
  have hend := offset_end x1 x2
  split_ifs at hend ⊢ <;> omega

/-- The box that the end points span. -/
def InBox (x1 y1 x2 y2 x y : ℤ) : Prop := min x1 x2 ≤ x ∧ x ≤ max x1 x2 ∧ min y1 y2 ≤ y ∧ y ≤ max y1 y2

/-- Flat lines: `r` steps before the end `x` has moved `k` times and `y` has moved `b` times. -/
def Flat (x1 y1 x2 y2 : ℤ) (r : ℕ) (p : Pen) : Prop :=
  ∃ k b, 0 ≤ k ∧ k + r = |x2 - x1| ∧ OnLine |x2 - x1| |y2 - y1| k b p.err ∧
    p.x = x1 + k * (if x1 < x2 then 1 else -1) ∧ p.y = y1 + b * (if y1 < y2 then 1 else -1)

/-- Steep lines: the axes change places, and the error term its sign. -/
def Steep (x1 y1 x2 y2 : ℤ) (r : ℕ) (p : Pen) : Prop :=
  ∃ k b, 0 ≤ k ∧ k + r = |y2 - y1| ∧ OnLine |y2 - y1| |x2 - x1| k b (-p.err) ∧
    p.x = x1 + b * (if x1 < x2 then 1 else -1) ∧ p.y = y1 + k * (if y1 < y2 then 1 else -1)

lemma flat_visits {r : ℕ} {p : Pen} (hn : 0 < |x2 - x1|) (hp : Flat x1 y1 x2 y2 r p) :
    ∃ positions, Visits (segment x1 y1 x2 y2) p positions ∧ positions.length = r + 1 ∧
      ∀ q ∈ positions, InBox x1 y1 x2 y2 q.1 q.2 := by
  have hm : 0 ≤ |y2 - y1| := abs_nonneg _
  have hsx : |(segment x1 y1 x2 y2).sx| ≤ 1 := abs_direction x1 x2
  have hsy : |(segment x1 y1 x2 y2).sy| ≤ 1 := abs_direction y1 y2
  refine exists_visits hsx hsy ?_ ?_ ?_ r p hp
  · rintro p ⟨k, b, hk, hr, hline, hx, hy⟩
    obtain rfl : k = |x2 - x1| := by omega
    rw [hx, hy, hline.shorter_eq hn hm]
    exact ⟨offset_end x1 x2, offset_end y1 y2⟩
  · rintro r p ⟨k, b, hk, hr, hline, hx, hy⟩
    refine ⟨fun hat => offset_ne (a := k) (by omega) (hx ▸ hat.1), ?_⟩
    have hmove : -(segment x1 y1 x2 y2).dy < 2 * p.err := hline.longer_moves hn
    by_cases he : 2 * p.err < (segment x1 y1 x2 y2).dx
    · rw [lineStep_both hmove he]
      refine ⟨k + 1, b + 1, by omega, by omega, hline.both he, ?_, ?_⟩
      · rw [hx, add_mul, one_mul, add_assoc]
        rfl
      · rw [hy, add_mul, one_mul, add_assoc]
        rfl
    · rw [lineStep_x hmove he]
      refine ⟨k + 1, b, by omega, by omega, hline.alone hn hm he, ?_, hy⟩
      rw [hx, add_mul, one_mul, add_assoc]
      rfl
  · rintro r p ⟨k, b, hk, hr, hline, hx, hy⟩
    rw [hx, hy]
    have hk' : k ≤ |x2 - x1| := by omega
    have hxb := offset_bounds hk hk'
    have hyb := offset_bounds (hline.shorter_nonneg hn hm hk) (hline.shorter_le hn hm hk')
    exact ⟨hxb.1, hxb.2, hyb.1, hyb.2⟩

lemma steep_visits {r : ℕ} {p : Pen} (hn : 0 < |y2 - y1|) (hp : Steep x1 y1 x2 y2 r p) :
    ∃ positions, Visits (segment x1 y1 x2 y2) p positions ∧ positions.length = r + 1 ∧
      ∀ q ∈ positions, InBox x1 y1 x2 y2 q.1 q.2 := by
  have hm : 0 ≤ |x2 - x1| := abs_nonneg _
  have hsx : |(segment x1 y1 x2 y2).sx| ≤ 1 := abs_direction x1 x2
  have hsy : |(segment x1 y1 x2 y2).sy| ≤ 1 := abs_direction y1 y2
  refine exists_visits hsx hsy ?_ ?_ ?_ r p hp
  · rintro p ⟨k, b, hk, hr, hline, hx, hy⟩
    obtain rfl : k = |y2 - y1| := by omega
    rw [hx, hy, hline.shorter_eq hn hm]
    exact ⟨offset_end x1 x2, offset_end y1 y2⟩
  · rintro r p ⟨k, b, hk, hr, hline, hx, hy⟩
    refine ⟨fun hat => offset_ne (a := k) (by omega) (hy ▸ hat.2), ?_⟩
    have hmove : 2 * p.err < (segment x1 y1 x2 y2).dx := by
      have hlong := hline.longer_moves hn
      change 2 * p.err < |x2 - x1|
      omega
    by_cases he : -(segment x1 y1 x2 y2).dy < 2 * p.err
    · have hboth := hline.both (show 2 * -p.err < |y2 - y1| by
        change -|y2 - y1| < 2 * p.err at he
        omega)
      rw [lineStep_both he hmove]
      refine ⟨k + 1, b + 1, by omega, by omega, ?_, ?_, ?_⟩
      · have herr : -p.err - |x2 - x1| + |y2 - y1| = -(p.err - |y2 - y1| + |x2 - x1|) := by ring
        exact herr ▸ hboth
      · rw [hx, add_mul, one_mul, add_assoc]
        rfl
      · rw [hy, add_mul, one_mul, add_assoc]
        rfl
    · have halone := hline.alone hn hm (show ¬ 2 * -p.err < |y2 - y1| by
        change ¬ -|y2 - y1| < 2 * p.err at he
        omega)
      rw [lineStep_y he hmove]
      refine ⟨k + 1, b, by omega, by omega, ?_, hx, ?_⟩
      · have herr : -p.err - |x2 - x1| = -(p.err + |x2 - x1|) := by ring
        exact herr ▸ halone
      · rw [hy, add_mul, one_mul, add_assoc]
        rfl
  · rintro r p ⟨k, b, hk, hr, hline, hx, hy⟩
    rw [hx, hy]
    have hk' : k ≤ |y2 - y1| := by omega
    have hyb := offset_bounds hk hk'
    have hxb := offset_bounds (hline.shorter_nonneg hn hm hk) (hline.shorter_le hn hm hk')
    exact ⟨hxb.1, hxb.2, hyb.1, hyb.2⟩

lemma segment_visits (x1 y1 x2 y2 : ℤ) : ∃ positions,
    Visits (segment x1 y1 x2 y2) ⟨|x2 - x1| - |y2 - y1|, x1, y1⟩ positions ∧
      (positions.length : ℤ) = max |x2 - x1| |y2 - y1| + 1 ∧ ∀ q ∈ positions, InBox x1 y1 x2 y2 q.1 q.2 := by
  have hdx := abs_nonneg (x2 - x1)
  have hdy := abs_nonneg (y2 - y1)
  rcases le_or_gt |y2 - y1| |x2 - x1| with hflat | hsteep
  · rcases hdx.eq_or_lt with hzero | hn
    · have hx : x1 = x2 := by
        have := abs_eq_zero.mp hzero.symm
        omega
      have hy : y1 = y2 := by
        have := abs_eq_zero.mp (le_antisymm (hzero ▸ hflat) hdy)
        omega
      refine ⟨_, .stop hx hy, ?_, fun q hq => ?_⟩
      · simp [hx, hy]
      · rw [List.mem_singleton.mp hq]
        exact ⟨min_le_left .., le_max_left .., min_le_left .., le_max_left ..⟩
    · have hstart : Flat x1 y1 x2 y2 |x2 - x1|.toNat ⟨|x2 - x1| - |y2 - y1|, x1, y1⟩ :=
        ⟨0, 0, le_rfl, by omega, .start hn hdy hflat, by rw [zero_mul, add_zero], by rw [zero_mul, add_zero]⟩
      obtain ⟨positions, hv, hlen, hbox⟩ := flat_visits hn hstart
      exact ⟨positions, hv, by omega, hbox⟩
  · have hn : 0 < |y2 - y1| := hdx.trans_lt hsteep
    have hneg : |y2 - y1| - |x2 - x1| = -(|x2 - x1| - |y2 - y1|) := (neg_sub _ _).symm
    have hstart : Steep x1 y1 x2 y2 |y2 - y1|.toNat ⟨|x2 - x1| - |y2 - y1|, x1, y1⟩ :=
      ⟨0, 0, le_rfl, by omega, hneg ▸ .start hn hdx hsteep.le, by rw [zero_mul, add_zero], by rw [zero_mul, add_zero]⟩
    obtain ⟨positions, hv, hlen, hbox⟩ := steep_visits hn hstart
    exact ⟨positions, hv, by omega, hbox⟩

end Octants

/-- With fuel for them, the loop draws a square around each of the positions; with less it is not at its end. -/
theorem drawLine_connected (x1 y1 x2 y2 : ℤ) : ∃ positions : List (ℤ × ℤ),
    (positions.length : ℤ) = max |x2 - x1| |y2 - y1| + 1 ∧
    positions.head? = some (x1, y1) ∧ positions.getLast? = some (x2, y2) ∧
    positions.IsChain Adjacent ∧ (∀ q ∈ positions, InBox x1 y1 x2 y2 q.1 q.2) ∧
    (∀ (σ : Type) (visit : σ → ℤ → ℤ → σ) (fuel : ℕ) (s : σ), walkLine visit fuel x1 y1 x2 y2 s =
      if positions.length ≤ fuel then some (positions.foldl (fun s q => visit s q.1 q.2) s) else none) ∧
    ∀ (fuel : ℕ) (d : Display) (thickness : ℤ) (color : UInt32), drawLine fuel d x1 y1 x2 y2 thickness color =
      if positions.length ≤ fuel then
        some (positions.foldl (fun d q => drawSquare (thickness.tdiv 2) color d q.1 q.2) d) else none := by
  obtain ⟨positions, hv, hlen, hbox⟩ := segment_visits x1 y1 x2 y2
  refine ⟨positions, hlen, hv.head, hv.last, hv.chain, hbox, ?_, ?_⟩
  · exact fun σ visit fuel s => hv.loop visit s fuel
  · exact fun fuel d thickness color => hv.loop (drawSquare (thickness.tdiv 2) color) d fuel

end Pi0Os.Userland
