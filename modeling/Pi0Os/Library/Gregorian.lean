import Mathlib.Algebra.BigOperators.Intervals
import Mathlib.Algebra.Order.BigOperators.Group.Finset
import Mathlib.Tactic.IntervalCases
import Mathlib.Tactic.Linarith

/-! The Gregorian calendar, before its introduction too, and the numbers of its days. Day 0 is 1 January 1970. -/

namespace Pi0Os.Library

def IsLeapYear (y : ℤ) : Prop := 4 ∣ y ∧ (¬ 100 ∣ y ∨ 400 ∣ y)

instance (y : ℤ) : Decidable (IsLeapYear y) := inferInstanceAs (Decidable (_ ∧ _))

/-- The months are numbered from 1. -/
def daysInMonth (y : ℤ) (m : ℕ) : ℤ :=
  if m = 2 then if IsLeapYear y then 29 else 28
  else if m = 4 ∨ m = 6 ∨ m = 9 ∨ m = 11 then 30
  else 31

@[ext] structure Date where
  year : ℤ
  month : ℕ
  day : ℤ
  month_pos : 1 ≤ month
  month_le : month ≤ 12
  day_pos : 1 ≤ day
  day_le : day ≤ daysInMonth year month

/-- The days from 1 January of the year 1 to that of the year `y`. -/
def daysBeforeYear (y : ℤ) : ℤ := 365 * (y - 1) + (y - 1) / 4 - (y - 1) / 100 + (y - 1) / 400

def daysBeforeMonth (y : ℤ) (m : ℕ) : ℤ := ∑ k ∈ Finset.Ico 1 m, daysInMonth y k

/-- The number of the day, with the month and the day as they are. -/
def dayNumber (y : ℤ) (m : ℕ) (d : ℤ) : ℤ := daysBeforeYear y + daysBeforeMonth y m + (d - 1) - 719162

section Days

variable {y y' d d' : ℤ} {m m' : ℕ}

lemma daysInMonth_pos (y : ℤ) (m : ℕ) : 28 ≤ daysInMonth y m := by
  rw [daysInMonth]
  split_ifs <;> decide

lemma daysInMonth_le (y : ℤ) (m : ℕ) : daysInMonth y m ≤ 31 := by
  rw [daysInMonth]
  split_ifs <;> decide

lemma daysBeforeYear_succ (y : ℤ) :
    daysBeforeYear (y + 1) = daysBeforeYear y + if IsLeapYear y then 366 else 365 := by
  rw [daysBeforeYear, daysBeforeYear]
  split_ifs with h <;> rw [IsLeapYear] at h <;> omega

lemma daysBeforeYear_mono (h : y ≤ y') : daysBeforeYear y ≤ daysBeforeYear y' := by
  rw [daysBeforeYear, daysBeforeYear]
  omega

lemma daysBeforeMonth_succ (y : ℤ) (hm : 1 ≤ m) :
    daysBeforeMonth y (m + 1) = daysBeforeMonth y m + daysInMonth y m := Finset.sum_Ico_succ_top hm _

lemma daysBeforeMonth_mono (y : ℤ) (h : m ≤ m') : daysBeforeMonth y m ≤ daysBeforeMonth y m' :=
  Finset.sum_le_sum_of_subset_of_nonneg (Finset.Ico_subset_Ico_right h)
    fun k _ _ => le_trans (by decide) (daysInMonth_pos y k)

lemma daysBeforeMonth_one (y : ℤ) : daysBeforeMonth y 1 = 0 := rfl

/-- The months of a year. -/
lemma daysBeforeMonth_eq (y : ℤ) (hm : 1 ≤ m) (hm' : m ≤ 13) : daysBeforeMonth y m =
    ((367 * m - 362) / 12 : ℤ) - if m ≤ 2 then 0 else if IsLeapYear y then 1 else 2 := by
  interval_cases m <;> simp [daysBeforeMonth, Finset.sum_Ico_succ_top, daysInMonth] <;> split_ifs <;> decide

lemma daysBeforeMonth_year (y : ℤ) : daysBeforeMonth y 13 = if IsLeapYear y then 366 else 365 := by
  rw [daysBeforeMonth_eq y (by decide) (by decide), if_neg (by decide)]
  split_ifs <;> decide

end Days

namespace Date

variable {d e : Date}

def number (d : Date) : ℤ := dayNumber d.year d.month d.day

/-- The day after. -/
def next (d : Date) : Date :=
  if h : d.day < daysInMonth d.year d.month then
    ⟨d.year, d.month, d.day + 1, d.month_pos, d.month_le, Int.le_add_one d.day_pos, h⟩
  else if h : d.month < 12 then
    ⟨d.year, d.month + 1, 1, Nat.le_add_left 1 _, h, le_rfl, le_trans (by decide) (daysInMonth_pos _ _)⟩
  else ⟨d.year + 1, 1, 1, le_rfl, by decide, le_rfl, le_trans (by decide) (daysInMonth_pos _ _)⟩

/-- The order of the calendar. -/
def Before (d e : Date) : Prop :=
  d.year < e.year ∨ d.year = e.year ∧ (d.month < e.month ∨ d.month = e.month ∧ d.day < e.day)

lemma number_next (d : Date) : d.next.number = d.number + 1 := by
  have hday := d.day_le
  rw [next]
  split_ifs with hd hm
  · simp only [number, dayNumber]
    omega
  · simp only [number, dayNumber]
    rw [daysBeforeMonth_succ _ d.month_pos]
    omega
  · have hlast : d.month = 12 := by
      have := d.month_le
      omega
    have hyear := daysBeforeMonth_year d.year
    rw [daysBeforeMonth_succ _ (by decide)] at hyear
    simp only [number, dayNumber]
    rw [hlast] at hd hday ⊢
    rw [daysBeforeYear_succ, daysBeforeMonth_one]
    omega

/-- The days of the year `d.year` are between the first of its own and the first of the next one. -/
lemma number_year (d : Date) :
    daysBeforeYear d.year ≤ d.number + 719162 ∧ d.number + 719162 < daysBeforeYear (d.year + 1) := by
  have hpos := d.day_pos
  have hday := d.day_le
  have hfirst := daysBeforeMonth_mono d.year d.month_pos
  have hlast : daysBeforeMonth d.year (d.month + 1) ≤ daysBeforeMonth d.year 13 :=
    daysBeforeMonth_mono d.year (Nat.succ_le_succ d.month_le)
  rw [daysBeforeMonth_one] at hfirst
  rw [daysBeforeMonth_succ _ d.month_pos, daysBeforeMonth_year] at hlast
  rw [number, dayNumber, daysBeforeYear_succ]
  omega

lemma number_next_iterate (d : Date) (n : ℕ) : (next^[n] d).number = d.number + n := by
  induction n with
  | zero => simp
  | succ n ih =>
    rw [Function.iterate_succ_apply', number_next, ih, Nat.cast_succ, add_assoc]

lemma Before.number_lt (h : d.Before e) : d.number < e.number := by
  have hday := d.day_le
  have hpos := e.day_pos
  have hnext := daysBeforeMonth_succ d.year d.month_pos
  simp only [number, dayNumber]
  rcases h with hy | ⟨hy, hm | ⟨hm, hd⟩⟩
  · have hyear := daysBeforeYear_mono (Int.add_one_le_of_lt hy)
    have hlast := daysBeforeMonth_mono d.year (Nat.succ_le_succ d.month_le)
    have hfirst := daysBeforeMonth_mono e.year e.month_pos
    rw [daysBeforeYear_succ, ← daysBeforeMonth_year] at hyear
    rw [daysBeforeMonth_one] at hfirst
    simp only [Nat.succ_eq_add_one, Nat.reduceAdd] at hlast
    omega
  · have hmonth := daysBeforeMonth_mono d.year (Nat.succ_le_of_lt hm)
    rw [← hy]
    simp only [Nat.succ_eq_add_one] at hmonth
    omega
  · rw [← hy, ← hm]
    omega

lemma before_trichotomy (d e : Date) : d.Before e ∨ d = e ∨ e.Before d := by
  rcases lt_trichotomy d.year e.year with hy | hy | hy
  · exact .inl (.inl hy)
  · rcases lt_trichotomy d.month e.month with hm | hm | hm
    · exact .inl (.inr ⟨hy, .inl hm⟩)
    · rcases lt_trichotomy d.day e.day with hd | hd | hd
      · exact .inl (.inr ⟨hy, .inr ⟨hm, hd⟩⟩)
      · exact .inr (.inl (Date.ext hy hm hd))
      · exact .inr (.inr (.inr ⟨hy.symm, .inr ⟨hm.symm, hd⟩⟩))
    · exact .inr (.inr (.inr ⟨hy.symm, .inl hm⟩))
  · exact .inr (.inr (.inl hy))

/-- The days are numbered in their order. -/
lemma before_iff : d.Before e ↔ d.number < e.number := by
  refine ⟨Before.number_lt, fun h => ?_⟩
  rcases before_trichotomy d e with hb | rfl | hb
  · exact hb
  · exact absurd h (lt_irrefl _)
  · exact absurd hb.number_lt h.asymm

lemma number_injective : Function.Injective number := by
  intro d e h
  rcases before_trichotomy d e with hb | rfl | hb
  · exact absurd h hb.number_lt.ne
  · rfl
  · exact absurd h hb.number_lt.ne'

end Date

end Pi0Os.Library
