import Pi0Os.Kernel.Base
import Pi0Os.Library.Gregorian

/-! The calendar of `lib/more_time.cpp`, and the real time clock that is set and read with it. Of the arithmetic on
`int` what can overflow is checked. -/

namespace Pi0Os.Kernel

open Library

def intMin : ℤ := -2147483648

def intMax : ℤ := 2147483647

def checkInt (x : ℤ) : Except Panic ℤ :=
  if intMin ≤ x ∧ x ≤ intMax then .ok x else .error (.undefined "an overflow of int")

/-- `struct tm`, years from 1900 and months from 0. -/
@[ext] structure Tm where
  sec : ℤ
  min : ℤ
  hour : ℤ
  mday : ℤ
  mon : ℤ
  year : ℤ
  wday : ℤ
  yday : ℤ
deriving DecidableEq

/-- 1 March 2000. -/
def leapoch : ℤ := 946684800 + 86400 * (31 + 29)

def daysPer400Y : ℤ := 365 * 400 + 97

def daysPer100Y : ℤ := 365 * 100 + 24

def daysPer4Y : ℤ := 365 * 4 + 1

/-- Of a year that begins in March. -/
def marchMonths : List ℤ := [31, 30, 31, 30, 31, 31, 30, 31, 30, 31, 31, 29]

/-- Division and remainder as the C code rounds them down. -/
def floorDiv (x d : ℤ) : ℤ × ℤ :=
  if x.tmod d < 0 then (x.tdiv d - 1, x.tmod d + d) else (x.tdiv d, x.tmod d)

/-- The quotient, which the C code lowers when it is the number of parts. -/
def partOf (days size parts : ℤ) : ℤ := if days.tdiv size = parts then days.tdiv size - 1 else days.tdiv size

/-- The loop over the months. -/
def findMonth : List ℤ → ℤ → ℤ → Except Panic (ℤ × ℤ)
  | [], _, _ => .error (.undefined "days_in_month[12]")
  | d :: rest, months, remdays =>
    if d ≤ remdays then findMonth rest (months + 1) (remdays - d) else .ok (months, remdays)

/-- The day of the week of a day after 1 March 2000, a Wednesday. -/
def weekday (days : ℤ) : ℤ := if (3 + days).tmod 7 < 0 then (3 + days).tmod 7 + 7 else (3 + days).tmod 7

/-- The parts of a time in days. -/
structure Cycles where
  qcCycles : ℤ
  cCycles : ℤ
  qCycles : ℤ
  remyears : ℤ
  remdays : ℤ

def splitDays (days : ℤ) : Cycles :=
  let (qcCycles, remdays) := floorDiv days daysPer400Y
  let cCycles := partOf remdays daysPer100Y 4
  let remdays := remdays - cCycles * daysPer100Y
  let qCycles := partOf remdays daysPer4Y 25
  let remdays := remdays - qCycles * daysPer4Y
  let remyears := partOf remdays 365 4
  ⟨qcCycles, cCycles, qCycles, remyears, remdays - remyears * 365⟩

def Cycles.yday (d : Cycles) : ℤ :=
  let leap := if d.remyears = 0 ∧ (d.qCycles ≠ 0 ∨ d.cCycles = 0) then 1 else 0
  let yday := d.remdays + 31 + 28 + leap
  if yday ≥ 365 + leap then yday - (365 + leap) else yday

/-- The end of `secs_to_tm`; `none` when it returns -1. -/
def Cycles.toTm (d : Cycles) (days remsecs : ℤ) : Except Panic (Option Tm) := do
  let years ← checkInt (d.remyears + 4 * d.qCycles + 100 * d.cCycles + (← checkInt (400 * d.qcCycles)))
  let (months, remdays) ← findMonth marchMonths 0 d.remdays
  let y ← checkInt (years + 100)
  if y > intMax ∨ y < intMin then return none
  let (mon, year) ← if months + 2 ≥ 12 then do pure (months + 2 - 12, ← checkInt (y + 1)) else pure (months + 2, y)
  return some {
    year := year, mon := mon, mday := remdays + 1, wday := weekday days, yday := d.yday
    hour := remsecs.tdiv 3600, min := (remsecs.tdiv 60).tmod 60, sec := remsecs.tmod 60 }

def secsToTm (t : ℤ) : Except Panic (Option Tm) :=
  if t < intMin * 31622400 ∨ t > intMax * 31622400 then .ok none
  else
    let (days, remsecs) := floorDiv (t - leapoch) 86400
    (splitDays days).toTm days remsecs

def secsThroughMonth : List ℤ :=
  [0, 31 * 86400, 59 * 86400, 90 * 86400, 120 * 86400, 151 * 86400, 181 * 86400, 212 * 86400, 243 * 86400, 273 * 86400,
    304 * 86400, 334 * 86400]

/-- For the months of the array. -/
def monthToSecs (month : ℤ) (isLeap : Bool) : ℤ :=
  let t := secsThroughMonth.getD month.toNat 0
  if isLeap ∧ month ≥ 2 then t + 86400 else t

def centuryOf (rem : ℤ) : ℤ × ℤ :=
  if rem ≥ 200 then if rem ≥ 300 then (3, rem - 300) else (2, rem - 200)
  else if rem ≥ 100 then (1, rem - 100) else (0, rem)

/-- The seconds and whether it is a leap year. The first branch is for the years whose distance from 2, as an unsigned
number of 64 bits, is at most 136. -/
def yearToSecs (year : ℤ) : ℤ × Bool :=
  if (year - 2) % 2 ^ 64 ≤ 136 then
    let leaps := (year - 68) / 4
    if (year - 68) % 4 = 0 then (31536000 * (year - 70) + 86400 * (leaps - 1), true)
    else (31536000 * (year - 70) + 86400 * leaps, false)
  else
    let (cycles, rem) := floorDiv (year - 100) 400
    let (centuries, leaps, isLeap) :=
      if rem = 0 then (0, 0, true)
      else
        let (centuries, rem) := centuryOf rem
        if rem = 0 then (centuries, 0, false) else (centuries, rem / 4, decide (rem % 4 = 0))
    let leaps := leaps + 97 * cycles + 24 * centuries - if isLeap then 1 else 0
    ((year - 100) * 31536000 + leaps * 86400 + 946684800 + 86400, isLeap)

def tmToSecs (tm : Tm) : Except Panic ℤ := do
  let (year, month) :=
    if tm.mon ≥ 12 ∨ tm.mon < 0 then
      let (adj, month) := floorDiv tm.mon 12
      (tm.year + adj, month)
    else (tm.year, tm.mon)
  let (t, isLeap) := yearToSecs year
  let t := t + monthToSecs month isLeap
  let t := t + 86400 * (← checkInt (tm.mday - 1))
  return t + 3600 * tm.hour + 60 * tm.min + tm.sec

section Division

variable {x d days size parts : ℤ}

lemma floorDiv_eq (hd : 0 < d) : floorDiv x d = (x / d, x % d) := by
  rw [floorDiv, Int.tdiv_eq_ediv, Int.tmod_eq_emod, Int.sign_eq_one_of_pos hd]
  have hnonneg := Int.emod_nonneg x hd.ne'
  have hlt := Int.emod_lt_of_pos x hd
  by_cases h : 0 ≤ x ∨ d ∣ x
  · rw [if_pos h, if_pos h, if_neg (by omega)]
    simp
  · rw [if_neg h, if_neg h, if_pos (by omega)]
    have habs : (d.natAbs : ℤ) = d := Int.natAbs_of_nonneg hd.le
    simp [habs]

/-- A part of `size` days, and the last one with a day more. -/
lemma partOf_spec (h : 0 ≤ days) (hle : days ≤ parts * size) (hs : 0 < size) (hp : 0 < parts) :
    0 ≤ partOf days size parts ∧ partOf days size parts < parts ∧ 0 ≤ days - partOf days size parts * size ∧
      (days - partOf days size parts * size < size ∨
        partOf days size parts = parts - 1 ∧ days - partOf days size parts * size = size) := by
  rw [partOf, Int.tdiv_eq_ediv_of_nonneg h]
  have hdiv := Int.ediv_mul_add_emod days size
  have hnonneg := Int.emod_nonneg days hs.ne'
  have hlt := Int.emod_lt_of_pos days hs
  have hquot := Int.ediv_nonneg h hs.le
  have hquot' : days / size ≤ parts := Int.ediv_le_of_le_mul hs hle
  split_ifs with he
  · rw [he] at hdiv
    have hmul : (parts - 1) * size = parts * size - size := by ring
    rw [he, hmul]
    omega
  · omega

lemma weekday_eq (days : ℤ) : weekday days = (days + 3) % 7 := by
  have hsecond : weekday days = (floorDiv (3 + days) 7).2 := by
    rw [weekday, floorDiv]
    split_ifs <;> rfl
  rw [hsecond, floorDiv_eq (by decide), add_comm]

end Division

section Split

/-- The days of a year from March that come before its month `m`. -/
def marchDays (m : ℤ) : ℤ := (153 * m + 2) / 5

lemma findMonth_spec {months : List ℤ} {n r : ℤ} (h : 0 ≤ r) (hlt : r < months.sum) :
    ∃ i, ∃ hi : i < months.length, findMonth months n r = .ok (n + i, r - (months.take i).sum) ∧
      0 ≤ r - (months.take i).sum ∧ r - (months.take i).sum < months.get ⟨i, hi⟩ := by
  induction months generalizing n r with
  | nil => exact absurd (h.trans_lt hlt) (lt_irrefl _)
  | cons d rest ih =>
    rw [List.sum_cons] at hlt
    by_cases hd : d ≤ r
    · obtain ⟨i, hi, hfind, hpos, hlast⟩ := ih (n := n + 1) (r := r - d) (by omega) (by omega)
      refine ⟨i + 1, Nat.succ_lt_succ hi, ?_, ?_, ?_⟩
      · rw [findMonth, if_pos hd, hfind, List.take_succ_cons, List.sum_cons]
        simp only [Nat.cast_add, Nat.cast_one]
        congr 2 <;> ring
      · rw [List.take_succ_cons, List.sum_cons]
        omega
      · rw [List.take_succ_cons, List.sum_cons, List.get_cons_succ]
        omega
    · refine ⟨0, Nat.succ_pos _, ?_, ?_, ?_⟩
      · rw [findMonth, if_neg hd]
        simp
      · simpa using h
      · simpa using hd

lemma findMonth_march {r : ℤ} (h : 0 ≤ r) (hle : r ≤ 365) : ∃ m, 0 ≤ m ∧ m ≤ 11 ∧
    findMonth marchMonths 0 r = .ok (m, r - marchDays m) ∧ marchDays m ≤ r ∧ (r < marchDays (m + 1)) := by
  obtain ⟨i, hi, hfind, hpos, hlast⟩ := @findMonth_spec marchMonths 0 r h (hle.trans_lt (by decide))
  have hi : i < 12 := hi
  refine ⟨i, by omega, by omega, ?_⟩
  have hsum : (marchMonths.take i).sum = marchDays i := by
    interval_cases i <;> rfl
  rw [hsum] at hfind hpos hlast
  refine ⟨by rw [hfind, zero_add], by omega, ?_⟩
  interval_cases i <;> simp [marchMonths, marchDays] at hlast ⊢ <;> omega

/-- What `splitDays` makes of the days since 1 March 2000. -/
structure Cycles.Of (d : Cycles) (days : ℤ) : Prop where
  centuries : 0 ≤ d.cCycles ∧ d.cCycles ≤ 3
  quads : 0 ≤ d.qCycles ∧ d.qCycles ≤ 24
  years : 0 ≤ d.remyears ∧ d.remyears ≤ 3
  rest : 0 ≤ d.remdays ∧ d.remdays ≤ 365
  sum : days = 146097 * d.qcCycles + 36524 * d.cCycles + 1461 * d.qCycles + 365 * d.remyears + d.remdays
  leap : d.remdays = 365 → d.remyears = 3 ∧ (d.qCycles ≠ 24 ∨ d.cCycles = 3)

lemma splitDays_spec (days : ℤ) : (splitDays days).Of days := by
  have h400 : (daysPer400Y : ℤ) = 146097 := rfl
  have h100 : (daysPer100Y : ℤ) = 36524 := rfl
  have h4 : (daysPer4Y : ℤ) = 1461 := rfl
  have hpos := Int.emod_nonneg days (by decide : (146097 : ℤ) ≠ 0)
  have hlt := Int.emod_lt_of_pos days (by decide : (0 : ℤ) < 146097)
  have hsum := Int.mul_ediv_add_emod days 146097
  simp only [splitDays, h400, h100, h4]
  rw [floorDiv_eq (by decide)]
  dsimp only
  generalize days / 146097 = qc at *
  generalize days % 146097 = r at *
  obtain ⟨hc, hc', hr, hr'⟩ := @partOf_spec r 36524 4 hpos (by omega) (by decide) (by decide)
  generalize partOf r 36524 4 = c at *
  generalize hrest : r - c * 36524 = r₁ at *
  obtain ⟨hq, hq', hr₁, hr₁'⟩ := @partOf_spec r₁ 1461 25 hr (by omega) (by decide) (by decide)
  generalize partOf r₁ 1461 25 = q at *
  generalize hrest₁ : r₁ - q * 1461 = r₂ at *
  obtain ⟨hy, hy', hr₂, hr₂'⟩ := @partOf_spec r₂ 365 4 hr₁ (by omega) (by decide) (by decide)
  generalize partOf r₂ 365 4 = y at *
  have hlast : r₂ - y * 365 ≤ 365 := by omega
  refine ⟨⟨hc, Int.le_of_lt_add_one hc'⟩, ⟨hq, Int.le_of_lt_add_one hq'⟩, ⟨hy, Int.le_of_lt_add_one hy'⟩, ⟨hr₂, hlast⟩,
    ?_, fun hlast => ?_⟩
  · dsimp only
    omega
  · dsimp only at hlast ⊢
    omega

/-- The year that begins in March, `d.years` years after 2000. -/
def Cycles.march (d : Cycles) : ℤ := 2000 + d.remyears + 4 * d.qCycles + 100 * d.cCycles + 400 * d.qcCycles

lemma Cycles.Of.start {d : Cycles} {days : ℤ} (h : d.Of days) :
    dayNumber d.march 3 1 = 11017 + days - d.remdays := by
  obtain ⟨hc, hq, hy, -, hsum, -⟩ := h
  rw [dayNumber, daysBeforeMonth_eq _ (by decide) (by decide), if_neg (by decide), daysBeforeYear]
  rw [Cycles.march]
  split_ifs with hl <;> rw [IsLeapYear] at hl <;> omega

/-- The days of January and February. -/
lemma daysBeforeMonth_march (y : ℤ) : daysBeforeMonth y 3 = if IsLeapYear y then 60 else 59 := by
  rw [daysBeforeMonth_eq y (by decide) (by decide), if_neg (by decide : ¬ 3 ≤ 2)]
  split_ifs <;> rfl

/-- The months of a year from March on. -/
lemma dayNumber_month {y m d : ℤ} (hm : 0 ≤ m) (hm' : m ≤ 9) :
    dayNumber y (m + 3).toNat d = dayNumber y 3 1 + marchDays m + (d - 1) := by
  have hcast : ((m + 3).toNat : ℤ) = m + 3 := Int.toNat_of_nonneg (by omega)
  have hmonth := daysBeforeMonth_eq y (m := (m + 3).toNat) (by omega) (by omega)
  rw [if_neg (by omega : ¬ (m + 3).toNat ≤ 2), hcast] at hmonth
  rw [dayNumber, dayNumber, hmonth, daysBeforeMonth_march, marchDays]
  split_ifs <;> interval_cases m <;> omega

/-- January and February belong to the year from March before. -/
lemma dayNumber_winter {y m d : ℤ} (hm : 10 ≤ m) (hm' : m ≤ 11) :
    dayNumber (y + 1) (m - 9).toNat d = dayNumber y 3 1 + marchDays m + (d - 1) := by
  have hcast : ((m - 9).toNat : ℤ) = m - 9 := Int.toNat_of_nonneg (by omega)
  have hmonth := daysBeforeMonth_eq (y + 1) (m := (m - 9).toNat) (by omega) (by omega)
  rw [if_pos (by omega : (m - 9).toNat ≤ 2), hcast] at hmonth
  rw [dayNumber, dayNumber, hmonth, daysBeforeYear_succ, daysBeforeMonth_march, marchDays]
  split_ifs <;> omega

end Split

/-- The fields are those of the second `t`, which is on the day `d`. -/
structure Tm.IsAt (tm : Tm) (d : Date) (t : ℤ) : Prop where
  year : tm.year = d.year - 1900
  mon : tm.mon = d.month - 1
  mday : tm.mday = d.day
  wday : tm.wday = (d.number + 4) % 7
  yday : tm.yday = d.number - dayNumber d.year 1 1
  day : d.number = t / 86400
  hour : tm.hour = t % 86400 / 3600
  min : tm.min = t % 3600 / 60
  sec : tm.sec = t % 60

section Dates

variable {d : Cycles} {days m t x y : ℤ}

lemma checkInt_eq_ok : checkInt x = .ok y ↔ (intMin ≤ x ∧ x ≤ intMax) ∧ y = x := by
  rw [checkInt]
  split_ifs with h
  · exact ⟨fun he => ⟨h, (Except.ok.inj he).symm⟩, fun ⟨_, he⟩ => congrArg Except.ok he.symm⟩
  · exact ⟨nofun, fun ⟨he, _⟩ => absurd he h⟩

lemma checkInt_of (h : intMin ≤ x ∧ x ≤ intMax) : checkInt x = .ok x := if_pos h

/-- A year from March with 366 days ends in a leap year. -/
lemma Cycles.Of.isLeap (h : d.Of days) (hlast : d.remdays = 365) : IsLeapYear (d.march + 1) := by
  obtain ⟨hy, hq⟩ := h.leap hlast
  have hc := h.centuries
  have hq' := h.quads
  rw [IsLeapYear, Cycles.march]
  omega

lemma Cycles.Of.isLeap_iff (h : d.Of days) :
    IsLeapYear d.march ↔ d.remyears = 0 ∧ (d.qCycles ≠ 0 ∨ d.cCycles = 0) := by
  obtain ⟨hc, hq, hy, -, -, -⟩ := h
  rw [IsLeapYear, Cycles.march]
  omega

/-- The date that the month loop finds. -/
lemma Cycles.Of.date (h : d.Of days) (hm : 0 ≤ m) (hm' : m ≤ 11) (hle : marchDays m ≤ d.remdays)
    (hlt : d.remdays < marchDays (m + 1)) :
    ∃ date : Date, date.number = 11017 + days ∧ date.day = d.remdays - marchDays m + 1 ∧
      (m ≤ 9 → date.year = d.march ∧ (date.month : ℤ) = m + 3) ∧
      (10 ≤ m → date.year = d.march + 1 ∧ (date.month : ℤ) = m - 9) := by
  have hstart := h.start
  by_cases hwinter : 10 ≤ m
  · have hlast : d.remdays - marchDays m + 1 ≤ daysInMonth (d.march + 1) (m - 9).toNat := by
      have hcases : m = 10 ∨ m = 11 := by omega
      rcases hcases with rfl | rfl
      · have hlen : daysInMonth (d.march + 1) (10 - 9 : ℤ).toNat = 31 := rfl
        rw [hlen]
        simp only [marchDays] at hlt ⊢
        omega
      · have hlen : daysInMonth (d.march + 1) (11 - 9 : ℤ).toNat = if IsLeapYear (d.march + 1) then 29 else 28 := rfl
        have hrest := h.rest
        rw [hlen, marchDays]
        split_ifs with hleap
        · omega
        · have hne : d.remdays ≠ 365 := fun he => hleap (h.isLeap he)
          omega
    refine ⟨⟨d.march + 1, (m - 9).toNat, _, by omega, by omega, by omega, hlast⟩, ?_, rfl, by omega, fun _ => ⟨rfl, ?_⟩⟩
    · rw [Date.number, dayNumber_winter hwinter hm', hstart]
      dsimp only
      omega
    · exact Int.toNat_of_nonneg (by omega)
  · have hlast : d.remdays - marchDays m + 1 ≤ daysInMonth d.march (m + 3).toNat := by
      have hlen : daysInMonth d.march (m + 3).toNat = marchDays (m + 1) - marchDays m := by
        have hnine : m ≤ 9 := by omega
        interval_cases m <;> rfl
      omega
    refine ⟨⟨d.march, (m + 3).toNat, _, by omega, by omega, by omega, hlast⟩, ?_, rfl, fun _ => ⟨rfl, ?_⟩, by omega⟩
    · rw [Date.number, dayNumber_month hm (by omega), hstart]
      dsimp only
      omega
    · exact Int.toNat_of_nonneg (by omega)

lemma Cycles.Of.yday (h : d.Of days) :
    (d.remdays < 306 → d.yday = 11017 + days - dayNumber d.march 1 1) ∧
      (306 ≤ d.remdays → d.yday = 11017 + days - dayNumber (d.march + 1) 1 1) := by
  have hstart := h.start
  have hwinter := @dayNumber_winter d.march 10 1 (by decide) (by decide)
  have hmarch : dayNumber d.march 3 1 = dayNumber d.march 1 1 + if IsLeapYear d.march then 60 else 59 := by
    rw [dayNumber, dayNumber, daysBeforeMonth_march, daysBeforeMonth_one]
    ring
  have hten : dayNumber (d.march + 1) (10 - 9 : ℤ).toNat 1 = dayNumber (d.march + 1) 1 1 := rfl
  have h306 : marchDays 10 = 306 := rfl
  rw [hten, h306] at hwinter
  rw [if_congr h.isLeap_iff rfl rfl] at hmarch
  rw [Cycles.yday]
  split_ifs at hmarch ⊢ <;> omega

/-- The years that an `int` can hold on the way, with their months. -/
structure Cycles.InRange (d : Cycles) : Prop where
  low : -5368709 ≤ d.qcCycles
  high : d.march ≤ 2147485546 ∨ d.march = 2147485547 ∧ d.remdays < 306

lemma Cycles.Of.late_iff (h : d.Of days) (hm : 0 ≤ m) (hm' : m ≤ 11) (hle : marchDays m ≤ d.remdays)
    (hlt : d.remdays < marchDays (m + 1)) : 10 ≤ m ↔ 306 ≤ d.remdays := by
  constructor
  · intro hlate
    have hcases : m = 10 ∨ m = 11 := by omega
    rcases hcases with rfl | rfl <;> simp only [marchDays] at hle <;> omega
  · intro hlate
    by_contra hearly
    simp only [marchDays] at hlt
    omega

lemma Cycles.Of.toTm (h : d.Of days) (hrange : d.InRange) {s : ℤ} (hs : 0 ≤ s) :
    ∃ (tm : Tm) (date : Date), d.toTm days s = .ok (some tm) ∧ date.number = 11017 + days ∧
      tm.year = date.year - 1900 ∧ tm.mon = date.month - 1 ∧ tm.mday = date.day ∧ tm.wday = (date.number + 4) % 7 ∧
      tm.yday = date.number - dayNumber date.year 1 1 ∧ tm.hour = s / 3600 ∧ tm.min = s / 60 % 60 ∧
      tm.sec = s % 60 := by
  obtain ⟨m, hm, hm', hfind, hle, hlt⟩ := findMonth_march h.rest.1 h.rest.2
  obtain ⟨date, hnumber, hday, hsummer, hwinter⟩ := h.date hm hm' hle hlt
  obtain ⟨hyday, hyday'⟩ := h.yday
  have hlate := h.late_iff hm hm' hle hlt
  obtain ⟨hc, hq, hy, hr, -, -⟩ := h
  obtain ⟨hlow, hhigh⟩ := hrange
  simp only [Cycles.march] at hsummer hwinter hyday hyday' hhigh
  have hwday : weekday days = (date.number + 4) % 7 := by
    rw [weekday_eq, hnumber]
    omega
  have hsixty := Int.ediv_nonneg hs (by decide : (0 : ℤ) ≤ 60)
  rw [Cycles.toTm, hfind, checkInt_of (by simp only [intMin, intMax]; omega), ok_bind,
    checkInt_of (by simp only [intMin, intMax]; omega), ok_bind, ok_bind]
  dsimp only
  rw [checkInt_of (by simp only [intMin, intMax]; omega), ok_bind, if_neg (by simp only [intMin, intMax]; omega),
    Int.tdiv_eq_ediv_of_nonneg hs, Int.tdiv_eq_ediv_of_nonneg hs, Int.tmod_eq_emod_of_nonneg hs,
    Int.tmod_eq_emod_of_nonneg hsixty]
  by_cases hin : 10 ≤ m
  · obtain ⟨hyear, hmonth⟩ := hwinter hin
    rw [if_pos (by omega), checkInt_of (by simp only [intMin, intMax]; omega)]
    refine ⟨_, date, rfl, hnumber, ?_, ?_, ?_, hwday, ?_, rfl, rfl, rfl⟩ <;> dsimp only
    · omega
    · omega
    · omega
    · rw [hyday' (hlate.mp hin), hyear, hnumber]
  · obtain ⟨hyear, hmonth⟩ := hsummer (by omega)
    rw [if_neg (by omega)]
    refine ⟨_, date, rfl, hnumber, ?_, ?_, ?_, hwday, ?_, rfl, rfl, rfl⟩ <;> dsimp only
    · omega
    · omega
    · omega
    · rw [hyday (by omega), hyear, hnumber]

lemma Cycles.Of.inRange {s : ℤ} {tm : Tm} (h : d.Of days) (ht : d.toTm days s = .ok (some tm)) : d.InRange := by
  obtain ⟨m, hm, hm', hfind, hle, hlt⟩ := findMonth_march h.rest.1 h.rest.2
  have hlate := h.late_iff hm hm' hle hlt
  obtain ⟨hc, hq, hy, hr, -, -⟩ := h
  obtain ⟨quads, hquads, ht⟩ := bind_eq_ok.mp ht
  obtain ⟨years, hyears, ht⟩ := bind_eq_ok.mp ht
  obtain ⟨hlow, rfl⟩ := checkInt_eq_ok.mp hquads
  obtain ⟨-, rfl⟩ := checkInt_eq_ok.mp hyears
  rw [hfind, ok_bind] at ht
  obtain ⟨y, hy', ht⟩ := bind_eq_ok.mp ht
  obtain ⟨hhigh, rfl⟩ := checkInt_eq_ok.mp hy'
  dsimp only at ht
  split_ifs at ht with hno hwinter
  · cases ht
  · obtain ⟨y, hlast, -⟩ := bind_eq_ok.mp ht
    obtain ⟨hlast, -⟩ := checkInt_eq_ok.mp hlast
    simp only [intMin, intMax] at hlow hhigh hlast
    refine ⟨by omega, ?_⟩
    rw [Cycles.march]
    omega
  · simp only [intMin, intMax] at hlow hhigh
    refine ⟨by omega, ?_⟩
    rw [Cycles.march]
    omega

/-- The first and the last second that `secs_to_tm` can take apart. -/
def firstTime : ℤ := -67768035934118400

def lastTime : ℤ := 67768036191676799

/-- `secs_to_tm` takes the seconds of its range apart, and no others. -/
lemma secsToTm_spec (t : ℤ) :
    (firstTime ≤ t ∧ t ≤ lastTime → ∃ tm date, secsToTm t = .ok (some tm) ∧ tm.IsAt date t) ∧
      ∀ tm, secsToTm t = .ok (some tm) → firstTime ≤ t ∧ t ≤ lastTime := by
  have hd := splitDays_spec ((t - leapoch) / 86400)
  have hrange : (splitDays ((t - leapoch) / 86400)).InRange ↔ firstTime ≤ t ∧ t ≤ lastTime := by
    obtain ⟨hc, hq, hy, hr, hsum, -⟩ := hd
    rw [show leapoch = 951868800 from rfl] at *
    generalize splitDays _ = d at *
    refine ⟨fun ⟨hlow, hhigh⟩ => ?_, fun ⟨hlow, hhigh⟩ => ⟨?_, ?_⟩⟩ <;>
      simp only [Cycles.march, firstTime, lastTime] at * <;> omega
  have hleapoch : leapoch = 951868800 := rfl
  have hsecs := Int.emod_nonneg (t - leapoch) (by decide : (86400 : ℤ) ≠ 0)
  rw [secsToTm, floorDiv_eq (by decide)]
  refine ⟨fun hin => ?_, fun tm ht => ?_⟩
  · obtain ⟨tm, date, htm, hnumber, hyear, hmon, hmday, hwday, hyday, hhour, hmin, hsec⟩ :=
      hd.toTm (hrange.mpr hin) hsecs
    simp only [firstTime, lastTime] at hin
    rw [if_neg (by simp only [intMin, intMax]; omega)]
    rw [hleapoch] at *
    exact ⟨tm, date, htm, hyear, hmon, hmday, hwday, hyday, by omega, by omega, by omega, by omega⟩
  · split_ifs at ht with hguard
    · cases ht
    · exact hrange.mp (hd.inRange ht)

end Dates

section Seconds

variable {year month t : ℤ} {y : ℤ} {tm : Tm}

lemma centuryOf_spec {rem : ℤ} (h : 0 ≤ rem) (hlt : rem < 400) :
    ∃ c r, centuryOf rem = (c, r) ∧ rem = 100 * c + r ∧ (0 ≤ c ∧ c ≤ 3) ∧ 0 ≤ r ∧ r < 100 := by
  rw [centuryOf]
  split_ifs
  · exact ⟨3, rem - 300, rfl, by omega, by decide, by omega⟩
  · exact ⟨2, rem - 200, rfl, by omega, by decide, by omega⟩
  · exact ⟨1, rem - 100, rfl, by omega, by decide, by omega⟩
  · exact ⟨0, rem, rfl, by omega, by decide, by omega⟩

/-- The year is the `r`-th of the century `c` of 400 years that begin in 2000. -/
lemma centuryYear_eq {q c r : ℤ} {isLeap : Bool} (hy : year - 100 = 400 * q + 100 * c + r) (hc : 0 ≤ c ∧ c ≤ 3)
    (hr : 0 ≤ r ∧ r < 100) (hl : isLeap = true ↔ r % 4 = 0 ∧ (r ≠ 0 ∨ c = 0)) :
    ((year - 100) * 31536000 + (r / 4 + 97 * q + 24 * c - if isLeap then 1 else 0) * 86400 + 946684800 + 86400,
        isLeap) =
      (86400 * (daysBeforeYear (year + 1900) - 719162), decide (IsLeapYear (year + 1900))) := by
  have hleap : IsLeapYear (year + 1900) ↔ r % 4 = 0 ∧ (r ≠ 0 ∨ c = 0) := by
    rw [IsLeapYear]
    omega
  refine Prod.ext ?_ (Bool.eq_iff_iff.mpr (hl.trans (hleap.symm.trans decide_eq_true_iff.symm)))
  dsimp only
  rw [if_congr hl rfl rfl, daysBeforeYear]
  split_ifs <;> omega

/-- Both branches count the leap years alike. -/
lemma yearToSecs_eq (h : -2 ^ 40 ≤ year) (h' : year ≤ 2 ^ 40) :
    yearToSecs year = (86400 * (daysBeforeYear (year + 1900) - 719162), decide (IsLeapYear (year + 1900))) := by
  have hnear : (year - 2) % 2 ^ 64 ≤ 136 ↔ 2 ≤ year ∧ year ≤ 138 := by omega
  rw [yearToSecs, if_congr hnear rfl rfl, floorDiv_eq (by decide)]
  dsimp only
  by_cases hin : 2 ≤ year ∧ year ≤ 138
  · rw [if_pos hin]
    split_ifs with hleap
    · refine Prod.ext ?_ ?_ <;> dsimp only
      · rw [daysBeforeYear]
        omega
      · rw [eq_comm, decide_eq_true_iff, IsLeapYear]
        omega
    · refine Prod.ext ?_ ?_ <;> dsimp only
      · rw [daysBeforeYear]
        omega
      · rw [eq_comm, decide_eq_false_iff_not, IsLeapYear]
        omega
  · rw [if_neg hin]
    have hdiv := Int.mul_ediv_add_emod (year - 100) 400
    have hpos := Int.emod_nonneg (year - 100) (by decide : (400 : ℤ) ≠ 0)
    have hlt := Int.emod_lt_of_pos (year - 100) (by decide : (0 : ℤ) < 400)
    generalize (year - 100) / 400 = q at *
    generalize (year - 100) % 400 = r at *
    by_cases hr : r = 0
    · rw [if_pos hr]
      exact @centuryYear_eq year q 0 0 true (by omega) (by decide) (by decide) (by decide)
    · obtain ⟨c, r', hcentury, hsum, hc, hr'⟩ := centuryOf_spec hpos hlt
      rw [if_neg hr, hcentury]
      dsimp only
      by_cases hz : r' = 0
      · rw [if_pos hz]
        exact @centuryYear_eq year q c 0 false (by omega) hc (by decide) (by simp; omega)
      · rw [if_neg hz]
        exact centuryYear_eq (by omega) hc hr' (by rw [decide_eq_true_iff]; omega)

lemma monthToSecs_eq {isLeap : Bool} (h : 0 ≤ month) (h' : month ≤ 11) (hl : isLeap = decide (IsLeapYear y)) :
    monthToSecs month isLeap = 86400 * daysBeforeMonth y (month + 1).toNat := by
  have hcast : ((month + 1).toNat : ℤ) = month + 1 := Int.toNat_of_nonneg (by omega)
  rw [daysBeforeMonth_eq y (by omega) (by omega), hcast, monthToSecs, hl]
  interval_cases month <;> simp [secsThroughMonth] <;> split_ifs <;> rfl

/-- An `int`. -/
def IsInt (x : ℤ) : Prop := intMin ≤ x ∧ x ≤ intMax

/-- `tm_to_secs` of any fields: months beyond the year count into the years, and days, hours, minutes and seconds add
up. -/
lemma tmToSecs_spec (hyear : IsInt tm.year) (hmon : IsInt tm.mon) (hmday : IsInt tm.mday) (hne : tm.mday ≠ intMin) :
    tmToSecs tm = .ok (86400 * dayNumber (1900 + tm.year + tm.mon / 12) (tm.mon % 12 + 1).toNat tm.mday +
      3600 * tm.hour + 60 * tm.min + tm.sec) := by
  simp only [IsInt, intMin, intMax] at hyear hmon hmday hne
  have hsplit : (if tm.mon ≥ 12 ∨ tm.mon < 0 then (tm.year + tm.mon / 12, tm.mon % 12) else (tm.year, tm.mon)) =
      (tm.year + tm.mon / 12, tm.mon % 12) := by
    split_ifs with h
    · rfl
    · rw [Int.ediv_eq_zero_of_lt (by omega) (by omega), Int.emod_eq_of_lt (by omega) (by omega), add_zero]
  rw [tmToSecs, floorDiv_eq (by decide)]
  dsimp only
  rw [hsplit]
  dsimp only
  rw [yearToSecs_eq (by omega) (by omega)]
  dsimp only
  rw [monthToSecs_eq (by omega) (by omega) rfl, checkInt_of (by simp only [intMin, intMax]; omega), ok_bind, pure_eq_ok,
    dayNumber]
  have hy : tm.year + tm.mon / 12 + 1900 = 1900 + tm.year + tm.mon / 12 := by ring
  rw [hy]
  congr 1
  ring

end Seconds

section RoundTrips

variable {tm tm' : Tm} {d : Date} {t : ℤ}

lemma Tm.IsAt.toNat_month (h : tm.IsAt d t) : (tm.mon % 12 + 1).toNat = d.month ∧ tm.mon / 12 = 0 := by
  have hmon := h.mon
  have hpos := d.month_pos
  have hle := d.month_le
  omega

lemma Tm.IsAt.isInt (h : tm.IsAt d t) (hlow : firstTime ≤ t) (hhigh : t ≤ lastTime) : IsInt tm.year := by
  have hnumber := h.day
  have hyear := h.year
  obtain ⟨hfirst, hlast⟩ := d.number_year
  rw [daysBeforeYear] at hfirst hlast
  simp only [IsInt, intMin, intMax, firstTime, lastTime] at *
  omega

/-- The seconds of a date and a time of day are its own. -/
lemma Tm.IsAt.tmToSecs (h : tm.IsAt d t) (hyear : IsInt tm.year) : Kernel.tmToSecs tm = .ok t := by
  obtain ⟨hmonth, hzero⟩ := h.toNat_month
  have hmon := h.mon
  have hmday := h.mday
  have hpos := d.month_pos
  have hle := d.month_le
  have hday := d.day_pos
  have hlast := d.day_le
  have hshort := daysInMonth_le d.year d.month
  rw [tmToSecs_spec hyear (by simp only [IsInt, intMin, intMax]; omega) (by simp only [IsInt, intMin, intMax]; omega)
    (by simp only [intMin]; omega), hmonth, hzero, h.year, h.mday, h.hour, h.min, h.sec]
  have hy : 1900 + (d.year - 1900) + 0 = d.year := by ring
  have hnumber := h.day
  rw [Date.number] at hnumber
  rw [hy, hnumber]
  congr 1
  omega

/-- There is one way to take a second apart. -/
lemma Tm.IsAt.unique {d' : Date} (h : tm.IsAt d t) (h' : tm'.IsAt d' t) : tm = tm' := by
  obtain rfl := Date.number_injective (h.day.trans h'.day.symm)
  obtain ⟨hyear, hmon, hmday, hwday, hyday, -, hhour, hmin, hsec⟩ := h
  exact Tm.ext (hsec.trans h'.sec.symm) (hmin.trans h'.min.symm) (hhour.trans h'.hour.symm) (hmday.trans h'.mday.symm)
    (hmon.trans h'.mon.symm) (hyear.trans h'.year.symm) (hwday.trans h'.wday.symm) (hyday.trans h'.yday.symm)

/-- `tm_to_secs` carries fields beyond their ranges, and `secs_to_tm` then gives the fields in their ranges: the one
date and time of day of that second. -/
theorem tmToSecs_normalises (hyear : IsInt tm.year) (hmon : IsInt tm.mon) (hmday : IsInt tm.mday)
    (hne : tm.mday ≠ intMin) : ∃ t, tmToSecs tm = .ok t ∧
      t = 86400 * dayNumber (1900 + tm.year + tm.mon / 12) (tm.mon % 12 + 1).toNat tm.mday + 3600 * tm.hour +
        60 * tm.min + tm.sec ∧
      (firstTime ≤ t → t ≤ lastTime → ∃ tm' date, secsToTm t = .ok (some tm') ∧
        ∀ tm'', tm''.IsAt date t ↔ tm'' = tm') := by
  refine ⟨_, tmToSecs_spec hyear hmon hmday hne, rfl, fun hlow hhigh => ?_⟩
  obtain ⟨tm', date, htm, hat⟩ := (secsToTm_spec _).1 ⟨hlow, hhigh⟩
  exact ⟨tm', date, htm, fun tm'' => ⟨fun h => h.unique hat, fun h => h ▸ hat⟩⟩

/-- The day 0 of March. -/
theorem tmToSecs_normalises_leapDay : ∃ t, tmToSecs ⟨0, 0, 0, 0, 2, 100, 0, 0⟩ = .ok t ∧
    t = 86400 * dayNumber (1900 + 100 + 2 / 12) (2 % 12 + 1 : ℤ).toNat 0 + 3600 * 0 + 60 * 0 + 0 ∧
    (firstTime ≤ t → t ≤ lastTime → ∃ tm' date, secsToTm t = .ok (some tm') ∧
      ∀ tm'', tm''.IsAt date t ↔ tm'' = tm') :=
  @tmToSecs_normalises ⟨0, 0, 0, 0, 2, 100, 0, 0⟩ (by simp only [IsInt]; decide) (by simp only [IsInt]; decide)
    (by simp only [IsInt]; decide) (by decide)

end RoundTrips

/-- `api::DateTime`. -/
@[ext] structure DateTime where
  year : ℤ
  month : ℤ
  day : ℤ
  hour : ℤ
  minute : ℤ
  second : ℤ
deriving DecidableEq

/-- The other fields of the `tm` stay. -/
def datetimeToTm (dt : DateTime) (tm : Tm) : Except Panic Tm := do
  return { tm with
    year := ← checkInt (dt.year - 1900)
    mon := ← checkInt (dt.month - 1)
    mday := dt.day, hour := dt.hour, min := dt.minute, sec := dt.second }

def datetimeFromTm (tm : Tm) : Except Panic DateTime := do
  return {
    year := ← checkInt (tm.year + 1900)
    month := ← checkInt (tm.mon + 1)
    day := tm.mday, hour := tm.hour, minute := tm.min, second := tm.sec }

def datetimeCompare (a b : DateTime) : Except Panic ℤ :=
  if a.year ≠ b.year then checkInt (a.year - b.year)
  else if a.month ≠ b.month then checkInt (a.month - b.month)
  else if a.day ≠ b.day then checkInt (a.day - b.day)
  else if a.hour ≠ b.hour then checkInt (a.hour - b.hour)
  else if a.minute ≠ b.minute then checkInt (a.minute - b.minute)
  else if a.second ≠ b.second then checkInt (a.second - b.second)
  else .ok 0

/-- The clock counts in `dr`, from what is written to `lr`. -/
structure Pl031 where
  mapped : Bool
  dr : ℕ
  lr : ℕ
  cr : ℕ

def errNodev : ℤ := 19

/-- The return code and `dt`. -/
def Pl031.getTime (s : Pl031) (dt : DateTime) : Except Panic (ℤ × DateTime) := do
  if ¬ s.mapped then return (-errNodev, dt)
  match ← secsToTm s.dr with
  | none => .error (.undefined "time")
  | some tm => return (0, ← datetimeFromTm tm)

/-- `time` has not been set before. -/
def Pl031.setTime (s : Pl031) (dt : DateTime) (time : Tm) : Except Panic (ℤ × Pl031) := do
  if ¬ s.mapped then return (-errNodev, s)
  let secs ← tmToSecs (← datetimeToTm dt time)
  return (0, { s with lr := (secs % 2 ^ 32).toNat })

/-- A date of the calendar and a time of day. -/
structure DateTime.IsValid (dt : DateTime) (d : Date) : Prop where
  year : dt.year = d.year
  month : dt.month = d.month
  day : dt.day = d.day
  hour : 0 ≤ dt.hour ∧ dt.hour < 24
  minute : 0 ≤ dt.minute ∧ dt.minute < 60
  second : 0 ≤ dt.second ∧ dt.second < 60

/-- The seconds since 1970. -/
def DateTime.seconds (dt : DateTime) : ℤ :=
  86400 * dayNumber dt.year dt.month.toNat dt.day + 3600 * dt.hour + 60 * dt.minute + dt.second

section Clock

variable {a b dt : DateTime} {d e : Date}

lemma DateTime.IsValid.seconds_eq (h : dt.IsValid d) :
    dt.seconds = 86400 * d.number + 3600 * dt.hour + 60 * dt.minute + dt.second := by
  rw [DateTime.seconds, h.year, h.month, h.day, Int.toNat_natCast, Date.number]

/-- Two valid date-times with the same second are one. -/
lemma DateTime.IsValid.unique (ha : a.IsValid d) (hb : b.IsValid e) (h : a.seconds = b.seconds) : a = b := by
  rw [ha.seconds_eq, hb.seconds_eq] at h
  obtain ⟨hyear, hmonth, hday, hhour, hminute, hsecond⟩ := ha
  obtain ⟨hyear', hmonth', hday', hhour', hminute', hsecond'⟩ := hb
  obtain rfl : d = e := Date.number_injective (by omega)
  exact DateTime.ext (hyear.trans hyear'.symm) (hmonth.trans hmonth'.symm) (hday.trans hday'.symm) (by omega) (by omega)
    (by omega)

/-- The comparison is that of the seconds. -/
lemma datetimeCompare_spec (ha : a.IsValid d) (hb : b.IsValid e) (hyears : IsInt (a.year - b.year)) :
    ∃ c, datetimeCompare a b = .ok c ∧ (c < 0 ↔ a.seconds < b.seconds) ∧ (c = 0 ↔ a = b) := by
  have hequal : a = b ↔ a.seconds = b.seconds := ⟨congrArg _, ha.unique hb⟩
  have hbefore : a.year < b.year ∨ a.year = b.year ∧ (a.month < b.month ∨ a.month = b.month ∧ a.day < b.day) ↔
      d.number < e.number := by
    rw [← Date.before_iff, Date.Before, ha.year, hb.year, ha.month, hb.month, ha.day, hb.day, Nat.cast_lt, Nat.cast_inj]
  have hsame : a.year = b.year ∧ a.month = b.month ∧ a.day = b.day ↔ d.number = e.number := by
    rw [Date.number_injective.eq_iff, Date.ext_iff, ha.year, hb.year, ha.month, hb.month, ha.day, hb.day, Nat.cast_inj]
  have hday := d.day_pos
  have hday' := e.day_pos
  have hlast := d.day_le.trans (daysInMonth_le _ _)
  have hlast' := e.day_le.trans (daysInMonth_le _ _)
  have hmonth := d.month_le
  have hmonth' := e.month_le
  rw [hequal, ha.seconds_eq, hb.seconds_eq, datetimeCompare]
  obtain ⟨-, ham, had, hhour, hminute, hsecond⟩ := ha
  obtain ⟨-, hbm, hbd, hhour', hminute', hsecond'⟩ := hb
  simp only [IsInt, intMin, intMax] at hyears
  split_ifs with hy hm hd hh hmin hsec
  all_goals try refine ⟨_, checkInt_of (by simp only [intMin, intMax]; omega), ?_, ?_⟩ <;> omega
  exact ⟨0, rfl, by omega, by omega⟩

/-- A clock of 32 bits shows the date and the time of day of the seconds that it counts. -/
lemma Pl031.getTime_spec {s : Pl031} (hm : s.mapped = true) (hlt : s.dr < 2 ^ 32) (dt : DateTime) :
    ∃ dt' d, s.getTime dt = .ok (0, dt') ∧ dt'.IsValid d ∧ dt'.seconds = s.dr := by
  obtain ⟨tm, d, htm, hat⟩ := (secsToTm_spec s.dr).1 ⟨by simp only [firstTime]; omega, by simp only [lastTime]; omega⟩
  have hnumber := hat.day
  have hmonth := d.month_le
  have hfirst := d.number_year
  rw [daysBeforeYear, daysBeforeYear] at hfirst
  have hvalid : DateTime.IsValid ⟨tm.year + 1900, tm.mon + 1, tm.mday, tm.hour, tm.min, tm.sec⟩ d := by
    refine ⟨?_, ?_, hat.mday, ?_, ?_, ?_⟩ <;> dsimp only
    · rw [hat.year]
      ring
    · rw [hat.mon]
      ring
    · rw [hat.hour]
      omega
    · rw [hat.min]
      omega
    · rw [hat.sec]
      omega
  refine ⟨_, d, ?_, hvalid, ?_⟩
  · rw [Pl031.getTime, if_neg (by simpa using hm), htm, ok_bind]
    dsimp only
    rw [datetimeFromTm, checkInt_of (by rw [hat.year]; simp only [intMin, intMax]; omega), ok_bind,
      checkInt_of (by rw [hat.mon]; simp only [intMin, intMax]; omega), ok_bind, pure_eq_ok, ok_bind, pure_eq_ok]
  · rw [hvalid.seconds_eq]
    dsimp only
    rw [hat.hour, hat.min, hat.sec, hnumber]
    omega

lemma Pl031.setTime_spec {s : Pl031} (hm : s.mapped = true) (hv : dt.IsValid d) (h : 0 ≤ dt.seconds)
    (hlt : dt.seconds < 2 ^ 32) (time : Tm) : s.setTime dt time = .ok (0, { s with lr := dt.seconds.toNat }) := by
  have hseconds := hv.seconds_eq
  obtain ⟨hyear, hmonth, hday, hhour, hminute, hsecond⟩ := hv
  have hpos := d.month_pos
  have hle := d.month_le
  have hfirst := d.day_pos
  have hlast := d.day_le.trans (daysInMonth_le d.year d.month)
  have hdays := d.number_year
  rw [daysBeforeYear, daysBeforeYear] at hdays
  have hsecs : tmToSecs { time with
      year := dt.year - 1900, mon := dt.month - 1, mday := dt.day, hour := dt.hour, min := dt.minute,
      sec := dt.second } = .ok dt.seconds := by
    rw [tmToSecs_spec] <;> simp only [IsInt, intMin, intMax]
    · have hy : 1900 + (dt.year - 1900) + (dt.month - 1) / 12 = dt.year := by omega
      have hm' : (dt.month - 1) % 12 + 1 = dt.month := by omega
      rw [hy, hm', DateTime.seconds]
    all_goals omega
  rw [Pl031.setTime, if_neg (by simpa using hm), datetimeToTm, checkInt_of (by simp only [intMin, intMax]; omega),
    ok_bind, checkInt_of (by simp only [intMin, intMax]; omega), ok_bind, pure_eq_ok, ok_bind, hsecs, ok_bind,
    pure_eq_ok, Int.emod_eq_of_lt h hlt]

/-- A clock that is set to a valid date and time shows it, and each number of seconds later the date and time that many
seconds on: after `n` whole days the same time of the `n`-th day after. -/
theorem Pl031.shows_time (s : Pl031) (hm : s.mapped = true) (hv : dt.IsValid d) (h : 0 ≤ dt.seconds)
    (hlt : dt.seconds < 2 ^ 32) (time : Tm) : ∃ s', s.setTime dt time = .ok (0, s') ∧
      ∀ (k : ℕ) (shown : DateTime), dt.seconds + k < 2 ^ 32 → ∃ dt' d',
        Pl031.getTime { s' with dr := s'.lr + k } shown = .ok (0, dt') ∧ dt'.IsValid d' ∧ dt'.seconds = dt.seconds + k ∧
          ∀ n, k = 86400 * n → d' = Date.next^[n] d ∧ dt'.hour = dt.hour ∧ dt'.minute = dt.minute ∧
            dt'.second = dt.second := by
  refine ⟨_, Pl031.setTime_spec hm hv h hlt time, fun k shown hk => ?_⟩
  have hcast := Int.toNat_of_nonneg h
  obtain ⟨dt', d', hget, hv', hseconds⟩ :=
    @Pl031.getTime_spec { s with lr := dt.seconds.toNat, dr := dt.seconds.toNat + k } hm (by dsimp only; omega) shown
  refine ⟨dt', d', hget, hv', by rw [hseconds, Nat.cast_add, hcast], fun n hn => ?_⟩
  rw [hv'.seconds_eq, Nat.cast_add, hcast, hv.seconds_eq] at hseconds
  obtain ⟨-, -, -, hhour, hminute, hsecond⟩ := hv
  obtain ⟨-, -, -, hhour', hminute', hsecond'⟩ := hv'
  refine ⟨Date.number_injective ?_, ?_, ?_, ?_⟩
  · rw [Date.number_next_iterate]
    omega
  all_goals omega

/-- The evening of 28 February 2024. -/
theorem Pl031.shows_time_leapDay :
    ∃ s', Pl031.setTime ⟨true, 0, 0, 1⟩ ⟨2024, 2, 28, 23, 59, 59⟩ ⟨0, 0, 0, 0, 0, 0, 0, 0⟩ = .ok (0, s') ∧
    ∀ (k : ℕ) (shown : DateTime), DateTime.seconds ⟨2024, 2, 28, 23, 59, 59⟩ + k < 2 ^ 32 → ∃ dt' d',
      Pl031.getTime { s' with dr := s'.lr + k } shown = .ok (0, dt') ∧ dt'.IsValid d' ∧
        dt'.seconds = DateTime.seconds ⟨2024, 2, 28, 23, 59, 59⟩ + k ∧
        ∀ n, k = 86400 * n → d' = Date.next^[n] ⟨2024, 2, 28, by decide, by decide, by decide, by decide⟩ ∧
          dt'.hour = 23 ∧ dt'.minute = 59 ∧ dt'.second = 59 :=
  @Pl031.shows_time ⟨2024, 2, 28, 23, 59, 59⟩ ⟨2024, 2, 28, by decide, by decide, by decide, by decide⟩ ⟨true, 0, 0, 1⟩
    rfl ⟨rfl, rfl, rfl, by decide, by decide, by decide⟩ (by decide) (by decide) ⟨0, 0, 0, 0, 0, 0, 0, 0⟩

end Clock

end Pi0Os.Kernel
