import Mathlib.Algebra.Order.Ring.Int
import Mathlib.Tactic.Common
import Mathlib.Tactic.IntervalCases

/-!
The Gregorian calendar, extended to all years: dates and the numbers of their days, counted from
the first of January 1970.
-/

namespace KioExtras.Lib.Calendar

structure Date where
  year : ℤ
  month : ℤ
  day : ℤ
  deriving DecidableEq

variable (year : ℤ)

def leapDay : ℤ :=
  if year % 4 = 0 ∧ (year % 100 ≠ 0 ∨ year % 400 = 0) then 1 else 0

def daysInMonth (month : ℤ) : ℤ :=
  if month = 2 then 28 + leapDay year
  else if month = 4 ∨ month = 6 ∨ month = 9 ∨ month = 11 then 30
  else 31

structure Date.Valid (d : Date) : Prop where
  month_pos : 1 ≤ d.month
  month_le : d.month ≤ 12
  day_pos : 1 ≤ d.day
  day_le : d.day ≤ daysInMonth d.year d.month

def yearStart : ℤ :=
  365 * (year - 1970) + (year - 1) / 4 - (year - 1) / 100 + (year - 1) / 400 - 477

def beforeMonth (month : ℤ) : ℤ :=
  (367 * month - 362) / 12 + if month ≤ 2 then 0 else leapDay year - 2

def Date.number (d : Date) : ℤ := yearStart d.year + beforeMonth d.year d.month + d.day - 1

/-! ### Years and months -/

lemma leapDay_bounds : 0 ≤ leapDay year ∧ leapDay year ≤ 1 := by
  unfold leapDay
  split <;> omega

lemma yearStart_succ : yearStart (year + 1) = yearStart year + 365 + leapDay year := by
  unfold yearStart leapDay
  split <;> omega

lemma yearStart_le {y z : ℤ} (h : y ≤ z) : yearStart y + 365 * (z - y) ≤ yearStart z := by
  unfold yearStart
  omega

lemma beforeMonth_first : beforeMonth year 1 = 0 := rfl

lemma beforeMonth_end : beforeMonth year 13 = 365 + leapDay year := by
  simp only [beforeMonth, Int.reduceMul, Int.reduceSub, Int.reduceDiv, Int.reduceLE, if_false]
  omega

lemma beforeMonth_succ {year month : ℤ} (hpos : 1 ≤ month) (hle : month ≤ 12) :
    beforeMonth year (month + 1) = beforeMonth year month + daysInMonth year month := by
  unfold beforeMonth daysInMonth
  interval_cases month <;> simp only [Int.reduceAdd, Int.reduceMul, Int.reduceSub, Int.reduceDiv,
    Int.reduceLE, Int.reduceEq, if_true, if_false, or_true, or_false] <;> omega

lemma beforeMonth_mono {m n : ℤ} (h : m ≤ n) : beforeMonth year m ≤ beforeMonth year n := by
  have hleap := leapDay_bounds year
  unfold beforeMonth
  split_ifs <;> omega

/-! ### The day of a date -/

namespace Date

variable {d e : Date}

lemma Valid.month_bounds (h : d.Valid) :
    yearStart d.year + beforeMonth d.year d.month ≤ d.number ∧
      d.number < yearStart d.year + beforeMonth d.year (d.month + 1) := by
  have hday := h.day_pos
  have hlast := h.day_le
  rw [beforeMonth_succ h.month_pos h.month_le]
  unfold number
  omega

lemma Valid.year_bounds (h : d.Valid) :
    yearStart d.year ≤ d.number ∧ d.number < yearStart (d.year + 1) := by
  have hmonth := h.month_bounds
  have hfirst := beforeMonth_mono d.year h.month_pos
  have hlast : beforeMonth d.year (d.month + 1) ≤ beforeMonth d.year 13 :=
    beforeMonth_mono d.year (by have := h.month_le; omega)
  rw [beforeMonth_first] at hfirst
  rw [beforeMonth_end] at hlast
  rw [yearStart_succ]
  omega

lemma Valid.year_le (hd : d.Valid) (he : e.Valid) (h : d.number ≤ e.number) :
    d.year ≤ e.year ∧ (d.year = e.year → d.month ≤ e.month) := by
  constructor
  · by_contra hlt
    have hyear := yearStart_le (show e.year + 1 ≤ d.year by omega)
    have hlow := hd.year_bounds.1
    have hhigh := he.year_bounds.2
    omega
  · intro hyear
    by_contra hlt
    have hmonth := beforeMonth_mono d.year (show e.month + 1 ≤ d.month by omega)
    have hlow := hd.month_bounds.1
    have hhigh := he.month_bounds.2
    rw [← hyear] at hhigh
    omega

/-- Half a year back from a date one is in an earlier month of its year, or in the year before and
well behind its month. -/
lemma Valid.half_year (hd : d.Valid) (he : e.Valid) (h : d.number ≤ e.number)
    (hhalf : e.number ≤ d.number + 183) :
    d.year = e.year ∧ d.month ≤ e.month ∨ d.year = e.year - 1 ∧ e.month + 1 < d.month := by
  obtain ⟨hyear, hmonth⟩ := hd.year_le he h
  rcases hyear.eq_or_lt with heq | hlt
  · exact Or.inl ⟨heq, hmonth heq⟩
  · have hlow := he.month_bounds.1
    have hhigh := hd.month_bounds.2
    have hprev : d.year = e.year - 1 := by
      by_contra hne
      have hstart := yearStart_le (show d.year + 1 + 1 ≤ e.year by omega)
      have hend := hd.year_bounds.2
      have hbegin := he.year_bounds.1
      have hlast := yearStart_succ (d.year + 1)
      have hleap := leapDay_bounds (d.year + 1)
      omega
    refine Or.inr ⟨hprev, ?_⟩
    by_contra hle
    have hnext : yearStart e.year = yearStart d.year + 365 + leapDay d.year := by
      rw [← yearStart_succ, hprev, sub_add_cancel]
    have hgap := beforeMonth_mono d.year (show d.month + 1 ≤ e.month + 2 by omega)
    have hspan : beforeMonth d.year (e.month + 2) ≤ beforeMonth e.year e.month + 64 := by
      have hd' := leapDay_bounds d.year
      have he' := leapDay_bounds e.year
      unfold beforeMonth
      split_ifs <;> omega
    have hleap := leapDay_bounds d.year
    omega

end Date

/-! ### The date of a day -/

variable (n : ℤ)

/-- The year of a day: a guess that is wrong by one at most. -/
def yearOf : ℤ :=
  let year := 1970 + 400 * n / 146097
  if n < yearStart year then year - 1
  else if yearStart (year + 1) ≤ n then year + 1
  else year

lemma yearOf_bounds : yearStart (yearOf n) ≤ n ∧ n < yearStart (yearOf n + 1) := by
  unfold yearOf
  simp only
  split_ifs with hlow hhigh
  · rw [sub_add_cancel]
    refine ⟨?_, hlow⟩
    unfold yearStart
    omega
  · refine ⟨hhigh, ?_⟩
    unfold yearStart
    omega
  · exact ⟨not_lt.mp hlow, not_le.mp hhigh⟩

def monthOf (k : ℤ) : ℤ :=
  (12 * (k + if k < 59 + leapDay year then 0 else 2 - leapDay year) + 373) / 367

lemma monthOf_bounds {year k : ℤ} (hpos : 0 ≤ k) (hlt : k < 365 + leapDay year) :
    1 ≤ monthOf year k ∧ monthOf year k ≤ 12 ∧ beforeMonth year (monthOf year k) ≤ k ∧
      k < beforeMonth year (monthOf year k + 1) := by
  have hleap := leapDay_bounds year
  unfold monthOf beforeMonth
  split_ifs <;> omega

def dateOf : Date :=
  let year := yearOf n
  let month := monthOf year (n - yearStart year)
  ⟨year, month, n - yearStart year - beforeMonth year month + 1⟩

lemma dateOf_month :
    1 ≤ (dateOf n).month ∧ (dateOf n).month ≤ 12 ∧
      beforeMonth (yearOf n) (dateOf n).month ≤ n - yearStart (yearOf n) ∧
      n - yearStart (yearOf n) < beforeMonth (yearOf n) ((dateOf n).month + 1) := by
  obtain ⟨hlow, hhigh⟩ := yearOf_bounds n
  rw [yearStart_succ] at hhigh
  exact monthOf_bounds (by omega) (by omega)

lemma dateOf_valid : (dateOf n).Valid := by
  obtain ⟨hpos, hle, hlow, hhigh⟩ := dateOf_month n
  rw [beforeMonth_succ hpos hle] at hhigh
  refine ⟨hpos, hle, ?_, ?_⟩
  · change 1 ≤ n - yearStart (yearOf n) - beforeMonth (yearOf n) (dateOf n).month + 1
    omega
  · change n - yearStart (yearOf n) - beforeMonth (yearOf n) (dateOf n).month + 1 ≤
      daysInMonth (yearOf n) (dateOf n).month
    omega

@[simp] lemma number_dateOf : (dateOf n).number = n := by
  change yearStart (yearOf n) + beforeMonth (yearOf n) (dateOf n).month +
    (n - yearStart (yearOf n) - beforeMonth (yearOf n) (dateOf n).month + 1) - 1 = n
  omega

example : dateOf 19782 = ⟨2024, 2, 29⟩ := by decide

end KioExtras.Lib.Calendar
