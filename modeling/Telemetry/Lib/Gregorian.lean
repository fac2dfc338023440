import Mathlib.Algebra.BigOperators.Intervals
import Mathlib.Algebra.Order.BigOperators.Group.Finset
import Mathlib.Tactic.IntervalCases
import Mathlib.Tactic.Linarith

/-!
# The proleptic Gregorian calendar

Dates by the standard rule of leap years, from year 0 on, and the days that are counted by them.

## Main definitions

* `isLeap`, `monthLength`, `yearLength` — the rule.
* `Date` — a date that there is.
* `Date.dayNumber` — the days since 1970-01-01.
* `TimeOfDay` — a time of a day.

## Main results

* `daysBeforeYear_succ` — how many days came before a year.
* `Date.exists_of_march` — the dates, by years that start in March.
* `Date.dayNumber_lt` — **later dates have greater day numbers**.
-/

namespace Telemetry.Lib.Gregorian

/-- The year has a February 29. -/
def isLeap (y : ℕ) : Bool := y % 4 = 0 && (y % 100 ≠ 0 || y % 400 = 0)

/-- The days of a month. -/
def monthLength (y m : ℕ) : ℕ :=
  if m = 2 then if isLeap y then 29 else 28
  else if m = 4 ∨ m = 6 ∨ m = 9 ∨ m = 11 then 30
  else 31

/-- The days of a year. -/
def yearLength (y : ℕ) : ℕ := if isLeap y then 366 else 365

/-- The days of a year before a month. -/
def daysBeforeMonth (y m : ℕ) : ℕ := ∑ i ∈ Finset.Ico 1 m, monthLength y i

/-- The days before a year, from year 0 on. -/
def daysBeforeYear (y : ℕ) : ℕ := ∑ i ∈ Finset.range y, yearLength i

/-! ## Counting days -/

/-- A day more in leap years. -/
def leapDay (y : ℕ) : ℕ := if isLeap y then 1 else 0

theorem leapDay_le (y : ℕ) : leapDay y ≤ 1 := by
  rw [leapDay]
  split <;> decide

theorem yearLength_eq (y : ℕ) : yearLength y = 365 + leapDay y := by
  rw [yearLength, leapDay]
  split <;> rfl

theorem leapDay_succ (y : ℕ) :
    (y + 1) / 4 + (y + 1) / 400 + y / 100 =
      y / 4 + y / 400 + (y + 1) / 100 + leapDay (y + 1) := by
  simp only [leapDay, isLeap, Bool.and_eq_true, Bool.or_eq_true, decide_eq_true_eq]
  split <;> omega

theorem daysBeforeYear_add_one (y : ℕ) :
    daysBeforeYear (y + 1) = daysBeforeYear y + yearLength y :=
  Finset.sum_range_succ yearLength y

/-- **The days before a year.** -/
theorem daysBeforeYear_succ (y : ℕ) :
    daysBeforeYear (y + 1) + y / 100 = 365 * (y + 1) + y / 4 + y / 400 + 1 := by
  induction y with
  | zero => rfl
  | succ y ih =>
      have hleap := leapDay_succ y
      rw [daysBeforeYear_add_one, yearLength_eq]
      linarith

theorem daysBeforeMonth_succ (y : ℕ) {m : ℕ} (h : 1 ≤ m) :
    daysBeforeMonth y (m + 1) = daysBeforeMonth y m + monthLength y m :=
  Finset.sum_Ico_succ_top h _

theorem daysBeforeMonth_mono (y : ℕ) : Monotone (daysBeforeMonth y) := fun _ _ h =>
  Finset.sum_le_sum_of_subset (Finset.Ico_subset_Ico_right h)

theorem daysBeforeYear_mono : Monotone daysBeforeYear := fun _ _ h =>
  Finset.sum_le_sum_of_subset (Finset.range_mono h)

theorem daysBeforeMonth_one (y : ℕ) : daysBeforeMonth y 1 = 0 := rfl

theorem daysBeforeMonth_two (y : ℕ) : daysBeforeMonth y 2 = 31 := rfl

theorem monthLength_two (y : ℕ) : monthLength y 2 = 28 + leapDay y := by
  rw [monthLength, leapDay, if_pos rfl]
  split <;> rfl

/-- From March on the months of all years are alike. -/
theorem monthLength_march (y : ℕ) {mp : ℕ} (h : mp < 10) :
    (153 * (mp + 1) + 2) / 5 = (153 * mp + 2) / 5 + monthLength y (mp + 3) := by
  interval_cases mp <;> rfl

theorem daysBeforeMonth_march (y : ℕ) {mp : ℕ} (h : mp ≤ 10) :
    daysBeforeMonth y (mp + 3) = (153 * mp + 2) / 5 + 59 + leapDay y := by
  induction mp with
  | zero =>
      rw [daysBeforeMonth_succ y (by decide), daysBeforeMonth_two, monthLength_two]
      omega
  | succ mp ih =>
      have hnext := monthLength_march y (show mp < 10 by omega)
      have hbefore := ih (by omega)
      rw [Nat.add_right_comm, daysBeforeMonth_succ y (by omega)]
      omega

/-- The months of a year make it up. -/
theorem daysBeforeMonth_thirteen (y : ℕ) : daysBeforeMonth y 13 = yearLength y := by
  have hmarch := daysBeforeMonth_march y (le_refl 10)
  rw [yearLength_eq]
  omega

theorem monthLength_le (y m : ℕ) : monthLength y m ≤ 31 := by
  rw [monthLength]
  split_ifs <;> decide

/-! ## Dates -/

/-- A date that there is. -/
structure Date where
  year : ℕ
  month : ℕ
  day : ℕ
  month_pos : 1 ≤ month
  month_le : month ≤ 12
  day_pos : 1 ≤ day
  day_le : day ≤ monthLength year month
  deriving DecidableEq

namespace Date

/-- The days before a date, from year 0 on. -/
def dayCount (date : Date) : ℕ :=
  daysBeforeYear date.year + daysBeforeMonth date.year date.month + (date.day - 1)

/-- **The day number of a date**: the days since 1970-01-01. -/
def dayNumber (date : Date) : ℤ := date.dayCount - daysBeforeYear 1970

/-- The date comes before another one. -/
def Before (a b : Date) : Prop :=
  a.year < b.year ∨
    a.year = b.year ∧ (a.month < b.month ∨ a.month = b.month ∧ a.day < b.day)

variable {a b : Date}

theorem dayCount_lt_of_before (h : a.Before b) : a.dayCount < b.dayCount := by
  have hmonth : daysBeforeMonth a.year a.month + (a.day - 1) <
      daysBeforeMonth a.year (a.month + 1) := by
    have hpos := a.day_pos
    have hle := a.day_le
    rw [daysBeforeMonth_succ _ a.month_pos]
    omega
  simp only [dayCount]
  obtain hyear | ⟨hyear, hmonth' | ⟨hmonth', hday⟩⟩ := h
  · have hlast : daysBeforeMonth a.year (a.month + 1) ≤ daysBeforeMonth a.year 13 :=
      daysBeforeMonth_mono a.year (Nat.succ_le_succ a.month_le)
    have hnext : daysBeforeYear (a.year + 1) ≤ daysBeforeYear b.year := daysBeforeYear_mono hyear
    rw [daysBeforeYear_add_one] at hnext
    rw [daysBeforeMonth_thirteen] at hlast
    omega
  · have hnext : daysBeforeMonth a.year (a.month + 1) ≤ daysBeforeMonth a.year b.month :=
      daysBeforeMonth_mono a.year hmonth'
    rw [← hyear]
    omega
  · have hpos := a.day_pos
    rw [← hyear, ← hmonth']
    omega

/-- Two dates are the same, or one comes before the other. -/
theorem trichotomy (a b : Date) : a.Before b ∨ a = b ∨ b.Before a := by
  obtain hyear | hyear | hyear := lt_trichotomy a.year b.year
  · exact .inl (.inl hyear)
  · obtain hmonth | hmonth | hmonth := lt_trichotomy a.month b.month
    · exact .inl (.inr ⟨hyear, .inl hmonth⟩)
    · obtain hday | hday | hday := lt_trichotomy a.day b.day
      · exact .inl (.inr ⟨hyear, .inr ⟨hmonth, hday⟩⟩)
      · cases a
        cases b
        simp_all
      · exact .inr (.inr (.inr ⟨hyear.symm, .inr ⟨hmonth.symm, hday⟩⟩))
    · exact .inr (.inr (.inr ⟨hyear.symm, .inl hmonth⟩))
  · exact .inr (.inr (.inl hyear))

/-- **Later dates have greater day numbers.** -/
theorem before_iff : a.Before b ↔ a.dayNumber < b.dayNumber := by
  have hlt {a b : Date} (h : a.Before b) : a.dayNumber < b.dayNumber := by
    have hcount := dayCount_lt_of_before h
    simp only [dayNumber]
    omega
  refine ⟨hlt, fun h => ?_⟩
  obtain hab | rfl | hba := trichotomy a b
  · exact hab
  · exact absurd h (lt_irrefl _)
  · exact absurd h (hlt hba).asymm

/-- A day number has one date. -/
theorem eq_of_dayNumber (h : a.dayNumber = b.dayNumber) : a = b := by
  obtain hab | rfl | hba := trichotomy a b
  · exact absurd h (before_iff.mp hab).ne
  · rfl
  · exact absurd h (before_iff.mp hba).ne'

theorem daysBeforeYear_epoch : daysBeforeYear 1970 = 719528 := by
  have hdays : daysBeforeYear 1970 + 1969 / 100 = 365 * 1970 + 1969 / 4 + 1969 / 400 + 1 :=
    daysBeforeYear_succ 1969
  omega

/-- **The day of a date, by years that start in March.** -/
theorem dayCount_of_march {y mp : ℕ} (hmp : mp ≤ 11)
    (hmonth : a.month = if mp < 10 then mp + 3 else mp - 9)
    (hyear : a.year = if mp < 10 then y else y + 1) :
    a.dayCount + y / 100 = 365 * y + y / 4 + y / 400 + (153 * mp + 2) / 5 + a.day + 59 := by
  have hpos := a.day_pos
  have hyears := daysBeforeYear_succ y
  have hsucc := daysBeforeYear_add_one y
  rw [yearLength_eq] at hsucc
  rw [dayCount]
  split at hmonth
  · next h =>
      rw [if_pos h] at hyear
      have hbefore := daysBeforeMonth_march y h.le
      rw [hyear, hmonth]
      omega
  · next h =>
      rw [if_neg h] at hyear
      have hcases : mp = 10 ∨ mp = 11 := by omega
      rw [hyear, hmonth]
      obtain rfl | rfl := hcases
      · rw [daysBeforeMonth_one]
        omega
      · rw [daysBeforeMonth_two]
        omega

/-- The first day of a year. -/
def newYear (y : ℕ) : Date :=
  ⟨y, 1, 1, le_rfl, by decide, le_rfl, by simp [monthLength]⟩

/-- **The dates before a year** are those before its first day. -/
theorem year_lt_iff {y : ℕ} : a.year < y ↔ a.dayNumber < (newYear y).dayNumber := by
  rw [← before_iff]
  refine ⟨fun h => .inl h, fun h => ?_⟩
  obtain hyear | ⟨-, hmonth | ⟨-, hday⟩⟩ := h
  · exact hyear
  · exact absurd a.month_pos (not_le_of_gt hmonth)
  · exact absurd a.day_pos (not_le_of_gt hday)

theorem dayNumber_newYear (y : ℕ) :
    (newYear (y + 1)).dayNumber + y / 100 = 365 * (y + 1) + y / 4 + y / 400 - 719527 := by
  have hcount : (newYear (y + 1)).dayCount = daysBeforeYear (y + 1) := rfl
  have hdays := daysBeforeYear_succ y
  rw [dayNumber, daysBeforeYear_epoch, hcount]
  omega

/-- The rule has a period of 400 years. -/
theorem leapDay_add_mul (y e : ℕ) : leapDay (y + 400 * e) = leapDay y := by
  have hfour : (y + 400 * e) % 4 = y % 4 := by omega
  have hhundred : (y + 400 * e) % 100 = y % 100 := by omega
  have hera : (y + 400 * e) % 400 = y % 400 := by omega
  rw [leapDay, leapDay, isLeap, isLeap, hfour, hhundred, hera]

/-- **A day of a year that starts in March is a date.** -/
theorem exists_of_march {y doy : ℕ} (h : doy ≤ 364 + leapDay (y + 1)) {mp : ℕ}
    (hmp : mp = (5 * doy + 2) / 153) :
    mp ≤ 11 ∧ (153 * mp + 2) / 5 ≤ doy ∧ ∃ date : Date,
      date.day = doy - (153 * mp + 2) / 5 + 1 ∧
      date.month = (if mp < 10 then mp + 3 else mp - 9) ∧
      date.year = (if mp < 10 then y else y + 1) ∧
      date.dayCount + y / 100 = 365 * y + y / 4 + y / 400 + doy + 60 := by
  have hleap := leapDay_le (y + 1)
  have hle : mp ≤ 11 := by omega
  have hstart : (153 * mp + 2) / 5 ≤ doy := by omega
  have hlength : doy - (153 * mp + 2) / 5 + 1 ≤
      monthLength (if mp < 10 then y else y + 1) (if mp < 10 then mp + 3 else mp - 9) := by
    by_cases hten : mp < 10
    · rw [if_pos hten, if_pos hten]
      have hnext := monthLength_march y hten
      omega
    · rw [if_neg hten, if_neg hten]
      obtain rfl | rfl : mp = 10 ∨ mp = 11 := by omega
      · have hjanuary : monthLength (y + 1) (10 - 9) = 31 := rfl
        omega
      · have hfebruary : monthLength (y + 1) (11 - 9) = 28 + leapDay (y + 1) := monthLength_two _
        omega
  have hbounds : 1 ≤ (if mp < 10 then mp + 3 else mp - 9) ∧
      (if mp < 10 then mp + 3 else mp - 9) ≤ 12 := by
    split <;> omega
  let date : Date := ⟨_, _, _, hbounds.1, hbounds.2, Nat.succ_pos _, hlength⟩
  refine ⟨hle, hstart, date, rfl, rfl, rfl, ?_⟩
  have hcount : date.dayCount + y / 100 = 365 * y + y / 4 + y / 400 + (153 * mp + 2) / 5 +
      date.day + 59 := dayCount_of_march hle rfl rfl
  have hday : date.day = doy - (153 * mp + 2) / 5 + 1 := rfl
  omega

end Date

/-! ## Times -/

/-- A time of a day, to the second. -/
structure TimeOfDay where
  hour : ℕ
  minute : ℕ
  second : ℕ
  hour_lt : hour < 24
  minute_lt : minute < 60
  second_lt : second < 60

namespace TimeOfDay

/-- The seconds since midnight. -/
def seconds (t : TimeOfDay) : ℕ := 3600 * t.hour + 60 * t.minute + t.second

/-- The time comes before another one. -/
def Before (a b : TimeOfDay) : Prop :=
  a.hour < b.hour ∨
    a.hour = b.hour ∧ (a.minute < b.minute ∨ a.minute = b.minute ∧ a.second < b.second)

variable {a b : TimeOfDay}

/-- **Later times have more seconds.** -/
theorem before_iff : a.Before b ↔ a.seconds < b.seconds := by
  have hminute := a.minute_lt
  have hsecond := a.second_lt
  have hminute' := b.minute_lt
  have hsecond' := b.second_lt
  rw [Before, seconds, seconds]
  omega

theorem eq_of_seconds (h : a.seconds = b.seconds) : a = b := by
  have hminute := a.minute_lt
  have hsecond := a.second_lt
  have hminute' := b.minute_lt
  have hsecond' := b.second_lt
  rw [seconds, seconds] at h
  cases a
  cases b
  simp only [TimeOfDay.mk.injEq] at *
  omega

end TimeOfDay

end Telemetry.Lib.Gregorian
