import Telemetry.Lib.Checked
import Telemetry.Lib.FixedDigits
import Telemetry.Lib.Gregorian

/-!
# The timestamps of the Rust SDK

`now_iso8601` of `logger/emit.rs`. The date is computed from the days since 1970 with truncating
divisions in `i64`: years start in March, and 400 of them make an era of 146097 days.

## Main definitions

* `civilFromDays` — the date of a day.
* `iso8601FromUnixParts`, `nowIso8601` — the timestamp, or nothing if the arithmetic overflows.
* `timestampOf` — the text of a date and a time.

## Main results

* `yearOfEra_eq` — the divisions that leave out the leap days of an era.
* `iso8601FromUnixParts_eq` — **the timestamp names its instant**.
* `timestamps_correct` — and before the year 10000 the timestamps are in the order of the instants.
-/

namespace Telemetry.Logging.RustTimestamp

open Lib
open Lib.Gregorian

/-! ## Texts -/

/-- `{:0width$}` of a number. -/
def padded (width n : ℕ) : List Char :=
  List.replicate (width - (Nat.toDigits 10 n).length) '0' ++ Nat.toDigits 10 n

/-- `{:0width$}` of a signed number. The sign is part of the width. -/
def paddedInt (width : ℕ) (n : ℤ) : List Char :=
  if n < 0 then '-' :: padded (width - 1) n.natAbs else padded width n.natAbs

/-- The text of a timestamp. -/
def timestampOf (year month day : ℤ) (hour min sec ms : ℕ) : List Char :=
  paddedInt 4 year ++ '-' :: (paddedInt 2 month ++ '-' :: (paddedInt 2 day ++ 'T' ::
    (padded 2 hour ++ ':' :: (padded 2 min ++ ':' :: (padded 2 sec ++ '.' ::
      (padded 3 ms ++ ['Z']))))))

/-! ## Timestamps -/

/-- A date in `i64`. -/
structure Civil where
  year : Checked 64
  month : Checked 64
  day : Checked 64

/-- The lines of `iso8601_from_unix_parts` that compute the date. -/
def civilFromDays (days : Checked 64) : Civil :=
  let z := days + 719468
  let era := z / 146097
  let doe := z - era * 146097
  let yoe := (doe - doe / 1460 + doe / 36524 - doe / 146096) / 365
  let y := yoe + era * 400
  let doy := doe - (365 * yoe + yoe / 4 - yoe / 100)
  let mp := (5 * doy + 2) / 153
  let day := doy - (153 * mp + 2) / 5 + 1
  let month := if mp.value < 10 then mp + 3 else mp - 9
  let year := if month.value ≤ 2 then y + 1 else y
  ⟨year, month, day⟩

/-- `iso8601_from_unix_parts`, or nothing if the arithmetic overflows. -/
def iso8601FromUnixParts (ts : UInt64) (ms : UInt32) : Option (List Char) :=
  let civil := civilFromDays (Checked.ofNat (ts / 86400).toNat)
  let sod := ts % 86400
  let hour := sod / 3600
  let min := sod % 3600 / 60
  let sec := sod % 60
  if civil.year.fits && civil.month.fits && civil.day.fits then
    some (timestampOf civil.year.value civil.month.value civil.day.value hour.toNat min.toNat
      sec.toNat ms.toNat)
  else none

/-- A `Duration`. -/
structure Duration where
  secs : UInt64
  nanos : UInt32
  nanos_lt : nanos < 1000000000

/-- `subsec_millis`. -/
def Duration.subsecMillis (d : Duration) : UInt32 := d.nanos / 1000000

/-- `now_iso8601`, for the time since 1970, or nothing if the clock is before it. -/
def nowIso8601 (sinceEpoch : Option Duration) : Option (List Char) :=
  let d := sinceEpoch.getD ⟨0, 0, by decide⟩
  iso8601FromUnixParts d.secs d.subsecMillis

/-! ## The year of an era -/

/-- **The divisions by 1460, 36524 and 146096 leave out the leap days of an era.** The day is taken
apart into centuries, spans of four years, and years. -/
theorem yearOfEra_eq {doe c k j s t : ℕ} (hc : c ≤ 3) (hk : k ≤ 24) (hj : j ≤ 3)
    (hs : s = 365 * j + t) (ht : t < 365 ∨ j = 3 ∧ t = 365 ∧ (k < 24 ∨ c = 3))
    (hdoe : doe = 36524 * c + (1461 * k + s)) :
    ((doe : ℤ) - doe / 1460 + doe / 36524 - doe / 146096) / 365 = 100 * c + 4 * k + j := by
  have h1460 : (doe : ℤ) / 1460 = 25 * c + k + (24 * c + k + s) / 1460 := by omega
  have h36524 : (doe : ℤ) / 36524 = c + (doe : ℤ) / 146096 := by
    clear h1460
    by_cases hlast : doe = 146096
    · -- the last day of an era counts as a fifth century
      obtain rfl : c = 3 := by omega
      rw [hlast]
      decide
    · have hera : (doe : ℤ) / 146096 = 0 := by omega
      have hcentury : (doe : ℤ) / 36524 = c := by omega
      rw [hera, hcentury, add_zero]
  -- the carry of the first division comes on the last day of a leap year at the latest
  have hcarry : (24 * c + k + s : ℤ) / 1460 = 0 ∧ t < 365 ∨
      (24 * c + k + s : ℤ) / 1460 = 1 ∧ 1 ≤ t := by
    clear h1460 h36524 hdoe
    omega
  rw [h1460, h36524]
  obtain ⟨hcarry, ht365⟩ | ⟨hcarry, htpos⟩ := hcarry
  · rw [hcarry]
    clear h1460 h36524 hcarry
    omega
  · rw [hcarry]
    clear h1460 h36524 hcarry
    omega

theorem leapDay_eq_one {y : ℕ} (h4 : y % 4 = 0) (h : y % 100 ≠ 0 ∨ y % 400 = 0) :
    leapDay y = 1 := by
  simp [leapDay, isLeap, h4, h]

/-- Every day of an era is in a year that starts in March. -/
theorem exists_yearOfEra {doe : ℕ} (h : doe < 146097) :
    ∃ yoe doy : ℕ, yoe < 400 ∧ doy ≤ 364 + leapDay (yoe + 1) ∧
      doe + yoe / 100 = 365 * yoe + yoe / 4 + doy ∧
      ((doe : ℤ) - doe / 1460 + doe / 36524 - doe / 146096) / 365 = yoe := by
  obtain ⟨c, r, hc, hr, hdoe⟩ : ∃ c r, c ≤ 3 ∧ (r < 36524 ∨ c = 3 ∧ r = 36524) ∧
      doe = 36524 * c + r := by
    by_cases hlast : doe = 146096
    · exact ⟨3, 36524, by omega, by omega, by omega⟩
    · exact ⟨doe / 36524, doe % 36524, by omega, by omega, by omega⟩
  obtain ⟨k, s, hk, hs, rfl⟩ : ∃ k s, k ≤ 24 ∧ (s < 1460 ∨ (k < 24 ∨ c = 3) ∧ s = 1460) ∧
      r = 1461 * k + s :=
    ⟨r / 1461, r % 1461, by omega, by omega, by omega⟩
  obtain ⟨j, t, hj, ht, hst⟩ : ∃ j t, j ≤ 3 ∧ (t < 365 ∨ j = 3 ∧ s = 1460 ∧ t = 365) ∧
      s = 365 * j + t := by
    by_cases hlast : s = 1460
    · exact ⟨3, 365, by omega, by omega, by omega⟩
    · exact ⟨s / 365, s % 365, by omega, by omega, by omega⟩
  have hleap : t < 365 ∨ j = 3 ∧ t = 365 ∧ (k < 24 ∨ c = 3) := by omega
  refine ⟨100 * c + 4 * k + j, t, by omega, ?_, by omega, ?_⟩
  · obtain ht | ⟨rfl, rfl, hlast⟩ := hleap
    · omega
    · rw [leapDay_eq_one (by omega) (by omega)]
  · rw [yearOfEra_eq hc hk hj hst hleap hdoe]
    push_cast
    rfl

/-! ## Dates -/

theorem inRange {v : ℤ} (h : 0 ≤ v) (hlt : v < 9223372036854775808) : Checked.InRange 64 v :=
  ⟨le_trans (by decide) h, hlt⟩

/-- A constant of the code. -/
theorem holds_lit {n : ℕ} (h : n < 9223372036854775808) :
    (OfNat.ofNat n : Checked 64).Holds n :=
  .lit (inRange (Int.natCast_nonneg n) (by omega))

theorem holds_yearOfEra {doe : Checked 64} {d Y : ℕ} (hdoe : doe.Holds d) (hd : d < 146097)
    (hY : ((d : ℤ) - d / 1460 + d / 36524 - d / 146096) / 365 = Y) :
    ((doe - doe / 1460 + doe / 36524 - doe / 146096) / 365).Holds Y := by
  have hdiv (k : ℤ) {x : Checked 64} (hx : x.Holds k) (hk : 0 < k) :
      (doe / x).Holds ((d : ℤ) / k) := by
    have hnonneg := Int.ediv_nonneg (Int.natCast_nonneg d) hk.le
    have hle := Int.ediv_le_self k (Int.natCast_nonneg d)
    exact hdoe.div hx (Int.natCast_nonneg d) (inRange hnonneg (by omega))
  have h1460 := hdiv 1460 (holds_lit (n := 1460) (by decide)) (by decide)
  have h36524 := hdiv 36524 (holds_lit (n := 36524) (by decide)) (by decide)
  have h146096 := hdiv 146096 (holds_lit (n := 146096) (by decide)) (by decide)
  have hless := hdoe.sub h1460 (inRange (by omega) (by omega))
  have hmore := hless.add h36524 (inRange (by omega) (by omega))
  have hlast := hmore.sub h146096 (inRange (by omega) (by omega))
  rw [← hY]
  exact hlast.div (holds_lit (n := 365) (by decide)) (by omega) (inRange (by omega) (by omega))

theorem holds_dayOfYear {doe yoe : Checked 64} {d Y t : ℕ} (hdoe : doe.Holds d)
    (hyoe : yoe.Holds Y) (hY : Y < 400) (ht : d + Y / 100 = 365 * Y + Y / 4 + t) (htle : t ≤ 365) :
    (doe - (365 * yoe + yoe / 4 - yoe / 100)).Holds t := by
  have hyears := (holds_lit (n := 365) (by decide)).mul hyoe (inRange (by omega) (by omega))
  have hfour := hyoe.div (holds_lit (n := 4) (by decide)) (by omega) (inRange (by omega) (by omega))
  have hhundred := hyoe.div (holds_lit (n := 100) (by decide)) (by omega)
    (inRange (by omega) (by omega))
  have hbefore := (hyears.add hfour (inRange (by omega) (by omega))).sub hhundred
    (inRange (by omega) (by omega))
  exact (hdoe.sub hbefore (inRange (by omega) (by omega))).of_eq (by omega)

theorem holds_monthOfYear {doy : Checked 64} {t : ℕ} (hdoy : doy.Holds t) (ht : t ≤ 365) :
    ((5 * doy + 2) / 153).Holds ((5 * t + 2) / 153 : ℕ) := by
  have hmul := (holds_lit (n := 5) (by decide)).mul hdoy (inRange (by omega) (by omega))
  have hadd := hmul.add (holds_lit (n := 2) (by decide)) (inRange (by omega) (by omega))
  exact (hadd.div (holds_lit (n := 153) (by decide)) (by omega)
    (inRange (by omega) (by omega))).of_eq (by omega)

theorem holds_dayOfMonth {doy mp : Checked 64} {t m : ℕ} (hdoy : doy.Holds t) (hmp : mp.Holds m)
    (ht : t ≤ 365) (hm : m ≤ 11) (hstart : (153 * m + 2) / 5 ≤ t) :
    (doy - (153 * mp + 2) / 5 + 1).Holds (t - (153 * m + 2) / 5 + 1 : ℕ) := by
  have hmul := (holds_lit (n := 153) (by decide)).mul hmp (inRange (by omega) (by omega))
  have hadd := hmul.add (holds_lit (n := 2) (by decide)) (inRange (by omega) (by omega))
  have hdiv := hadd.div (holds_lit (n := 5) (by decide)) (by omega)
    (inRange (by omega) (by omega))
  have hsub := hdoy.sub hdiv (inRange (by omega) (by omega))
  exact (hsub.add (holds_lit (n := 1) (by decide)) (inRange (by omega) (by omega))).of_eq
    (by omega)

theorem holds_month {mp : Checked 64} {m : ℕ} (hmp : mp.Holds m) (hm : m ≤ 11) :
    (if mp.value < 10 then mp + 3 else mp - 9).Holds ((if m < 10 then m + 3 else m - 9 : ℕ)) := by
  rw [hmp.value_eq]
  by_cases h : m < 10
  · rw [if_pos (by omega), if_pos h]
    exact (hmp.add (holds_lit (n := 3) (by decide)) (inRange (by omega) (by omega))).of_eq
      (by omega)
  · rw [if_neg (by omega), if_neg h]
    exact (hmp.sub (holds_lit (n := 9) (by decide)) (inRange (by omega) (by omega))).of_eq
      (by omega)

/-- **The date of a day.** Nothing overflows. -/
theorem civilFromDays_holds {n : ℕ} (hn : n < 2 ^ 50) {days : Checked 64} (hdays : days.Holds n) :
    ∃ date : Date, date.dayNumber = n ∧ (civilFromDays days).year.Holds date.year ∧
      (civilFromDays days).month.Holds date.month ∧ (civilFromDays days).day.Holds date.day := by
  obtain ⟨e, he⟩ : ∃ e, e = (n + 719468) / 146097 := ⟨_, rfl⟩
  obtain ⟨d, hd⟩ : ∃ d, d = (n + 719468) % 146097 := ⟨_, rfl⟩
  have hdlt : d < 146097 := by omega
  obtain ⟨Y, t, hY, ht, hdt, hformula⟩ := exists_yearOfEra hdlt
  have hleap : t ≤ 364 + leapDay (Y + 400 * e + 1) := by
    rwa [Nat.add_right_comm, Date.leapDay_add_mul]
  have htle : t ≤ 365 := ht.trans (Nat.add_le_add_left (leapDay_le _) 364)
  obtain ⟨m, hm⟩ : ∃ m, m = (5 * t + 2) / 153 := ⟨_, rfl⟩
  obtain ⟨hmle, hstart, date, hday, hmonth, hyear, hcount⟩ := Date.exists_of_march hleap hm
  let z := days + 719468
  have hz : z.Holds (n + 719468 : ℤ) :=
    hdays.add (holds_lit (n := 719468) (by decide)) (inRange (by omega) (by omega))
  let era := z / 146097
  have hera : era.Holds (e : ℤ) :=
    (hz.div (holds_lit (n := 146097) (by decide)) (by omega) (inRange (by omega) (by omega))).of_eq
      (by omega)
  let doe := z - era * 146097
  have hdoe : doe.Holds (d : ℤ) :=
    (hz.sub (hera.mul (holds_lit (n := 146097) (by decide)) (inRange (by omega) (by omega)))
      (inRange (by omega) (by omega))).of_eq (by omega)
  let yoe := (doe - doe / 1460 + doe / 36524 - doe / 146096) / 365
  have hyoe : yoe.Holds (Y : ℤ) := holds_yearOfEra hdoe hdlt hformula
  let y := yoe + era * 400
  have hy : y.Holds (Y + 400 * e : ℕ) :=
    (hyoe.add (hera.mul (holds_lit (n := 400) (by decide)) (inRange (by omega) (by omega)))
      (inRange (by omega) (by omega))).of_eq (by omega)
  let doy := doe - (365 * yoe + yoe / 4 - yoe / 100)
  have hdoy : doy.Holds (t : ℤ) := holds_dayOfYear hdoe hyoe hY hdt htle
  let mp := (5 * doy + 2) / 153
  have hmp : mp.Holds (m : ℤ) := hm ▸ holds_monthOfYear hdoy htle
  let month := if mp.value < 10 then mp + 3 else mp - 9
  have hmonth' : month.Holds (date.month : ℤ) := hmonth ▸ holds_month hmp hmle
  refine ⟨date, ?_, ?_, hmonth', hday ▸ holds_dayOfMonth hdoy hmp htle hmle hstart⟩
  · -- 400 years are 146097 days
    have h4 : (Y + 400 * e) / 4 = Y / 4 + 100 * e := by omega
    have h100 : (Y + 400 * e) / 100 = Y / 100 + 4 * e := by omega
    have h400 : (Y + 400 * e) / 400 = e := by omega
    rw [h4, h100, h400] at hcount
    have hsplit : n + 719468 = 146097 * e + d := by omega
    rw [Date.dayNumber, Date.daysBeforeYear_epoch]
    clear he hd hformula hm hmonth hyear hstart h4 h100 h400
    omega
  · have hyear' : (if month.value ≤ 2 then y + 1 else y).Holds (date.year : ℤ) := by
      rw [hyear, hmonth'.value_eq, hmonth]
      by_cases h : m < 10
      · rw [if_pos h, if_pos h, if_neg (by omega)]
        exact hy
      · rw [if_neg h, if_neg h, if_pos (by omega)]
        exact hy.add (holds_lit (n := 1) (by decide)) (inRange (by omega) (by omega))
    exact hyear'

/-! ## Instants -/

/-- The text of a date and a time. -/
def written (date : Date) (time : TimeOfDay) (ms : ℕ) : List Char :=
  timestampOf date.year date.month date.day time.hour time.minute time.second ms

/-- **The timestamp names its instant**, and the arithmetic does not overflow. -/
theorem iso8601FromUnixParts_eq (ts : UInt64) (ms : UInt32) :
    ∃ (date : Date) (time : TimeOfDay), date.dayNumber = (ts.toNat / 86400 : ℕ) ∧
      time.seconds = ts.toNat % 86400 ∧
      iso8601FromUnixParts ts ms = some (written date time ms.toNat) := by
  have hlt := ts.toNat_lt
  have hdays : (Checked.ofNat (ts / 86400).toNat : Checked 64).Holds (ts.toNat / 86400 : ℕ) := by
    rw [UInt64.toNat_div]
    exact .ofNat (by
      have hsmall : ts.toNat / (86400 : UInt64).toNat = ts.toNat / 86400 := rfl
      omega)
  obtain ⟨date, hnumber, hyear, hmonth, hday⟩ := civilFromDays_holds (by omega) hdays
  let time : TimeOfDay := ⟨ts.toNat % 86400 / 3600, ts.toNat % 86400 % 3600 / 60,
    ts.toNat % 86400 % 60, by omega, by omega, by omega⟩
  refine ⟨date, time, hnumber, ?_, ?_⟩
  · have hseconds : time.seconds = 3600 * (ts.toNat % 86400 / 3600) +
        60 * (ts.toNat % 86400 % 3600 / 60) + ts.toNat % 86400 % 60 := rfl
    omega
  · have hfits : ((civilFromDays (Checked.ofNat (ts / 86400).toNat)).year.fits &&
        (civilFromDays (Checked.ofNat (ts / 86400).toNat)).month.fits &&
        (civilFromDays (Checked.ofNat (ts / 86400).toNat)).day.fits) = true := by
      rw [hyear.fits_eq, hmonth.fits_eq, hday.fits_eq]
      rfl
    rw [iso8601FromUnixParts]
    simp only [hfits, if_true, hyear.value_eq, hmonth.value_eq, hday.value_eq]
    rfl

theorem Duration.subsecMillis_lt (d : Duration) : d.subsecMillis < 1000 := by
  have hnanos : d.nanos.toNat < 1000000000 := d.nanos_lt
  have hdiv : d.subsecMillis.toNat = d.nanos.toNat / 1000000 := UInt32.toNat_div _ _
  rw [UInt32.lt_iff_toNat_lt, hdiv]
  exact Nat.div_lt_of_lt_mul hnanos

/-- There always is a timestamp, with milliseconds of three digits. -/
theorem nowIso8601_eq (sinceEpoch : Option Duration) :
    ∃ (date : Date) (time : TimeOfDay) (ms : UInt32), ms < 1000 ∧
      nowIso8601 sinceEpoch = some (written date time ms.toNat) := by
  obtain ⟨date, time, -, -, heq⟩ := iso8601FromUnixParts_eq
    (sinceEpoch.getD ⟨0, 0, by decide⟩).secs (sinceEpoch.getD ⟨0, 0, by decide⟩).subsecMillis
  exact ⟨date, time, _, Duration.subsecMillis_lt _, heq⟩

/-! ## The order of the texts -/

theorem padded_eq {width n : ℕ} (h : n < 10 ^ (width + 1)) :
    padded (width + 1) n = fixedDigits 10 (width + 1) n :=
  replicate_append_toDigits (by decide) h

theorem paddedInt_natCast (width n : ℕ) : paddedInt width n = padded width n := by
  rw [paddedInt, if_neg (by omega), Int.natAbs_natCast]

/-- A smaller field comes first, whatever is behind it. -/
theorem padded_append_lt {width m n : ℕ} (h : m < n) (hn : n < 10 ^ (width + 1))
    (t t' : List Char) : padded (width + 1) m ++ t < padded (width + 1) n ++ t' := by
  rw [padded_eq hn, padded_eq (h.trans hn)]
  refine append_lt_append ?_ (fixedDigits_lt h hn) t t'
  rw [length_fixedDigits, length_fixedDigits]

/-- What is behind a field counts where the fields are the same. -/
theorem padded_append_cons_lt {width n : ℕ} {c : Char} {t t' : List Char} (h : t < t') :
    padded width n ++ c :: t < padded width n ++ c :: t' :=
  List.append_left_lt (List.cons_lt_cons_iff.mpr (.inr ⟨rfl, h⟩))

section Order

variable {date date' : Date} {time time' : TimeOfDay} {ms ms' : ℕ}

theorem written_eq (date : Date) (time : TimeOfDay) (ms : ℕ) :
    written date time ms = padded 4 date.year ++ '-' :: (padded 2 date.month ++ '-' ::
      (padded 2 date.day ++ 'T' :: (padded 2 time.hour ++ ':' :: (padded 2 time.minute ++ ':' ::
        (padded 2 time.second ++ '.' :: (padded 3 ms ++ ['Z'])))))) := by
  rw [written, timestampOf, paddedInt_natCast, paddedInt_natCast, paddedInt_natCast]

theorem written_lt_of_date (h : date.Before date') (hyear : date'.year < 10000) :
    written date time ms < written date' time' ms' := by
  have hmonth := date'.month_le
  have hday := date'.day_le.trans (monthLength_le _ _)
  rw [written_eq, written_eq]
  obtain hlt | ⟨heq, hlt | ⟨heq', hlt⟩⟩ := h
  · exact padded_append_lt hlt (by omega) _ _
  · rw [heq]
    exact padded_append_cons_lt (padded_append_lt hlt (by omega) _ _)
  · rw [heq, heq']
    exact padded_append_cons_lt (padded_append_cons_lt (padded_append_lt hlt (by omega) _ _))

theorem written_lt_of_time (h : time.Before time') :
    written date time ms < written date time' ms' := by
  have hhour := time'.hour_lt
  have hminute := time'.minute_lt
  have hsecond := time'.second_lt
  rw [written_eq, written_eq]
  refine padded_append_cons_lt (padded_append_cons_lt (padded_append_cons_lt ?_))
  obtain hlt | ⟨heq, hlt | ⟨heq', hlt⟩⟩ := h
  · exact padded_append_lt hlt (by omega) _ _
  · rw [heq]
    exact padded_append_cons_lt (padded_append_lt hlt (by omega) _ _)
  · rw [heq, heq']
    exact padded_append_cons_lt (padded_append_cons_lt (padded_append_lt hlt (by omega) _ _))

theorem written_lt_of_ms (h : ms < ms') (hlt : ms' < 1000) :
    written date time ms < written date time ms' := by
  rw [written_eq, written_eq]
  refine padded_append_cons_lt (padded_append_cons_lt (padded_append_cons_lt ?_))
  refine padded_append_cons_lt (padded_append_cons_lt (padded_append_cons_lt ?_))
  exact padded_append_lt h (by omega) _ _

end Order

/-- The instant is before the year 10000. -/
def BeforeYear10000 (ts : UInt64) : Prop :=
  ((ts.toNat / 86400 : ℕ) : ℤ) < (Date.newYear 10000).dayNumber

/-- An earlier instant has the smaller text. -/
theorem lt_of_instant_lt {ts ts' : UInt64} {ms ms' : UInt32} (hms' : ms' < 1000)
    (hbefore : BeforeYear10000 ts') (h : ts < ts' ∨ ts = ts' ∧ ms < ms') {s s' : List Char}
    (hs : iso8601FromUnixParts ts ms = some s) (hs' : iso8601FromUnixParts ts' ms' = some s') :
    s < s' := by
  obtain ⟨date, time, hdate, htime, heq⟩ := iso8601FromUnixParts_eq ts ms
  obtain ⟨date', time', hdate', htime', heq'⟩ := iso8601FromUnixParts_eq ts' ms'
  obtain rfl : written date time ms.toNat = s := Option.some.inj (heq ▸ hs)
  obtain rfl : written date' time' ms'.toNat = s' := Option.some.inj (heq' ▸ hs')
  obtain hlt | ⟨rfl, hlt⟩ := h
  · rw [UInt64.lt_iff_toNat_lt] at hlt
    obtain hday | hday : ts.toNat / 86400 < ts'.toNat / 86400 ∨
        ts.toNat / 86400 = ts'.toNat / 86400 := by omega
    · refine written_lt_of_date (Date.before_iff.mpr ?_) (Date.year_lt_iff.mpr ?_)
      · rw [hdate, hdate']
        exact_mod_cast hday
      · rw [hdate']
        exact hbefore
    · obtain rfl : date = date' := Date.eq_of_dayNumber (by rw [hdate, hdate', hday])
      refine written_lt_of_time (TimeOfDay.before_iff.mpr ?_)
      omega
  · obtain rfl : date = date' := Date.eq_of_dayNumber (by rw [hdate, hdate'])
    obtain rfl : time = time' := TimeOfDay.eq_of_seconds (by rw [htime, htime'])
    exact written_lt_of_ms hlt hms'

/-- **Timestamps name the right instant**, and before the year 10000 they are in the order of the
instants. -/
theorem timestamps_correct (ts ts' : UInt64) (ms ms' : UInt32) (hms : ms < 1000)
    (hms' : ms' < 1000) :
    (∃ (date : Date) (time : TimeOfDay), date.dayNumber = (ts.toNat / 86400 : ℕ) ∧
      time.seconds = ts.toNat % 86400 ∧
      iso8601FromUnixParts ts ms = some (written date time ms.toNat)) ∧
    (BeforeYear10000 ts → BeforeYear10000 ts' → ∀ s s',
      iso8601FromUnixParts ts ms = some s → iso8601FromUnixParts ts' ms' = some s' →
        (s < s' ↔ ts < ts' ∨ ts = ts' ∧ ms < ms')) := by
  refine ⟨iso8601FromUnixParts_eq ts ms, fun hbefore hbefore' s s' hs hs' => ⟨fun hlt => ?_,
    fun h => lt_of_instant_lt hms' hbefore' h hs hs'⟩⟩
  obtain h | h | h := lt_trichotomy ts.toNat ts'.toNat
  · exact .inl h
  · obtain rfl := UInt64.toNat_inj.mp h
    obtain hm | hm | hm := lt_trichotomy ms.toNat ms'.toNat
    · exact .inr ⟨rfl, hm⟩
    · obtain rfl := UInt32.toNat_inj.mp hm
      obtain rfl := Option.some.inj (hs.symm.trans hs')
      exact absurd hlt (List.lt_irrefl s)
    · exact absurd hlt (List.lt_asymm (lt_of_instant_lt hms hbefore (.inr ⟨rfl, hm⟩) hs' hs))
  · exact absurd hlt (List.lt_asymm (lt_of_instant_lt hms hbefore (.inl h) hs' hs))

/-- Around a leap day. -/
theorem timestamps_correct_leapDay :
    "2000-02-28T23:59:59.999Z".toList < "2000-02-29T00:00:00.000Z".toList := by
  have hyear : (Date.newYear 10000).dayNumber = 2932897 := by
    have hnumber : (Date.newYear 10000).dayNumber + ((9999 : ℕ) : ℤ) / 100 = _ :=
      Date.dayNumber_newYear 9999
    omega
  have hbefore : BeforeYear10000 951782399 := by
    rw [BeforeYear10000, hyear]
    decide
  have hbefore' : BeforeYear10000 951782400 := by
    rw [BeforeYear10000, hyear]
    decide
  exact ((timestamps_correct 951782399 951782400 999 0 (by decide) (by decide)).2 hbefore hbefore'
    _ _ (by decide) (by decide)).mpr (.inl (by decide))

end Telemetry.Logging.RustTimestamp
