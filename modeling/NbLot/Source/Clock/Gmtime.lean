import Mathlib.Tactic.IntervalCases
import NbLot.Lib.Calendar

/-!
# Broken-down time

Source: nuttx/libc/time/lib_gmtimer.c:163-351, lib_daysbeforemonth.c:52-90, lib_isleapyear.c:73-76.

The configuration has neither CONFIG_GREGORIAN_TIME nor CONFIG_TIME_EXTENDED: the dates from 1970 on
are found by four-year periods, and a `struct tm` has no day of the week or of the year.
Since 2100 is no leap year, the periods from 2102 on start a day late (`clockUtc2calendar_eq`).
-/
namespace NbLot.Source.Clock
open Lib.Calendar

/-- `struct tm`. -/
structure Tm where
  sec : Int
  min : Int
  hour : Int
  mday : Int
  mon : Int
  year : Int
  deriving DecidableEq, Repr

def clockIsleapyear (year : Nat) : Bool :=
  if year % 400 ≠ 0 then if year % 100 ≠ 0 then if year % 4 ≠ 0 then false else true else false
  else true

def gDaysbeforemonth : List Nat := [0, 31, 59, 90, 120, 151, 181, 212, 243, 273, 304, 334, 365]

def clockDaysbeforemonth (month : Nat) (leapyear : Bool) : Nat :=
  let retval := gDaysbeforemonth.getD month 0
  if month ≥ 2 ∧ leapyear then retval + 1 else retval

/-- The next 0-3 years by brute force; `value` counts the years since 1970. -/
def bruteForce (value days : Nat) : Nat × Nat :=
  let tmp := if clockIsleapyear (value + 1970) then 366 else 365
  if days ≥ tmp then bruteForce (value + 1) (days - tmp) else (value, days)
termination_by days
decreasing_by exact Nat.sub_lt_of_pos_le (by split <;> decide) ‹_›

/-- The loop over the months. Where the midpoint is too late it is not 0, since no days come before
month 0. -/
def searchMonth (leapyear : Bool) (days min max : Nat) : Nat :=
  let value := (min + max) >>> 1
  if clockDaysbeforemonth (value + 1) leapyear > days then
    if clockDaysbeforemonth value leapyear > days then
      if min < value - 1 then searchMonth leapyear days min (value - 1) else min
    else value
  else if value + 1 < max then searchMonth leapyear days (value + 1) max else value + 1
termination_by max - min
decreasing_by
  · simp only [Nat.shiftRight_eq_div_pow] at *
    omega
  · simp only [Nat.shiftRight_eq_div_pow] at *
    omega

/-- `clock_utc2calendar`: year, month and day, both from 1. -/
def clockUtc2calendar (days : Nat) : Date :=
  let value := days / (4 * 365 + 1)
  let days := days - value * (4 * 365 + 1)
  let (value, days) := bruteForce (value <<< 2) days
  let leapyear := clockIsleapyear (value + 1970)
  let month := searchMonth leapyear days 0 11
  { year := 1970 + value
    month := month + 1
    day := days - clockDaysbeforemonth month leapyear + 1 }

def gmtimeR (timer : Nat) : Tm :=
  let jdn := timer / 86400
  let epoch := timer - 86400 * jdn
  let hour := epoch / 3600
  let epoch := epoch - 3600 * hour
  let min := epoch / 60
  let sec := epoch - 60 * min
  let date := clockUtc2calendar jdn
  { year := (date.year : Int) - 1900
    mon := (date.month : Int) - 1
    mday := date.day
    hour := hour
    min := min
    sec := sec }

/-- The fields of a `struct tm` for a date and a time of day. -/
def Tm.ofDateTime (c : DateTime) : Tm where
  sec := c.second
  min := c.minute
  hour := c.hour
  mday := c.day
  mon := (c.month : Int) - 1
  year := (c.year : Int) - 1900

/-- The date and the time of day `n` seconds after the start of 1970. -/
def utcDateTime (n : Nat) : DateTime :=
  (DateTime.next gregorian)^[n] { year := 1970, month := 1, day := 1, hour := 0, minute := 0, second := 0 }

theorem utcDateTime_succ (n : Nat) : utcDateTime (n + 1) = (utcDateTime n).next gregorian := by
  unfold utcDateTime
  rw [Function.iterate_succ_apply']

/-- The date `n` days after the start of 1970. -/
def utcDate (n : Nat) : Date := (Date.next gregorian)^[n] { year := 1970, month := 1, day := 1 }

theorem utcDateTime_eq (n : Nat) : utcDateTime n = atSecond (utcDate (n / 86400)) (n % 86400) :=
  DateTime.iterate_next _ n

theorem utcDate_spec (n : Nat) :
    (utcDate n).Valid gregorian ∧ 1970 ≤ (utcDate n).year ∧ (utcDate n).number gregorian 1970 = n := by
  have hepoch : Date.Valid gregorian { year := 1970, month := 1, day := 1 } :=
    ⟨Nat.le_refl 1, by decide, Nat.le_refl 1, by decide⟩
  obtain ⟨hvalid, hyear, hnumber⟩ := hepoch.iterate_next (Nat.le_refl 1970) n
  refine ⟨hvalid, hyear, hnumber.trans ?_⟩
  show 0 + 0 + (1 - 1) + n = n
  omega

theorem clockIsleapyear_eq (year : Nat) : clockIsleapyear year = gregorian year := by
  unfold clockIsleapyear gregorian
  split_ifs with h400 h100 h4
  · simp only [Bool.false_eq, decide_eq_false_iff_not]
    omega
  · simp only [Bool.true_eq, decide_eq_true_eq]
    omega
  · simp only [Bool.false_eq, decide_eq_false_iff_not]
    omega
  · simp only [Bool.true_eq, decide_eq_true_eq]
    omega

variable (leapyear : Bool)

theorem clockDaysbeforemonth_eq {month : Nat} (h : month ≤ 12) :
    clockDaysbeforemonth month leapyear = daysBefore leapyear (month + 1) := by
  revert leapyear
  interval_cases month <;> decide

theorem bruteForce_yearStart (j : Nat) : ∀ value r,
    r < yearDays (gregorian (1970 + value + j)) →
    bruteForce value (yearStart gregorian (1970 + value) j + r) = (value + j, r) := by
  induction j with
  | zero =>
    intro value r hr
    have hlt : ¬(0 + r ≥ if clockIsleapyear (value + 1970) then 366 else 365) := by
      rw [clockIsleapyear_eq, Nat.add_comm value]
      unfold yearDays at hr
      simp only [Nat.add_zero] at hr
      omega
    rw [bruteForce]
    show (if 0 + r ≥ _ then _ else _) = _
    rw [if_neg hlt]
    show (value, 0 + r) = _
    rw [Nat.zero_add, Nat.add_zero]
  | succ j ih =>
    intro value r hr
    have hsplit : yearStart gregorian (1970 + value) (j + 1) =
        yearDays (gregorian (1970 + value)) + yearStart gregorian (1970 + (value + 1)) j := by
      unfold yearStart
      rw [Finset.sum_range_succ', Nat.add_comm]
      simp only [Nat.add_assoc, Nat.add_comm, Nat.add_left_comm]
    have htmp : (if clockIsleapyear (value + 1970) then 366 else 365) =
        yearDays (gregorian (1970 + value)) := by
      rw [clockIsleapyear_eq, Nat.add_comm value]
      rfl
    rw [bruteForce, htmp, hsplit]
    rw [if_pos (by omega), Nat.add_assoc, Nat.add_sub_cancel_left]
    rw [ih (value + 1) r (by rw [show 1970 + (value + 1) + j = 1970 + value + (j + 1) by omega]; exact hr)]
    rw [Nat.add_assoc, Nat.add_comm 1 j]

theorem searchMonth_spec (days min max : Nat) (hmax : max ≤ 11) (hle : min ≤ max)
    (hlow : clockDaysbeforemonth min leapyear ≤ days)
    (hhigh : days < clockDaysbeforemonth (max + 1) leapyear) :
    searchMonth leapyear days min max ≤ 11 ∧
      clockDaysbeforemonth (searchMonth leapyear days min max) leapyear ≤ days ∧
      days < clockDaysbeforemonth (searchMonth leapyear days min max + 1) leapyear := by
  have hmid : ∀ m n : Nat, m ≤ n → m ≤ (m + n) >>> 1 ∧ (m + n) >>> 1 ≤ n := by
    intro m n h
    omega
  fun_induction searchMonth leapyear days min max with
  | case1 min max value _ hlater hmore ih =>
    have hvalue := hmid min max hle
    exact ih (by omega) (by omega) hlow (by rwa [show value - 1 + 1 = value by omega])
  | case2 min max value _ hlater hmore =>
    -- the midpoint is the month after `min`
    have hvalue := hmid min max hle
    have hne : value ≠ min := fun h => by
      rw [h] at hlater
      omega
    refine ⟨by omega, hlow, ?_⟩
    rwa [show min + 1 = value by omega]
  | case3 min max value hlate hfound =>
    have hvalue := hmid min max hle
    exact ⟨by omega, by omega, hlate⟩
  | case4 min max value hearly hmore ih =>
    exact ih hmax (by omega) (by omega) hhigh
  | case5 min max value hearly hmore =>
    have hne : value ≠ max := fun h => by
      rw [h] at hearly
      omega
    have hlast : value + 1 = max := by omega
    rw [hlast] at hearly ⊢
    exact ⟨hmax, by omega, hhigh⟩

variable {n : Nat}

theorem clockDaysbeforemonth_mono {m : Nat} (h : m ≤ n) (hn : n ≤ 12) :
    clockDaysbeforemonth m leapyear ≤ clockDaysbeforemonth n leapyear := by
  rw [clockDaysbeforemonth_eq leapyear (Nat.le_trans h hn), clockDaysbeforemonth_eq leapyear hn]
  exact daysBefore_mono leapyear (Nat.succ_le_succ h)

theorem searchMonth_eq {month r : Nat} (hmonth : month ≤ 11)
    (hr : r < monthDays leapyear (month + 1)) :
    searchMonth leapyear (clockDaysbeforemonth month leapyear + r) 0 11 = month := by
  have hnext : clockDaysbeforemonth (month + 1) leapyear =
      clockDaysbeforemonth month leapyear + monthDays leapyear (month + 1) := by
    rw [clockDaysbeforemonth_eq leapyear (by omega), clockDaysbeforemonth_eq leapyear (by omega),
      daysBefore_succ leapyear (Nat.succ_pos month)]
  have hyear := clockDaysbeforemonth_mono leapyear (show month + 1 ≤ 12 by omega) (Nat.le_refl 12)
  obtain ⟨hle, hlow, hhigh⟩ := searchMonth_spec leapyear (clockDaysbeforemonth month leapyear + r) 0 11
    (Nat.le_refl 11) (Nat.zero_le 11) (Nat.zero_le _) (by rw [show 11 + 1 = 12 from rfl]; omega)
  generalize searchMonth leapyear (clockDaysbeforemonth month leapyear + r) 0 11 = found at *
  rcases Nat.lt_trichotomy found month with hlt | heq | hgt
  · have := clockDaysbeforemonth_mono leapyear (show found + 1 ≤ month by omega) (by omega)
    omega
  · exact heq
  · have := clockDaysbeforemonth_mono leapyear (show month + 1 ≤ found by omega) (by omega)
    omega

/-- Up to 2200 every fourth year but 2100 is a leap year. -/
theorem gregorian_eq (h : n < 230) : gregorian (1970 + n) = decide (n % 4 = 2 ∧ n ≠ 130) := by
  unfold gregorian
  rw [decide_eq_decide]
  omega

/-- The calendar has one day less than four-year periods from 2101 on. -/
def skipped (n : Nat) : Nat := if n ≤ 130 then 0 else 1

theorem yearStart_eq (h : n ≤ 230) :
    yearStart gregorian 1970 n + skipped n = 365 * n + (n + 1) / 4 := by
  unfold skipped
  induction n with
  | zero => rfl
  | succ n ih =>
    have hstart := ih (by omega)
    rw [yearStart_succ, gregorian_eq (by omega)]
    unfold yearDays
    simp only [decide_eq_true_eq]
    split_ifs at hstart ⊢
    all_goals omega

/-- `clock_utc2calendar` finds a date from its four-year period and the number of days in it. -/
theorem clockUtc2calendar_period {d : Date} (hvalid : d.Valid gregorian) {k : Nat}
    (hfirst : 1970 + k * 4 ≤ d.year) (hperiod : d.number gregorian (1970 + k * 4) < 1461) :
    clockUtc2calendar (k * 1461 + d.number gregorian (1970 + k * 4)) = d := by
  obtain ⟨year, month, day⟩ := d
  obtain ⟨j, rfl⟩ : ∃ j, year = 1970 + k * 4 + j := ⟨year - (1970 + k * 4), by simp only at hfirst; omega⟩
  have hday := hvalid.dayOfYear_lt
  obtain ⟨hmonth_pos, hmonth_le, hday_pos, hday_le⟩ := hvalid
  obtain ⟨m, rfl⟩ : ∃ m, month = m + 1 := ⟨month - 1, by simp only at hmonth_pos; omega⟩
  simp only at hday hmonth_le hday_pos hday_le
  -- the day within the year
  generalize hr : daysBefore (gregorian (1970 + k * 4 + j)) (m + 1) + (day - 1) = r at hday
  have hnumber : Date.number gregorian (1970 + k * 4) ⟨1970 + k * 4 + j, m + 1, day⟩ =
      yearStart gregorian (1970 + k * 4) j + r := by
    rw [Date.number, Nat.add_sub_cancel_left, Nat.add_assoc, hr]
  have hyears := bruteForce_yearStart j (k * 4) r hday
  rw [← hnumber] at hyears
  generalize Date.number gregorian (1970 + k * 4) ⟨1970 + k * 4 + j, m + 1, day⟩ = p at *
  have hdiv : (k * 1461 + p) / (4 * 365 + 1) = k := by omega
  have hrest : k * 1461 + p - k * (4 * 365 + 1) = p := by omega
  have hbefore := clockDaysbeforemonth_eq (gregorian (1970 + k * 4 + j)) (show m ≤ 12 by omega)
  have hsearch := searchMonth_eq (gregorian (1970 + k * 4 + j)) (show m ≤ 11 by omega)
    (show day - 1 < _ by omega)
  rw [hbefore, hr] at hsearch
  have hshift : k <<< 2 = k * 4 := Nat.shiftLeft_eq k 2
  have hyear : k * 4 + j + 1970 = 1970 + k * 4 + j := by omega
  have hday_eq : r - daysBefore (gregorian (1970 + k * 4 + j)) (m + 1) + 1 = day := by omega
  unfold clockUtc2calendar
  simp only [hdiv, hrest, hshift, hyears, clockIsleapyear_eq, hyear, ← Nat.add_assoc 1970, hsearch,
    hbefore, hday_eq]

/-- A day is found in its four-year period, from 2102 on one day early. -/
theorem clockUtc2calendar_eq (h : n < 49711) :
    clockUtc2calendar n = utcDate (n - skipped (n / 1461 * 4)) := by
  have hstart := yearStart_eq (show n / 1461 * 4 ≤ 230 by omega)
  obtain ⟨hvalid, hfirst, hnumber⟩ := utcDate_spec (n - skipped (n / 1461 * 4))
  have hperiod := hvalid.le_year (n := n / 1461 * 4) hfirst (by omega)
  rw [Date.number_add hperiod] at hnumber
  have hfound := clockUtc2calendar_period hvalid hperiod (by omega)
  rwa [show n / 1461 * 1461 + _ = n by omega] at hfound

theorem utcDate_year_lt (h : n < 47482) : (utcDate n).year < 2100 := by
  obtain ⟨-, hfirst, hnumber⟩ := utcDate_spec n
  have hlt : (utcDate n).number gregorian 1970 < yearStart gregorian 1970 130 := by
    have hstart := yearStart_eq (show 130 ≤ 230 by decide)
    simp only [skipped, Nat.le_refl, if_true] at hstart
    omega
  exact Date.year_lt hfirst hlt

theorem le_utcDate_year (h : 10957 ≤ n) : 2000 ≤ (utcDate n).year := by
  obtain ⟨hvalid, hfirst, hnumber⟩ := utcDate_spec n
  have hle : yearStart gregorian 1970 30 ≤ (utcDate n).number gregorian 1970 := by
    have hstart := yearStart_eq (show 30 ≤ 230 by decide)
    omega
  exact hvalid.le_year hfirst hle

/-- `gmtime_r` gives the time of day, and the date as far as it is found. -/
theorem gmtimeR_iff (timer : Nat) : gmtimeR timer = Tm.ofDateTime (utcDateTime timer) ↔
    clockUtc2calendar (timer / 86400) = utcDate (timer / 86400) := by
  have hepoch : timer - 86400 * (timer / 86400) = timer % 86400 := by omega
  have hhour : timer % 86400 - 3600 * (timer % 86400 / 3600) = timer % 86400 % 3600 := by omega
  have hminute : timer % 86400 % 3600 / 60 = timer % 86400 / 60 % 60 := by omega
  have hsecond : timer % 86400 % 3600 - 60 * (timer % 86400 / 60 % 60) = timer % 86400 % 60 := by omega
  rw [utcDateTime_eq]
  generalize utcDate (timer / 86400) = d
  obtain ⟨year, month, day⟩ := d
  simp only [gmtimeR, Tm.ofDateTime, atSecond, hepoch, hhour, hminute, hsecond, Tm.mk.injEq, true_and]
  generalize clockUtc2calendar (timer / 86400) = found
  obtain ⟨year', month', day'⟩ := found
  simp only [Date.mk.injEq]
  omega

theorem gmtimeR_eq {timer : Nat} (h : timer < 4165603200) :
    gmtimeR timer = Tm.ofDateTime (utcDateTime timer) := by
  rw [gmtimeR_iff, clockUtc2calendar_eq (by omega), skipped, if_pos (by omega), Nat.sub_zero]

end NbLot.Source.Clock
