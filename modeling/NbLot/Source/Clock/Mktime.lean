import NbLot.Source.Clock.Gmtime
import NbLot.Source.Clock.Model

/-!
# Seconds from broken-down time, and days of the week

Source: nuttx/libc/time/lib_mktime.c:87-107, lib_calendar2utc.c:63-193, lib_gmtimer.c:99-138,
lib_dayofweek.c:98-109, nuttx/sched/clock/clock_dow.c:52-84.

The names with `Gregorian` are those of the configuration with CONFIG_GREGORIAN_TIME, without
CONFIG_JULIAN_TIME. `time_t` has 32 bits without a sign; the numbers of type `int` and `long` that
come before it stay in their range.
-/
namespace NbLot.Source.Clock
open Lib.Calendar

def clockCalendar2utc (year month day : Int) : Nat :=
  let days := (year - 1970) * 365
  let days := days + (year - 1969) >>> (2 : Nat)
  let days := days + clockDaysbeforemonth month.toNat (clockIsleapyear year.natAbs)
  uint32 (days + (day - 1))

/-- `mktime`, for the days since 1970 as one of the configurations finds them. -/
def mktimeWith (calendar2utc : Int → Int → Int → Nat) (tp : Tm) : Nat :=
  let jdn := calendar2utc (tp.year + 1900) tp.mon tp.mday
  uint32 (((jdn * 24 + tp.hour) * 60 + tp.min) * 60 + tp.sec)

def mktime : Tm → Nat := mktimeWith clockCalendar2utc

section gregorian

def jdOfEpoch : Int := 2440588

def clockUtc2gregorian (jd : Int) : Int × Int × Int :=
  let l := jd + 68569
  let n := (4 * l).tdiv 146097
  let l := l - (146097 * n + 3).tdiv 4
  let i := (4000 * (l + 1)).tdiv 1461001
  let l := l - (1461 * i).tdiv 4 + 31
  let j := (80 * l).tdiv 2447
  let d := l - (2447 * j).tdiv 80
  let l := j.tdiv 11
  let m := j + 2 - 12 * l
  let y := 100 * (n - 49) + i + l
  (y, m, d)

def clockGregorian2utc (year month day : Int) : Int :=
  let temp := if month ≤ 2 then -1 else 0
  (1461 * (year + 4800 + temp)).tdiv 4 + (367 * (month - 2 - 12 * temp)).tdiv 12 -
    (3 * (year + 4900 + temp).tdiv 100).tdiv 4 + day - 32075

def clockCalendar2utcGregorian (year month day : Int) : Nat :=
  let dyear := (month - 1).tdiv 12
  let month := month - 12 * dyear
  let year := year + dyear
  if month < 1 then uint32 (clockGregorian2utc (year - 1) (month + 12) day - jdOfEpoch)
  else uint32 (clockGregorian2utc year month day - jdOfEpoch)

def mktimeGregorian : Tm → Nat := mktimeWith clockCalendar2utcGregorian

/-- `gmtime_r`: the time of day does not depend on the configuration. -/
def gmtimeRGregorian (timer : Nat) : Tm :=
  let (year, month, day) := clockUtc2gregorian ((timer / 86400 : Nat) + jdOfEpoch)
  { gmtimeR timer with year := year - 1900, mon := month - 1, mday := day }

end gregorian

def gLookup : List Int := [2, 5, 7, 10, 12, 15, 17, 20, 23, 25, 28, 30]

def clockDow (year month day : Int) : Int :=
  let (day, year) := if month < 2 then (day + year, year - 1) else (day + (year - 2), year)
  (gLookup.getD month.toNat 0 + day + 4 + year.tdiv 4 - year.tdiv 100 + year.tdiv 400).tmod 7

def clockDayoftheweek (mday month year : Int) : Int :=
  let (year, month) := if month ≤ 2 then (year - 1, month + 12) else (year, month)
  let month := month - 2
  (mday + year + year.tdiv 4 - year.tdiv 100 + year.tdiv 400 + (31 * month).tdiv 12).tmod 7

variable {n : Nat} {d : Date}

theorem uint32_natCast (h : n < 2 ^ 32) : uint32 n = n := by
  unfold uint32
  omega

/-- The seconds, for a time of day as `gmtime_r` gives it. -/
theorem mktimeWith_eq {calendar2utc : Int → Int → Int → Nat} {tp : Tm} {t : Nat} (hword : t < 2 ^ 32)
    (hday : calendar2utc (tp.year + 1900) tp.mon tp.mday = t / 86400)
    (htime : tp.hour = (gmtimeR t).hour ∧ tp.min = (gmtimeR t).min ∧ tp.sec = (gmtimeR t).sec) :
    mktimeWith calendar2utc tp = t := by
  obtain ⟨hhour, hmin, hsec⟩ := htime
  rw [← uint32_natCast hword]
  simp only [mktimeWith, hhour, hmin, hsec, gmtimeR]
  congr 1
  omega

section

variable (hvalid : d.Valid gregorian)
include hvalid

/-- The days until 2099, where every fourth year is a leap year. -/
theorem number_spec (hyear : d.year = 1970 + n) (hn : n < 130) :
    d.number gregorian 1970 =
        365 * n + (n + 1) / 4 + daysBefore (gregorian d.year) d.month + (d.day - 1) ∧
      d.number gregorian 1970 < 365 * (n + 1) + (n + 2) / 4 := by
  have hday := hvalid.dayOfYear_lt
  have hsucc := yearStart_succ gregorian 1970 n
  have hstart := yearStart_eq (show n ≤ 230 by omega)
  have hnext := yearStart_eq (show n + 1 ≤ 230 by omega)
  rw [skipped, if_pos (by omega)] at hstart hnext
  rw [← hyear] at hsucc
  rw [Date.number, hyear, Nat.add_sub_cancel_left, ← hyear]
  omega

theorem clockCalendar2utc_eq (hyear : d.year = 1970 + n) (hn : n < 130) :
    clockCalendar2utc d.year ((d.month : Int) - 1) d.day = d.number gregorian 1970 := by
  obtain ⟨hnumber, hlt⟩ := number_spec hvalid hyear hn
  obtain ⟨hmonth_pos, hmonth_le, hday_pos, -⟩ := hvalid
  have hmonth : ((d.month : Int) - 1).toNat = d.month - 1 := by omega
  have hbefore := clockDaysbeforemonth_eq (gregorian d.year) (show d.month - 1 ≤ 12 by omega)
  rw [Nat.sub_add_cancel hmonth_pos] at hbefore
  rw [← uint32_natCast (show d.number gregorian 1970 < 2 ^ 32 by omega)]
  simp only [clockCalendar2utc, Int.natAbs_natCast, clockIsleapyear_eq, hmonth,
    Int.shiftRight_eq_div_pow]
  congr 1
  omega

theorem clockUtc2calendar_number (hyear : d.year = 1970 + n) (hn : n < 130) :
    clockUtc2calendar (d.number gregorian 1970) = d := by
  have hperiod : 1970 + n / 4 * 4 ≤ d.year := by omega
  have hstart := yearStart_eq (show n / 4 * 4 ≤ 230 by omega)
  rw [skipped, if_pos (by omega)] at hstart
  have hsplit : d.number gregorian 1970 = _ := Date.number_add hperiod
  have hlt := (number_spec hvalid hyear hn).2
  have hfound := clockUtc2calendar_period hvalid hperiod (by omega)
  rwa [show n / 4 * 1461 + _ = d.number gregorian 1970 by omega] at hfound

end

/-- The day number formulas are inverse: the months count from March, and the leap days of the
centuries are taken out and put in at the same places. -/
theorem clockGregorian2utc_utc2gregorian {jd : Int} (hpos : 0 ≤ jd) :
    1 ≤ (clockUtc2gregorian jd).2.1 ∧ (clockUtc2gregorian jd).2.1 ≤ 12 ∧
      clockGregorian2utc (clockUtc2gregorian jd).1 (clockUtc2gregorian jd).2.1
        (clockUtc2gregorian jd).2.2 = jd := by
  simp only [clockUtc2gregorian]
  generalize hl₀ : jd + 68569 = l₀
  rw [Int.tdiv_eq_ediv_of_nonneg (a := 4 * l₀) (by omega)]
  generalize hn : 4 * l₀ / 146097 = n
  rw [Int.tdiv_eq_ediv_of_nonneg (a := 146097 * n + 3) (by omega)]
  generalize hl₁ : l₀ - (146097 * n + 3) / 4 = l₁
  rw [Int.tdiv_eq_ediv_of_nonneg (a := 4000 * (l₁ + 1)) (by omega)]
  generalize hi : 4000 * (l₁ + 1) / 1461001 = i
  have hi_le : 0 ≤ i ∧ i ≤ 99 := by omega
  rw [Int.tdiv_eq_ediv_of_nonneg (a := 1461 * i) (by omega)]
  generalize hl₂ : l₁ - 1461 * i / 4 + 31 = l₂
  have hl₂_le : 31 ≤ l₂ ∧ l₂ ≤ 396 := by omega
  rw [Int.tdiv_eq_ediv_of_nonneg (by omega)]
  generalize hj : 80 * l₂ / 2447 = j
  have hj_le : 1 ≤ j ∧ j ≤ 12 := by omega
  rw [Int.tdiv_eq_ediv_of_nonneg (a := 2447 * j) (by omega), Int.tdiv_eq_ediv_of_nonneg (by omega)]
  have htemp : (if j + 2 - 12 * (j / 11) ≤ 2 then -1 else 0) = -(j / 11) := by
    split <;> omega
  refine ⟨by omega, by omega, ?_⟩
  simp only [clockGregorian2utc, htemp]
  rw [show 100 * (n - 49) + i + j / 11 + 4800 + -(j / 11) = 100 * (n - 1) + i by omega,
    show j + 2 - 12 * (j / 11) - 2 - 12 * -(j / 11) = j by omega,
    show 100 * (n - 49) + i + j / 11 + 4900 + -(j / 11) = 100 * n + i by omega,
    Int.tdiv_eq_ediv_of_nonneg (a := 100 * n + i) (by omega), show (100 * n + i) / 100 = n by omega,
    Int.tdiv_eq_ediv_of_nonneg (a := 3 * n) (by omega),
    Int.tdiv_eq_ediv_of_nonneg (a := 1461 * (100 * (n - 1) + i)) (by omega),
    Int.tdiv_eq_ediv_of_nonneg (by omega)]
  have hmonth : 367 * j / 12 = 2447 * j / 80 := by omega
  have hcenturies : (146097 * n + 3) / 4 = 36525 * n - 3 * n / 4 := by omega
  omega

/-- The leap days of the years from 1 on. -/
def leapDays (year : Int) : Int := year / 4 - year / 100 + year / 400

theorem leapDays_year (year : Nat) :
    leapDays year = leapDays (year - 1) + if gregorian year then 1 else 0 := by
  have h4 : (year : Int) / 4 = (year - 1 : Int) / 4 + if year % 4 = 0 then 1 else 0 := by omega
  have h100 : (year : Int) / 100 = (year - 1 : Int) / 100 + if year % 100 = 0 then 1 else 0 := by omega
  have h400 : (year : Int) / 400 = (year - 1 : Int) / 400 + if year % 400 = 0 then 1 else 0 := by omega
  simp only [leapDays, gregorian, decide_eq_true_eq]
  split_ifs <;> omega

/-- The day of the week, from the leap days before March. -/
theorem clockDow_eq {year month : Nat} (day : Nat) (hyear : 1 ≤ year) (hpos : 1 ≤ month)
    (hle : month ≤ 12) :
    clockDow year ((month : Int) - 1) day = clockDayoftheweek day month year ∧
      clockDow year ((month : Int) - 1) day = (gLookup.getD (month - 1) 0 + day + year +
        if month ≤ 2 then 4 + leapDays (year - 1) else 2 + leapDays year) % 7 := by
  have hquot : ∀ {x n : Int}, 0 ≤ x → x.tdiv n = x / n := Int.tdiv_eq_ediv_of_nonneg
  have hrem : ∀ {x n : Int}, 0 ≤ x → x.tmod n = x % n := Int.tmod_eq_emod_of_nonneg
  interval_cases month <;>
    simp [clockDow, clockDayoftheweek, gLookup, leapDays] <;>
    simp (disch := omega) only [hquot, hrem] <;>
    omega

end NbLot.Source.Clock
