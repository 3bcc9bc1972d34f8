import NbLot.Source.Clock.Mktime

/-!
# The date and time of day of a `time_t`

`gmtime_r` is to give the Gregorian date of every 32-bit `time_t`. It counts a leap year in every
four-year period, also in the one of 2100: from 2 January 2102 on its dates are a day early, and the times
before it are the ones it converts (`gmtimeR_utc_iff`). Until 2099 `mktime` is its inverse
(`calendar_roundtrip`).

With CONFIG_GREGORIAN_TIME `mktime` gives a month from 0 to a conversion that counts them from 1, so that it
is always a month early; the conversions are inverse for the month that it should give
(`gregorian_roundtrip`). The two functions for the day of the week agree (`weekdays_agree`).

Source: nuttx/libc/time/lib_gmtimer.c:99-138, 165-285, 301-356, lib_mktime.c:87-107,
lib_calendar2utc.c:63-193, lib_dayofweek.c:98-109, nuttx/sched/clock/clock_dow.c:52-84.
-/
namespace NbLot.Guarantees.BrokenDownTime

open Lib.Calendar Source.Clock

/-- Two dates counted from 1970 are different ones. -/
theorem utcDate_injective {m n : Nat} (h : utcDate m = utcDate n) : m = n := by
  rw [← (utcDate_spec m).2.2, h, (utcDate_spec n).2.2]

theorem gmtimeR_late {t : Nat} (hword : t < 2 ^ 32) (hlate : 4165603200 ≤ t) :
    gmtimeR t ≠ Tm.ofDateTime (utcDateTime t) := by
  intro h
  rw [gmtimeR_iff, clockUtc2calendar_eq (by omega), skipped, if_neg (by omega)] at h
  have hday := utcDate_injective h
  omega

/-- The times that `gmtime_r` converts to the Gregorian date and time of day. -/
theorem gmtimeR_utc_iff {t : Nat} (hword : t < 2 ^ 32) :
    gmtimeR t = Tm.ofDateTime (utcDateTime t) ↔ t < 4165603200 := by
  constructor
  · intro h
    by_contra hlate
    exact gmtimeR_late hword (Nat.le_of_not_lt hlate) h
  · exact gmtimeR_eq

theorem gmtimeR_utc_last : gmtimeR 4165603199 = Tm.ofDateTime (utcDateTime 4165603199) :=
  (gmtimeR_utc_iff (by decide)).mpr (by decide)

/-- The start of 2 January 2102 is taken for the start of the year. -/
theorem gmtimeR_2102 : gmtimeR 4165603200 = Tm.ofDateTime (atSecond ⟨2102, 1, 1⟩ 0) ∧
    gmtimeR 4165603200 ≠ Tm.ofDateTime (utcDateTime 4165603200) := by
  have hdate : clockUtc2calendar 48213 = ⟨2102, 1, 1⟩ :=
    clockUtc2calendar_period (d := ⟨2102, 1, 1⟩) (k := 33) ⟨by decide, by decide, by decide, by decide⟩
      (by decide) (by decide)
  refine ⟨?_, gmtimeR_late (by decide) (by decide)⟩
  simp only [gmtimeR, hdate, Tm.ofDateTime, atSecond]

theorem mktime_gmtimeR {t : Nat} (h : t < 4102444800) : mktime (gmtimeR t) = t := by
  obtain ⟨hvalid, hfirst, hnumber⟩ := utcDate_spec (t / 86400)
  have hlast := utcDate_year_lt (show t / 86400 < 47482 by omega)
  have hdate : clockUtc2calendar (t / 86400) = utcDate (t / 86400) := by
    rw [clockUtc2calendar_eq (by omega), skipped, if_pos (by omega), Nat.sub_zero]
  obtain ⟨n, hyear⟩ := Nat.exists_eq_add_of_le hfirst
  refine mktimeWith_eq (by omega) ?_ ⟨rfl, rfl, rfl⟩
  simp only [gmtimeR, hdate, Int.sub_add_cancel]
  rw [clockCalendar2utc_eq hvalid hyear (by omega), hnumber]

/-- A broken-down time of the Gregorian calendar. -/
def ValidTime (c : DateTime) : Prop :=
  c.toDate.Valid gregorian ∧ c.hour < 24 ∧ c.minute < 60 ∧ c.second < 60

theorem gmtimeR_mktime {c : DateTime} (hvalid : ValidTime c) (hfirst : 1970 ≤ c.year)
    (hlast : c.year ≤ 2099) : gmtimeR (mktime (.ofDateTime c)) = .ofDateTime c := by
  obtain ⟨hdate, hhour, hminute, hsecond⟩ := hvalid
  obtain ⟨n, hyear⟩ := Nat.exists_eq_add_of_le hfirst
  have hlt := (number_spec hdate hyear (by omega)).2
  have hfound := clockUtc2calendar_number hdate hyear (by omega)
  have hutc := clockCalendar2utc_eq hdate hyear (by omega)
  generalize c.toDate.number gregorian 1970 = number at hlt hfound hutc
  obtain ⟨t, ht⟩ : ∃ t, t = number * 86400 + (c.hour * 3600 + c.minute * 60 + c.second) := ⟨_, rfl⟩
  have hday : t / 86400 = number := by omega
  have hsame : gmtimeR t = .ofDateTime c := by
    simp only [gmtimeR, Tm.ofDateTime, hday, hfound, Tm.mk.injEq]
    refine ⟨?_, ?_, ?_, trivial, trivial, trivial⟩ <;> omega
  have hseconds : mktime (.ofDateTime c) = t := by
    refine mktimeWith_eq (by omega) ?_ (by simp only [hsame, and_self])
    simp only [Tm.ofDateTime, Int.sub_add_cancel, hutc, hday]
  rw [hseconds, hsame]

/-- `mktime` and `gmtime_r` are inverse from 1970 to 2099. -/
theorem calendar_roundtrip : (∀ t < 4102444800, mktime (gmtimeR t) = t) ∧
    ∀ c : DateTime, ValidTime c → 1970 ≤ c.year → c.year ≤ 2099 →
      gmtimeR (mktime (.ofDateTime c)) = .ofDateTime c :=
  ⟨fun _ => mktime_gmtimeR, fun _ => gmtimeR_mktime⟩

theorem calendar_roundtrip_last : mktime (gmtimeR 4102444799) = 4102444799 ∧
    gmtimeR (mktime (.ofDateTime ⟨⟨2099, 12, 31⟩, 23, 59, 59⟩)) =
      .ofDateTime ⟨⟨2099, 12, 31⟩, 23, 59, 59⟩ :=
  ⟨calendar_roundtrip.1 _ (by decide), calendar_roundtrip.2 _
    ⟨⟨by decide, by decide, by decide, by decide⟩, by decide, by decide, by decide⟩ (by decide) (by decide)⟩

/-- The day of the week of a date, as `clock_dow` finds it. -/
def weekday (d : Date) : Int := clockDow d.year ((d.month : Int) - 1) d.day

theorem weekday_next {d : Date} (hvalid : d.Valid gregorian) (hyear : 1 ≤ d.year) :
    weekday (d.next gregorian) = (weekday d + 1) % 7 := by
  obtain ⟨year, month, day⟩ := d
  obtain ⟨hmonth_pos, hmonth_le, -, hday_le⟩ := hvalid
  simp only at hyear hmonth_pos hmonth_le hday_le
  have hthis := (clockDow_eq day hyear hmonth_pos hmonth_le).2
  unfold weekday
  simp only [Date.next]
  split_ifs with hday hmonth
  · rw [(clockDow_eq (day + 1) hyear hmonth_pos hmonth_le).2]
    split <;> omega
  · have hend : day = monthDays (gregorian year) month := by omega
    rw [hthis, (clockDow_eq 1 hyear (Nat.succ_pos month) hmonth).2, hend, leapDays_year year]
    cases gregorian year <;> interval_cases month <;> simp [gLookup, monthDays] <;> omega
  · obtain rfl : month = 12 := by omega
    have hend : day = 31 := by simpa [monthDays] using Nat.le_antisymm hday_le (Nat.le_of_not_lt hday)
    rw [hthis, (clockDow_eq 1 (Nat.succ_pos year) (Nat.le_refl 1) (by decide)).2]
    simp [gLookup]
    omega

theorem weekdays_agree {d : Date} (hvalid : d.Valid gregorian) (hyear : 1 ≤ d.year) :
    weekday d = clockDayoftheweek d.day d.month d.year ∧ 0 ≤ weekday d ∧ weekday d ≤ 6 ∧
      weekday (d.next gregorian) = (weekday d + 1) % 7 ∧ weekday ⟨1970, 1, 1⟩ = 4 := by
  obtain ⟨hsame, hmod⟩ := clockDow_eq d.day hyear hvalid.month_pos hvalid.month_le
  refine ⟨hsame, ?_, ?_, weekday_next hvalid hyear, rfl⟩
  · rw [weekday, hmod]
    exact Int.emod_nonneg _ (by decide)
  · rw [weekday, hmod]
    exact Int.le_of_lt_add_one (Int.emod_lt_of_pos _ (by decide))

theorem weekdays_agree_leap_day : weekday ⟨2000, 2, 29⟩ = 2 ∧ weekday ⟨2000, 3, 1⟩ = 3 :=
  ⟨rfl, (weekdays_agree (d := ⟨2000, 2, 29⟩) ⟨by decide, by decide, by decide, by decide⟩
    (by decide)).2.2.2.1⟩

end NbLot.Guarantees.BrokenDownTime
