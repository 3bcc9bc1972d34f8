import Mathlib.Algebra.BigOperators.Intervals
import Mathlib.Algebra.Order.BigOperators.Group.Finset

/-!
# Calendars

Dates and times of day that are counted on by one day or one second, for any rule for the leap
years. `Date.number` is the number of days since the start of a year `base`; `DateTime.iterate_next`
splits the count of seconds into days and the seconds of the day.
-/
namespace NbLot.Lib.Calendar
open Function Finset

structure Date where
  year : Nat
  month : Nat
  day : Nat
  deriving DecidableEq, Repr

structure DateTime extends Date where
  hour : Nat
  minute : Nat
  second : Nat
  deriving DecidableEq, Repr

/-- The leap years of the Gregorian calendar. -/
def gregorian (year : Nat) : Bool := year % 4 = 0 ∧ (year % 100 ≠ 0 ∨ year % 400 = 0)

def monthDays (leapyear : Bool) : Nat → Nat
  | 2 => if leapyear then 29 else 28
  | 4 | 6 | 9 | 11 => 30
  | _ => 31

def yearDays (leapyear : Bool) : Nat := if leapyear then 366 else 365

def Date.next (leap : Nat → Bool) (d : Date) : Date :=
  if d.day < monthDays (leap d.year) d.month then { d with day := d.day + 1 }
  else if d.month < 12 then { d with month := d.month + 1, day := 1 }
  else { year := d.year + 1, month := 1, day := 1 }

def DateTime.next (leap : Nat → Bool) (c : DateTime) : DateTime :=
  if c.second < 59 then { c with second := c.second + 1 }
  else if c.minute < 59 then { c with minute := c.minute + 1, second := 0 }
  else if c.hour < 23 then { c with hour := c.hour + 1, minute := 0, second := 0 }
  else { c.toDate.next leap with hour := 0, minute := 0, second := 0 }

structure Date.Valid (leap : Nat → Bool) (d : Date) : Prop where
  month_pos : 1 ≤ d.month
  month_le : d.month ≤ 12
  day_pos : 1 ≤ d.day
  day_le : d.day ≤ monthDays (leap d.year) d.month

/-- The days of a year before a month. -/
def daysBefore (leapyear : Bool) (month : Nat) : Nat :=
  ∑ m ∈ Finset.Ico 1 month, monthDays leapyear m

/-- The days from the start of the year `base` to the start of `base + n`. -/
def yearStart (leap : Nat → Bool) (base n : Nat) : Nat :=
  ∑ i ∈ Finset.range n, yearDays (leap (base + i))

/-- The number of days since the start of the year `base`. -/
def Date.number (leap : Nat → Bool) (base : Nat) (d : Date) : Nat :=
  yearStart leap base (d.year - base) + daysBefore (leap d.year) d.month + (d.day - 1)

variable {leap : Nat → Bool} {base n : Nat} {d : Date} (leapyear : Bool)

theorem daysBefore_succ {month : Nat} (h : 1 ≤ month) :
    daysBefore leapyear (month + 1) = daysBefore leapyear month + monthDays leapyear month :=
  sum_Ico_succ_top h _

theorem daysBefore_thirteen : daysBefore leapyear 13 = yearDays leapyear := by
  cases leapyear <;> rfl

theorem monthDays_pos (month : Nat) : 0 < monthDays leapyear month := by
  unfold monthDays
  split
  · split <;> decide
  all_goals decide

theorem monthDays_le (month : Nat) : monthDays leapyear month ≤ 31 := by
  unfold monthDays
  split
  · split <;> decide
  all_goals decide

theorem daysBefore_mono {m : Nat} (h : m ≤ n) : daysBefore leapyear m ≤ daysBefore leapyear n :=
  sum_le_sum_of_subset (Finset.Ico_subset_Ico_right h)

theorem yearStart_succ (leap : Nat → Bool) (base n : Nat) :
    yearStart leap base (n + 1) = yearStart leap base n + yearDays (leap (base + n)) :=
  sum_range_succ _ n

theorem yearStart_mono (leap : Nat → Bool) (base : Nat) {m : Nat} (h : m ≤ n) :
    yearStart leap base m ≤ yearStart leap base n :=
  sum_le_sum_of_subset (range_subset_range.mpr h)

namespace Date

theorem number_add (h : base + n ≤ d.year) :
    d.number leap base = yearStart leap base n + d.number leap (base + n) := by
  have hsplit := sum_range_add (fun i => yearDays (leap (base + i))) n (d.year - (base + n))
  rw [show n + (d.year - (base + n)) = d.year - base by omega] at hsplit
  unfold number yearStart
  rw [hsplit]
  simp only [Nat.add_assoc]

theorem Valid.dayOfYear_lt (h : d.Valid leap) :
    daysBefore (leap d.year) d.month + (d.day - 1) < yearDays (leap d.year) := by
  have hmonth := daysBefore_succ (leap d.year) h.month_pos
  have hyear := daysBefore_mono (leap d.year) (Nat.succ_le_succ h.month_le)
  rw [Nat.succ_eq_add_one, daysBefore_thirteen] at hyear
  have hpos := h.day_pos
  have hle := h.day_le
  omega

theorem Valid.next (h : d.Valid leap) : (d.next leap).Valid leap := by
  obtain ⟨hmonth_pos, hmonth_le, -⟩ := h
  unfold Date.next
  split_ifs with hday hmonth
  · exact ⟨hmonth_pos, hmonth_le, Nat.succ_pos _, hday⟩
  · exact ⟨Nat.succ_pos _, hmonth, Nat.le_refl 1, monthDays_pos _ _⟩
  · exact ⟨Nat.le_refl 1, Nat.le_add_left 1 11, Nat.le_refl 1, monthDays_pos _ _⟩

theorem year_le_next (d : Date) : d.year ≤ (d.next leap).year := by
  unfold Date.next
  split_ifs
  · exact le_rfl
  · exact le_rfl
  · exact Nat.le_succ _

theorem Valid.number_next (h : d.Valid leap) (hbase : base ≤ d.year) :
    (d.next leap).number leap base = d.number leap base + 1 := by
  obtain ⟨hmonth_pos, hmonth_le, hday_pos, hday_le⟩ := h
  unfold Date.next
  split_ifs with hday hmonth
  · simp only [number]
    omega
  · have hbefore := daysBefore_succ (leap d.year) hmonth_pos
    simp only [number]
    omega
  · -- from December 31 to January 1
    have hdec : d.month = 12 := by omega
    have hbefore := daysBefore_succ (leap d.year) hmonth_pos
    have hyear : daysBefore (leap d.year) (d.month + 1) = yearDays (leap d.year) := by
      rw [hdec, daysBefore_thirteen]
    have hjan : daysBefore (leap (d.year + 1)) 1 = 0 := rfl
    have hsucc := yearStart_succ leap base (d.year - base)
    rw [Nat.add_sub_cancel' hbase] at hsucc
    have hstep : d.year + 1 - base = d.year - base + 1 := by omega
    simp only [number, hstep]
    omega

theorem Valid.iterate_next (h : d.Valid leap) (hbase : base ≤ d.year) (n : Nat) :
    ((Date.next leap)^[n] d).Valid leap ∧ base ≤ ((Date.next leap)^[n] d).year ∧
      ((Date.next leap)^[n] d).number leap base = d.number leap base + n := by
  induction n with
  | zero => exact ⟨h, hbase, rfl⟩
  | succ n ih =>
    obtain ⟨hvalid, hyear, hnumber⟩ := ih
    rw [iterate_succ_apply']
    refine ⟨hvalid.next, Nat.le_trans hyear (year_le_next _), ?_⟩
    rw [hvalid.number_next hyear, hnumber, Nat.add_assoc]

theorem year_lt (h : base ≤ d.year) (hlt : d.number leap base < yearStart leap base n) :
    d.year < base + n := by
  by_contra hge
  have hmono := yearStart_mono leap base (show n ≤ d.year - base by omega)
  unfold number at hlt
  omega

theorem Valid.le_year (h : d.Valid leap) (hbase : base ≤ d.year)
    (hle : yearStart leap base n ≤ d.number leap base) : base + n ≤ d.year := by
  by_contra hlt
  have hday := h.dayOfYear_lt
  have hsucc := yearStart_succ leap base (d.year - base)
  rw [Nat.add_sub_cancel' hbase] at hsucc
  have hmono := yearStart_mono leap base (show d.year - base + 1 ≤ n by omega)
  unfold number at hle
  omega

end Date

/-- The time of day after a number of seconds. -/
def atSecond (d : Date) (n : Nat) : DateTime :=
  { d with hour := n / 3600, minute := n / 60 % 60, second := n % 60 }

theorem atSecond_next (h : n + 1 < 86400) : (atSecond d n).next leap = atSecond d (n + 1) := by
  unfold DateTime.next atSecond
  split_ifs with hsecond hminute hhour
  all_goals simp only [DateTime.mk.injEq, true_and]
  all_goals simp only at hsecond
  · omega
  · simp only at hminute
    omega
  · simp only at hminute hhour
    omega
  · simp only at hminute hhour
    omega

theorem atSecond_last : (atSecond d 86399).next leap = atSecond (d.next leap) 0 := rfl

theorem DateTime.iterate_next (d : Date) (n : Nat) :
    (DateTime.next leap)^[n] (atSecond d 0) = atSecond ((Date.next leap)^[n / 86400] d) (n % 86400) := by
  induction n with
  | zero => rfl
  | succ n ih =>
    rw [iterate_succ_apply', ih]
    by_cases hlast : n % 86400 = 86399
    · have hdiv : (n + 1) / 86400 = n / 86400 + 1 := by omega
      have hmod : (n + 1) % 86400 = 0 := by omega
      rw [hlast, atSecond_last, hdiv, hmod, iterate_succ_apply']
    · have hdiv : (n + 1) / 86400 = n / 86400 := by omega
      have hmod : (n + 1) % 86400 = n % 86400 + 1 := by omega
      rw [hdiv, hmod, atSecond_next (by omega)]

end NbLot.Lib.Calendar
