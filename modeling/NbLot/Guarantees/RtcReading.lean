import NbLot.Source.Clock.Rtc

/-!
# Readings of the real-time clock

A second of the years 2000 to 2099 is set with `up_rtc_settime`, and the calendar advances within
these years, also between the reads of the registers. `up_rtc_getdatetime` returns, and what it
returns is what the calendar showed at one moment between the first and the last read of the sample
that it accepts, which is the UTC date and time of that moment.

Equal date registers before and after the time register mean that the day has not changed in
between: within a century no two days have the same date (`date_eq_of_register_eq`).
-/
namespace NbLot.Guarantees.RtcReading
open Lib.BitField Lib.Calendar Source.Clock

/-- A date and time with the last two digits of the year, as the calendar shows it. -/
def twoDigits (c : DateTime) : DateTime := { c with year := c.year % 100 }

/-- A calendar with its years in full. -/
def inFull (c : DateTime) : DateTime := { c with year := 2000 + c.year }

/-- The seconds of the years 2000 to 2099. -/
def InCentury (n : Nat) : Prop := 946684800 ≤ n ∧ n < 4102444800

variable {n utc : Nat}

theorem inCentury_year (h : InCentury n) :
    2000 ≤ (utcDateTime n).year ∧ (utcDateTime n).year < 2100 := by
  obtain ⟨hfirst, hlast⟩ := h
  rw [utcDateTime_eq]
  exact ⟨le_utcDate_year (by omega), utcDate_year_lt (by omega)⟩

theorem inFull_twoDigits (h : InCentury n) :
    inFull (twoDigits (utcDateTime n)) = utcDateTime n := by
  have hyear : 2000 + (utcDateTime n).year % 100 = (utcDateTime n).year := by
    have := inCentury_year h
    omega
  unfold inFull twoDigits
  simp only [hyear]

theorem twoDigits_inFields (h : InCentury n) : InFields (twoDigits (utcDateTime n)) := by
  obtain ⟨hfirst, hlast⟩ := inCentury_year h
  obtain ⟨hvalid, -⟩ := utcDate_spec (n / 86400)
  have hday := Nat.le_trans hvalid.day_le (monthDays_le _ _)
  have hmonth := hvalid.month_le
  rw [utcDateTime_eq] at hfirst hlast ⊢
  refine ⟨?_, ?_, ?_, ?_, ?_, ?_⟩
  all_goals simp only [twoDigits, atSecond] at hfirst hlast ⊢
  all_goals omega

/-- In this century the hardware counts as the Gregorian calendar. -/
theorem tick_twoDigits {c : DateTime} (hfirst : 2000 ≤ c.year) (hlast : c.year < 2100) :
    tick (twoDigits c) = twoDigits (c.next gregorian) := by
  obtain ⟨⟨year, month, day⟩, hour, minute, second⟩ := c
  have hleap : decide (year % 100 % 4 = 0) = gregorian year := by
    simp only at hfirst hlast
    unfold gregorian
    rw [decide_eq_decide]
    omega
  unfold tick twoDigits DateTime.next Date.next
  simp only [hleap]
  split_ifs
  all_goals simp only [Nat.mod_mod, Nat.mod_add_mod]

theorem calendar_eq (hfirst : 946684800 ≤ utc) (m : Nat) (hlast : utc + m < 4102444800) :
    tick^[m] (twoDigits (utcDateTime utc)) = twoDigits (utcDateTime (utc + m)) := by
  induction m with
  | zero => rfl
  | succ m ih =>
    obtain ⟨hyear, hyear_lt⟩ := inCentury_year (show InCentury (utc + m) from ⟨by omega, by omega⟩)
    rw [Function.iterate_succ_apply', ih (by omega), tick_twoDigits hyear hyear_lt, ← utcDateTime_succ,
      Nat.add_assoc]

/-- Two days of the century with the same date register are the same day. -/
theorem day_eq_of_register_eq {m : Nat} (hm : InCentury m) (hn : InCentury n) {v w : Fin 8}
    (h : dateRegister (twoDigits (utcDateTime m)) v = dateRegister (twoDigits (utcDateTime n)) w) :
    m / 86400 = n / 86400 := by
  obtain ⟨hday, hmonth, hyear⟩ := (twoDigits_inFields hm).dateRegister_fields v
  obtain ⟨hday', hmonth', hyear'⟩ := (twoDigits_inFields hn).dateRegister_fields w
  have hbcd : ∀ a b : Nat, bcd a = bcd b → a = b := by
    intro a b hab
    rw [← unbcd_bcd a, hab, unbcd_bcd]
  have hday_eq : (utcDateTime m).day = (utcDateTime n).day :=
    hbcd _ _ (hday.symm.trans ((congrArg (field · 0 6) h).trans hday'))
  have hmonth_eq : (utcDateTime m).month = (utcDateTime n).month :=
    hbcd _ _ (hmonth.symm.trans ((congrArg (field · 8 5) h).trans hmonth'))
  have hdigits : (utcDateTime m).year % 100 = (utcDateTime n).year % 100 :=
    hbcd _ _ (hyear.symm.trans ((congrArg (field · 16 8) h).trans hyear'))
  have hyear_eq : (utcDateTime m).year = (utcDateTime n).year := by
    have hm_year := inCentury_year hm
    have hn_year := inCentury_year hn
    omega
  have hdate : utcDate (m / 86400) = utcDate (n / 86400) := by
    rw [utcDateTime_eq m, utcDateTime_eq n] at hday_eq hmonth_eq hyear_eq
    rw [Date.mk.injEq]
    exact ⟨hyear_eq, hmonth_eq, hday_eq⟩
  rw [← (utcDate_spec (m / 86400)).2.2, hdate, (utcDate_spec (n / 86400)).2.2]

theorem dateRegister_congr {m : Nat} (h : m / 86400 = n / 86400) (w : Fin 8) :
    dateRegister (twoDigits (utcDateTime m)) w = dateRegister (twoDigits (utcDateTime n)) w := by
  rw [utcDateTime_eq m, utcDateTime_eq n, h]
  rfl

theorem settime_eq {rtc₀ rtc : DateTime} {initMode synchronized : Bool}
    (hset : upRtcSettime rtc₀ initMode synchronized utc = (rtc, 0)) (h : InCentury utc) :
    rtc = twoDigits (utcDateTime utc) := by
  unfold upRtcSettime stm32l4RtcSetdatetime at hset
  cases initMode with
  | false =>
    have hret : -rtcTimedOut = 0 := congrArg Prod.snd hset
    exact absurd hret (by decide)
  | true =>
    have hrtc := congrArg Prod.fst hset
    have hwords := (twoDigits_inFields h).load_words
    have hfull := inFull_twoDigits h
    unfold inFull at hfull
    rw [hfull] at hwords
    rw [gmtimeR_eq (Nat.lt_trans h.2 (by decide))] at hrtc
    exact hrtc.symm.trans hwords

/-- The sampling loop ends: a sample is rejected only if time has passed during it. -/
theorem sampleLoop_ends (getreg : Nat → RtcRegister → Nat) {elapsed : Nat → Nat} (last : Nat)
    (hmono : Monotone elapsed) (hbound : ∀ i, elapsed i ≤ last)
    (hsame : ∀ i, elapsed (i + 3) = elapsed i → getreg (i + 3) .dr = getreg i .dr) (fuel : Nat) :
    ∀ i, last < elapsed i + fuel → ∃ j, getreg (j + 3) .dr = getreg j .dr ∧
      sampleLoop getreg fuel i = some (⟨getreg j .dr, getreg (j + 1) .tr, getreg (j + 2) .ssr⟩, j) := by
  induction fuel with
  | zero =>
    intro i hfuel
    exact absurd (hbound i) (by omega)
  | succ fuel ih =>
    intro i hfuel
    by_cases haccept : getreg (i + 3) .dr = getreg i .dr
    · refine ⟨i, haccept, ?_⟩
      rw [sampleLoop]
      simp only [haccept, ne_eq, not_true_eq_false, if_false]
    · have hpassed : elapsed i < elapsed (i + 3) :=
        lt_of_le_of_ne (hmono (by omega)) fun h => haccept (hsame i h.symm)
      have hlater : elapsed (i + 3) ≤ elapsed (i + 4) := hmono (by omega)
      obtain ⟨j, hj, hloop⟩ := ih (i + 4) (by omega)
      refine ⟨j, hj, ?_⟩
      rw [sampleLoop]
      simp only [haccept, ne_eq]
      exact hloop

/-- A second of the years 2000 to 2099 is set, and the calendar advances within these years by
`elapsed i` seconds up to the `i`-th read. Then `up_rtc_getdatetime` returns what the calendar showed
at one moment between the first read `i` and the last read `i + 3` of the sample that it accepts, and
this is the date and time of that second. Without an advance it is the second that has been set. -/
theorem reading_shown {rtc₀ rtc : DateTime} {initMode synchronized : Bool} {utc : Nat}
    (hset : upRtcSettime rtc₀ initMode synchronized utc = (rtc, 0)) (hfirst : 946684800 ≤ utc)
    {elapsed : Nat → Nat} (hmono : Monotone elapsed) (hlast : ∀ i, utc + elapsed i < 4102444800)
    (weekday : Nat → Fin 8) (other : Nat → RtcRegister → Nat) (fuel : Nat)
    (hfuel : 4102444800 - utc ≤ fuel) :
    ∃ sample i m, sampleLoop (readings rtc weekday other elapsed) fuel 0 = some (sample, i) ∧
      elapsed i ≤ m ∧ m ≤ elapsed (i + 3) ∧
      upRtcGetdatetime (readings rtc weekday other elapsed) fuel =
        some (Tm.ofDateTime (inFull (tick^[m] rtc))) ∧
      inFull (tick^[m] rtc) = utcDateTime (utc + m) ∧
      ((∀ i, elapsed i = 0) → upRtcGetdatetime (readings rtc weekday other elapsed) fuel =
        some (Tm.ofDateTime (utcDateTime utc))) := by
  have hutc : InCentury utc := ⟨hfirst, Nat.lt_of_le_of_lt (Nat.le_add_right _ _) (hlast 0)⟩
  obtain rfl := settime_eq hset hutc
  have hcentury : ∀ i, InCentury (utc + elapsed i) := fun i => ⟨by omega, hlast i⟩
  have hcalendar : ∀ i, tick^[elapsed i] (twoDigits (utcDateTime utc)) =
      twoDigits (utcDateTime (utc + elapsed i)) := fun i => calendar_eq hfirst _ (hlast i)
  obtain ⟨i, haccept, hloop⟩ :=
    sampleLoop_ends (readings (twoDigits (utcDateTime utc)) weekday other elapsed) (4102444799 - utc) hmono
      (fun i => by have := hlast i; omega) (fun i h => by simp only [readings, h]) fuel 0
      (by have := hlast 0; omega)
  -- the date at the time register is the date at the first read
  have hday : (utc + elapsed (i + 1)) / 86400 = (utc + elapsed i) / 86400 := by
    simp only [readings, hcalendar] at haccept
    have hends := day_eq_of_register_eq (hcentury (i + 3)) (hcentury i) haccept
    have h₁ : elapsed i ≤ elapsed (i + 1) := hmono (by omega)
    have h₂ : elapsed (i + 1) ≤ elapsed (i + 3) := hmono (by omega)
    omega
  have htm : upRtcGetdatetime (readings (twoDigits (utcDateTime utc)) weekday other elapsed) fuel =
      some (Tm.ofDateTime (utcDateTime (utc + elapsed (i + 1)))) := by
    have hfields := (twoDigits_inFields (hcentury (i + 1))).sampleTm_eq (weekday (elapsed i))
      (other (i + 2) .ssr)
    rw [dateRegister_congr hday] at hfields
    have hfull := inFull_twoDigits (hcentury (i + 1))
    unfold inFull at hfull
    rw [hfull] at hfields
    rw [upRtcGetdatetime, stm32l4RtcGetdatetimeWithSubseconds, hloop]
    simp only [readings, hcalendar, Option.map_some, hfields]
  refine ⟨_, i, elapsed (i + 1), hloop, hmono (by omega), hmono (by omega), ?_, ?_, fun hzero => ?_⟩
  · rw [hcalendar, inFull_twoDigits (hcentury (i + 1)), htm]
  · rw [hcalendar, inFull_twoDigits (hcentury (i + 1))]
  · rw [htm, hzero, Nat.add_zero]

/-- The last second of 28 February 2016 is set, and midnight passes after the first read. -/
theorem reading_shown_midnight :
    ∃ m ≤ 1, upRtcGetdatetime
        (readings (upRtcSettime (utcDateTime 0) true true 1456703999).1 (fun _ => 7) (fun _ _ => 0)
          fun i => min i 1) 4102444800 = some (Tm.ofDateTime (utcDateTime (1456703999 + m))) := by
  have hmono : Monotone fun i : Nat => min i 1 := fun _ _ h => min_le_min_right 1 h
  have hset : upRtcSettime (utcDateTime 0) true true 1456703999 =
      ((upRtcSettime (utcDateTime 0) true true 1456703999).1, 0) := rfl
  obtain ⟨-, i, m, -, -, hm, htm, hutc, -⟩ := reading_shown hset (by decide) hmono
    (fun i => by have := min_le_right i 1; omega) (fun _ => 7) (fun _ _ => 0) 4102444800 (by decide)
  refine ⟨m, Nat.le_trans hm (min_le_right _ 1), ?_⟩
  rw [htm, hutc]

end NbLot.Guarantees.RtcReading
