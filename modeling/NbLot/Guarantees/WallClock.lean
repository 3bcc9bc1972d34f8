import NbLot.Source.Clock.Time

/-!
# The wall clock

Source: nuttx/sched/clock/clock_systimespec.c:157-193, clock_settime.c:67-142,
clock_gettime.c:140-187, nuttx/include/nuttx/clock.h:163-167.

`clock_settime` keeps the difference between the new time and the time since boot, and
`clock_gettime` adds the time since boot again, with a borrow and a carry that are right.
The time since boot is the tick count in milliseconds, and `TICK2MSEC` computes it in 32
bits: it starts again from 0 after 2³² ms, which is 49.7 days, while the tick count itself
goes on for 497 days. The clock is right as long as no such point lies in between.
-/
namespace NbLot.Guarantees.WallClock

open Source.Clock List

/-- The time `msec` milliseconds after `tp`. -/
def later (tp : Timespec) (msec : Nat) : Timespec :=
  let total := nanos tp + msec * nsecPerMsec
  timespec (total / nsecPerSec) (total % nsecPerSec)

theorem later_spec (tp : Timespec) (msec : Nat) :
    Valid (later tp msec) ∧
      nanos (later tp msec) % period = (nanos tp + msec * nsecPerMsec) % period := by
  simp only [later, Valid, nanos, period, timespec, uint32_eq, nsecPerSec]
  simp (disch := omega) only [wrap32_eq]
  omega

/-- The actions count the ticks and do not set the wall clock. -/
def Ticking (acts : List ClockAct) : Prop :=
  ∀ a ∈ acts, ∀ clockId tp, a = .settime clockId tp → clockId ≠ clockRealtime

/-- Ticks leave the base time alone, and so do attempts to set another clock. -/
theorem run_ticking (acts : List ClockAct) (c : ClockState) (hacts : Ticking acts)
    (hlt : c.systemTimer + acts.count .tick < 2 ^ 32) :
    (c.run acts).basetime = c.basetime ∧
      (c.run acts).systemTimer = c.systemTimer + acts.count .tick := by
  induction acts generalizing c with
  | nil => exact ⟨rfl, rfl⟩
  | cons a acts ih =>
    have htail : Ticking acts := fun b hb => hacts b (mem_cons_of_mem a hb)
    cases a with
    | tick =>
      rw [count_cons_self] at hlt ⊢
      have hnext : (clockTimer c).systemTimer = c.systemTimer + 1 := Nat.mod_eq_of_lt (by omega)
      obtain ⟨hbase, htimer⟩ := ih (clockTimer c) htail (by omega)
      exact ⟨hbase, htimer.trans (by omega)⟩
    | settime clockId tp =>
      have hother := hacts _ mem_cons_self clockId tp rfl
      have hsame : c.step (.settime clockId tp) = c := by
        simp only [ClockState.step, clockSettime, if_neg hother]
      rw [ClockState.run, foldl_cons, hsame]
      exact ih c htail hlt

/-- The wall clock is set at some tick count and read after any number of further ticks
that the counter can hold. The time is in range, and it is right exactly if the count of
milliseconds since boot has not started again from 0 in between. -/
theorem wall_clock_right_iff (c : ClockState) (tp : Timespec) (htp : Valid tp)
    (acts : List ClockAct) (hacts : Ticking acts)
    (hlt : c.systemTimer + acts.count .tick < 2 ^ 32) :
    ∃ ts, clockGettime (c.run (.settime clockRealtime tp :: acts)) clockRealtime = .ok ts ∧
      Valid ts ∧
      (ts = later tp (acts.count .tick * msecPerTick) ↔
        c.systemTimer * msecPerTick / 2 ^ 32 =
          (c.systemTimer + acts.count .tick) * msecPerTick / 2 ^ 32) := by
  obtain ⟨c₀, hset, htimer₀, hbase₀, hdiff⟩ := clockSettime_spec c htp
  have hfirst : c.run (.settime clockRealtime tp :: acts) = c₀.run acts := by
    simp only [ClockState.run, foldl_cons, ClockState.step, hset]
  obtain ⟨hbase, htimer⟩ := run_ticking acts c₀ hacts (by omega)
  obtain ⟨ts, hget, hvalid, hsum⟩ := clockGettime_spec (hbase ▸ hbase₀)
  obtain ⟨hlater, hexact⟩ := later_spec tp (acts.count .tick * msecPerTick)
  refine ⟨ts, hfirst ▸ hget, hvalid, ?_⟩
  generalize acts.count .tick = n at *
  rw [hbase, htimer, htimer₀, (clockSystimespec_spec _).2] at hsum
  rw [(clockSystimespec_spec _).2] at hdiff
  have hiff : nanos ts % period = nanos (later tp (n * msecPerTick)) % period ↔
      c.systemTimer * msecPerTick / 2 ^ 32 = (c.systemTimer + n) * msecPerTick / 2 ^ 32 := by
    have hms : msecPerTick = 10 := rfl
    simp only [tick2msec, hms, period, nsecPerSec, nsecPerMsec] at *
    omega
  exact ⟨fun heq => hiff.mp (by rw [heq]), fun heq => eq_of_nanos hvalid hlater (hiff.mpr heq)⟩

/-- Two days after boot the clock is set, and read three ticks later. -/
theorem wall_clock_right_iff_two_days :
    ∃ ts, clockGettime ((⟨17280000, timespec 0 0, by decide⟩ : ClockState).run
        [.settime clockRealtime (timespec 1500000000 999999999), .tick, .tick, .settime 1
          (timespec 0 0), .tick]) clockRealtime = .ok ts ∧
      ts = later (timespec 1500000000 999999999) 30 := by
  obtain ⟨ts, hget, -, hiff⟩ := wall_clock_right_iff ⟨17280000, timespec 0 0, by decide⟩
    (timespec 1500000000 999999999) (by decide) [.tick, .tick, .settime 1 (timespec 0 0), .tick]
    (by unfold Ticking; simp [clockRealtime]) (by decide)
  exact ⟨ts, hget, hiff.mpr (by decide)⟩

/-- After 49 days the clock is set, and one tick later it is 49 days behind. -/
theorem wall_clock_falls_back :
    clockGettime ((⟨429496729, timespec 0 0, by decide⟩ : ClockState).run
        [.settime clockRealtime (timespec 1500000000 0), .tick]) clockRealtime =
      .ok (timespec 1495705032 714000000) ∧
    timespec 1495705032 714000000 ≠ later (timespec 1500000000 0) 10 := by
  decide +kernel

end NbLot.Guarantees.WallClock
