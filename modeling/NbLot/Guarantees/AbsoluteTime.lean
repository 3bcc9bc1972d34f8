import NbLot.Source.Clock.Time

/-!
# Waiting for an absolute time

A wait for an absolute time lasts as many ticks as `clock_abstime2ticks` gives for it. They are the fewest
that reach the time, and -1 for a time that is over (`abstime2ticks_least`).

Source: nuttx/sched/clock/clock_abstime2ticks.c:61-147, clock_time2ticks.c:70-117,
clock_ticks2time.c:66-74.
-/
namespace NbLot.Guarantees.AbsoluteTime

open Source.Clock

/-- After `k` ticks and no fewer the time has come. -/
def Reaches (now abstime : Timespec) (k : Nat) : Prop :=
  nanos abstime ≤ nanos now + k * nsecPerTick ∧
    ∀ j : Nat, nanos abstime ≤ nanos now + j * nsecPerTick → k ≤ j

theorem Reaches.eq {now abstime : Timespec} {k : Nat} (h : Reaches now abstime k)
    (hfuture : nanos now ≤ nanos abstime) :
    (nanos abstime - nanos now + nsecPerTick - 1) / nsecPerTick = k := by
  obtain ⟨hreach, hmin⟩ := h
  have hbest := hmin ((nanos abstime - nanos now + nsecPerTick - 1) / nsecPerTick).toNat
  simp only [nsecPerTick_eq] at hreach hbest ⊢
  omega

theorem time2ticks_ticks2time {k : Int} (hpos : 0 ≤ k) (hfits : k < 2 ^ 31) :
    clockTime2ticks (clockTicks2time k) = k := by
  obtain ⟨hvalid, hnanos⟩ := clockTicks2time_eq hpos hfits
  have hticks : roundedUp (clockTicks2time k) = k := by
    simp only [roundedUp, hnanos, nsecPerTick_eq]
    omega
  rw [clockTime2ticks_eq hvalid (by rwa [hticks]), hticks]

/-- The ticks to an absolute time are the fewest that reach it. -/
theorem abstime2ticks_least {c : ClockState} {now abstime : Timespec}
    (hnow : Valid now) (habs : Valid abstime) (hget : clockGettime c clockRealtime = .ok now) :
    (nanos abstime < nanos now → ∃ k < 0, clockAbstime2ticks c clockRealtime abstime = .ok k) ∧
      (nanos now ≤ nanos abstime → ∀ k, Reaches now abstime k → k < 2 ^ 31 →
        clockAbstime2ticks c clockRealtime abstime = .ok k) ∧
      ∀ k : Int, 0 ≤ k → k < 2 ^ 31 → clockTime2ticks (clockTicks2time k) = k := by
  refine ⟨fun hover => ⟨-1, by decide, ?_⟩, fun hfuture k hk hfits => ?_, fun k =>
    time2ticks_ticks2time⟩
  · rw [clockAbstime2ticks_eq habs hnow hget (by rw [nsecPerTick_eq]; omega), if_pos hover]
  · have hticks := hk.eq hfuture
    rw [clockAbstime2ticks_eq habs hnow hget (by omega), if_neg (Int.not_lt.mpr hfuture), hticks]

/-- A time that is one nanosecond away is reached by the next tick. -/
theorem abstime2ticks_next_tick :
    clockAbstime2ticks ⟨0, ⟨0, 0, by decide⟩, by decide⟩ clockRealtime ⟨0, 1, by decide⟩ = .ok 1 := by
  have hreach : Reaches ⟨0, 0, by decide⟩ ⟨0, 1, by decide⟩ 1 := by
    refine ⟨by decide, fun j hj => ?_⟩
    simp only [nanos, nsecPerTick_eq] at hj
    omega
  exact (abstime2ticks_least (by decide) (by decide) (by decide +kernel)).2.1 (by decide) 1 hreach (by decide)

end NbLot.Guarantees.AbsoluteTime
