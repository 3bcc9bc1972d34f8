import NbLot.Source.Clock.Model

/-!
# Times in nanoseconds

What the functions of the clock compute, as numbers of nanoseconds. The seconds start
again from 0 after 2³² of them, so sums of times are equal up to `period`.
-/
namespace NbLot.Source.Clock

open Source.Wdog (wrap32)

/-- The nanoseconds part is in range. -/
def Valid (ts : Timespec) : Prop := 0 ≤ ts.tvNsec ∧ ts.tvNsec < nsecPerSec

instance (ts : Timespec) : Decidable (Valid ts) := inferInstanceAs (Decidable (_ ∧ _))

/-- The time in nanoseconds. -/
def nanos (ts : Timespec) : Int := ts.tvSec * nsecPerSec + ts.tvNsec

/-- The nanoseconds after which the seconds start again from 0. -/
def period : Int := 2 ^ 32 * nsecPerSec

theorem wrap32_eq {x : Int} (hlow : -2 ^ 31 ≤ x) (hhigh : x < 2 ^ 31) : wrap32 x = x := by
  unfold wrap32
  omega

theorem uint32_eq (x : Int) : (uint32 x : Int) = x % 2 ^ 32 := by
  unfold uint32
  omega

/-- Two times in range are the same if they are so up to the period. -/
theorem eq_of_nanos {a b : Timespec} (ha : Valid a) (hb : Valid b)
    (h : nanos a % period = nanos b % period) : a = b := by
  obtain ⟨sec, nsec, hsec⟩ := a
  obtain ⟨sec', nsec', hsec'⟩ := b
  simp only [Valid, nanos, period, nsecPerSec] at ha hb h
  obtain rfl : sec = sec' := by omega
  obtain rfl : nsec = nsec' := by omega
  rfl

theorem tick2msec_lt (tick : Nat) : tick2msec tick < 2 ^ 32 :=
  Nat.mod_lt _ (by decide)

theorem clockSystimespec_spec (systemTimer : Nat) :
    Valid (clockSystimespec systemTimer) ∧
      nanos (clockSystimespec systemTimer) = tick2msec systemTimer * nsecPerMsec := by
  have hlt := tick2msec_lt systemTimer
  simp only [clockSystimespec]
  simp only [Valid, nanos, timespec, uint32_eq, msecPerSec, nsecPerMsec, nsecPerSec]
  simp (disch := omega) only [wrap32_eq]
  omega

/-- The base time is the new time less the time since boot. -/
theorem clockSettime_spec (c : ClockState) {tp : Timespec} (htp : Valid tp) :
    ∃ c', clockSettime c clockRealtime tp = .ok c' ∧ c'.systemTimer = c.systemTimer ∧
      Valid c'.basetime ∧ (nanos c'.basetime + nanos (clockSystimespec c.systemTimer)) % period =
        nanos tp % period := by
  obtain ⟨hboot, -⟩ := clockSystimespec_spec c.systemTimer
  unfold clockSettime
  refine ⟨_, rfl, rfl, ?_⟩
  simp only [Valid, nsecPerSec] at htp hboot
  simp only [Valid, nanos, period, nsecPerSec]
  -- with the borrow or without, the nanoseconds stay in range
  split <;> simp only [timespec, uint32_eq] <;>
    simp (disch := omega) only [wrap32_eq] <;>
    omega

/-- The time is the base time and the time since boot. -/
theorem clockGettime_spec {c : ClockState} (hbase : Valid c.basetime) :
    ∃ ts, clockGettime c clockRealtime = .ok ts ∧ Valid ts ∧
      nanos ts % period = (nanos c.basetime + nanos (clockSystimespec c.systemTimer)) % period := by
  obtain ⟨hboot, -⟩ := clockSystimespec_spec c.systemTimer
  unfold clockGettime
  rw [if_pos rfl]
  generalize clockSystimespec c.systemTimer = boot at hboot ⊢
  simp only [Valid, nsecPerSec] at hbase hboot
  have hsum : wrap32 (boot.tvNsec + c.basetime.tvNsec) = boot.tvNsec + c.basetime.tvNsec :=
    wrap32_eq (by omega) (by omega)
  simp only [timespec, hsum]
  split
  · next hcarry =>
    refine ⟨_, rfl, ?_⟩
    simp only [Valid, nanos, period, uint32_eq, nsecPerSec] at hcarry ⊢
    simp (disch := omega) only [wrap32_eq]
    omega
  · next hcarry =>
    refine ⟨_, rfl, ?_⟩
    simp only [Valid, nanos, period, uint32_eq, nsecPerSec] at hcarry ⊢
    omega

theorem nsecPerTick_eq : nsecPerTick = 10000000 := rfl

/-- The time rounded up to ticks. -/
def roundedUp (ts : Timespec) : Int := (nanos ts + nsecPerTick - 1) / nsecPerTick

variable {ts : Timespec}

theorem nanos_nonneg (h : Valid ts) : 0 ≤ nanos ts := by
  simp only [Valid] at h
  simp only [nanos, nsecPerSec]
  omega

theorem roundedUp_nonneg (h : Valid ts) : 0 ≤ roundedUp ts := by
  have := nanos_nonneg h
  simp only [roundedUp, nsecPerTick_eq]
  omega

theorem clockTime2ticks_eq (h : Valid ts) (hshort : roundedUp ts < 2 ^ 31) :
    clockTime2ticks ts = roundedUp ts := by
  have hlow := roundedUp_nonneg h
  have hnanos := nanos_nonneg h
  have hdiv : Int.tdiv (nanos ts + nsecPerTick - 1) nsecPerTick = roundedUp ts :=
    Int.tdiv_eq_ediv_of_nonneg (by rw [nsecPerTick_eq]; omega)
  simp only [nanos] at hdiv
  simp only [clockTime2ticks, hdiv]
  exact wrap32_eq (by omega) hshort

theorem clockTicks2time_eq {ticks : Int} (h0 : 0 ≤ ticks) (hmax : ticks < 2 ^ 31) :
    Valid (clockTicks2time ticks) ∧ nanos (clockTicks2time ticks) = ticks * nsecPerTick := by
  have hper : tickPerSec = 100 := rfl
  have hsec : (uint32 (Int.tdiv ticks tickPerSec) : Int) = ticks / 100 := by
    rw [uint32_eq, hper, Int.tdiv_eq_ediv_of_nonneg h0]
    omega
  have hrest : wrap32 (ticks - tickPerSec * uint32 (Int.tdiv ticks tickPerSec)) = ticks % 100 := by
    rw [hsec, hper, wrap32_eq] <;> omega
  simp only [clockTicks2time, hrest, nsecPerTick_eq, Valid, nanos, nsecPerSec, timespec_tvSec,
    timespec_tvNsec]
  rw [uint32_eq, wrap32_eq] <;> omega

theorem compareTimespec_neg {a b : Timespec} (ha : Valid a) (hb : Valid b) :
    compareTimespec a b < 0 ↔ nanos a < nanos b := by
  simp only [Valid, nsecPerSec] at ha hb
  simp only [compareTimespec, nanos, nsecPerSec]
  rw [wrap32_eq (by omega) (by omega)]
  split
  · omega
  · split <;> omega

theorem timespec_exact (sec nsec : Int) (hsec : 0 ≤ sec ∧ sec < 2 ^ 32)
    (hnsec : -nsecPerSec < nsec ∧ nsec < nsecPerSec) :
    ((timespec sec nsec).tvSec : Int) = sec ∧ (timespec sec nsec).tvNsec = nsec := by
  simp only [nsecPerSec] at hnsec
  rw [timespec_tvSec, timespec_tvNsec, uint32_eq, wrap32_eq (by omega) (by omega)]
  omega

/-- `a - b` as C computes it field by field, with a borrow if the nanoseconds are negative. -/
def difference (a b : Timespec) : Timespec :=
  let rel := timespec (a.tvSec - b.tvSec) (a.tvNsec - b.tvNsec)
  if rel.tvNsec < 0 then timespec (rel.tvSec - 1) (rel.tvNsec + nsecPerSec) else rel

theorem difference_spec {a b : Timespec} (ha : Valid a) (hb : Valid b) (h : nanos b ≤ nanos a) :
    Valid (difference a b) ∧ nanos (difference a b) = nanos a - nanos b := by
  have hsec := a.tvSec_lt
  simp only [Valid, nanos, nsecPerSec] at ha hb h
  obtain ⟨hs, hn⟩ := timespec_exact (a.tvSec - b.tvSec) (a.tvNsec - b.tvNsec) (by omega)
    (by simp only [nsecPerSec]; omega)
  simp only [difference, hs, hn]
  split
  · obtain ⟨hs', hn'⟩ := timespec_exact (a.tvSec - b.tvSec - 1)
      (a.tvNsec - b.tvNsec + nsecPerSec) (by omega) (by simp only [nsecPerSec]; omega)
    simp only [Valid, nanos]
    simp only [nsecPerSec] at *
    omega
  · simp only [Valid, nanos, nsecPerSec]
    omega

/-- The ticks to an absolute time, or -1 if it is over. -/
theorem clockAbstime2ticks_eq {c : ClockState} {abstime now : Timespec} (habs : Valid abstime)
    (hnow : Valid now) (hget : clockGettime c clockRealtime = .ok now)
    (hshort : (nanos abstime - nanos now + nsecPerTick - 1) / nsecPerTick < 2 ^ 31) :
    clockAbstime2ticks c clockRealtime abstime =
      .ok (if nanos abstime < nanos now then -1
        else (nanos abstime - nanos now + nsecPerTick - 1) / nsecPerTick) := by
  have hcases : clockAbstime2ticks c clockRealtime abstime =
      if compareTimespec abstime now < 0 then .ok (-1)
      else .ok (clockTime2ticks (difference abstime now)) := by
    rw [clockAbstime2ticks, hget]
    unfold difference
    dsimp only
  by_cases hover : nanos abstime < nanos now
  · rw [hcases, if_pos ((compareTimespec_neg habs hnow).mpr hover), if_pos hover]
  · obtain ⟨hvalid, hnanos⟩ := difference_spec habs hnow (Int.not_lt.mp hover)
    have hticks : roundedUp (difference abstime now) =
        (nanos abstime - nanos now + nsecPerTick - 1) / nsecPerTick := by
      rw [roundedUp, hnanos]
    rw [hcases, if_neg (fun h => hover ((compareTimespec_neg habs hnow).mp h)), if_neg hover,
      clockTime2ticks_eq hvalid (hticks ▸ hshort), hticks]

end NbLot.Source.Clock
