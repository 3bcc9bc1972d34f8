import NbLot.Source.Clock.TimerRuns

/-!
# Expirations of POSIX timers

Source: nuttx/sched/timer/timer_settime.c:142-231, 237-397, nuttx/sched/wdog/wd_start.c.

`timer_timeout` starts the watchdog again with the interval, and a watchdog fires one tick
after its delay, which is meant for the part of a tick before the first one. So a timer with
an interval of `i` ticks expires every `i + 1` ticks. A time that is over is replaced by the
interval; without one the timer is not started.

- `timers_on_schedule`: the notifications of a timer, in every run.
- `timer_drifts`: an interval of one tick that takes two, and a timer set to a time that is
  over that is not notified.
-/
namespace NbLot.Guarantees.TimerSchedule

open Source.Wdog Source.Clock Lib.Transition

/-- The time asked for has come at this tick. -/
def Reached (st : Setting) (tick : Nat) : Prop :=
  if st.abstime = true then
    nanos st.value.itValue ≤ nanos st.now + ((tick : Int) - st.tick) * nsecPerTick
  else st.tick + roundedUp st.value.itValue ≤ tick

/-- The notifications of a setting in effect, the latest first, in the state `s`. -/
structure Punctual (s : TimerSys) (st : Setting) (sent : List Nat) : Prop where
  notBefore : ∀ tick ∈ sent, Reached st tick
  timeOver : st.untilFirst ≤ 0 → st.interval ≠ 0 → sent = [] →
    (s.wd.ticks : Int) ≤ st.tick + late st.interval
  once : st.interval = 0 → sent.length ≤ 1 ∧
    (0 < st.untilFirst → sent = [] → (s.wd.ticks : Int) ≤ st.tick + late st.untilFirst)
  apart : sent.IsChain fun (later earlier : Nat) => (later : Int) = earlier + late st.interval
  goesOn : st.interval ≠ 0 → ∀ tick ∈ sent.head?, (s.wd.ticks : Int) ≤ tick + late st.interval

theorem late_pos {ticks : Int} (h : 0 ≤ ticks) : 0 < late ticks := by
  unfold late
  omega

theorem le_late {ticks : Int} (h : ticks < 2 ^ 31) : ticks ≤ late ticks := by
  unfold late
  omega

variable {s : TimerSys} {st : Setting} {sent : List Nat} {timer : Nat}

theorem reached_of_late (hfits : st.Fits) {tick : Nat}
    (h : (st.tick : Int) + late st.first ≤ tick) : Reached st tick := by
  have hinterval : 0 ≤ st.interval := roundedUp_nonneg hfits.interval
  have huntil : st.untilFirst ≤ st.first := by
    unfold Setting.first
    split <;> omega
  have hreached : (st.tick : Int) + st.untilFirst ≤ tick := by
    have := le_late hfits.first.2
    omega
  unfold Setting.untilFirst at hreached
  unfold Reached
  split
  · next habs =>
    simp only [habs, if_true, nsecPerTick_eq] at hreached ⊢
    omega
  · next habs =>
    rw [if_neg habs] at hreached
    exact hreached

theorem Sent.notBefore (hfits : st.Fits) (hsent : st.Sent sent) :
    ∀ tick ∈ sent, Reached st tick := by
  induction sent with
  | nil => nofun
  | cons tick earlier ih =>
    obtain ⟨hdue, -, hrest⟩ := hsent
    intro x hx
    rcases List.mem_cons.mp hx with rfl | hx
    · apply reached_of_late hfits
      have hlate := late_pos (roundedUp_nonneg hfits.interval)
      rw [hdue, Setting.dueAt]
      have : 0 ≤ (earlier.length : Int) * late st.interval := by
        positivity
      omega
    · exact ih hrest x hx

theorem Sent.apart (hsent : st.Sent sent) :
    sent.IsChain fun (later earlier : Nat) => (later : Int) = earlier + late st.interval := by
  induction sent with
  | nil => exact .nil
  | cons tick earlier ih =>
    obtain ⟨hdue, -, hrest⟩ := hsent
    cases earlier with
    | nil => exact .singleton tick
    | cons before rest =>
      refine .cons_cons ?_ (ih hrest)
      have hbefore := hrest.1
      rw [hdue, hbefore, Setting.dueAt, Setting.dueAt, List.length_cons]
      push_cast
      rw [Int.add_mul]
      omega

theorem Sent.once (hsent : st.Sent sent) (hzero : st.interval = 0) : sent.length ≤ 1 := by
  cases sent with
  | nil => exact Nat.zero_le _
  | cons tick earlier =>
    have hnot := hsent.2.1
    cases earlier with
    | nil => exact le_rfl
    | cons before rest => exact absurd (.inr ⟨by simp, hzero⟩) hnot

theorem due_later (inv : TimerInv s) (h : Scheduled s timer st sent) (hnot : ¬st.Over sent) :
    (s.wd.ticks : Int) ≤ st.dueAt sent.length := by
  obtain ⟨start, hstart, hdue, -⟩ := h.next hnot
  rw [← hdue]
  exact (inv.wd.not_overdue hstart).1

theorem punctual (inv : TimerInv s) (h : Scheduled s timer st sent) :
    Punctual s st sent where
  notBefore := Sent.notBefore h.fits h.onTime
  timeOver := fun hover hinterval hnil => by
    have hfirst : st.first = st.interval := if_pos hover
    have hdue := due_later inv h (by simp [Setting.Over, hfirst, hinterval])
    simpa [hnil, Setting.dueAt, hfirst] using hdue
  once := fun hzero => ⟨Sent.once h.onTime hzero, fun huntil hnil => by
    have hfirst : st.first = st.untilFirst := if_neg (by omega)
    have hdue := due_later inv h (by simp [Setting.Over, hnil]; omega)
    simpa [hnil, Setting.dueAt, hfirst] using hdue⟩
  apart := Sent.apart h.onTime
  goesOn := fun hinterval tick hhead => by
    cases sent with
    | nil => cases hhead
    | cons latest earlier =>
      obtain rfl : latest = tick := by simpa using hhead
      obtain ⟨hsent, hnot, -⟩ := h.onTime
      have hmore : ¬st.Over (latest :: earlier) := by
        rintro (hfirst | ⟨-, hzero⟩)
        · exact hnot (.inl hfirst)
        · exact hinterval hzero
      have hdue := due_later inv h hmore
      rw [Setting.dueAt, List.length_cons] at hdue
      rw [hsent, Setting.dueAt]
      push_cast at hdue
      rw [Int.add_mul] at hdue
      omega

/-- Every run goes through. In every state of it the notifications of each timer that signals
are those of its setting in effect: not before the time asked for, once without an interval,
and with an interval of `i` ticks exactly `late i` ticks apart. -/
theorem timers_on_schedule (clock : ClockState) (hclock : Valid clock.basetime)
    (acts : List TimerAct)
    (hok : StepsMeet TimerSys.step (fun s a => s.Legal a ∧ s.Careful a) (timerBoot clock) acts) :
    ∃ s, run TimerSys.step (timerBoot clock) acts = some s ∧ Accounted s.log ∧
      ∀ timer st sent, inEffect s.log timer = some (st, sent) →
        (s.timer timer).notify = .signal → Punctual s st sent := by
  obtain ⟨s, hrun, inv⟩ := progress_run (fun _ _ inv h => timer_step inv h) (timerBoot clock) acts
    (timerBoot_inv hclock) hok
  refine ⟨s, hrun, inv.accounted, fun timer st sent heffect hsignal => ?_⟩
  exact punctual inv ((inv.effect timer st sent heffect).2 hsignal)

/-- The tick counter and the wall clock at the start of the runs below. -/
def noon : ClockState := ⟨100, timespec 1500000000 0, by decide⟩

def msec (n : Nat) : Timespec := timespec 0 (n * nsecPerMsec)

/-- A timer for 15 ms without an interval, and one for a time that is over with an interval of
10 ms, beside a watchdog of another user. -/
def twoTimers : List TimerAct :=
  [.wdog (.wdStatic 100), .wdog (.wdStart 100 2 7 []), .create .signal 0 50, .create .signal 0 51,
    .settime 50 false ⟨msec 15, msec 0⟩, .settime 51 true ⟨timespec 1400000000 0, msec 10⟩,
    .tick, .leave, .tick, .expire, .leave, .tick, .expire, .expire, .leave, .tick, .expire, .leave]

theorem timers_on_schedule_two :
    ∃ s, run TimerSys.step (timerBoot noon) twoTimers = some s ∧
      (∃ st, inEffect s.log 50 = some (st, [3]) ∧ Punctual s st [3]) ∧
      ∃ st, inEffect s.log 51 = some (st, [4, 2]) ∧ Punctual s st [4, 2] := by
  obtain ⟨s, hrun, -, hpunctual⟩ := timers_on_schedule noon (by decide) twoTimers
    (by decide +kernel)
  have hend : ((run TimerSys.step (timerBoot noon) twoTimers).map fun s =>
      decide ((inEffect s.log 50).map Prod.snd = some [3] ∧
        (inEffect s.log 51).map Prod.snd = some [4, 2] ∧ (s.timer 50).notify = .signal ∧
        (s.timer 51).notify = .signal)) = some true := by decide +kernel
  rw [hrun, Option.map_some, Option.some.injEq, decide_eq_true_eq] at hend
  obtain ⟨h50, h51, hsig50, hsig51⟩ := hend
  obtain ⟨⟨st, _⟩, heffect, rfl⟩ := Option.map_eq_some_iff.mp h50
  obtain ⟨⟨st', _⟩, heffect', rfl⟩ := Option.map_eq_some_iff.mp h51
  exact ⟨s, hrun, ⟨st, heffect, hpunctual 50 st _ heffect hsig50⟩, st', heffect',
    hpunctual 51 st' _ heffect' hsig51⟩

/-- With an interval of one tick the notifications are two ticks apart, and a timer set to a
time that is over, without an interval, is not started. -/
theorem timer_drifts :
    ∃ s, run TimerSys.step (timerBoot noon)
        [.create .signal 0 50, .create .signal 0 51, .settime 50 false ⟨msec 10, msec 10⟩,
          .settime 51 true ⟨timespec 1400000000 0, msec 0⟩, .tick, .leave, .tick, .expire, .leave,
          .tick, .leave, .tick, .expire, .leave] = some s ∧
      (inEffect s.log 50).map Prod.snd = some [4, 2] ∧ roundedUp (msec 10) = 1 ∧
      (inEffect s.log 51).map Prod.snd = some [] ∧ armed s.wd.log (s.timer 51).wdog = none :=
  exists_run (by decide +kernel)

end NbLot.Guarantees.TimerSchedule
