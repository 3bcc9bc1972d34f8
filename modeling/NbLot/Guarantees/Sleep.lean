import NbLot.Source.Clock.Nanosleep

/-!
# Sleeps are not short

Source: nuttx/sched/signal/sig_nanosleep.c:105-213, sig_timedwait.c:257-364.

The watchdog of a sleep is started with the requested time rounded up to ticks, and fires
one tick later than that. `waitticks` has 32 bits: of a request of 2³² ticks (497 days) and
more only the rest modulo 2³² is waited for.

- `sleeps_not_short`: what a call returns, in every run of calls for less than 2³¹ ticks.
- `long_sleep_short`: a request of 497 days that returns 0 after five ticks.
-/
namespace NbLot.Guarantees.Sleep

open Source.Wdog Source.Clock Lib.Transition

/-- A sleep of less than 2³¹ ticks, not called from a handler that interrupts another sleep,
for which there is a watchdog. -/
def Careful (s : SleepSys) : SleepAct → Prop
  | .nanosleep (some rqtp) _ heap =>
    roundedUp rqtp < 2 ^ 31 ∧ s.calls = [] ∧ (wdCreate s.wd.wd false heap).2 ≠ 0
  | _ => True

instance (s : SleepSys) (a : SleepAct) : Decidable (Careful s a) := by
  unfold Careful
  split <;> infer_instance

/-- A call that returned 0 took the requested time at least. A call that was interrupted
less than 2³² ticks after its start reports the time that was left. -/
def Right (r : Slept) : Prop :=
  (r.errno = none → (r.began : Int) + roundedUp r.rqtp ≤ r.ended) ∧
    ((r.ended : Int) - r.began < 2 ^ 32 → ∀ left ∈ r.rmtp, Valid left ∧
      nanos left = max 0 (roundedUp r.rqtp - (r.ended - r.began)) * nsecPerTick)

/-- The call in progress. Its watchdog is armed for the requested time as long as the task
waits; a wait that was not ended by a signal has taken that time. -/
structure Open (start : Nat) (s : SleepSys) (c : Nanosleep) : Prop where
  valid : Valid c.rqtp
  short : roundedUp c.rqtp < 2 ^ 31
  starttick : c.starttick = (start + c.began) % 2 ^ 32
  began : c.began ≤ s.wd.ticks
  waits : c.errval = none → s.waitdog ≠ 0 ∧ s.wd.live s.waitdog = true ∧
    (s.waiting = true → ∃ i, armed s.wd.log s.waitdog =
      some ⟨i, c.began, roundedUp c.rqtp, (sigTimeout, [rtcb])⟩) ∧
    (s.waiting = false → maxSigno < s.signo → (c.began : Int) + roundedUp c.rqtp ≤ s.wd.ticks)
  ended : ∀ errval, c.errval = some errval → s.waiting = false ∧ s.waitdog = 0 ∧
    (errval = .eagain → (c.began : Int) + roundedUp c.rqtp ≤ s.wd.ticks)

/-- At most one call is in progress, and no other watchdog calls `sig_timeout` for the task. -/
structure SleepInv (start : Nat) (s : SleepSys) : Prop where
  wd : WdInv s.wd
  timer : s.systemTimer = (start + s.wd.ticks) % 2 ^ 32
  only : ∀ w st, armed s.wd.log w = some st → st.call = (sigTimeout, [rtcb]) → w = s.waitdog
  idle : s.calls = [] → s.waiting = false ∧ s.waitdog = 0
  busy : ∀ c rest, s.calls = c :: rest → rest = [] ∧ Open start s c
  returned : ∀ r ∈ s.returned, Right r

theorem waitTicks_eq {ts : Timespec} (h : Valid ts) (hshort : roundedUp ts < 2 ^ 31) :
    waitTicks ts = roundedUp ts := by
  have hlow := roundedUp_nonneg h
  have hsec := ts.tvSec_lt
  have hmod : (nanos ts + nsecPerTick - 1) % 2 ^ 64 = nanos ts + nsecPerTick - 1 := by
    simp only [Valid, nanos, nsecPerSec, nsecPerTick_eq] at h ⊢
    omega
  have hdiv : (nanos ts + nsecPerTick - 1) / nsecPerTick = roundedUp ts := rfl
  simp only [nanos] at hmod hdiv
  simp only [waitTicks, hmod]
  exact wrap32_eq (by omega) hshort

theorem remainingTime_eq {ts : Timespec} {start began now : Nat} (h : Valid ts)
    (hshort : roundedUp ts < 2 ^ 31) (hbegan : began ≤ now) (hwrap : (now : Int) - began < 2 ^ 32) :
    let left := remainingTime ts ((start + began) % 2 ^ 32) ((start + now) % 2 ^ 32)
    Valid left ∧ nanos left = max 0 (roundedUp ts - (now - began)) * nsecPerTick := by
  have hlow := roundedUp_nonneg h
  have helapsed : uint32 (((start + now) % 2 ^ 32 : Nat) - ((start + began) % 2 ^ 32 : Nat)) =
      now - began := by
    unfold uint32
    omega
  have hticks : uint32 (roundedUp ts) = (roundedUp ts).toNat := by
    unfold uint32
    omega
  simp only [remainingTime, clockTime2ticks_eq h hshort, helapsed, hticks]
  have hleft : wrap32 (if (roundedUp ts).toNat ≤ now - began then 0
      else uint32 ((roundedUp ts).toNat - (now - began : Nat)) : Nat) =
      max 0 (roundedUp ts - (now - began)) := by
    split
    · rw [wrap32_eq] <;> omega
    · unfold uint32
      rw [wrap32_eq] <;> omega
  rw [hleft]
  exact clockTicks2time_eq (by omega) (by omega)

variable {start : Nat} {s t : SleepSys} {c : Nanosleep} {wd : WdSys} {a : WdAct}

theorem sleepBoot_inv (hstart : start < 2 ^ 32) : SleepInv start (sleepBoot start) where
  wd := wdBoot_inv
  timer := (Nat.mod_eq_of_lt hstart).symm
  only := nofun
  idle := fun _ => ⟨rfl, rfl⟩
  busy := nofun
  returned := nofun

/-- Time passes, and other watchdogs change. -/
theorem Open.later (h : Open start s c) (hdog : t.waitdog = s.waitdog)
    (hwaiting : t.waiting = s.waiting) (hsigno : t.signo = s.signo)
    (hticks : s.wd.ticks ≤ t.wd.ticks)
    (hlive : s.wd.live s.waitdog = true → t.wd.live s.waitdog = true)
    (harmed : s.waiting = true → s.waitdog ≠ 0 →
      armed t.wd.log s.waitdog = armed s.wd.log s.waitdog) : Open start t c where
  valid := h.valid
  short := h.short
  starttick := h.starttick
  began := h.began.trans hticks
  waits := fun hnone => by
    obtain ⟨hne, hwas, hwait, hout⟩ := h.waits hnone
    rw [hdog, hwaiting, hsigno]
    refine ⟨hne, hlive hwas, fun hw => ?_, fun hw hs => ?_⟩
    · rw [harmed hw hne]
      exact hwait hw
    · have := hout hw hs
      omega
  ended := fun errval hsome => by
    obtain ⟨hw, hd, hagain⟩ := h.ended errval hsome
    refine ⟨hwaiting.trans hw, hdog.trans hd, fun he => ?_⟩
    have := hagain he
    omega

/-- A call of the others does not start `sig_timeout` for the task. -/
theorem foreign_armed {w : Nat} {st : Start} (hstep : s.wd.step a = some wd)
    (hforeign : s.Foreign a) (harmed : armed wd.log w = some st)
    (hcall : st.call = (sigTimeout, [rtcb])) : armed s.wd.log w = some st := by
  apply armed_before hstep _ _ harmed
  · rintro rfl
    exact hforeign
  · rintro delay rfl
    exact hforeign.2 hcall

theorem foreign_names (h : s.Foreign a) (hdog : s.waitdog ≠ 0) : ¬a.Names s.waitdog := by
  cases a with
  | wdStatic x => exact h hdog
  | wdStart x delay func parms => exact h.1 hdog
  | wdCancel x => exact h hdog
  | wdDelete x => exact h hdog
  | _ => exact not_false

section

variable (inv : SleepInv start s) {signo : Nat}
include inv

/-- The watchdogs change, but not the watchdog of the task. -/
theorem SleepInv.wdog (hwd : WdInv wd) (hticks : wd.ticks = s.wd.ticks)
    (honly : ∀ w st, armed wd.log w = some st → st.call = (sigTimeout, [rtcb]) → armed s.wd.log w = some st)
    (hlive : s.wd.live s.waitdog = true → wd.live s.waitdog = true)
    (harmed : s.waiting = true → s.waitdog ≠ 0 → armed wd.log s.waitdog = armed s.wd.log s.waitdog) :
    SleepInv start { s with wd := wd } where
  wd := hwd
  timer := by
    rw [hticks]
    exact inv.timer
  only := fun w st hst hcall => inv.only w st (honly w st hst hcall) hcall
  idle := inv.idle
  busy := fun c rest hcalls => by
    obtain ⟨hrest, hopen⟩ := inv.busy c rest hcalls
    exact ⟨hrest, hopen.later rfl rfl rfl hticks.ge hlive harmed⟩
  returned := inv.returned

theorem step_wdog (hlegal : s.Legal (.wdog a)) (hstep : s.step (.wdog a) = some t) :
    SleepInv start t := by
  obtain ⟨hok, hforeign⟩ := hlegal
  simp only [SleepSys.step] at hstep
  split at hstep
  · cases hstep
  next wd hwd =>
  cases hstep
  have hkind : a ≠ .tick ∧ a ≠ .expire :=
    ⟨fun h => by subst h; exact hforeign, fun h => by subst h; exact hforeign⟩
  have hticks := step_ticks hwd
  rw [if_neg hkind.1] at hticks
  refine inv.wdog (inv.wd.call hwd hok) hticks (fun w st => foreign_armed hwd hforeign)
    (fun hlive => ?_) (fun _ hdog => (step_other hwd (foreign_names hforeign hdog) hkind.2).1)
  by_cases hdog : s.waitdog = 0
  · rw [hdog, inv.wd.handles.null] at hlive
    cases hlive
  · exact (step_other hwd (foreign_names hforeign hdog) hkind.2).2 hlive

theorem step_leave_inv (hstep : s.step .leave = some t) : SleepInv start t := by
  simp only [SleepSys.step] at hstep
  split at hstep
  · cases hstep
  next wd hwd =>
  cases hstep
  have hother := fun w => step_other (w := w) hwd not_false (by simp)
  refine inv.wdog (inv.wd.timer (.inr (.inr rfl)) hwd) (step_ticks hwd) (fun w st hst _ => ?_)
    (hother _).2 (fun _ _ => (hother _).1)
  rw [← (hother w).1, hst]

theorem step_tick_inv (hstep : s.step .tick = some t) : SleepInv start t := by
  simp only [SleepSys.step] at hstep
  split at hstep
  · cases hstep
  next wd hwd =>
  cases hstep
  have hother := fun w => step_other (w := w) hwd not_false (by simp)
  have hticks : wd.ticks = s.wd.ticks + 1 := step_ticks hwd
  refine ⟨inv.wd.timer (.inl rfl) hwd, ?_, fun w st hst hcall => ?_, inv.idle,
    fun c rest hcalls => ?_, inv.returned⟩
  · simp only [inv.timer]
    omega
  · rw [(hother w).1] at hst
    exact inv.only w st hst hcall
  · obtain ⟨hrest, hopen⟩ := inv.busy c rest hcalls
    refine ⟨hrest, hopen.later rfl rfl rfl ?_ (hother _).2 fun _ _ => (hother _).1⟩
    simp only [hticks]
    omega

theorem SleepInv.waits (hwaiting : s.waiting = true) :
    ∃ c i, s.calls = [c] ∧ Open start s c ∧ s.waitdog ≠ 0 ∧
      armed s.wd.log s.waitdog = some ⟨i, c.began, roundedUp c.rqtp, (sigTimeout, [rtcb])⟩ := by
  cases hcalls : s.calls with
  | nil =>
    have := (inv.idle hcalls).1
    rw [hwaiting] at this
    cases this
  | cons c rest =>
    obtain ⟨rfl, hopen⟩ := inv.busy c rest hcalls
    cases herrval : c.errval with
    | none =>
      obtain ⟨hne, -, harmed, -⟩ := hopen.waits herrval
      obtain ⟨i, hi⟩ := harmed hwaiting
      exact ⟨c, i, rfl, hopen, hne, hi⟩
    | some errval =>
      have := (hopen.ended errval herrval).1
      rw [hwaiting] at this
      cases this

/-- The wait ends. If it was not ended by a signal, the requested time is over. -/
theorem SleepInv.unblock (hwd : WdInv wd) (hticks : wd.ticks = s.wd.ticks)
    (honly : ∀ w st, armed wd.log w = some st → st.call = (sigTimeout, [rtcb]) → armed s.wd.log w = some st)
    (hlive : wd.live = s.wd.live)
    (hover : s.waiting = true → maxSigno < signo → ∀ c, s.calls = [c] → (c.began : Int) + roundedUp c.rqtp ≤ s.wd.ticks) :
    SleepInv start ({ s with wd := wd }.unblock signo) := by
  unfold SleepSys.unblock
  split
  · next hwaiting =>
    obtain ⟨c, i, hcalls, hopen, hne, hi⟩ := inv.waits hwaiting
    refine ⟨hwd, ?_, fun w st hst hcall => inv.only w st (honly w st hst hcall) hcall,
      fun hnil => ?_, fun c' rest hc' => ?_, inv.returned⟩
    · simp only [hticks, inv.timer]
    · simp only [hcalls] at hnil
      cases hnil
    · simp only [hcalls] at hc'
      obtain ⟨rfl, rfl⟩ := hc'
      refine ⟨rfl, hopen.valid, hopen.short, hopen.starttick, hticks ▸ hopen.began, fun _ => ?_,
        fun errval hsome => ?_⟩
      · refine ⟨hne, ?_, nofun, fun _ hlarge => hticks ▸ hover hwaiting hlarge c hcalls⟩
        rw [hlive]
        exact inv.wd.live_of_armed hi
      · have := (hopen.ended errval hsome).1
        rw [hwaiting] at this
        cases this
  · next hwaiting =>
    refine inv.wdog hwd hticks honly (fun h => hlive ▸ h) (fun hw => absurd hw hwaiting)

theorem step_expire_inv (hstep : s.step .expire = some t) : SleepInv start t := by
  simp only [SleepSys.step] at hstep
  split at hstep
  · cases hstep
  next wd hwd =>
  have hticks : wd.ticks = s.wd.ticks := step_ticks hwd
  obtain ⟨st, hst, hdue, hcall, hlive, hlog⟩ := expire_ran inv.wd hwd
  have hinv := inv.wd.timer (.inr (.inl rfl)) hwd
  -- the start in effect of another watchdog is not touched
  have hother : ∀ w, w ≠ (expireHead s.wd.wd).2 → armed wd.log w = armed s.wd.log w := by
    intro w hw
    rw [hlog]
    exact armed_other _ _ hw
  have honly : ∀ w st', armed wd.log w = some st' → st'.call = (sigTimeout, [rtcb]) →
      armed s.wd.log w = some st' := by
    intro w st' hst' _
    by_cases hw : w = (expireHead s.wd.wd).2
    · rw [hlog, hw] at hst'
      simp [armed] at hst'
    · rw [← hother w hw, hst']
  split at hstep
  · next hours =>
    cases hstep
    have hdog := inv.only _ st hst (hcall ▸ hours)
    refine inv.unblock hinv hticks honly hlive fun hwaiting _ c hc => ?_
    obtain ⟨c', i, hcalls, hopen, -, hi⟩ := inv.waits hwaiting
    rw [hcalls, List.cons.injEq] at hc
    obtain ⟨rfl, -⟩ := hc
    rw [hdog, hi, Option.some.injEq] at hst
    rw [← hst] at hdue
    have hlate := delayTicks_eq (roundedUp_nonneg hopen.valid)
      (by have := hopen.short; unfold int32Max; omega)
    have hshort := hopen.short
    simp only [Start.due, int32Max] at hdue hlate
    omega
  · next hours =>
    cases hstep
    refine inv.wdog hinv hticks honly (fun h => hlive ▸ h) (fun hwaiting _ => hother _ ?_)
    intro heq
    obtain ⟨c, i, -, -, -, hi⟩ := inv.waits hwaiting
    rw [← heq, hi, Option.some.injEq] at hst
    exact hours (hcall.trans (hst ▸ rfl))

theorem step_signal_inv (hlegal : s.Legal (.signal signo))
    (hstep : s.step (.signal signo) = some t) : SleepInv start t := by
  cases hstep
  exact inv.unblock inv.wd rfl (fun _ _ h _ => h) rfl fun _ hlarge =>
    absurd hlegal (Nat.not_le_of_lt hlarge)

theorem step_nanosleep_inv {rqtp : Option Timespec} {rmtp : Bool} {heap : Nat}
    (hlegal : s.Legal (.nanosleep rqtp rmtp heap))
    (hcareful : Careful s (.nanosleep rqtp rmtp heap))
    (hstep : s.step (.nanosleep rqtp rmtp heap) = some t) : SleepInv start t := by
  simp only [SleepSys.step] at hstep
  split at hstep
  case isFalse => cases hstep
  cases rqtp with
  | none =>
    cases hstep
    exact inv
  | some rqtp =>
    simp only [SleepSys.nanosleep] at hstep
    split at hstep
    · cases hstep
      exact inv
    next hinrange =>
    have hvalid : Valid rqtp := by
      unfold Valid
      omega
    obtain ⟨hshort, hidle, hdog⟩ := hcareful
    simp only [SleepSys.sigtimedwait, if_neg hdog] at hstep
    split at hstep
    · cases hstep
    next wd hcreate =>
    have hinv := inv.wd.call hcreate hlegal
    obtain ⟨-, hmade, hlog⟩ := create_live inv.wd hlegal hcreate hdog
    have hcreated : wd.ticks = s.wd.ticks := step_ticks hcreate
    split at hstep
    · cases hstep
    next wd' hstart =>
    cases hstep
    have hlow := roundedUp_nonneg hvalid
    rw [waitTicks_eq hvalid hshort] at hstart
    obtain ⟨harmed, hlive⟩ := start_armed hstart hdog (by decide) hlow
    have hstarted : wd'.ticks = wd.ticks := step_ticks hstart
    have hinv' : WdInv wd' := by
      refine hinv.call hstart ⟨fun _ => hmade, ?_⟩
      unfold int32Max
      omega
    have hwas := inv.idle hidle
    refine ⟨hinv', ?_, fun w st hst hcall => ?_, nofun, fun c rest hcalls => ?_, inv.returned⟩
    · simp only [hstarted, hcreated, inv.timer]
    · -- the only watchdog of the task was the one that was just started
      by_contra hw
      have hbefore : armed s.wd.log w = some st := by
        rw [← hlog, ← (step_other hstart (Ne.symm hw) (by simp)).1, hst]
      have hnull := inv.only w st hbefore hcall
      have hlive := inv.wd.live_of_armed hbefore
      rw [hnull, hwas.2, inv.wd.handles.null] at hlive
      cases hlive
    · simp only [hidle] at hcalls
      obtain ⟨rfl, rfl⟩ := hcalls
      refine ⟨rfl, hvalid, hshort, inv.timer, ?_,
        fun _ => ⟨hdog, ?_, fun _ => ⟨wd.log.length, ?_⟩, nofun⟩, nofun⟩
      · simp only [hstarted, hcreated, le_refl]
      · simp only [hlive, hmade]
      · simp only [harmed, hcreated]

theorem step_sigtimedwaitEnd_inv (hstep : s.step .sigtimedwaitEnd = some t) : SleepInv start t := by
  simp only [SleepSys.step, SleepSys.sigtimedwaitEnd] at hstep
  split at hstep
  case isFalse => cases hstep
  next hrunning =>
  have hwaiting : s.waiting = false := by
    simp only [SleepSys.running, Bool.and_eq_true, Bool.not_eq_true'] at hrunning
    exact hrunning.2
  split at hstep
  · cases hstep
  next call calls hcalls =>
  split at hstep
  · cases hstep
  next hinside =>
  obtain ⟨hnone, -⟩ := not_or.mp hinside
  rw [not_not] at hnone
  split at hstep
  · cases hstep
  next wd hdelete =>
  cases hstep
  obtain ⟨rfl, hopen⟩ := inv.busy call calls hcalls
  obtain ⟨-, hlive, -, hover⟩ := hopen.waits hnone
  have hticks : wd.ticks = s.wd.ticks := step_ticks hdelete
  refine ⟨inv.wd.call hdelete hlive, ?_, fun w st hst hcall => ?_, nofun,
    fun c rest hc => ?_, inv.returned⟩
  · simp only [hticks, inv.timer]
  · have hw : w ≠ s.waitdog := by
      rintro rfl
      rw [delete_armed hdelete] at hst
      cases hst
    rw [(step_other hdelete (Ne.symm hw) (by simp)).1] at hst
    exact absurd (inv.only w st hst hcall) hw
  · obtain ⟨rfl, rfl⟩ := hc
    refine ⟨rfl, hopen.valid, hopen.short, hopen.starttick, ?_, nofun, fun errval hsome => ?_⟩
    · simp only [hticks]
      exact hopen.began
    · simp only [Option.some.injEq] at hsome
      subst hsome
      refine ⟨hwaiting, rfl, fun hagain => ?_⟩
      simp only [hticks]
      apply hover hwaiting
      unfold waitErrno at hagain
      split at hagain
      · cases hagain
      · omega

theorem step_nanosleepEnd_inv (hstep : s.step .nanosleepEnd = some t) : SleepInv start t := by
  simp only [SleepSys.step, SleepSys.nanosleepEnd] at hstep
  split at hstep
  case isFalse => cases hstep
  split at hstep
  · cases hstep
  next call calls hcalls =>
  split at hstep
  · cases hstep
  next errval herrval =>
  cases hstep
  obtain ⟨rfl, hopen⟩ := inv.busy call calls hcalls
  obtain ⟨hwaiting, hdog, hover⟩ := hopen.ended errval herrval
  refine ⟨inv.wd, inv.timer, inv.only, fun _ => ⟨hwaiting, hdog⟩, nofun, ?_⟩
  intro r hr
  rcases List.mem_cons.mp hr with rfl | hr
  · unfold SleepSys.slept
    split
    · next hagain => exact ⟨fun _ => hover hagain, nofun⟩
    · refine ⟨nofun, fun hwrap left hleft => ?_⟩
      simp only [Option.mem_def, Option.ite_none_right_eq_some, Option.some.injEq] at hleft
      obtain ⟨-, rfl⟩ := hleft
      rw [hopen.starttick, inv.timer]
      exact remainingTime_eq hopen.valid hopen.short hopen.began hwrap
  · exact inv.returned r hr

theorem sleep_step {a : SleepAct} (hok : s.Legal a ∧ Careful s a) (hstep : s.step a = some t) :
    SleepInv start t := by
  cases a with
  | nanosleep rqtp rmtp heap => exact step_nanosleep_inv inv hok.1 hok.2 hstep
  | sigtimedwaitEnd => exact step_sigtimedwaitEnd_inv inv hstep
  | nanosleepEnd => exact step_nanosleepEnd_inv inv hstep
  | signal signo => exact step_signal_inv inv hok.1 hstep
  | wdog a => exact step_wdog inv hok.1 hstep
  | tick => exact step_tick_inv inv hstep
  | expire => exact step_expire_inv inv hstep
  | leave => exact step_leave_inv inv hstep

end

/-- In every run, from any count of ticks: a call of `nanosleep` that returned 0 took the
requested time at least, and one that was interrupted reported the time that was left. -/
theorem sleeps_not_short (start : Nat) (hstart : start < 2 ^ 32) (acts : List SleepAct)
    (s : SleepSys) (hrun : run SleepSys.step (sleepBoot start) acts = some s)
    (hok : StepsMeet SleepSys.step (fun s a => s.Legal a ∧ Careful s a) (sleepBoot start) acts) :
    ∀ r ∈ s.returned, Right r :=
  (invariant_run (fun _ _ _ inv h hstep => sleep_step inv h hstep)
    (sleepBoot_inv hstart) hok hrun).returned

/-- Two sleeps of 15 ms while another watchdog runs: the first is interrupted after a tick,
the second, across the wrap of the tick counter, is not. -/
def twoSleeps : List SleepAct :=
  [.wdog (.wdStatic 100), .wdog (.wdStart 100 1 7 []),
    .nanosleep (some (timespec 0 15000000)) true 0, .tick, .leave, .signal 3, .sigtimedwaitEnd,
    .nanosleepEnd, .nanosleep (some (timespec 0 15000000)) true 0, .tick, .expire, .leave, .tick,
    .leave, .tick, .expire, .signal 4, .leave, .sigtimedwaitEnd, .nanosleepEnd]

theorem sleeps_not_short_two :
    ∃ s, run SleepSys.step (sleepBoot (2 ^ 32 - 2)) twoSleeps = some s ∧
      s.returned = [⟨timespec 0 15000000, 1, 4, none, none⟩,
        ⟨timespec 0 15000000, 0, 1, some .eintr, some (timespec 0 10000000)⟩] ∧
      ∀ r ∈ s.returned, Right r := by
  have hend : ((run SleepSys.step (sleepBoot (2 ^ 32 - 2)) twoSleeps).map fun s => s.returned) =
      some [⟨timespec 0 15000000, 1, 4, none, none⟩,
        ⟨timespec 0 15000000, 0, 1, some .eintr, some (timespec 0 10000000)⟩] := by
    decide +kernel
  obtain ⟨s, hrun, hs⟩ := Option.map_eq_some_iff.mp hend
  exact ⟨s, hrun, hs, sleeps_not_short _ (by decide) twoSleeps s hrun (by decide +kernel)⟩

/-- A request of 42949673 seconds, which is 4294967300 ticks, returns 0 after five ticks. -/
theorem long_sleep_short :
    ∃ s, run SleepSys.step (sleepBoot 0)
        [.nanosleep (some (timespec 42949673 0)) true 0, .tick, .leave, .tick, .leave, .tick,
          .leave, .tick, .leave, .tick, .expire, .leave, .sigtimedwaitEnd, .nanosleepEnd] =
        some s ∧
      s.returned = [⟨timespec 42949673 0, 0, 5, none, none⟩] ∧
      roundedUp (timespec 42949673 0) = 4294967300 :=
  exists_run (by decide +kernel)

end NbLot.Guarantees.Sleep
