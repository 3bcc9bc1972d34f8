import NbLot.Source.Clock.PosixTimer

/-!
# POSIX timers over whole runs

Each setting of a timer that is in effect has a timetable: its first expiry, and from then
on one expiry an interval, each one tick later than asked for, as a watchdog fires one tick
after its delay. `TimerInv` says that the notifications sent so far are those of the
timetable and that the watchdog of the timer is started for the next one.
-/
namespace NbLot.Source.Clock

open Source.Wdog List Function

/-- The ticks after which a watchdog started with this delay fires. -/
def late (ticks : Int) : Int := min (ticks + 1) (2 ^ 31 - 1)

namespace Setting

def interval (st : Setting) : Int := roundedUp st.value.itInterval

/-- The ticks from the call to the requested time, at most 0 if that is over. -/
def untilFirst (st : Setting) : Int :=
  if st.abstime = true then
    (nanos st.value.itValue - nanos st.now + nsecPerTick - 1) / nsecPerTick
  else roundedUp st.value.itValue

/-- The delay of the first expiry: "if the time is in the past or now, then set up the next
interval instead". -/
def first (st : Setting) : Int := if st.untilFirst ≤ 0 then st.interval else st.untilFirst

/-- The tick of the expiry number `k`. -/
def dueAt (st : Setting) (k : Nat) : Int := st.tick + late st.first + k * late st.interval

/-- Times in range, less than 2³¹ ticks away. -/
structure Fits (st : Setting) : Prop where
  value : Valid st.value.itValue
  interval : Valid st.value.itInterval
  untilFirst_lt : st.untilFirst < 2 ^ 31
  interval_lt : st.interval < 2 ^ 31

/-- No expiry is to come after these. -/
def Over (st : Setting) (sent : List Nat) : Prop :=
  st.first = 0 ∨ sent ≠ [] ∧ st.interval = 0

/-- The ticks of the notifications, the latest first, are those of the timetable. -/
def Sent (st : Setting) : List Nat → Prop
  | [] => True
  | tick :: earlier => (tick : Int) = st.dueAt earlier.length ∧ ¬st.Over earlier ∧ st.Sent earlier

end Setting

/-- The setting of the timer in effect and the notifications since, the latest first. -/
def inEffect : List TimerEvent → Nat → Option (Setting × List Nat)
  | [], _ => none
  | e :: earlier, timer =>
    if e.timer = timer then
      match e.what with
      | .set st => some (st, [])
      | .stopped => none
      | .notified => (inEffect earlier timer).map fun (st, sent) => (st, e.tick :: sent)
    else inEffect earlier timer

/-- Every notification is one of a setting in effect. -/
def Accounted : List TimerEvent → Prop
  | [] => True
  | e :: earlier =>
    (e.what = .notified → (inEffect earlier e.timer).isSome = true) ∧ Accounted earlier

/-- The watchdog of the timer is started for the next expiry. -/
structure Scheduled (s : TimerSys) (timer : Nat) (st : Setting) (sent : List Nat) : Prop where
  fits : st.Fits
  delay : (s.timer timer).delay = st.interval
  onTime : st.Sent sent
  finished : st.Over sent → armed s.wd.log (s.timer timer).wdog = none
  next : ¬st.Over sent → ∃ start, armed s.wd.log (s.timer timer).wdog = some start ∧
    start.due = st.dueAt sent.length ∧ start.call = (timerTimeoutFn, [timer])

structure TimerInv (s : TimerSys) : Prop where
  wd : WdInv s.wd
  base : Valid s.clock.basetime
  nodup : s.alloctimers.Nodup
  alloc : ∀ timer ∈ s.alloctimers, (s.timer timer).crefs = 1 ∧ 0 ≤ (s.timer timer).delay ∧
    (s.timer timer).delay < 2 ^ 31 ∧ s.wd.live (s.timer timer).wdog = true
  distinct : ∀ a ∈ s.alloctimers, ∀ b ∈ s.alloctimers,
    (s.timer a).wdog = (s.timer b).wdog → a = b
  owned : ∀ w start, armed s.wd.log w = some start → start.call.1 = timerTimeoutFn →
    ∃ timer ∈ s.alloctimers, w = (s.timer timer).wdog ∧ start.call = (timerTimeoutFn, [timer]) ∧
      (inEffect s.log timer).isSome = true
  effect : ∀ timer st sent, inEffect s.log timer = some (st, sent) → timer ∈ s.alloctimers ∧
    ((s.timer timer).notify = .signal → Scheduled s timer st sent)
  accounted : Accounted s.log

variable {clock : ClockState}

theorem timerBoot_inv (h : Valid clock.basetime) :
    TimerInv (timerBoot clock) where
  wd := wdBoot_inv
  base := h
  nodup := nodup_nil
  alloc := nofun
  distinct := nofun
  owned := nofun
  effect := nofun
  accounted := trivial

variable {s t : TimerSys} {timer : Nat} {value : PosixTimer} {abstime : Bool} {wd : WdSys}
  {start : Start} {a : WdAct} {now ts : Timespec} {st : Setting} {delay : Int}

theorem inEffect_other (e : TimerEvent) (log : List TimerEvent) (h : e.timer ≠ timer) :
    inEffect (e :: log) timer = inEffect log timer := by
  rw [inEffect, if_neg h]

theorem late_eq (h0 : 0 ≤ delay) (hlt : delay < 2 ^ 31) : delayTicks delay = late delay := by
  rw [delayTicks_eq h0 (by unfold int32Max; omega)]
  rfl

/-- The watchdogs and the clock change, but not those of the timers. -/
theorem TimerInv.frame (inv : TimerInv s) (hwd : WdInv wd) (hbase : Valid clock.basetime)
    (hlive : ∀ timer ∈ s.alloctimers, s.wd.live (s.timer timer).wdog = true → wd.live (s.timer timer).wdog = true)
    (hkeep : ∀ timer ∈ s.alloctimers, ∀ start, start.call = (timerTimeoutFn, [timer]) → armed s.wd.log (s.timer timer).wdog = some start → armed wd.log (s.timer timer).wdog = some start)
    (hback : ∀ timer ∈ s.alloctimers, ∀ start, armed wd.log (s.timer timer).wdog = some start → armed s.wd.log (s.timer timer).wdog = some start)
    (howned : ∀ w start, armed wd.log w = some start → start.call.1 = timerTimeoutFn → armed s.wd.log w = some start) :
    TimerInv { s with wd := wd, clock := clock } where
  wd := hwd
  base := hbase
  nodup := inv.nodup
  alloc := fun timer hmem => by
    obtain ⟨hcrefs, h0, hlt, hwas⟩ := inv.alloc timer hmem
    exact ⟨hcrefs, h0, hlt, hlive timer hmem hwas⟩
  distinct := inv.distinct
  owned := fun w start hstart hcall => inv.owned w start (howned w start hstart hcall) hcall
  effect := fun timer st sent heffect => by
    obtain ⟨hmem, hsched⟩ := inv.effect timer st sent heffect
    refine ⟨hmem, fun hsignal => ?_⟩
    obtain ⟨hfits, hdelay, hsent, hover, hnext⟩ := hsched hsignal
    refine ⟨hfits, hdelay, hsent, fun h => ?_, fun h => ?_⟩
    · rw [Option.eq_none_iff_forall_ne_some]
      intro start hstart
      have := hback timer hmem start hstart
      rw [hover h] at this
      cases this
    · obtain ⟨start, hstart, hdue, hcall⟩ := hnext h
      exact ⟨start, hkeep timer hmem start hcall hstart, hdue, hcall⟩
  accounted := inv.accounted

/-- One timer changes, with its watchdog and an event of its own. -/
theorem TimerInv.update (inv : TimerInv s) (hmem : timer ∈ s.alloctimers) (hwd : WdInv t.wd)
    (honly : OnlyAt (s.timer timer).wdog s.wd t.wd) (hlive : t.wd.live (s.timer timer).wdog = true)
    (hclock : t.clock = s.clock) (htimer : t.timer = Function.update s.timer timer value)
    (hvalue : value.crefs = 1 ∧ 0 ≤ value.delay ∧ value.delay < 2 ^ 31 ∧ value.wdog = (s.timer timer).wdog)
    (halloc : t.alloctimers = s.alloctimers)
    (hlog : ∀ x, x ≠ timer → inEffect t.log x = inEffect s.log x)
    (hself : ∀ st sent, inEffect t.log timer = some (st, sent) → value.notify = .signal → Scheduled t timer st sent)
    (hstarted : ∀ start, armed t.wd.log (s.timer timer).wdog = some start → start.call = (timerTimeoutFn, [timer]) ∧ (inEffect t.log timer).isSome = true)
    (haccounted : Accounted t.log) : TimerInv t := by
  have hother : ∀ x, x ≠ timer → t.timer x = s.timer x := by
    intro x hx
    rw [htimer, update_of_ne hx]
  have hhere : t.timer timer = value := by rw [htimer, update_self]
  have hdogs : ∀ x, (t.timer x).wdog = (s.timer x).wdog := by
    intro x
    by_cases hx : x = timer
    · rw [hx, hhere, hvalue.2.2.2]
    · rw [hother x hx]
  -- the watchdogs of the other timers are not the one that changed
  have hapart : ∀ x ∈ s.alloctimers, x ≠ timer → (s.timer x).wdog ≠ (s.timer timer).wdog :=
    fun x hx hne heq => hne (inv.distinct x hx timer hmem heq)
  refine ⟨hwd, hclock ▸ inv.base, halloc ▸ inv.nodup, ?_, ?_, ?_, ?_, haccounted⟩
  · intro x hx
    rw [halloc] at hx
    rw [hdogs]
    by_cases hxt : x = timer
    · rw [hxt, hhere]
      exact ⟨hvalue.1, hvalue.2.1, hvalue.2.2.1, hlive⟩
    · rw [hother x hxt]
      obtain ⟨hcrefs, h0, hlt, hwas⟩ := inv.alloc x hx
      exact ⟨hcrefs, h0, hlt, honly.live _ (hapart x hx hxt) hwas⟩
  · rw [halloc]
    simp only [hdogs]
    exact inv.distinct
  · intro w start hstart hcall
    rw [halloc]
    by_cases hw : w = (s.timer timer).wdog
    · rw [hw] at hstart
      exact ⟨timer, hmem, by rw [hdogs, hw], hstarted start hstart⟩
    · rw [honly.armed w hw] at hstart
      obtain ⟨x, hx, hdog, hrest, heffect⟩ := inv.owned w start hstart hcall
      refine ⟨x, hx, by rw [hdogs, hdog], hrest, ?_⟩
      have hxt : x ≠ timer := fun heq => hw (by rw [hdog, heq])
      rw [hlog x hxt, heffect]
  · intro x st sent heffect
    rw [halloc]
    by_cases hxt : x = timer
    · subst hxt
      rw [hhere]
      exact ⟨hmem, hself st sent heffect⟩
    · rw [hlog x hxt] at heffect
      obtain ⟨hx, hsched⟩ := inv.effect x st sent heffect
      refine ⟨hx, fun hsignal => ?_⟩
      rw [hother x hxt] at hsignal
      obtain ⟨hfits, hdelay, hsent, hover, hnext⟩ := hsched hsignal
      have harmed := honly.armed _ (hapart x hx hxt)
      refine ⟨hfits, ?_, hsent, ?_, ?_⟩
      · rw [hother x hxt, hdelay]
      · rw [hdogs, harmed]
        exact hover
      · rw [hdogs, harmed]
        exact hnext

/-- Of all but the watchdogs only `pt_last` of the timer has changed, and of those only the
one of the timer. -/
structure Restarted (s : TimerSys) (timer : Nat) (t : TimerSys) : Prop where
  clock : t.clock = s.clock
  alloc : t.alloctimers = s.alloctimers
  log : t.log = s.log
  last : ∃ last, t.timer = Function.update s.timer timer { s.timer timer with last := last }
  wd : WdInv t.wd
  only : OnlyAt (s.timer timer).wdog s.wd t.wd
  live : t.wd.live = s.wd.live

theorem startTimer_spec (hwd : WdInv s.wd) (hlive : s.wd.live (s.timer timer).wdog = true)
    (h0 : 0 ≤ delay) (hlt : delay < 2 ^ 31) :
    ∃ t i, s.startTimer timer delay = some t ∧ Restarted s timer t ∧
      armed t.wd.log (s.timer timer).wdog =
        some ⟨i, s.wd.ticks, delay, (timerTimeoutFn, [timer])⟩ := by
  have hne : (s.timer timer).wdog ≠ 0 := by
    intro h
    rw [h, hwd.handles.null] at hlive
    cases hlive
  obtain ⟨wd, hstep, hinv⟩ := wd_step hwd
    (.wdStart (s.timer timer).wdog delay timerTimeoutFn [timer])
    ⟨fun _ => hlive, by unfold int32Max; omega⟩
  obtain ⟨harmed, hsame⟩ := start_armed hstep hne (by simp [maxWdogParms]) h0
  refine ⟨{ s.setTimer timer { s.timer timer with last := delay } with wd := wd }, _, ?_,
    ⟨rfl, rfl, rfl, ⟨delay, rfl⟩, hinv, step_onlyAt hstep (fun _ => id) nofun nofun, hsame⟩, harmed⟩
  simp only [TimerSys.startTimer, TimerSys.wdCall, TimerSys.setTimer, hstep]

theorem setTimer_here : (s.setTimer timer value).timer timer = value :=
  update_self ..

theorem firstDelay_setTimer :
    (s.setTimer timer value).firstDelay abstime ts = s.firstDelay abstime ts := by
  have hclock : (s.setTimer timer value).clock = s.clock := rfl
  rw [TimerSys.firstDelay, TimerSys.firstDelay, hclock]

theorem setTimer_self : s.setTimer timer (s.timer timer) = s := by
  rw [TimerSys.setTimer, update_eq_self]

theorem timerSignotify_setTimer (h : value.notify = (s.timer timer).notify) :
    (s.setTimer timer value).timerSignotify timer = (s.timerSignotify timer).setTimer timer value := by
  simp only [TimerSys.timerSignotify, TimerSys.setTimer, update_self, h]
  split <;> rfl

theorem timerSignotify_timer : (s.timerSignotify timer).timer = s.timer := by
  unfold TimerSys.timerSignotify
  split <;> rfl

theorem timerRelease_shared (h : 1 < value.crefs) :
    (s.setTimer timer value).timerRelease timer =
      some (s.setTimer timer { value with crefs := value.crefs - 1 }, 1) := by
  simp only [TimerSys.timerRelease, TimerSys.setTimer, update_self, update_idem, if_pos h]

/-- With one reference `timer_timeout` notifies and restarts. -/
theorem timerTimeout_eq (h : (s.timer timer).crefs = 1) :
    s.timerTimeout timer = (s.timerSignotify timer).timerRestart timer := by
  obtain ⟨value, hvalue⟩ : ∃ value : PosixTimer,
      { s.timer timer with crefs := (s.timer timer).crefs + 1 } = value := ⟨_, rfl⟩
  have hshared : 1 < value.crefs := by
    rw [← hvalue]
    simp only [h]
    decide
  have hback : { value with crefs := value.crefs - 1 } = s.timer timer := by
    rw [← hvalue]
    rfl
  have hsame : value.notify = (s.timer timer).notify := by rw [← hvalue]
  rw [TimerSys.timerTimeout, hvalue]
  simp only [timerSignotify_setTimer hsame, timerRelease_shared hshared, hback]
  rw [← timerSignotify_timer, setTimer_self, if_pos one_ne_zero]

/-- A restart for the next interval, or none. -/
theorem timerRestart_spec (hwd : WdInv s.wd) (hlive : s.wd.live (s.timer timer).wdog = true)
    (h0 : 0 ≤ (s.timer timer).delay) (hlt : (s.timer timer).delay < 2 ^ 31)
    (hidle : armed s.wd.log (s.timer timer).wdog = none) :
    ∃ t i, s.timerRestart timer = some t ∧ Restarted s timer t ∧
      armed t.wd.log (s.timer timer).wdog = if (s.timer timer).delay = 0 then none else
        some ⟨i, s.wd.ticks, (s.timer timer).delay, (timerTimeoutFn, [timer])⟩ := by
  by_cases hzero : (s.timer timer).delay = 0
  · refine ⟨s, 0, ?_, ⟨rfl, rfl, rfl, ⟨(s.timer timer).last, (update_eq_self ..).symm⟩, hwd,
      ⟨rfl, fun _ _ h => h, fun _ _ => rfl⟩, rfl⟩, ?_⟩
    · rw [TimerSys.timerRestart, if_neg (not_not_intro hzero)]
    · rw [if_pos hzero, hidle]
  · obtain ⟨t, i, hstart, hrestarted, harmed⟩ := startTimer_spec hwd hlive h0 hlt
    refine ⟨t, i, ?_, hrestarted, ?_⟩
    · rw [TimerSys.timerRestart, if_pos hzero, hstart]
    · rw [if_neg hzero, harmed]

/-- The times set are less than 2³¹ ticks away. -/
def TimerSys.Careful (s : TimerSys) : TimerAct → Prop
  | .settime _ abstime value => ∀ now ∈ (clockGettime s.clock clockRealtime).toOption,
    (⟨s.wd.ticks, abstime, value, now⟩ : Setting).untilFirst < 2 ^ 31 ∧
      (⟨s.wd.ticks, abstime, value, now⟩ : Setting).interval < 2 ^ 31
  | _ => True

instance (s : TimerSys) : ∀ a, Decidable (s.Careful a)
  | .settime _ _ _ => inferInstanceAs (Decidable (∀ now ∈ _, _ ∧ _))
  | .create _ _ _ => .isTrue trivial
  | .delete _ => .isTrue trivial
  | .clockSettime _ => .isTrue trivial
  | .wdog _ => .isTrue trivial
  | .tick => .isTrue trivial
  | .expire => .isTrue trivial
  | .leave => .isTrue trivial

theorem foreign_back {w : Nat} (hstep : s.wd.step a = some wd) (hforeign : s.Foreign a)
    (hstart : armed wd.log w = some start) (hcall : start.call.1 = timerTimeoutFn) :
    armed s.wd.log w = some start := by
  apply armed_before hstep _ _ hstart
  · rintro rfl
    exact hforeign.2
  · rintro delay rfl
    exact hforeign.2 hcall

section

variable (inv : TimerInv s)
include inv

/-- A step that does not touch the watchdogs of the timers. -/
theorem TimerInv.untouched (hstep : s.wd.step a = some wd) (hlegal : s.wd.Legal a)
    (hexpire : a ≠ .expire) (hbase : Valid clock.basetime)
    (hnames : ∀ timer ∈ s.alloctimers, ¬a.Names (s.timer timer).wdog)
    (howned : ∀ w start, armed wd.log w = some start → start.call.1 = timerTimeoutFn → armed s.wd.log w = some start) :
    TimerInv { s with wd := wd, clock := clock } := by
  have hother := fun timer hmem => step_other hstep (hnames timer hmem) hexpire
  refine inv.frame (inv.wd.call hstep hlegal) hbase (fun timer hmem => (hother timer hmem).2)
    (fun timer hmem start _ => ?_) (fun timer hmem start => ?_) howned
  · rw [(hother timer hmem).1]
    exact id
  · rw [(hother timer hmem).1]
    exact id

theorem timer_step_wdog (hlegal : s.Legal (.wdog a)) :
    ∃ t, s.step (.wdog a) = some t ∧ TimerInv t := by
  obtain ⟨hok, hforeign⟩ := hlegal
  obtain ⟨wd, hstep, -⟩ := wd_step inv.wd a hok
  refine ⟨{ s with wd := wd }, by simp only [TimerSys.step, TimerSys.wdCall, hstep], ?_⟩
  refine inv.untouched hstep hok ?_ inv.base hforeign.1 fun w start => foreign_back hstep hforeign
  rintro rfl
  exact hforeign.2

theorem timer_step_tick (hlegal : s.Legal .tick) : ∃ t, s.step .tick = some t ∧ TimerInv t := by
  obtain ⟨wd, hstep, -⟩ := wd_step inv.wd .tick hlegal
  refine ⟨{ s with wd := wd, clock := clockTimer s.clock },
    by simp only [TimerSys.step, TimerSys.wdCall, hstep], ?_⟩
  refine inv.untouched hstep hlegal (by simp) inv.base (fun _ _ => not_false)
    (fun w start hstart _ => ?_)
  rw [← hstart, (step_other hstep not_false (by simp)).1]

theorem timer_step_leave (hlegal : s.Legal .leave) : ∃ t, s.step .leave = some t ∧ TimerInv t := by
  obtain ⟨wd, hstep, -⟩ := wd_step inv.wd .leave hlegal
  refine ⟨{ s with wd := wd }, by simp only [TimerSys.step, TimerSys.wdCall, hstep], ?_⟩
  refine inv.untouched hstep hlegal (by simp) inv.base (fun _ _ => not_false)
    (fun w start hstart _ => ?_)
  rw [← hstart, (step_other hstep not_false (by simp)).1]

theorem timer_step_clockSettime {tp : Timespec} (hlegal : s.Legal (.clockSettime tp)) :
    ∃ t, s.step (.clockSettime tp) = some t ∧ TimerInv t := by
  obtain ⟨clock, hset, -, hbase, -⟩ := clockSettime_spec s.clock hlegal
  refine ⟨{ s with clock := clock }, by simp only [TimerSys.step, hset], ?_⟩
  exact inv.frame inv.wd hbase (fun _ _ h => h) (fun _ _ _ _ h => h) (fun _ _ _ h => h)
    (fun _ _ h _ => h)

end

/-- The notification of an expiry is the next one of the timetable, and the watchdog is
started for the one after it. -/
theorem Scheduled.expired {sent : List Nat} {i : Nat} (h : Scheduled s timer st sent)
    (hstart : armed s.wd.log (s.timer timer).wdog = some start)
    (hdue : (s.wd.ticks : Int) = start.due) (hdelay : (t.timer timer).delay = (s.timer timer).delay)
    (hdog : (t.timer timer).wdog = (s.timer timer).wdog)
    (harmed : armed t.wd.log (s.timer timer).wdog = if (s.timer timer).delay = 0 then none else some ⟨i, s.wd.ticks, (s.timer timer).delay, (timerTimeoutFn, [timer])⟩) :
    Scheduled t timer st (s.wd.ticks :: sent) := by
  have hnot : ¬st.Over sent := by
    intro hover
    have := h.finished hover
    rw [hstart] at this
    cases this
  obtain ⟨start', hstart', hnext, -⟩ := h.next hnot
  rw [hstart, Option.some.injEq] at hstart'
  rw [← hstart'] at hnext
  refine ⟨h.fits, hdelay.trans h.delay, ⟨hdue.trans hnext, hnot, h.onTime⟩, fun hover => ?_,
    fun hover => ?_⟩
  · have hzero : st.interval = 0 := by
      rcases hover with hfirst | ⟨-, hzero⟩
      · exact absurd (.inl hfirst) hnot
      · exact hzero
    rw [hdog, harmed, if_pos (h.delay.trans hzero)]
  · have hmore : st.interval ≠ 0 := fun hzero => hover (.inr ⟨by simp, hzero⟩)
    refine ⟨_, by rw [hdog, harmed, if_neg (h.delay ▸ hmore)], ?_, rfl⟩
    have hlate : delayTicks st.interval = late st.interval :=
      late_eq (roundedUp_nonneg h.fits.interval) h.fits.interval_lt
    simp only [Start.due, h.delay, hlate, hdue.trans hnext, Setting.dueAt, length_cons]
    push_cast
    rw [Int.add_mul, Int.one_mul, Int.add_assoc]

theorem timerSignotify_effect (s : TimerSys) (timer : Nat) :
    ∃ log, s.timerSignotify timer = { s with log := log } ∧
      (∀ x, x ≠ timer → inEffect log x = inEffect s.log x) ∧
      (∀ st sent, inEffect log timer = some (st, sent) → (s.timer timer).notify = .signal →
        ∃ earlier, sent = s.wd.ticks :: earlier ∧ inEffect s.log timer = some (st, earlier)) ∧
      ((inEffect s.log timer).isSome = true → (inEffect log timer).isSome = true ∧
        (Accounted s.log → Accounted log)) := by
  unfold TimerSys.timerSignotify
  split
  · have hself : inEffect (s.event timer .notified :: s.log) timer =
        (inEffect s.log timer).map fun (st, sent) => (st, s.wd.ticks :: sent) := by
      simp only [inEffect, TimerSys.event, if_true]
    refine ⟨_, rfl, fun x hx => inEffect_other _ _ (Ne.symm hx), fun st sent heffect _ => ?_,
      fun hsome => ⟨?_, fun h => ⟨fun _ => hsome, h⟩⟩⟩
    · rw [hself] at heffect
      obtain ⟨⟨st', earlier⟩, hearlier, heq⟩ := Option.map_eq_some_iff.mp heffect
      obtain ⟨rfl, rfl⟩ := Prod.mk.inj heq
      exact ⟨earlier, rfl, hearlier⟩
    · rw [hself, Option.isSome_map, hsome]
  · next hsilent =>
    exact ⟨s.log, rfl, fun _ _ => rfl, fun _ _ _ h => absurd h hsilent, fun h => ⟨h, id⟩⟩

section

variable (inv : TimerInv s)
include inv

theorem TimerInv.timeout (hmem : timer ∈ s.alloctimers) (hwd : WdInv wd)
    (honly : OnlyAt (s.timer timer).wdog s.wd wd) (hlive : wd.live = s.wd.live)
    (hgone : armed wd.log (s.timer timer).wdog = none)
    (hstart : armed s.wd.log (s.timer timer).wdog = some start)
    (hdue : (s.wd.ticks : Int) = start.due) (hsome : (inEffect s.log timer).isSome = true) :
    ∃ t, { s with wd := wd }.timerTimeout timer = some t ∧ TimerInv t := by
  obtain ⟨hcrefs, h0, hlt, hwas⟩ := inv.alloc timer hmem
  obtain ⟨log, hnotify, hother, hself, haccounted⟩ := timerSignotify_effect { s with wd := wd } timer
  obtain ⟨t, i, hrestart, hre, harmed⟩ :=
    timerRestart_spec (s := { s with wd := wd, log := log }) hwd (hlive ▸ hwas) h0 hlt hgone
  refine ⟨t, ?_, ?_⟩
  · rw [timerTimeout_eq (s := { s with wd := wd }) hcrefs, hnotify, hrestart]
  · obtain ⟨last, htimer⟩ := hre.last
    obtain ⟨hstill, hall⟩ := haccounted hsome
    have hhere : t.timer timer = { s.timer timer with last := last } := by
      rw [htimer, update_self]
    refine inv.update hmem hre.wd (honly.trans hre.only) ?_ hre.clock htimer ⟨hcrefs, h0, hlt, rfl⟩
      hre.alloc ?_ ?_ ?_ ?_
    · rw [hre.live]
      exact hlive ▸ hwas
    · rw [hre.log]
      exact hother
    · rw [hre.log]
      intro st sent heffect hsignal
      obtain ⟨earlier, rfl, hearlier⟩ := hself st sent heffect hsignal
      obtain ⟨-, hsched⟩ := inv.effect timer st earlier hearlier
      simp only [honly.ticks] at harmed ⊢
      exact (hsched hsignal).expired hstart hdue (by rw [hhere]) (by rw [hhere]) harmed
    · rw [hre.log]
      intro start' hstart'
      refine ⟨?_, hstill⟩
      rw [harmed] at hstart'
      split at hstart'
      · cases hstart'
      · rw [Option.some.injEq] at hstart'
        rw [← hstart']
    · rw [hre.log]
      exact hall inv.accounted

theorem timer_step_expire (hlegal : s.Legal .expire) :
    ∃ t, s.step .expire = some t ∧ TimerInv t := by
  obtain ⟨wd, hstep, hwd⟩ := wd_step inv.wd .expire hlegal
  obtain ⟨start, hstart, hdue, hcall, hlive, hlog⟩ := expire_ran inv.wd hstep
  have honly := expire_onlyAt inv.wd hstep
  have hgone : armed wd.log (expireHead s.wd.wd).2 = none := by
    rw [hlog]
    simp [armed]
  simp only [TimerSys.step, TimerSys.wdCall, hstep, hcall]
  by_cases hours : start.call.1 = timerTimeoutFn
  · obtain ⟨timer, hmem, hdog, hexact, hsome⟩ := inv.owned _ start hstart hours
    rw [hdog] at hstart honly hgone
    simp only [hexact]
    exact inv.timeout hmem hwd honly hlive hgone hstart hdue hsome
  · -- the function of another watchdog
    have hback : ∀ w st, armed wd.log w = some st → armed s.wd.log w = some st := by
      intro w st hst
      by_cases hw : w = (expireHead s.wd.wd).2
      · rw [hw, hgone] at hst
        cases hst
      · rw [← honly.armed w hw, hst]
    refine ⟨{ s with wd := wd }, ?_, inv.frame hwd inv.base (fun _ _ h => hlive ▸ h) ?_ ?_ ?_⟩
    · split
      · next func timer heq =>
        rw [heq] at hours
        exact if_neg hours
      · rfl
    · intro timer hmem st hst hbefore
      rw [honly.armed, hbefore]
      intro hw
      rw [hw, hstart, Option.some.injEq] at hbefore
      rw [hbefore, hst] at hours
      exact hours rfl
    · exact fun _ _ st => hback _ st
    · exact fun w st hst _ => hback w st hst

theorem timer_step_delete (hlegal : s.Legal (.delete timer)) :
    ∃ t, s.step (.delete timer) = some t ∧ TimerInv t := by
  by_cases hnull : timer = 0
  · exact ⟨s, by simp only [TimerSys.step, TimerSys.timerDelete, if_pos hnull], inv⟩
  · have hmem := hlegal hnull
    obtain ⟨hcrefs, -, -, hlive⟩ := inv.alloc timer hmem
    obtain ⟨wd, hstep, hwd⟩ := wd_step inv.wd (.wdDelete (s.timer timer).wdog) hlive
    have honly := step_onlyAt hstep (fun _ => id) nofun nofun
    have hgone := delete_armed hstep
    have hlast : ¬1 < (s.timer timer).crefs := by omega
    refine ⟨{ s with
      wd := wd, alloctimers := s.alloctimers.erase timer,
      log := ⟨wd.ticks, timer, .stopped⟩ :: s.log }, ?_, ?_⟩
    · simp only [TimerSys.step, TimerSys.timerDelete, if_neg hnull, TimerSys.timerRelease,
        if_neg hlast, TimerSys.wdCall, hstep, TimerSys.event]
    have hself : inEffect (⟨wd.ticks, timer, .stopped⟩ :: s.log) timer = none := by
      simp only [inEffect, if_true]
    have hother : ∀ x, x ≠ timer →
        inEffect (⟨wd.ticks, timer, .stopped⟩ :: s.log) x = inEffect s.log x :=
      fun x hx => inEffect_other _ _ (Ne.symm hx)
    have hleft : ∀ x, x ∈ s.alloctimers.erase timer ↔ x ≠ timer ∧ x ∈ s.alloctimers :=
      fun x => inv.nodup.mem_erase_iff
    have hapart : ∀ x ∈ s.alloctimers, x ≠ timer → (s.timer x).wdog ≠ (s.timer timer).wdog :=
      fun x hx hne heq => hne (inv.distinct x hx timer hmem heq)
    refine ⟨hwd, inv.base, inv.nodup.erase timer, ?_, ?_, ?_, ?_, ⟨nofun, inv.accounted⟩⟩
    · intro x hx
      obtain ⟨hne, hx⟩ := (hleft x).mp hx
      obtain ⟨hrefs, h0, hlt, hwas⟩ := inv.alloc x hx
      exact ⟨hrefs, h0, hlt, honly.live _ (hapart x hx hne) hwas⟩
    · intro a ha b hb
      exact inv.distinct a ((hleft a).mp ha).2 b ((hleft b).mp hb).2
    · intro w start hstart hcall
      have hw : w ≠ (s.timer timer).wdog := by
        rintro rfl
        rw [hgone] at hstart
        cases hstart
      rw [honly.armed w hw] at hstart
      obtain ⟨x, hx, hdog, hexact, hsome⟩ := inv.owned w start hstart hcall
      have hne : x ≠ timer := fun heq => hw (heq ▸ hdog)
      exact ⟨x, (hleft x).mpr ⟨hne, hx⟩, hdog, hexact, by rw [hother x hne, hsome]⟩
    · intro x st sent heffect
      have hne : x ≠ timer := by
        rintro rfl
        rw [hself] at heffect
        cases heffect
      rw [hother x hne] at heffect
      obtain ⟨hx, hsched⟩ := inv.effect x st sent heffect
      refine ⟨(hleft x).mpr ⟨hne, hx⟩, fun hsignal => ?_⟩
      obtain ⟨hfits, hdelay, hsent, hover, hnext⟩ := hsched hsignal
      have harmed := honly.armed _ (hapart x hx hne)
      exact ⟨hfits, hdelay, hsent, harmed ▸ hover, harmed ▸ hnext⟩

theorem TimerInv.added (hfresh : timer ∉ s.alloctimers) (hvalue : value.crefs = 1 ∧ value.delay = 0)
    (hlive : s.wd.live value.wdog = true)
    (hapart : ∀ x ∈ s.alloctimers, (s.timer x).wdog ≠ value.wdog) (hwd : t.wd = s.wd)
    (hclock : t.clock = s.clock) (htimer : t.timer = Function.update s.timer timer value)
    (halloc : t.alloctimers = s.alloctimers ++ [timer]) (hlog : t.log = s.log) : TimerInv t := by
  have hself : t.timer timer = value := by rw [htimer, update_self]
  have hother : ∀ x ∈ s.alloctimers, t.timer x = s.timer x := by
    intro x hx
    rw [htimer, update_of_ne]
    rintro rfl
    exact hfresh hx
  have hcases : ∀ x, x ∈ t.alloctimers ↔ x ∈ s.alloctimers ∨ x = timer := by simp [halloc]
  refine ⟨hwd ▸ inv.wd, hclock ▸ inv.base, ?_, ?_, ?_, ?_, ?_, hlog ▸ inv.accounted⟩
  · rw [halloc, nodup_append]
    refine ⟨inv.nodup, by simp, fun a ha b hb heq => hfresh ?_⟩
    rw [← mem_singleton.mp hb, ← heq]
    exact ha
  · intro x hx
    rw [hwd]
    rcases (hcases x).mp hx with hx | rfl
    · rw [hother x hx]
      exact inv.alloc x hx
    · rw [hself, hvalue.2]
      exact ⟨hvalue.1, le_rfl, by decide, hlive⟩
  · intro a ha b hb
    rcases (hcases a).mp ha with ha | rfl <;> rcases (hcases b).mp hb with hb | rfl
    · rw [hother a ha, hother b hb]
      exact inv.distinct a ha b hb
    · rw [hother a ha, hself]
      exact fun heq => absurd heq (hapart a ha)
    · rw [hother b hb, hself]
      exact fun heq => absurd heq.symm (hapart b hb)
    · exact fun _ => rfl
  · intro w start hstart hcall
    rw [hwd] at hstart
    obtain ⟨x, hx, hdog, hexact, hsome⟩ := inv.owned w start hstart hcall
    exact ⟨x, (hcases x).mpr (.inl hx), by rw [hother x hx, hdog], hexact, by rw [hlog, hsome]⟩
  · intro x st sent heffect
    rw [hlog] at heffect
    obtain ⟨hx, hsched⟩ := inv.effect x st sent heffect
    refine ⟨(hcases x).mpr (.inl hx), fun hsignal => ?_⟩
    rw [hother x hx] at hsignal
    obtain ⟨hfits, hdelay, hsent, hover, hnext⟩ := hsched hsignal
    refine ⟨hfits, ?_, hsent, ?_, ?_⟩
    · rw [hother x hx, hdelay]
    · rw [hother x hx, hwd]
      exact hover
    · rw [hother x hx, hwd]
      exact hnext

theorem timer_step_create {notify : SigevNotify} {heap mem : Nat}
    (hlegal : s.Legal (.create notify heap mem)) :
    ∃ t, s.step (.create notify heap mem) = some t ∧ TimerInv t := by
  obtain ⟨hok, hfresh⟩ := hlegal
  obtain ⟨wd, hstep, hwd⟩ := wd_step inv.wd (.wdCreate false heap) hok
  have hcreated : TimerInv { s with wd := wd } := by
    refine inv.untouched hstep hok (by simp) inv.base (fun _ _ => not_false)
      fun w start hstart _ => ?_
    rw [← hstart, (step_other hstep not_false (by simp)).1]
  simp only [TimerSys.step, TimerSys.timerCreate, TimerSys.wdCall, hstep]
  by_cases hnone : (wdCreate s.wd.wd false heap).2 = 0 ∨ mem = 0
  · exact ⟨_, if_pos hnone, hcreated⟩
  · rw [if_neg hnone]
    obtain ⟨hdog, -⟩ := not_or.mp hnone
    obtain ⟨hnew, hlive, -⟩ := create_live inv.wd hok hstep hdog
    refine ⟨_, rfl, hcreated.added hfresh ⟨rfl, rfl⟩ hlive ?_ rfl rfl rfl rfl rfl⟩
    -- the watchdogs of the timers were live before the new one was
    intro x hx heq
    have hwas := (inv.alloc x hx).2.2.2
    rw [heq, hnew] at hwas
    cases hwas

end

theorem Setting.Fits.first (h : st.Fits) : 0 ≤ st.first ∧ st.first < 2 ^ 31 := by
  have hinterval : 0 ≤ st.interval := roundedUp_nonneg h.interval
  have := h.untilFirst_lt
  have := h.interval_lt
  unfold Setting.first
  split <;> omega

/-- The interval in ticks; a zero interval is not converted. -/
theorem interval_ticks (h : Valid ts) (hlt : roundedUp ts < 2 ^ 31) :
    (if 0 < ts.tvSec ∨ 0 < ts.tvNsec then clockTime2ticks ts else 0) = roundedUp ts := by
  split
  · exact clockTime2ticks_eq h hlt
  · next hzero =>
    simp only [Valid] at h
    simp only [roundedUp, nanos, nsecPerSec, nsecPerTick_eq]
    omega

/-- The ticks to the first expiry, with a time that is over replaced by the interval. -/
theorem firstDelay_spec {value : Itimerspec} (hnow : Valid now)
    (hget : clockGettime s.clock clockRealtime = .ok now)
    (hfits : (⟨s.wd.ticks, abstime, value, now⟩ : Setting).Fits) :
    ∃ delay, s.firstDelay abstime value.itValue = some delay ∧
      (if delay ≤ 0 then roundedUp value.itInterval else delay) =
        (⟨s.wd.ticks, abstime, value, now⟩ : Setting).first := by
  have hlt := hfits.untilFirst_lt
  have hvalue := hfits.value
  unfold TimerSys.firstDelay Setting.first Setting.untilFirst Setting.interval
  unfold Setting.untilFirst at hlt
  cases abstime with
  | false => exact ⟨_, rfl, by rw [clockTime2ticks_eq hvalue hlt]; rfl⟩
  | true =>
    simp only [if_true] at hlt ⊢
    rw [clockAbstime2ticks_eq hvalue hnow hget hlt]
    refine ⟨_, rfl, ?_⟩
    split
    · next hover =>
      rw [if_pos (by decide)]
      simp only [nsecPerTick_eq] at hover ⊢
      omega
    · rfl

/-- The timer is armed for the first expiry, unless there is none. -/
theorem timerArm_spec {value : Itimerspec} (hwd : WdInv s.wd)
    (hlive : s.wd.live (s.timer timer).wdog = true)
    (hidle : armed s.wd.log (s.timer timer).wdog = none) (hnow : Valid now)
    (hget : clockGettime s.clock clockRealtime = .ok now) (st : Setting)
    (hst : st = ⟨s.wd.ticks, abstime, value, now⟩) (hfits : st.Fits) :
    ∃ t i, s.timerArm timer abstime value = some t ∧
      Restarted (s.setTimer timer { s.timer timer with delay := st.interval }) timer t ∧
      armed t.wd.log (s.timer timer).wdog = if st.first = 0 then none else
        some ⟨i, s.wd.ticks, st.first, (timerTimeoutFn, [timer])⟩ := by
  obtain ⟨delay, hdelay, hfirst⟩ := firstDelay_spec hnow hget (hst ▸ hfits)
  have hinterval : (if 0 < value.itInterval.tvSec ∨ 0 < value.itInterval.tvNsec then
      clockTime2ticks value.itInterval else 0) = st.interval := by
    have hvalid := hfits.interval
    have hlt := hfits.interval_lt
    rw [hst] at hvalid hlt ⊢
    exact interval_ticks hvalid hlt
  obtain ⟨s₁, hs₁⟩ : ∃ s₁, s.setTimer timer { s.timer timer with delay := st.interval } = s₁ :=
    ⟨_, rfl⟩
  have hdog : (s₁.timer timer).wdog = (s.timer timer).wdog := by
    rw [← hs₁, setTimer_here]
  have hwd₁ : s₁.wd = s.wd := by rw [← hs₁]; rfl
  have hdelay₁ : s₁.firstDelay abstime value.itValue = some delay := by
    rw [← hs₁, firstDelay_setTimer, hdelay]
  have hinterval' : roundedUp value.itInterval = st.interval := by rw [hst]; rfl
  rw [hinterval', ← hst] at hfirst
  simp only [TimerSys.timerArm, hinterval, hs₁, hdelay₁, hfirst]
  by_cases hnone : st.first = 0
  · refine ⟨s₁, 0, if_neg (by omega), ⟨rfl, rfl, rfl, ⟨(s₁.timer timer).last,
      (update_eq_self ..).symm⟩, hwd₁ ▸ hwd, ⟨rfl, fun _ _ h => h, fun _ _ => rfl⟩, rfl⟩, ?_⟩
    rw [if_pos hnone, hwd₁, hidle]
  · obtain ⟨h0, hlt⟩ := hfits.first
    obtain ⟨t, i, hstart, hre, harmed⟩ := startTimer_spec (hwd₁ ▸ hwd)
      (by rw [hwd₁, hdog, hlive]) h0 hlt
    refine ⟨t, i, ?_, hre, ?_⟩
    · rw [if_pos (by omega), hstart]
    · rw [if_neg hnone, ← hdog, harmed, hwd₁]

theorem timer_step_settime {value : Itimerspec} (inv : TimerInv s)
    (hlegal : s.Legal (.settime timer abstime value))
    (hcareful : s.Careful (.settime timer abstime value)) :
    ∃ t, s.step (.settime timer abstime value) = some t ∧ TimerInv t := by
  obtain ⟨hmem, hvalue, hinterval⟩ := hlegal
  simp only [TimerSys.step, TimerSys.timerSettime]
  by_cases hnull : timer = 0
  · exact ⟨s, if_pos hnull, inv⟩
  replace hmem := hmem hnull
  obtain ⟨hcrefs, h0, hlt, hwas⟩ := inv.alloc timer hmem
  obtain ⟨wd, hstep, hwd⟩ := wd_step inv.wd (.wdCancel (s.timer timer).wdog) fun _ => hwas
  have honly := step_onlyAt hstep (fun _ => id) nofun nofun
  obtain ⟨hgone, hlive⟩ := cancel_armed inv.wd hstep
  simp only [if_neg hnull, TimerSys.wdCall, hstep]
  by_cases hstop : value.itValue.tvSec ≤ 0 ∧ value.itValue.tvNsec ≤ 0
  · refine ⟨_, if_pos hstop, inv.update hmem hwd honly (hlive ▸ hwas) rfl
      (update_eq_self timer s.timer).symm ⟨hcrefs, h0, hlt, rfl⟩ rfl
      (fun x hx => inEffect_other _ _ (Ne.symm hx)) ?_ ?_ ⟨nofun, inv.accounted⟩⟩
    · intro st sent heffect
      simp [inEffect, TimerSys.event] at heffect
    · intro start hstart
      simp only [hgone] at hstart
      cases hstart
  · obtain ⟨now, hget, hnow, -⟩ := clockGettime_spec inv.base
    obtain ⟨hfirst, hshort⟩ := hcareful now (by rw [hget]; rfl)
    obtain ⟨st, hst⟩ : ∃ st : Setting, st = ⟨wd.ticks, abstime, value, now⟩ := ⟨_, rfl⟩
    have hfits : st.Fits := by
      rw [hst]
      exact ⟨hvalue, hinterval, hfirst, hshort⟩
    obtain ⟨t, i, harm, hre, harmed⟩ := timerArm_spec (s := { s with wd := wd }) hwd
      (hlive ▸ hwas) hgone hnow hget st hst hfits
    obtain ⟨last, htimer⟩ := hre.last
    have honly' := hre.only
    simp only [setTimer_here] at htimer honly'
    rw [TimerSys.setTimer, update_idem] at htimer
    have hhere : t.timer timer = { s.timer timer with delay := st.interval, last := last } := by
      rw [htimer, update_self]
    have hticks : t.wd.ticks = wd.ticks := honly'.ticks
    have hlog : t.log = s.log := hre.log
    simp only [if_neg hstop, hget, harm, hticks, ← hst]
    refine ⟨_, rfl, inv.update hmem hre.wd (honly.trans honly') ?_ hre.clock htimer
      ⟨hcrefs, roundedUp_nonneg hfits.interval, hfits.interval_lt, rfl⟩ hre.alloc ?_ ?_ ?_ ?_⟩
    · simp only [hre.live]
      exact hlive ▸ hwas
    · intro x hx
      rw [← hlog]
      exact inEffect_other _ _ (Ne.symm hx)
    · intro st' sent heffect hsignal
      simp only [inEffect, TimerSys.event] at heffect
      cases heffect
      refine ⟨hfits, by rw [hhere], trivial, fun hover => ?_, fun hover => ?_⟩
      · have hnone : st.first = 0 := by
          rcases hover with hfirst | ⟨hsent, -⟩
          · exact hfirst
          · exact absurd rfl hsent
        rw [hhere]
        exact harmed.trans (if_pos hnone)
      · have hsome : st.first ≠ 0 := fun h => hover (.inl h)
        refine ⟨_, by rw [hhere]; exact harmed.trans (if_neg hsome), ?_, rfl⟩
        obtain ⟨hlow, hhigh⟩ := hfits.first
        have hset : (wd.ticks : Int) = st.tick := by rw [hst]
        simp only [Start.due, late_eq hlow hhigh, Setting.dueAt, length_nil]
        omega
    · intro start hstart
      refine ⟨?_, by simp [inEffect, TimerSys.event]⟩
      simp only at harmed
      rw [harmed] at hstart
      split at hstart
      · cases hstart
      · rw [Option.some.injEq] at hstart
        rw [← hstart]
    · exact ⟨nofun, hlog ▸ inv.accounted⟩

/-- Every step that keeps to the interface goes through and keeps the timetables. -/
theorem timer_step {a : TimerAct} (inv : TimerInv s) (h : s.Legal a ∧ s.Careful a) :
    ∃ t, s.step a = some t ∧ TimerInv t := by
  cases a with
  | create notify heap mem => exact timer_step_create inv h.1
  | settime timer abstime value => exact timer_step_settime inv h.1 h.2
  | delete timer => exact timer_step_delete inv h.1
  | clockSettime tp => exact timer_step_clockSettime inv h.1
  | wdog a => exact timer_step_wdog inv h.1
  | tick => exact timer_step_tick inv h.1
  | expire => exact timer_step_expire inv h.1
  | leave => exact timer_step_leave inv h.1

end NbLot.Source.Clock
