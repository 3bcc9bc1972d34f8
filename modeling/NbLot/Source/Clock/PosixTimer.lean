import NbLot.Source.Clock.Time
import NbLot.Source.Wdog.Effects

/-!
# POSIX timers

Source: nuttx/sched/timer/timer_settime.c:92-397, timer_create.c, timer_delete.c,
timer_release.c, nuttx/sched/sched/sched_processtimer.c.

A timer is named by its address, 0 being NULL; each owns a watchdog, started with
`timer_timeout` and the timer as the parameter. `timer_timeout` runs in the timer interrupt,
so it is one step with the pass of `wd_expiration` that calls it. `timer_settime` cancels the
watchdog and sets `pt_delay` before it disables interrupts; what may come in between is
covered by a `timer_settime` with a zero time, which only cancels, before the call. The log
has the calls of `timer_settime` with the wall clock at that time, and the notifications,
the latest first; it is not read by the code.
-/
namespace NbLot.Source.Clock

open Source.Wdog

/-- The address of `timer_timeout`. -/
def timerTimeoutFn : Nat := 2

/-- `sigev_notify`. -/
inductive SigevNotify where
  | none
  | signal
  deriving DecidableEq, Repr

/-- `struct posix_timer_s`, without the owner and what is sent to it. -/
structure PosixTimer where
  crefs : Nat
  delay : Int
  last : Int
  wdog : Nat
  notify : SigevNotify
  deriving DecidableEq, Repr

structure Itimerspec where
  itValue : Timespec
  itInterval : Timespec
  deriving DecidableEq

/-- A call of `timer_settime` that did not only stop the timer: its tick and arguments, and
the wall clock. -/
structure Setting where
  tick : Nat
  abstime : Bool
  value : Itimerspec
  now : Timespec
  deriving DecidableEq

inductive TimerHappened where
  | set (setting : Setting)
  | stopped
  | notified
  deriving DecidableEq

structure TimerEvent where
  tick : Nat
  timer : Nat
  what : TimerHappened
  deriving DecidableEq

structure TimerSys where
  wd : WdSys
  clock : ClockState
  timer : Nat → PosixTimer
  alloctimers : List Nat
  log : List TimerEvent

inductive TimerAct where
  | create (notify : SigevNotify) (heap mem : Nat)
  | settime (timer : Nat) (abstime : Bool) (value : Itimerspec)
  | delete (timer : Nat)
  | clockSettime (tp : Timespec)
  | wdog (a : WdAct)
  | tick
  | expire
  | leave
  deriving DecidableEq

namespace TimerSys

def event (s : TimerSys) (timer : Nat) (what : TimerHappened) : TimerEvent :=
  ⟨s.wd.ticks, timer, what⟩

def setTimer (s : TimerSys) (timer : Nat) (value : PosixTimer) : TimerSys :=
  { s with timer := Function.update s.timer timer value }

/-- A call of the watchdog functions. -/
def wdCall (s : TimerSys) (a : WdAct) : Option TimerSys :=
  match s.wd.step a with
  | none => none
  | some wd => some { s with wd := wd }

/-- `timer_create`. `heap` is the memory for a watchdog and `mem` that for a timer. -/
def timerCreate (s : TimerSys) (notify : SigevNotify) (heap mem : Nat) : Option TimerSys :=
  let wdog := (wdCreate s.wd.wd false heap).2
  match s.wdCall (.wdCreate false heap) with
  | none => none
  | some s =>
    -- EAGAIN, with the watchdog kept if it is the timer that is missing
    if wdog = 0 ∨ mem = 0 then some s
    else
      some { s.setTimer mem ⟨1, 0, 0, wdog, notify⟩ with alloctimers := s.alloctimers ++ [mem] }

/-- `timer_release`; the second component is the value returned. -/
def timerRelease (s : TimerSys) (timer : Nat) : Option (TimerSys × Nat) :=
  let t := s.timer timer
  if 1 < t.crefs then some (s.setTimer timer { t with crefs := t.crefs - 1 }, 1)
  else
    match s.wdCall (.wdDelete t.wdog) with
    | none => none
    | some s => some ({ s with alloctimers := s.alloctimers.erase timer }, 0)

/-- `timer_delete`. -/
def timerDelete (s : TimerSys) (timer : Nat) : Option TimerSys :=
  -- EINVAL
  if timer = 0 then some s
  else
    match s.timerRelease timer with
    | none => none
    | some (s, _) => some { s with log := s.event timer .stopped :: s.log }

/-- `timer_signotify`. -/
def timerSignotify (s : TimerSys) (timer : Nat) : TimerSys :=
  if (s.timer timer).notify = .signal then
    { s with log := s.event timer .notified :: s.log }
  else s

/-- `pt_last` is set and the watchdog is started. -/
def startTimer (s : TimerSys) (timer : Nat) (delay : Int) : Option TimerSys :=
  (s.setTimer timer { s.timer timer with last := delay }).wdCall
    (.wdStart (s.timer timer).wdog delay timerTimeoutFn [timer])

/-- `timer_restart`. -/
def timerRestart (s : TimerSys) (timer : Nat) : Option TimerSys :=
  if (s.timer timer).delay ≠ 0 then s.startTimer timer (s.timer timer).delay else some s

/-- `timer_timeout`. -/
def timerTimeout (s : TimerSys) (timer : Nat) : Option TimerSys :=
  let s := s.setTimer timer { s.timer timer with crefs := (s.timer timer).crefs + 1 }
  match (s.timerSignotify timer).timerRelease timer with
  | none => none
  | some (s, ret) => if ret ≠ 0 then s.timerRestart timer else some s

/-- The ticks to the first expiry; `clock_abstime2ticks` of CLOCK_REALTIME does not fail. -/
def firstDelay (s : TimerSys) (abstime : Bool) (value : Timespec) : Option Int :=
  if abstime = true then
    match clockAbstime2ticks s.clock clockRealtime value with
    | .ok delay => some delay
    | .error _ => none
  else some (clockTime2ticks value)

/-- `timer_settime` for a time that is not zero, after the watchdog is cancelled. -/
def timerArm (s : TimerSys) (timer : Nat) (abstime : Bool) (value : Itimerspec) :
    Option TimerSys :=
  let interval :=
    if 0 < value.itInterval.tvSec ∨ 0 < value.itInterval.tvNsec then
      clockTime2ticks value.itInterval
    else 0
  let s := s.setTimer timer { s.timer timer with delay := interval }
  match s.firstDelay abstime value.itValue with
  | none => none
  | some delay =>
    let delay := if delay ≤ 0 then interval else delay
    if 0 < delay then s.startTimer timer delay else some s

/-- `timer_settime`. -/
def timerSettime (s : TimerSys) (timer : Nat) (abstime : Bool) (value : Itimerspec) :
    Option TimerSys :=
  -- EINVAL
  if timer = 0 then some s
  else
    match s.wdCall (.wdCancel (s.timer timer).wdog) with
    | none => none
    | some s =>
      if value.itValue.tvSec ≤ 0 ∧ value.itValue.tvNsec ≤ 0 then
        some { s with log := s.event timer .stopped :: s.log }
      else
        match clockGettime s.clock clockRealtime with
        | .error _ => none
        | .ok now =>
          match s.timerArm timer abstime value with
          | none => none
          | some s =>
            some { s with log := s.event timer (.set ⟨s.wd.ticks, abstime, value, now⟩) :: s.log }

def step (s : TimerSys) : TimerAct → Option TimerSys
  | .create notify heap mem => s.timerCreate notify heap mem
  | .settime timer abstime value => s.timerSettime timer abstime value
  | .delete timer => s.timerDelete timer
  | .clockSettime tp =>
    match clockSettime s.clock clockRealtime tp with
    | .error _ => none
    | .ok clock => some { s with clock := clock }
  | .wdog a => s.wdCall a
  | .tick =>
    match s.wdCall .tick with
    | none => none
    | some s => some { s with clock := clockTimer s.clock }
  | .expire =>
    let call := s.wd.wd.call (expireHead s.wd.wd).2
    match s.wdCall .expire with
    | none => none
    | some s =>
      -- the watchdog function is timer_timeout, or another one
      match call with
      | (func, [timer]) => if func = timerTimeoutFn then s.timerTimeout timer else some s
      | _ => some s
  | .leave => s.wdCall .leave

/-- A call of the other users of the watchdogs. -/
def Foreign (s : TimerSys) (a : WdAct) : Prop :=
  (∀ timer ∈ s.alloctimers, ¬a.Names (s.timer timer).wdog) ∧
    match a with
    | .wdStart _ _ func _ => func ≠ timerTimeoutFn
    | .tick => False
    | .expire => False
    | .leave => False
    | _ => True

instance (s : TimerSys) : ∀ a, Decidable (s.Foreign a)
  | .wdStatic _ => inferInstanceAs (Decidable (_ ∧ True))
  | .wdCreate _ _ => inferInstanceAs (Decidable (_ ∧ True))
  | .wdStart _ _ func _ => inferInstanceAs (Decidable (_ ∧ func ≠ timerTimeoutFn))
  | .wdCancel _ => inferInstanceAs (Decidable (_ ∧ True))
  | .wdDelete _ => inferInstanceAs (Decidable (_ ∧ True))
  | .tick => inferInstanceAs (Decidable (_ ∧ False))
  | .expire => inferInstanceAs (Decidable (_ ∧ False))
  | .leave => inferInstanceAs (Decidable (_ ∧ False))

/-- What the callers and the rest of the system keep to. -/
def Legal (s : TimerSys) : TimerAct → Prop
  | .create _ heap mem => s.wd.Legal (.wdCreate false heap) ∧ mem ∉ s.alloctimers
  | .settime timer _ value =>
    (timer ≠ 0 → timer ∈ s.alloctimers) ∧ Valid value.itValue ∧ Valid value.itInterval
  | .delete timer => timer ≠ 0 → timer ∈ s.alloctimers
  | .clockSettime tp => Valid tp
  | .wdog a => s.wd.Legal a ∧ s.Foreign a
  | .tick => s.wd.Legal .tick
  | .expire => s.wd.Legal .expire
  | .leave => s.wd.Legal .leave

instance (s : TimerSys) : ∀ a, Decidable (s.Legal a)
  | .create _ heap _ =>
    have := s.wd.decidableLegal (.wdCreate false heap)
    inferInstanceAs (Decidable (_ ∧ _))
  | .settime _ _ _ => inferInstanceAs (Decidable ((_ → _) ∧ _ ∧ _))
  | .delete _ => inferInstanceAs (Decidable (_ → _))
  | .clockSettime tp => inferInstanceAs (Decidable (Valid tp))
  | .wdog a =>
    have := s.wd.decidableLegal a
    inferInstanceAs (Decidable (_ ∧ _))
  | .tick => s.wd.decidableLegal .tick
  | .expire => s.wd.decidableLegal .expire
  | .leave => s.wd.decidableLegal .leave

end TimerSys

/-- The system starts with a valid base time at any count of ticks. -/
def timerBoot (clock : ClockState) : TimerSys where
  wd := wdBoot
  clock := clock
  timer := fun _ => ⟨0, 0, 0, 0, .none⟩
  alloctimers := []
  log := []

end NbLot.Source.Clock
