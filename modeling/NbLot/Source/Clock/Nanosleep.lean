import NbLot.Source.Clock.Time
import NbLot.Source.Wdog.Effects

/-!
# nanosleep

Source: nuttx/sched/signal/sig_nanosleep.c:105-213, sig_timedwait.c:84-127, 190-377,
sig_dispatch.c:354-388 (a signal for a waiting task), nuttx/sched/sched/sched_processtimer.c.

One task calls `nanosleep`, between all that the other tasks and the interrupt handlers do
with the watchdogs. Interrupts are disabled from the start of a call to `up_block_task`
inside of `sigtimedwait`, so this part is one step; then the task waits until a signal or
`sig_timeout` makes it ready. It goes on with the rest of `sigtimedwait` when it runs, and
with the rest of `nanosleep` after `sched_unlock`, where other tasks may run first. A
signal handler of the task runs before each of these, and may itself call `nanosleep`, so
the calls that have not returned are a stack.

`nanosleep` passes an empty set: no pending signal is in it, a masked signal does not end
the wait, and no signal that ends it is in the set. `wd_delete` of NULL, which reads a
watchdog at address 0, is undefined and gives `none`.
-/
namespace NbLot.Source.Clock

open Source.Wdog

/-- MAX_SIGNO. -/
def maxSigno : Nat := 31

/-- `SIG_WAIT_TIMEOUT`. -/
def sigWaitTimeout : Nat := 0xff

/-- The address of `sig_timeout`, and of the TCB of the task, its parameter. -/
def sigTimeout : Nat := 1

def rtcb : Nat := 1

inductive SleepErrno where
  | eintr
  | eagain
  deriving DecidableEq, Repr

/-- `waitticks` of `sigtimedwait`, computed as a `uint64_t`. -/
def waitTicks (timeout : Timespec) : Int :=
  let waitticks64 : Int :=
    (timeout.tvSec * nsecPerSec + timeout.tvNsec + nsecPerTick - 1) % 2 ^ 64 / nsecPerTick
  wrap32 waitticks64

/-- The errno that `sigtimedwait` sets, from `sigunbinfo.si_signo`. -/
def waitErrno (signo : Nat) : SleepErrno := if signo ≤ maxSigno then .eintr else .eagain

/-- A call of `nanosleep` that has not returned; `errval` is there when `sigtimedwait` has.
The count of ticks at its start is not read by the code. -/
structure Nanosleep where
  rqtp : Timespec
  rmtp : Bool
  starttick : Nat
  began : Nat
  errval : Option SleepErrno
  deriving DecidableEq

/-- What a call has returned: `errno` if it failed, and what it wrote to `rmtp`. -/
structure Slept where
  rqtp : Timespec
  began : Nat
  ended : Nat
  errno : Option SleepErrno
  rmtp : Option Timespec
  deriving DecidableEq

/-- `waiting` is the task state TSTATE_WAIT_SIG, `signo` is `sigunbinfo.si_signo`. -/
structure SleepSys where
  wd : WdSys
  systemTimer : Nat
  waiting : Bool
  waitdog : Nat
  signo : Nat
  calls : List Nanosleep
  returned : List Slept

inductive SleepAct where
  | nanosleep (rqtp : Option Timespec) (rmtp : Bool) (heap : Nat)
  | sigtimedwaitEnd
  | nanosleepEnd
  | signal (signo : Nat)
  | wdog (a : WdAct)
  | tick
  | expire
  | leave
  deriving DecidableEq

/-- The rest of the requested time that is written to `rmtp`. -/
def remainingTime (rqtp : Timespec) (starttick systemTimer : Nat) : Timespec :=
  let ticks := uint32 (clockTime2ticks rqtp)
  let elapsed := uint32 (systemTimer - starttick)
  let remaining := if ticks ≤ elapsed then 0 else uint32 (ticks - elapsed)
  clockTicks2time (wrap32 remaining)

namespace SleepSys

/-- Outside of the timer interrupt, and not waiting. -/
def running (s : SleepSys) : Bool := !s.wd.expiring && !s.waiting

/-- `sigtimedwait` up to `up_block_task`. Without a watchdog it does not wait. -/
def sigtimedwait (s : SleepSys) (call : Nanosleep) (heap : Nat) : Option SleepSys :=
  let waitdog := (wdCreate s.wd.wd false heap).2
  match s.wd.step (.wdCreate false heap) with
  | none => none
  | some wd =>
    if waitdog = 0 then
      some { s with
        wd := wd, waitdog := 0,
        calls := { call with errval := some (waitErrno s.signo) } :: s.calls }
    else
      match wd.step (.wdStart waitdog (waitTicks call.rqtp) sigTimeout [rtcb]) with
      | none => none
      | some wd =>
        some { s with wd := wd, waitdog := waitdog, waiting := true, calls := call :: s.calls }

/-- `nanosleep` up to `up_block_task`; EINVAL changes nothing. -/
def nanosleep (s : SleepSys) (rqtp : Option Timespec) (rmtp : Bool) (heap : Nat) :
    Option SleepSys :=
  match rqtp with
  | none => some s
  | some rqtp =>
    if rqtp.tvNsec < 0 ∨ nsecPerSec ≤ rqtp.tvNsec then some s
    else s.sigtimedwait ⟨rqtp, rmtp, s.systemTimer, s.wd.ticks, none⟩ heap

/-- The rest of `sigtimedwait`. -/
def sigtimedwaitEnd (s : SleepSys) : Option SleepSys :=
  match s.calls with
  | [] => none
  | call :: calls =>
    if call.errval ≠ none ∨ s.waitdog = 0 then none
    else
      match s.wd.step (.wdDelete s.waitdog) with
      | none => none
      | some wd =>
        some { s with
          wd := wd, waitdog := 0,
          calls := { call with errval := some (waitErrno s.signo) } :: calls }

/-- What `nanosleep` returns and writes once `sigtimedwait` has returned. -/
def slept (s : SleepSys) (call : Nanosleep) (errval : SleepErrno) : Slept :=
  if errval = .eagain then ⟨call.rqtp, call.began, s.wd.ticks, none, none⟩
  else
    ⟨call.rqtp, call.began, s.wd.ticks, some errval,
      if call.rmtp = true then some (remainingTime call.rqtp call.starttick s.systemTimer)
      else none⟩

/-- The rest of `nanosleep`. -/
def nanosleepEnd (s : SleepSys) : Option SleepSys :=
  match s.calls with
  | [] => none
  | call :: calls =>
    match call.errval with
    | none => none
    | some errval => some { s with calls := calls, returned := s.slept call errval :: s.returned }

/-- The wait ends with this number in `sigunbinfo`, if the task waits. -/
def unblock (s : SleepSys) (signo : Nat) : SleepSys :=
  if s.waiting = true then { s with waiting := false, signo := signo } else s

def step (s : SleepSys) : SleepAct → Option SleepSys
  | .nanosleep rqtp rmtp heap => if s.running = true then s.nanosleep rqtp rmtp heap else none
  | .sigtimedwaitEnd => if s.running = true then s.sigtimedwaitEnd else none
  | .nanosleepEnd => if s.running = true then s.nanosleepEnd else none
  | .signal signo => some (s.unblock signo)
  | .wdog a =>
    match s.wd.step a with
    | none => none
    | some wd => some { s with wd := wd }
  | .tick =>
    match s.wd.step .tick with
    | none => none
    | some wd => some { s with wd := wd, systemTimer := (s.systemTimer + 1) % 2 ^ 32 }
  | .expire =>
    match s.wd.step .expire with
    | none => none
    | some wd =>
      -- the watchdog function is sig_timeout of this task, or another one
      if s.wd.wd.call (expireHead s.wd.wd).2 = (sigTimeout, [rtcb]) then
        some ({ s with wd := wd }.unblock sigWaitTimeout)
      else some { s with wd := wd }
  | .leave =>
    match s.wd.step .leave with
    | none => none
    | some wd => some { s with wd := wd }

/-- A call of the other tasks and the interrupt handlers. The watchdog of the task is left
alone, and `sig_timeout` is passed with the task as its parameter by no one else. -/
def Foreign (s : SleepSys) : WdAct → Prop
  | .wdStatic w => s.waitdog ≠ 0 → w ≠ s.waitdog
  | .wdCreate _ _ => True
  | .wdStart w _ func parms =>
    (s.waitdog ≠ 0 → w ≠ s.waitdog) ∧ (func, parms) ≠ (sigTimeout, [rtcb])
  | .wdCancel w => s.waitdog ≠ 0 → w ≠ s.waitdog
  | .wdDelete w => s.waitdog ≠ 0 → w ≠ s.waitdog
  | .tick => False
  | .expire => False
  | .leave => False

instance (s : SleepSys) : ∀ a, Decidable (s.Foreign a)
  | .wdStatic _ => inferInstanceAs (Decidable (_ → _))
  | .wdCreate _ _ => .isTrue trivial
  | .wdStart _ _ _ _ => inferInstanceAs (Decidable (_ ∧ _))
  | .wdCancel _ => inferInstanceAs (Decidable (_ → _))
  | .wdDelete _ => inferInstanceAs (Decidable (_ → _))
  | .tick => .isFalse not_false
  | .expire => .isFalse not_false
  | .leave => .isFalse not_false

/-- What the rest of the system keeps to: the interface of the watchdogs, the watchdog of the
task left alone, and signal numbers in range. -/
def Legal (s : SleepSys) : SleepAct → Prop
  | .nanosleep _ _ heap => s.wd.Legal (.wdCreate false heap)
  | .signal signo => signo ≤ maxSigno
  | .wdog a => s.wd.Legal a ∧ s.Foreign a
  | _ => True

instance (s : SleepSys) : ∀ a, Decidable (s.Legal a)
  | .nanosleep _ _ heap => s.wd.decidableLegal (.wdCreate false heap)
  | .signal _ => inferInstanceAs (Decidable (_ ≤ _))
  | .wdog a =>
    have := s.wd.decidableLegal a
    inferInstanceAs (Decidable (_ ∧ _))
  | .sigtimedwaitEnd => .isTrue trivial
  | .nanosleepEnd => .isTrue trivial
  | .tick => .isTrue trivial
  | .expire => .isTrue trivial
  | .leave => .isTrue trivial

end SleepSys

/-- The system starts at any count of ticks. -/
def sleepBoot (systemTimer : Nat) : SleepSys where
  wd := wdBoot
  systemTimer := systemTimer
  waiting := false
  waitdog := 0
  signo := 0
  calls := []
  returned := []

end NbLot.Source.Clock
