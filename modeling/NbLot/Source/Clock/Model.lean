import NbLot.Source.Wdog.Model

/-!
# The system clock

Source: nuttx/include/nuttx/clock.h:103-174, nuttx/sched/clock/clock_systimespec.c,
clock_settime.c, clock_gettime.c, clock_initialize.c (`clock_timer`), clock_time2ticks.c,
clock_ticks2time.c, clock_abstime2ticks.c, without CONFIG_SCHED_TICKLESS,
CONFIG_CLOCK_MONOTONIC, CONFIG_RTC_HIRES and CONFIG_SYSTEM_TIME64.

`time_t` and `systime_t` have 32 bits without a sign, `long` and `ssystime_t` have 32 bits
with one. Where C computes in 64 bits the numbers below stay far from their bounds. The
hardware clock that `clock_settime` also writes to is not read by any of the functions.
-/
namespace NbLot.Source.Clock

open Source.Wdog (wrap32)

def nsecPerSec : Nat := 1000000000

def msecPerSec : Nat := 1000

def nsecPerMsec : Nat := 1000000

/-- CONFIG_USEC_PER_TICK is 10000. -/
def usecPerTick : Nat := 10000

def msecPerTick : Nat := usecPerTick / 1000

def nsecPerTick : Nat := usecPerTick * 1000

def tickPerSec : Nat := 1000000 / usecPerTick

/-- The conversion to `uint32_t`. -/
def uint32 (x : Int) : Nat := (x % 2 ^ 32).toNat

theorem uint32_lt (x : Int) : uint32 x < 2 ^ 32 := by
  unfold uint32
  omega

/-- `struct timespec`. -/
structure Timespec where
  tvSec : Nat
  tvNsec : Int
  tvSec_lt : tvSec < 2 ^ 32
  deriving DecidableEq, Repr

/-- The fields of a `struct timespec` are assigned. -/
@[simps]
def timespec (sec nsec : Int) : Timespec where
  tvSec := uint32 sec
  tvNsec := wrap32 nsec
  tvSec_lt := uint32_lt sec

/-- `TICK2MSEC` of a `systime_t`: the product of a `uint32_t` and a `long`. -/
def tick2msec (tick : Nat) : Nat := tick * msecPerTick % 2 ^ 32

/-- `clock_systimespec` at the value of `g_system_timer`. -/
def clockSystimespec (systemTimer : Nat) : Timespec :=
  let msecs := tick2msec systemTimer
  let secs := msecs / msecPerSec
  let nsecs := (msecs - secs * msecPerSec) * nsecPerMsec
  timespec secs nsecs

/-- `g_system_timer` and `g_basetime`. -/
structure ClockState where
  systemTimer : Nat
  basetime : Timespec
  systemTimer_lt : systemTimer < 2 ^ 32
  deriving DecidableEq, Repr

inductive Errno where
  | einval
  deriving DecidableEq, Repr

/-- `clockid_t`; without CONFIG_CLOCK_MONOTONIC there is one clock. -/
def clockRealtime : Nat := 0

/-- `clock_settime`. -/
def clockSettime (c : ClockState) (clockId : Nat) (tp : Timespec) : Except Errno ClockState :=
  if clockId = clockRealtime then
    let bias := clockSystimespec c.systemTimer
    let basetime :=
      if tp.tvNsec < bias.tvNsec then timespec (tp.tvSec - 1) (tp.tvNsec + nsecPerSec) else tp
    .ok { c with
      basetime := timespec (basetime.tvSec - bias.tvSec) (basetime.tvNsec - bias.tvNsec) }
  else .error .einval

/-- `clock_gettime`. -/
def clockGettime (c : ClockState) (clockId : Nat) : Except Errno Timespec :=
  if clockId = clockRealtime then
    let ts := clockSystimespec c.systemTimer
    let ts := timespec (ts.tvSec + c.basetime.tvSec) (ts.tvNsec + c.basetime.tvNsec)
    if nsecPerSec ≤ ts.tvNsec then
      let carry := uint32 (ts.tvNsec / nsecPerSec)
      .ok (timespec (ts.tvSec + carry) (ts.tvNsec - carry * nsecPerSec))
    else .ok ts
  else .error .einval

/-- `clock_timer`, called at every tick. -/
@[simps]
def clockTimer (c : ClockState) : ClockState where
  systemTimer := (c.systemTimer + 1) % 2 ^ 32
  basetime := c.basetime
  systemTimer_lt := Nat.mod_lt _ (by decide)

/-- `clock_time2ticks`. -/
def clockTime2ticks (reltime : Timespec) : Int :=
  let relnsec : Int := reltime.tvSec * nsecPerSec + reltime.tvNsec
  wrap32 (Int.tdiv (relnsec + nsecPerTick - 1) nsecPerTick)

/-- `clock_ticks2time`. -/
def clockTicks2time (ticks : Int) : Timespec :=
  let sec := uint32 (Int.tdiv ticks tickPerSec)
  let remainder := wrap32 (ticks - tickPerSec * sec)
  timespec sec (remainder * nsecPerTick)

/-- `compare_timespec`. -/
def compareTimespec (a b : Timespec) : Int :=
  if a.tvSec < b.tvSec then -1
  else if b.tvSec < a.tvSec then 1
  else wrap32 (a.tvNsec - b.tvNsec)

/-- `clock_abstime2ticks`. -/
def clockAbstime2ticks (c : ClockState) (clockId : Nat) (abstime : Timespec) : Except Errno Int :=
  match clockGettime c clockId with
  | .error _ => .error .einval
  | .ok currtime =>
    if compareTimespec abstime currtime < 0 then .ok (-1)
    else
      let reltime := timespec (abstime.tvSec - currtime.tvSec) (abstime.tvNsec - currtime.tvNsec)
      let reltime :=
        if reltime.tvNsec < 0 then timespec (reltime.tvSec - 1) (reltime.tvNsec + nsecPerSec)
        else reltime
      .ok (clockTime2ticks reltime)

/-- What happens to the clock. -/
inductive ClockAct where
  | tick
  | settime (clockId : Nat) (tp : Timespec)
  deriving DecidableEq

def ClockState.step (c : ClockState) : ClockAct → ClockState
  | .tick => clockTimer c
  | .settime clockId tp =>
    match clockSettime c clockId tp with
    | .ok c => c
    | .error _ => c

/-- The clock after a list of actions. -/
def ClockState.run (c : ClockState) (acts : List ClockAct) : ClockState :=
  acts.foldl ClockState.step c

end NbLot.Source.Clock
