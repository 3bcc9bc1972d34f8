import Mathlib.Algebra.Group.Int.Defs
import Mathlib.Algebra.Group.Nat.Defs
import Mathlib.Data.List.Basic

/-!
# Watchdog timers

Source: nuttx/sched/wdog/wd_start.c, wd_cancel.c, wd_delete.c, wd_create.c,
wd_gettime.c, wd_initialize.c, nuttx/include/nuttx/wdog.h.

A watchdog is named by its address, 0 being NULL. `g_wdactivelist` and `g_wdfreelist`
are the lists of the watchdogs on them; lags are integers, as `int` does not overflow
while the bound proved on their sum holds. A failed `ASSERT` gives `none`. The timer
interrupt is `wdTimer` and the two parts of `wd_expiration`: what it does to the list
before it calls a watchdog function (`expireHead`), and the test that ends its loop.
-/
namespace NbLot.Source.Wdog

/-- CONFIG_MAX_WDOGPARMS, CONFIG_PREALLOC_WDOGS and CONFIG_WDOG_INTRESERVE. -/
def maxWdogParms : Nat := 2

def preallocWdogs : Nat := 8

def wdogIntreserve : Nat := 1

/-- `struct wdog_s`; `argc` is the length of `parm`. -/
structure WdogS where
  func : Nat
  parm : List Nat
  lag : Int
  isActive : Bool
  isAlloced : Bool
  isStatic : Bool
  deriving DecidableEq, Repr

structure WdState where
  wdog : Nat → WdogS
  activelist : List Nat
  freelist : List Nat
  nfree : Nat

namespace WdState

def set (s : WdState) (w : Nat) (value : WdogS) : WdState :=
  { s with wdog := Function.update s.wdog w value }

def lag (s : WdState) (w : Nat) : Int := (s.wdog w).lag

def setLag (s : WdState) (w : Nat) (value : Int) : WdState := s.set w { s.wdog w with lag := value }

/-- `WDOG_SETACTIVE` and `WDOG_CLRACTIVE`. -/
def setActive (s : WdState) (w : Nat) (value : Bool) : WdState :=
  s.set w { s.wdog w with isActive := value }

/-- The function and the parameters to call. -/
def setCall (s : WdState) (w func : Nat) (parms : List Nat) : WdState :=
  s.set w { s.wdog w with func := func, parm := parms }

def setActivelist (s : WdState) (list : List Nat) : WdState := { s with activelist := list }

/-- The watchdog behind, if there is one, inherits the lag. -/
def inherit (s : WdState) (next : Option Nat) (lag : Int) : WdState :=
  match next with
  | none => s
  | some n => s.setLag n (s.lag n + lag)

end WdState

/-- The watchdog behind `w` in a queue. -/
def nextOf (w : Nat) : List Nat → Option Nat
  | [] => none
  | curr :: rest => if curr = w then rest.head? else nextOf w rest

/-- `wd_cancel`; the second component is `ret == OK`. -/
def wdCancel (s : WdState) (w : Nat) : Option (WdState × Bool) :=
  if w ≠ 0 ∧ (s.wdog w).isActive = true then
    if w ∈ s.activelist then
      let s1 := s.inherit (nextOf w s.activelist) (s.lag w)
      some ((s1.setActivelist (s.activelist.erase w)).setActive w false, true)
    else none
  else some (s, false)

def int32Max : Int := 2 ^ 31 - 1

def wrap32 (x : Int) : Int := (x + 2 ^ 31) % 2 ^ 32 - 2 ^ 31

/-- "Calculate delay+1, forcing the delay into a range that we can handle". -/
def delayTicks (delay : Int) : Int :=
  if delay ≤ 0 then 1
  else if wrap32 (delay + 1) ≤ 0 then wrap32 (wrap32 (delay + 1) - 1)
  else wrap32 (delay + 1)

/-- `prev`, `curr` and `now` of wd_start, with the queue before and behind `curr`. -/
structure Cursor where
  before : List Nat
  curr : Nat
  after : List Nat
  now : Int

/-- "Advance to positive time". -/
def advanceToPositive (lag : Nat → Int) (before : List Nat) (curr : Nat) (now : Int) :
    List Nat → Cursor
  | [] => ⟨before, curr, [], now + lag curr⟩
  | next :: rest =>
    if now + lag curr < 0 then
      advanceToPositive lag (before ++ [curr]) next (now + lag curr) rest
    else ⟨before, curr, next :: rest, now + lag curr⟩

/-- "Advance past shorter delays". -/
def advancePastShorter (lag : Nat → Int) (delay : Int) (before : List Nat) (curr : Nat)
    (now : Int) : List Nat → Cursor
  | [] => ⟨before, curr, [], now⟩
  | next :: rest =>
    if now ≤ delay then
      advancePastShorter lag delay (before ++ [curr]) next (now + lag next) rest
    else ⟨before, curr, next :: rest, now⟩

/-- The part of wd_start that puts the watchdog into the queue and sets its lag. -/
def enqueue (s : WdState) (w : Nat) (delay : Int) : WdState :=
  match s.activelist with
  | [] => (s.setActivelist [w]).setLag w delay
  | head :: rest =>
    let p := advanceToPositive s.lag [] head 0 rest
    let c := advancePastShorter s.lag delay p.before p.curr p.now p.after
    if delay < c.now then
      let delay := delay - (c.now - s.lag c.curr)
      let s := s.setLag c.curr (s.lag c.curr - delay)
      (s.setActivelist (c.before ++ w :: c.curr :: c.after)).setLag w delay
    else
      let delay := delay - c.now
      match c.after with
      | [] => (s.setActivelist (c.before ++ [c.curr, w])).setLag w delay
      | next :: rest =>
        let s := s.setLag next (s.lag next - delay)
        (s.setActivelist (c.before ++ c.curr :: w :: next :: rest)).setLag w delay

/-- `wd_start`; the second component is `OK`. -/
def wdStart (s : WdState) (w : Nat) (delay : Int) (func : Nat) (parms : List Nat) :
    Option (WdState × Bool) :=
  if w = 0 ∨ maxWdogParms < parms.length ∨ delay < 0 then some (s, false)
  else
    let stopped := if (s.wdog w).isActive = true then (wdCancel s w).map Prod.fst else some s
    match stopped with
    | none => none
    | some s =>
      some ((enqueue (s.setCall w func parms) w (delayTicks delay)).setActive w true, true)

/-- `wd_delete`. An allocated watchdog goes back to the heap. -/
def wdDelete (s : WdState) (w : Nat) : Option WdState :=
  let stopped := if (s.wdog w).isActive = true then (wdCancel s w).map Prod.fst else some s
  match stopped with
  | none => none
  | some s =>
    if (s.wdog w).isAlloced = true then some s
    else if (s.wdog w).isStatic = true then some s
    else some { s with freelist := s.freelist ++ [w], nfree := s.nfree + 1 }

/-- `wd_create`. `irq` is `up_interrupt_context()`, `heap` what `kmm_malloc` returns. -/
def wdCreate (s : WdState) (irq : Bool) (heap : Nat) : WdState × Nat :=
  if wdogIntreserve < s.nfree ∨ irq = true then
    match s.freelist with
    | [] => (s, 0)
    | w :: rest =>
      let s := { s with freelist := rest, nfree := s.nfree - 1 }
      (s.set w { s.wdog w with isActive := false, isAlloced := false, isStatic := false }, w)
  else if heap = 0 then (s, 0)
  else
    (s.set heap { s.wdog heap with isActive := false, isAlloced := true, isStatic := false }, heap)

/-- `wd_static`. -/
def wdStatic (s : WdState) (w : Nat) : WdState :=
  s.set w { s.wdog w with isActive := false, isAlloced := false, isStatic := true }

/-- The loop of wd_gettime. -/
def gettimeLoop (lag : Nat → Int) (w : Nat) (delay : Int) : List Nat → Int
  | [] => 0
  | curr :: rest =>
    if curr = w then delay + lag curr else gettimeLoop lag w (delay + lag curr) rest

def wdGettime (s : WdState) (w : Nat) : Int :=
  if w ≠ 0 ∧ (s.wdog w).isActive = true then gettimeLoop s.lag w 0 s.activelist else 0

/-- The head of the queue is ready to run, in the test and the loop of wd_expiration. -/
def headExpired (s : WdState) : Bool :=
  match s.activelist with
  | [] => false
  | head :: _ => s.lag head ≤ 0

/-- One pass of the loop of wd_expiration up to the call: the watchdog it takes out. -/
def expireHead (s : WdState) : WdState × Nat :=
  match s.activelist with
  | [] => (s, 0)
  | head :: rest =>
    let s1 := (s.setActivelist rest).inherit rest.head? (s.lag head)
    (s1.setActive head false, head)

/-- `--head->lag` of wd_timer. -/
def decrementHead (s : WdState) (decr : Int) : WdState :=
  match s.activelist with
  | [] => s
  | head :: _ => s.setLag head (s.lag head - decr)

/-- The state after `wd_initialize`: the pre-allocated watchdogs, at their addresses. -/
def wdInitialize : WdState where
  wdog := fun _ =>
    { func := 0, parm := [], lag := 0, isActive := false, isAlloced := false, isStatic := false }
  activelist := []
  freelist := List.range' 1 preallocWdogs
  nfree := preallocWdogs

end NbLot.Source.Wdog
