import Mathlib.Algebra.Group.Int.Defs
import Mathlib.Algebra.Group.Nat.Defs
import NbLot.Lib.OrderedInsert
import NbLot.Lib.Transition

/-!
# The task lists of the scheduler

Source: nuttx/sched/sched/sched_addprioritized.c, sched_addreadytorun.c,
sched_removereadytorun.c, sched_addblocked.c, sched_removeblocked.c,
sched_mergepending.c, sched_setpriority.c, sched_lock.c, sched_unlock.c;
nuttx/sched/task/task_setup.c:352-457, task_terminate.c;
nuttx/arch/arm/src/armv7-m/up_blocktask.c, up_unblocktask.c, up_reprioritizertr.c,
up_releasepending.c; nuttx/sched/init/os_start.c:236-302, 386-560; the configurations
without CONFIG_SMP, CONFIG_PAGING and CONFIG_SCHED_SPORADIC.

A task is named by its pid, the fields of its TCB are functions of the pid, and a task
list is the list of the pids from its head to its tail. `none` is a failed ASSERT, a
PANIC or a write through a null pointer. The time slices of round-robin scheduling
are left out: they decide when `up_reprioritize_rtr` is called, not what it does.
-/
namespace NbLot.Source.Sched

/-- `enum tstate_e`. -/
inductive TState where
  | invalid
  | pending
  | readytorun
  | running
  | inactive
  | waitSem
  | waitSig
  | waitMqnotempty
  | waitMqnotfull
  deriving DecidableEq, Repr

/-- The lists `g_readytorun`, `g_pendingtasks` and so on. -/
inductive TaskList where
  | readytorun
  | pendingtasks
  | inactivetasks
  | waitingforsemaphore
  | waitingforsignal
  | waitingformqnotempty
  | waitingformqnotfull
  deriving DecidableEq, Repr

/-- The `list` column of `g_tasklisttable`. -/
def TState.tasklist : TState → Option TaskList
  | .invalid => none
  | .pending => some .pendingtasks
  | .readytorun => some .readytorun
  | .running => some .readytorun
  | .inactive => some .inactivetasks
  | .waitSem => some .waitingforsemaphore
  | .waitSig => some .waitingforsignal
  | .waitMqnotempty => some .waitingformqnotempty
  | .waitMqnotfull => some .waitingformqnotfull

/-- `TLIST_ATTR_PRIORITIZED` in the `attr` column of `g_tasklisttable`, which is the
same for the two states that share `g_readytorun`. -/
def TaskList.prioritized : TaskList → Bool
  | .inactivetasks | .waitingforsignal => false
  | _ => true

/-- `FIRST_READY_TO_RUN_STATE` to `LAST_READY_TO_RUN_STATE`. -/
def TState.isReady : TState → Bool
  | .readytorun | .running => true
  | _ => false

/-- `FIRST_BLOCKED_STATE` to `LAST_BLOCKED_STATE`. -/
def TState.isBlocked : TState → Bool
  | .inactive | .waitSem | .waitSig | .waitMqnotempty | .waitMqnotfull => true
  | _ => false

/-- The states in which a running task blocks. -/
def TState.isWait : TState → Bool
  | .waitSem | .waitSig | .waitMqnotempty | .waitMqnotfull => true
  | _ => false

/-- `SCHED_PRIORITY_MIN` and `SCHED_PRIORITY_MAX`. -/
def schedPriorityMin : Nat := 1
def schedPriorityMax : Nat := 255

/-- The pid of the IDLE task. -/
def idle : Nat := 0

/-- A value stored in an `int16_t`. -/
def wrap16 (n : Int) : Int := (n + 2 ^ 15) % 2 ^ 16 - 2 ^ 15

/-- The TCBs and the task lists. `pids` are the pids in `g_pidhash` and `context` is the
task whose registers the CPU runs with. `arrived` and `clock` are not in the source:
every insertion in a list takes the next value of `clock`. -/
@[ext]
structure Tasks where
  schedPriority : Nat → Nat
  lockcount : Nat → Int
  taskState : Nat → TState
  list : TaskList → List Nat
  pids : List Nat
  context : Nat
  arrived : Nat → Nat
  clock : Nat

namespace Tasks

@[simps]
def setPriority (s : Tasks) (tcb p : Nat) : Tasks :=
  { s with schedPriority := Function.update s.schedPriority tcb p }

@[simps]
def setLockcount (s : Tasks) (tcb : Nat) (n : Int) : Tasks :=
  { s with lockcount := Function.update s.lockcount tcb n }

@[simps]
def setState (s : Tasks) (tcb : Nat) (st : TState) : Tasks :=
  { s with taskState := Function.update s.taskState tcb st }

@[simps]
def setList (s : Tasks) (l : TaskList) (tasks : List Nat) : Tasks :=
  { s with list := Function.update s.list l tasks }

@[simps]
def setPids (s : Tasks) (pids : List Nat) : Tasks :=
  { s with pids := pids }

/-- A task enters a list. -/
@[simps]
def arrive (s : Tasks) (tcb : Nat) : Tasks :=
  { s with arrived := Function.update s.arrived tcb s.clock, clock := s.clock + 1 }

/-- `this_task()`; the list is never empty in a state that is reached. -/
def thisTask (s : Tasks) : Option Nat :=
  (s.list .readytorun).head?

/-- The context switch at the end of the `up_*` functions. -/
@[simps]
def switchcontext (s : Tasks) (needed : Bool) : Tasks :=
  { s with context := if needed then s.thisTask.getD s.context else s.context }

/-- The test `sched_priority <= next->sched_priority` of the insertion loop fails. -/
def Outranks (s : Tasks) (tcb next : Nat) : Prop :=
  s.schedPriority next < s.schedPriority tcb

instance (s : Tasks) : DecidableRel s.Outranks :=
  fun tcb next => inferInstanceAs (Decidable (s.schedPriority next < s.schedPriority tcb))

end Tasks

/-- `sched_addprioritized`. The result is true if the task is the new head. -/
def schedAddprioritized (s : Tasks) (tcb : Nat) (l : TaskList) : Option (Tasks × Bool) :=
  if s.schedPriority tcb < schedPriorityMin then none
  else
    let ret := decide (∀ next ∈ (s.list l).head?, s.Outranks tcb next)
    some ((s.setList l ((s.list l).orderedInsert s.Outranks tcb)).arrive tcb, ret)

/-- `sched_addreadytorun`. A task that became the head has the old head behind it. -/
def schedAddreadytorun (s : Tasks) (btcb : Nat) : Option (Tasks × Bool) :=
  match s.thisTask with
  | none => none
  | some rtcb =>
    if 0 < s.lockcount rtcb ∧ s.schedPriority rtcb < s.schedPriority btcb then
      match schedAddprioritized s btcb .pendingtasks with
      | none => none
      | some (s, _) => some (s.setState btcb .pending, false)
    else
      match schedAddprioritized s btcb .readytorun with
      | none => none
      | some (s, true) => some ((s.setState btcb .running).setState rtcb .readytorun, true)
      | some (s, false) => some (s.setState btcb .readytorun, false)

/-- `sched_removereadytorun`. -/
def schedRemovereadytorun (s : Tasks) (rtcb : Nat) : Option (Tasks × Bool) :=
  let removed (s : Tasks) :=
    (s.setList .readytorun ((s.list .readytorun).erase rtcb)).setState rtcb .invalid
  if s.thisTask = some rtcb then
    match (s.list .readytorun).tail.head? with
    | none => none
    | some nxttcb => some (removed (s.setState nxttcb .running), true)
  else
    some (removed s, false)

/-- `sched_addblocked`. -/
def schedAddblocked (s : Tasks) (btcb : Nat) (taskState : TState) : Option Tasks :=
  match taskState.tasklist with
  | none => none
  | some l =>
    if l.prioritized then
      match schedAddprioritized s btcb l with
      | none => none
      | some (s, _) => some (s.setState btcb taskState)
    else
      some (((s.setList l (s.list l ++ [btcb])).arrive btcb).setState btcb taskState)

/-- `sched_removeblocked`. -/
def schedRemoveblocked (s : Tasks) (btcb : Nat) : Option Tasks :=
  match (s.taskState btcb).tasklist with
  | none => none
  | some l => some ((s.setList l ((s.list l).erase btcb)).setState btcb .invalid)

/-- The outer loop of `sched_mergepending` over the pending tasks. The ready-to-run
list is `passed ++ rest` and `rtcb` points at the head of `rest`: the inner loop moves
it on, and the task is put in front of it. -/
def mergeLoop (s : Tasks) (passed rest : List Nat) (ret : Bool) :
    List Nat → Option (Tasks × Bool)
  | [] => some (s, ret)
  | ptcb :: pnext =>
    let skip := fun rtcb => !decide (s.Outranks ptcb rtcb)
    let passed := passed ++ rest.takeWhile skip
    match rest.dropWhile skip with
    | [] => none
    | rtcb :: after =>
      let rest := ptcb :: rtcb :: after
      let s := (s.setList .readytorun (passed ++ rest)).arrive ptcb
      if passed = [] then
        mergeLoop ((s.setState rtcb .readytorun).setState ptcb .running) passed rest true pnext
      else
        mergeLoop (s.setState ptcb .readytorun) passed rest ret pnext

/-- `sched_mergepending`. -/
def schedMergepending (s : Tasks) : Option (Tasks × Bool) :=
  match mergeLoop s [] (s.list .readytorun) false (s.list .pendingtasks) with
  | none => none
  | some (s, ret) => some (s.setList .pendingtasks [], ret)

/-- `up_block_task`. -/
def upBlockTask (s : Tasks) (tcb : Nat) (taskState : TState) : Option Tasks :=
  if !(s.taskState tcb).isReady then none
  else
    match schedRemovereadytorun s tcb with
    | none => none
    | some (s, removed) =>
      match schedAddblocked s tcb taskState with
      | none => none
      | some s =>
        if s.list .pendingtasks = [] then some (s.switchcontext removed)
        else
          match schedMergepending s with
          | none => none
          | some (s, merged) => some (s.switchcontext (removed || merged))

/-- `up_unblock_task`. -/
def upUnblockTask (s : Tasks) (tcb : Nat) : Option Tasks :=
  if !(s.taskState tcb).isBlocked then none
  else
    match schedRemoveblocked s tcb with
    | none => none
    | some s =>
      match schedAddreadytorun s tcb with
      | none => none
      | some (s, added) => some (s.switchcontext added)

/-- `up_reprioritize_rtr`. -/
def upReprioritizeRtr (s : Tasks) (tcb priority : Nat) : Option Tasks :=
  if !(s.taskState tcb).isReady || priority < schedPriorityMin then none
  else
    match schedRemovereadytorun s tcb with
    | none => none
    | some (s, removed) =>
      match schedAddreadytorun (s.setPriority tcb priority) tcb with
      | none => none
      | some (s, added) =>
        if xor removed added then
          if s.list .pendingtasks = [] then some (s.switchcontext true)
          else
            match schedMergepending s with
            | none => none
            | some (s, _) => some (s.switchcontext true)
        else some s

/-- `up_release_pending`. -/
def upReleasePending (s : Tasks) : Option Tasks :=
  match schedMergepending s with
  | none => none
  | some (s, merged) => some (s.switchcontext merged)

/-- `sched_running_setpriority`. -/
def schedRunningSetpriority (s : Tasks) (tcb priority : Nat) : Option Tasks :=
  match (s.list .readytorun).tail.head? with
  | none => none
  | some nxttcb =>
    if priority ≤ s.schedPriority nxttcb then upReprioritizeRtr s tcb priority
    else some (s.setPriority tcb priority)

/-- `sched_readytorun_setpriority`; both calls are inside an ASSERT. -/
def schedReadytorunSetpriority (s : Tasks) (tcb priority : Nat) : Option Tasks :=
  match s.thisTask with
  | none => none
  | some rtcb =>
    if s.schedPriority rtcb < priority then upReprioritizeRtr s tcb priority
    else
      match schedRemovereadytorun s tcb with
      | some (s, false) =>
        match schedAddreadytorun (s.setPriority tcb priority) tcb with
        | some (s, false) => some s
        | _ => none
      | _ => none

/-- `sched_blocked_setpriority`. -/
def schedBlockedSetpriority (s : Tasks) (tcb priority : Nat) : Option Tasks :=
  match (s.taskState tcb).tasklist with
  | none => some (s.setPriority tcb priority)
  | some l =>
    if l.prioritized then
      match schedAddprioritized
          ((s.setList l ((s.list l).erase tcb)).setPriority tcb priority) tcb l with
      | none => none
      | some (s, _) => some s
    else some (s.setPriority tcb priority)

/-- `sched_setpriority`. The result is true for OK and false for EINVAL. -/
def schedSetpriority (s : Tasks) (tcb : Nat) (priority : Int) : Option (Tasks × Bool) :=
  if priority < schedPriorityMin ∨ schedPriorityMax < priority then some (s, false)
  else
    let set := match s.taskState tcb with
      | .running => schedRunningSetpriority s tcb priority.toNat
      | .readytorun => schedReadytorunSetpriority s tcb priority.toNat
      | _ => schedBlockedSetpriority s tcb priority.toNat
    set.map fun s => (s, true)

/-- `sched_lock`, called by a task. -/
def schedLock (s : Tasks) : Tasks :=
  match s.thisTask with
  | none => s
  | some rtcb => s.setLockcount rtcb (wrap16 (s.lockcount rtcb + 1))

/-- `sched_unlock`, called by a task. -/
def schedUnlock (s : Tasks) : Option Tasks :=
  match s.thisTask with
  | none => some s
  | some rtcb =>
    let count := if 0 < s.lockcount rtcb then s.lockcount rtcb - 1 else s.lockcount rtcb
    if count ≤ 0 then
      let s := s.setLockcount rtcb 0
      if s.list .pendingtasks = [] then some s else upReleasePending s
    else some (s.setLockcount rtcb count)

/-- `thread_schedsetup` for the pid that `task_assignpid` found: it is not in use, and
positive as a `pid_t`, which has 16 bits. `priority` is the argument of type `int`. -/
def threadSchedsetup (s : Tasks) (pid : Nat) (priority : Int) : Option Tasks :=
  if pid ∈ s.pids ∨ 2 ^ 15 ≤ pid then none
  else
    let s := (s.setPids (pid :: s.pids)).setPriority pid (priority % 256).toNat
    let s := schedLock ((s.setLockcount pid 0).setState pid .invalid)
    let s := (s.setList .inactivetasks (pid :: s.list .inactivetasks)).arrive pid
    schedUnlock (s.setState pid .inactive)

/-- The scheduler's part of `task_terminate`, for a task that is not the running one. -/
def taskTerminate (s : Tasks) (dtcb : Nat) : Option Tasks :=
  if dtcb = idle ∨ s.taskState dtcb = .running then none
  else
    match (s.taskState dtcb).tasklist with
    | none => none
    | some l =>
      some (((s.setList l ((s.list l).erase dtcb)).setState dtcb .invalid).setPids
        (s.pids.erase dtcb))

/-- The state `os_start` leaves: the IDLE task runs. -/
def osStart : Tasks where
  schedPriority := fun _ => 0
  lockcount := fun _ => 0
  taskState := fun tcb => if tcb = idle then .running else .invalid
  list := fun l => if l = .readytorun then [idle] else []
  pids := [idle]
  context := idle
  arrived := fun _ => 0
  clock := 1

/-- What the scheduler is asked for: a task is set up, the running task blocks, a task
is unblocked, a priority is set, a ready-to-run task is put at the end of its priority
or given another one, preemption is locked and unlocked, and a task is deleted. -/
inductive SchedAct where
  | setup (pid : Nat) (priority : Int)
  | block (wait : { st : TState // st.isWait = true })
  | unblock (tcb : Nat)
  | setpriority (tcb : Nat) (priority : Int)
  | reprioritize (tcb priority : Nat)
  | lock
  | unlock
  | terminate (tcb : Nat)
  deriving DecidableEq

/-- One request. -/
def Tasks.step (s : Tasks) : SchedAct → Option Tasks
  | .setup pid priority => threadSchedsetup s pid priority
  | .block wait =>
    match s.thisTask with
    | none => none
    | some rtcb => upBlockTask s rtcb wait.1
  | .unblock tcb => upUnblockTask s tcb
  | .setpriority tcb priority => (schedSetpriority s tcb priority).map Prod.fst
  | .reprioritize tcb priority => upReprioritizeRtr s tcb priority
  | .lock => some (schedLock s)
  | .unlock => schedUnlock s
  | .terminate tcb => taskTerminate s tcb

end NbLot.Source.Sched
