import NbLot.Source.Sched.System

/-!
# Counting semaphores

Source: nuttx/sched/semaphore/sem_wait.c, sem_trywait.c, sem_post.c, sem_waitirq.c,
sem_reset.c, sem_recover.c; nuttx/sched/task/task_terminate.c:117-208,
task_exithook.c:656; without CONFIG_PRIORITY_INHERITANCE and
CONFIG_CANCELLATION_POINTS. Each function works in one critical section, over the
scheduler of `NbLot.Source.Sched`; what is left of `sem_wait` when a blocked task runs
again is a step of its own. Semaphores are numbered.
-/
namespace NbLot.Source.Sem

open Source.Sched

/-- The values of `pterrno` that the semaphores set. -/
inductive Errno where
  | ok
  | eintr
  | eagain
  | etimedout
  deriving DecidableEq, Repr

/-- `SEM_VALUE_MAX`. -/
def semValueMax : Int := 0x7fff

/-- The scheduler, the fields `waitsem` and `pterrno` of the TCBs, the counts of the
semaphores, and for a task that is inside `up_block_task` of `sem_wait`, the semaphore.
`acquired` is not in the source: it counts the calls of `sem_wait` and `sem_trywait` that
returned OK. -/
structure SemSys where
  tasks : Tasks
  waitsem : Nat → Option Nat
  pterrno : Nat → Errno
  semcount : Nat → Int
  inWait : Nat → Option Nat
  acquired : Nat → Nat

namespace SemSys

@[simps]
def setTasks (s : SemSys) (tasks : Tasks) : SemSys :=
  { s with tasks := tasks }

@[simps]
def setWaitsem (s : SemSys) (tcb : Nat) (sem : Option Nat) : SemSys :=
  { s with waitsem := Function.update s.waitsem tcb sem }

@[simps]
def setErrno (s : SemSys) (tcb : Nat) (errcode : Errno) : SemSys :=
  { s with pterrno := Function.update s.pterrno tcb errcode }

@[simps]
def setCount (s : SemSys) (sem : Nat) (count : Int) : SemSys :=
  { s with semcount := Function.update s.semcount sem count }

@[simps]
def setInWait (s : SemSys) (tcb : Nat) (sem : Option Nat) : SemSys :=
  { s with inWait := Function.update s.inWait tcb sem }

@[simps]
def acquire (s : SemSys) (sem : Nat) : SemSys :=
  { s with acquired := Function.update s.acquired sem (s.acquired sem + 1) }

end SemSys

/-- `sem_wait` up to its return or to the context switch. -/
def semWait (s : SemSys) (sem : Nat) : Option SemSys :=
  match s.tasks.thisTask with
  | none => none
  | some rtcb =>
    if 0 < s.semcount sem then
      some (((s.setCount sem (s.semcount sem - 1)).setWaitsem rtcb none).acquire sem)
    else if s.waitsem rtcb ≠ none then none
    else
      let s := (s.setCount sem (wrap16 (s.semcount sem - 1))).setWaitsem rtcb (some sem)
      let s := (s.setErrno rtcb .ok).setInWait rtcb (some sem)
      match upBlockTask s.tasks rtcb .waitSem with
      | none => none
      | some tasks => some (s.setTasks tasks)

/-- `sem_wait` behind `up_block_task`, when its task runs again: OK unless the wait was
interrupted. -/
def semWaitReturn (s : SemSys) : Option SemSys :=
  match s.tasks.thisTask with
  | none => none
  | some rtcb =>
    match s.inWait rtcb with
    | none => none
    | some sem =>
      let returned := s.setInWait rtcb none
      if s.pterrno rtcb ≠ .eintr ∧ s.pterrno rtcb ≠ .etimedout then some (returned.acquire sem)
      else some returned

/-- `sem_trywait`. -/
def semTrywait (s : SemSys) (sem : Nat) : Option SemSys :=
  match s.tasks.thisTask with
  | none => none
  | some rtcb =>
    if 0 < s.semcount sem then
      some (((s.setCount sem (s.semcount sem - 1)).setWaitsem rtcb none).acquire sem)
    else some (s.setErrno rtcb .eagain)

/-- `sem_post`. -/
def semPost (s : SemSys) (sem : Nat) : Option SemSys :=
  if semValueMax ≤ s.semcount sem then none
  else
    let s := s.setCount sem (s.semcount sem + 1)
    if s.semcount sem ≤ 0 then
      match (s.tasks.list .waitingforsemaphore).find? (fun stcb => s.waitsem stcb = some sem) with
      | none => some s
      | some stcb =>
        let s := s.setWaitsem stcb none
        match upUnblockTask s.tasks stcb with
        | none => none
        | some tasks => some (s.setTasks tasks)
    else some s

/-- The loop of `sem_reset`: the counts are posted one by one while tasks wait. -/
def resetLoop (s : SemSys) (sem : Nat) : Nat → Option (SemSys × Nat)
  | 0 => some (s, 0)
  | count + 1 =>
    if s.semcount sem < 0 then
      match semPost s sem with
      | none => none
      | some s => resetLoop s sem count
    else some (s, count + 1)

/-- `sem_reset`; from an interrupt handler `sched_lock` and `sched_unlock` do nothing. -/
def semReset (s : SemSys) (sem count : Nat) (irq : Bool) : Option SemSys :=
  match resetLoop (if irq then s else s.setTasks (schedLock s.tasks)) sem count with
  | none => none
  | some (s, count) =>
    let s := if 0 ≤ s.semcount sem then s.setCount sem count else s
    if irq then some s else (schedUnlock s.tasks).map s.setTasks

/-- `sem_waitirq`. -/
def semWaitirq (s : SemSys) (wtcb : Nat) (errcode : Errno) : Option SemSys :=
  if s.tasks.taskState wtcb = .waitSem then
    match s.waitsem wtcb with
    | none => none
    | some sem =>
      let s := s.setCount sem (wrap16 (s.semcount sem + 1))
      let s := (s.setWaitsem wtcb none).setErrno wtcb errcode
      (upUnblockTask s.tasks wtcb).map s.setTasks
  else some s

/-- `sem_recover`. -/
def semRecover (s : SemSys) (tcb : Nat) : Option SemSys :=
  if s.tasks.taskState tcb = .waitSem then
    match s.waitsem tcb with
    | none => none
    | some sem => some ((s.setCount sem (wrap16 (s.semcount sem + 1))).setWaitsem tcb none)
  else some s

/-- `task_terminate`: the task is taken off its list and its state is set before
`task_exithook` calls `sem_recover`. -/
def taskDelete (s : SemSys) (dtcb : Nat) : Option SemSys :=
  match taskTerminate s.tasks dtcb with
  | none => none
  | some tasks => semRecover (s.setTasks tasks) dtcb

/-- What happens to the semaphores: the running task waits, returns from a wait, tries;
a task or an interrupt handler posts or resets; a wait is interrupted by a signal or a
timeout; a task is deleted; anything else the scheduler does. -/
inductive SemAct where
  | wait (sem : Nat)
  | waitReturn
  | trywait (sem : Nat)
  | post (sem : Nat)
  | reset (sem count : Nat) (irq : Bool)
  | interrupted (tcb : Nat)
  | timeout (tcb : Nat)
  | delete (tcb : Nat)
  | sched (a : SchedAct)
  deriving DecidableEq

/-- The running task is not inside `sem_wait`. -/
def SemSys.calls (s : SemSys) : Bool :=
  match s.tasks.thisTask with
  | none => false
  | some rtcb => s.inWait rtcb = none

/-- The scheduler's other requests: they neither block a task on a semaphore nor touch
one that is blocked there, and the TCB of a new task is cleared. -/
def semSched (s : SemSys) : SchedAct → Option SemSys
  | .setup pid p => (threadSchedsetup s.tasks pid p).map fun tasks =>
    (((s.setTasks tasks).setWaitsem pid none).setErrno pid .ok).setInWait pid none
  | .block wait =>
    if s.calls ∧ wait.1 ≠ .waitSem then (s.tasks.step (.block wait)).map s.setTasks else none
  | .unblock tcb =>
    if s.tasks.taskState tcb ≠ .waitSem then (upUnblockTask s.tasks tcb).map s.setTasks else none
  | .setpriority tcb p =>
    if s.tasks.taskState tcb ≠ .waitSem then
      (s.tasks.step (.setpriority tcb p)).map s.setTasks
    else none
  | .reprioritize tcb p => (upReprioritizeRtr s.tasks tcb p).map s.setTasks
  | .lock => some (s.setTasks (schedLock s.tasks))
  | .unlock => (schedUnlock s.tasks).map s.setTasks
  | .terminate _ => none

/-- One step. -/
def SemSys.step (s : SemSys) : SemAct → Option SemSys
  | .wait sem => if s.calls then semWait s sem else none
  | .waitReturn => semWaitReturn s
  | .trywait sem => if s.calls then semTrywait s sem else none
  | .post sem => semPost s sem
  | .reset sem count irq => if count ≤ 0x7fff then semReset s sem count irq else none
  | .interrupted tcb => semWaitirq s tcb .eintr
  | .timeout tcb => semWaitirq s tcb .etimedout
  | .delete tcb => taskDelete s tcb
  | .sched a => semSched s a

/-- The counts the step gives to the semaphore. -/
def SemAct.gives (sem : Nat) : SemAct → Nat
  | .post k => if k = sem then 1 else 0
  | .reset k count _ => if k = sem then count else 0
  | _ => 0

/-- Boot, with semaphores initialised to the given counts. -/
def semStart (init : Nat → Nat) : SemSys where
  tasks := osStart
  waitsem := fun _ => none
  pterrno := fun _ => .ok
  semcount := fun sem => init sem
  inWait := fun _ => none
  acquired := fun _ => 0

end NbLot.Source.Sem
