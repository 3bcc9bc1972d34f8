import NbLot.Lib.Inheritance
import NbLot.Source.Sem.Model

/-!
# Semaphores with priority inheritance

Source: nuttx/sched/semaphore/sem_holder.c, sem_wait.c, sem_trywait.c, sem_post.c,
sem_waitirq.c; nuttx/sched/sched/sched_reprioritize.c; with CONFIG_PRIORITY_INHERITANCE,
CONFIG_SEM_PREALLOCHOLDERS > 0 and CONFIG_SEM_NNESTPRIO > 0, for semaphores with
inheritance enabled, and with as many holder slots and pending priorities as are asked
for. No task is deleted here, so that `sched_verifytcb` holds of every holder.

A task that lowers its own priority may be switched out inside `sched_reprioritize`.
What is left of its `sem_post` then is a step of its own.
-/
namespace NbLot.Source.Sem

open Lib.Inheritance Source.Sched

/-- `struct semholder_s`; `counts` is not negative. -/
structure Holder where
  htcb : Nat
  counts : Nat
  deriving DecidableEq, Repr

/-- The semaphores with the lists at `hhead` and the fields `base_priority` and
`pend_reprios` of the TCBs, the latter up to `npend_reprio`. `inPost` tells which tasks
were switched out inside `sem_restoreholderprioB`, and what `sched_reprioritize` has still
to store. `held` is not in the source: the semaphores of which a task has acquired a
count that it has not posted. -/
structure PiSys extends SemSys where
  basePriority : Nat → Nat
  pendReprios : Nat → List Nat
  holders : Nat → List Holder
  inPost : Nat → Option (Nat × Option Nat)
  held : Nat → List Nat

namespace PiSys

@[simps toSemSys basePriority pendReprios holders inPost held]
def setSem (s : PiSys) (sem : SemSys) : PiSys :=
  { s with toSemSys := sem }

@[simps toSemSys basePriority pendReprios holders inPost held]
def setBase (s : PiSys) (tcb priority : Nat) : PiSys :=
  { s with basePriority := Function.update s.basePriority tcb priority }

@[simps toSemSys basePriority pendReprios holders inPost held]
def setPend (s : PiSys) (tcb : Nat) (pend : List Nat) : PiSys :=
  { s with pendReprios := Function.update s.pendReprios tcb pend }

@[simps toSemSys basePriority pendReprios holders inPost held]
def setHolders (s : PiSys) (sem : Nat) (holders : List Holder) : PiSys :=
  { s with holders := Function.update s.holders sem holders }

@[simps toSemSys basePriority pendReprios holders inPost held]
def setInPost (s : PiSys) (tcb : Nat) (post : Option (Nat × Option Nat)) : PiSys :=
  { s with inPost := Function.update s.inPost tcb post }

@[simps toSemSys basePriority pendReprios holders inPost held]
def setHeld (s : PiSys) (tcb : Nat) (held : List Nat) : PiSys :=
  { s with held := Function.update s.held tcb held }

/-- The scheduler's part of the state changes. -/
@[simps! toSemSys basePriority pendReprios holders inPost held]
def schedule (s : PiSys) (tasks : Tasks) : PiSys :=
  s.setSem (s.toSemSys.setTasks tasks)

/-- The tasks on the list of holders. -/
def holderTcbs (s : PiSys) (sem : Nat) : List Nat :=
  (s.holders sem).map Holder.htcb

end PiSys

/-- `sched_reprioritize` up to the return of `sched_setpriority`, with what it then has
to store as the base priority. -/
def schedReprioritize (s : PiSys) (tcb priority : Nat) : Option (PiSys × Option Nat) :=
  match schedSetpriority s.tasks tcb priority with
  | none => none
  | some (tasks, ok) => some (s.schedule tasks, if ok then some priority else none)

/-- The rest of `sched_reprioritize`. -/
def storeBase (s : PiSys) (tcb : Nat) : Option Nat → PiSys
  | none => s
  | some priority => (s.setBase tcb priority).setPend tcb []

/-- `sem_boostholderprio` for the holder `htcb`, when `rtcb` is about to block. -/
def semBoostholderprio (s : PiSys) (rtcb htcb : Nat) : Option PiSys :=
  let priority := s.tasks.schedPriority rtcb
  if s.basePriority htcb < priority then
    if s.tasks.schedPriority htcb < priority then
      let s :=
        if s.basePriority htcb < s.tasks.schedPriority htcb then
          s.setPend htcb (s.pendReprios htcb ++ [s.tasks.schedPriority htcb])
        else s
      (schedSetpriority s.tasks htcb priority).map fun ret => s.schedule ret.1
    else some (s.setPend htcb (s.pendReprios htcb ++ [priority]))
  else some s

/-- `sem_restoreholderprio` for the holder `htcb`, when `stcb` waits no longer; with what
`sched_reprioritize` has still to store. -/
def semRestoreholderprio (s : PiSys) (htcb stcb : Nat) : Option (PiSys × Option Nat) :=
  if s.tasks.schedPriority htcb ≠ s.basePriority htcb then
    if s.pendReprios htcb = [] then schedReprioritize s htcb (s.basePriority htcb)
    else if s.tasks.schedPriority htcb ≤ s.tasks.schedPriority stcb then
      let rpriority := highest (s.pendReprios htcb)
      let s := s.setPend htcb (swapRemove (s.pendReprios htcb) rpriority)
      (schedSetpriority s.tasks htcb rpriority).map fun ret => (s.schedule ret.1, none)
    else
      some (s.setPend htcb (swapRemove (s.pendReprios htcb) (s.tasks.schedPriority stcb)), none)
  else some (s, none)

/-- `sem_boostpriority`: the loop over the holders. -/
def semBoostpriority (s : PiSys) (rtcb : Nat) : List Nat → Option PiSys
  | [] => some s
  | htcb :: rest =>
    match semBoostholderprio s rtcb htcb with
    | none => none
    | some s => semBoostpriority s rtcb rest

/-- The loop over the holders with `sem_restoreholderprioall` or
`sem_restoreholderprioA`. -/
def semRestoreholderprioall (s : PiSys) (stcb : Nat) : List Nat → Option PiSys
  | [] => some s
  | htcb :: rest =>
    match semRestoreholderprio s htcb stcb with
    | none => none
    | some (s, base) => semRestoreholderprioall (storeBase s htcb base) stcb rest

/-- `sem_addholder_tcb`. -/
def semAddholderTcb (s : PiSys) (htcb sem : Nat) : PiSys :=
  if htcb ∈ s.holderTcbs sem then
    s.setHolders sem ((s.holders sem).map fun holder =>
      if holder.htcb = htcb then { holder with counts := holder.counts + 1 } else holder)
  else s.setHolders sem (⟨htcb, 1⟩ :: s.holders sem)

/-- `sem_releaseholder`. -/
def semReleaseholder (s : PiSys) (rtcb sem : Nat) : PiSys :=
  s.setHolders sem ((s.holders sem).map fun holder =>
    if holder.htcb = rtcb then { holder with counts := holder.counts - 1 } else holder)

/-- `sem_findandfreeholder`. -/
def semFindandfreeholder (s : PiSys) (htcb sem : Nat) : PiSys :=
  s.setHolders sem ((s.holders sem).filter fun holder =>
    !(holder.htcb = htcb ∧ holder.counts = 0))

/-- `sem_wait` up to its return or to the context switch. -/
def piWait (s : PiSys) (sem : Nat) : Option PiSys :=
  match s.tasks.thisTask with
  | none => none
  | some rtcb =>
    if 0 < s.semcount sem then
      let s := s.setSem (s.setCount sem (s.semcount sem - 1))
      let s := semAddholderTcb s rtcb sem
      let s := s.setSem ((s.setWaitsem rtcb none).acquire sem)
      some (s.setHeld rtcb (sem :: s.held rtcb))
    else if s.waitsem rtcb ≠ none then none
    else
      let s := s.setSem ((s.setCount sem (wrap16 (s.semcount sem - 1))).setWaitsem rtcb (some sem))
      match semBoostpriority (s.schedule (schedLock s.tasks)) rtcb (s.holderTcbs sem) with
      | none => none
      | some s =>
        let s := s.setSem ((s.setErrno rtcb .ok).setInWait rtcb (some sem))
        (upBlockTask s.tasks rtcb .waitSem).map s.schedule

/-- `sem_wait` behind `up_block_task`. -/
def piWaitReturn (s : PiSys) : Option PiSys :=
  match semWaitReturn s.toSemSys with
  | none => none
  | some sem => (schedUnlock sem.tasks).map (s.setSem sem).schedule

/-- `sem_trywait`. -/
def piTrywait (s : PiSys) (sem : Nat) : Option PiSys :=
  match s.tasks.thisTask, semTrywait s.toSemSys sem with
  | some rtcb, some tried =>
    if 0 < s.semcount sem then some ((s.setSem tried).setHeld rtcb (sem :: s.held rtcb))
    else some (s.setSem tried)
  | _, _ => none

/-- The part of `sem_post` that raises the count and hands it to the first waiting task,
which is returned. -/
def grantFirst (s : PiSys) (sem : Nat) : Option (PiSys × Option Nat) :=
  let s := s.setSem (s.setCount sem (s.semcount sem + 1))
  if s.semcount sem ≤ 0 then
    match (s.tasks.list .waitingforsemaphore).find? (fun stcb => s.waitsem stcb = some sem) with
    | none => some (s, none)
    | some stcb =>
      let s := (semAddholderTcb s stcb sem).setHeld stcb (sem :: s.held stcb)
      let s := s.setSem (s.setWaitsem stcb none)
      (upUnblockTask s.tasks stcb).map fun tasks => (s.schedule tasks, some stcb)
  else some (s, none)

/-- The end of a task's `sem_post`: the rest of `sched_reprioritize`, the holder slot and
the preemption lock. -/
def postEnd (s : PiSys) (rtcb sem : Nat) (base : Option Nat) : Option PiSys :=
  let s := semFindandfreeholder (storeBase s rtcb base) rtcb sem
  (schedUnlock s.tasks).map s.schedule

/-- `sem_post` of the running task, up to its return or to the context switch. The other
holders are restored first, and then the task itself if it is a holder. -/
def piPost (s : PiSys) (sem : Nat) : Option PiSys :=
  match s.tasks.thisTask with
  | none => none
  | some rtcb =>
    if semValueMax ≤ s.semcount sem then none
    else
      let s := semReleaseholder s rtcb sem
      match grantFirst (s.schedule (schedLock s.tasks)) sem with
      | none => none
      | some (s, none) => postEnd (s.setHeld rtcb ((s.held rtcb).erase sem)) rtcb sem none
      | some (s, some stcb) =>
        match semRestoreholderprioall s stcb ((s.holderTcbs sem).filter (· ≠ rtcb)) with
        | none => none
        | some s =>
          if rtcb ∈ s.holderTcbs sem then
            match semRestoreholderprio s rtcb stcb with
            | none => none
            | some (s, base) =>
              let s := s.setHeld rtcb ((s.held rtcb).erase sem)
              if s.tasks.thisTask = some rtcb then postEnd s rtcb sem base
              else some (s.setInPost rtcb (some (sem, base)))
          else postEnd (s.setHeld rtcb ((s.held rtcb).erase sem)) rtcb sem none

/-- The task that was switched out inside `sem_post` goes on. -/
def piPostReturn (s : PiSys) : Option PiSys :=
  match s.tasks.thisTask with
  | none => none
  | some rtcb =>
    match s.inPost rtcb with
    | none => none
    | some (sem, base) => postEnd (s.setInPost rtcb none) rtcb sem base

/-- `sem_post` of an interrupt handler; `sem_releaseholder` takes the interrupted task for
the one that posts. -/
def piPostIrq (s : PiSys) (sem : Nat) : Option PiSys :=
  match s.tasks.thisTask with
  | none => none
  | some rtcb =>
    if semValueMax ≤ s.semcount sem then none
    else
      match grantFirst (semReleaseholder s rtcb sem) sem with
      | none => none
      | some (s, none) => some s
      | some (s, some stcb) => semRestoreholderprioall s stcb (s.holderTcbs sem)

/-- `sem_waitirq`. A task that calls it and is switched out in the middle of the loop over
the holders is not followed further. -/
def piWaitirq (s : PiSys) (wtcb : Nat) (errcode : Errno) (irq : Bool) : Option PiSys :=
  if s.tasks.taskState wtcb = .waitSem then
    match s.waitsem wtcb with
    | none => none
    | some sem =>
      match semRestoreholderprioall s wtcb (s.holderTcbs sem) with
      | none => none
      | some restored =>
        if irq = false ∧ restored.tasks.thisTask ≠ s.tasks.thisTask then none
        else
          let s := restored.setSem (restored.setCount sem (wrap16 (restored.semcount sem + 1)))
          let s := s.setSem ((s.setWaitsem wtcb none).setErrno wtcb errcode)
          (upUnblockTask s.tasks wtcb).map s.schedule
  else some s

/-- The running task is not inside a semaphore function. -/
def PiSys.free (s : PiSys) : Bool :=
  match s.tasks.thisTask with
  | none => false
  | some rtcb => s.inWait rtcb = none ∧ s.inPost rtcb = none

/-- The scheduler's other requests. The TCB of a new task is cleared, and priorities are
set by inheritance only: a task is reprioritized to go behind those of its priority. -/
def piSched (s : PiSys) : SchedAct → Option PiSys
  | .setup pid p =>
    (semSched s.toSemSys (.setup pid p)).map fun sem =>
      let s := ((s.setSem sem).setBase pid (sem.tasks.schedPriority pid)).setPend pid []
      s.setInPost pid none
  | .block wait =>
    if s.free then (semSched s.toSemSys (.block wait)).map s.setSem else none
  | .reprioritize tcb p =>
    if p = s.tasks.schedPriority tcb then
      (semSched s.toSemSys (.reprioritize tcb p)).map s.setSem
    else none
  | .setpriority _ _ => none
  | a => (semSched s.toSemSys a).map s.setSem

/-- What happens: the running task waits, returns from a wait, tries, posts or goes on
with a post; an interrupt handler posts; a wait is interrupted by an interrupt handler
(a timeout or a signal) or by a signal of the running task; anything else the scheduler
does. -/
inductive PiAct where
  | wait (sem : Nat)
  | waitReturn
  | trywait (sem : Nat)
  | post (sem : Nat)
  | postReturn
  | postIrq (sem : Nat)
  | interrupted (tcb : Nat) (errcode : Errno)
  | signalled (tcb : Nat)
  | sched (a : SchedAct)
  deriving DecidableEq

/-- One step. -/
def PiSys.step (s : PiSys) : PiAct → Option PiSys
  | .wait sem => if s.free then piWait s sem else none
  | .waitReturn => piWaitReturn s
  | .trywait sem => if s.free then piTrywait s sem else none
  | .post sem => if s.free then piPost s sem else none
  | .postReturn => piPostReturn s
  | .postIrq sem => piPostIrq s sem
  | .interrupted tcb errcode => piWaitirq s tcb errcode true
  | .signalled tcb => if s.free then piWaitirq s tcb .eintr false else none
  | .sched a => piSched s a

/-- Boot, with semaphores initialised to the given counts. -/
def piStart (init : Nat → Nat) : PiSys where
  toSemSys := semStart init
  basePriority := fun _ => 0
  pendReprios := fun _ => []
  holders := fun _ => []
  inPost := fun _ => none
  held := fun _ => []

end NbLot.Source.Sem
