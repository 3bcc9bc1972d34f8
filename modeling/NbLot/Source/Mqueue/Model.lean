import NbLot.Lib.Mailbox
import NbLot.Source.Sched.System

/-!
# Message queues

Source: nuttx/sched/mqueue/mq_sndinternal.c, mq_send.c, mq_timedsend.c, mq_rcvinternal.c,
mq_receive.c, mq_timedreceive.c, mq_waitirq.c, mq_msgfree.c, mq_initialize.c, mqueue.h;
the configuration nuttx/.config: CONFIG_MQ_MAXMSGSIZE=32, CONFIG_PREALLOC_MQ_MSGS=4,
without CONFIG_CANCELLATION_POINTS. Queues are numbered, and so are the message
structures, which stand for their addresses.

A critical section is one step, and so is an interrupt handler, which runs with
interrupts disabled (up_exception.S). Where a task is between two critical sections, or
inside `up_block_task`, is recorded in `pc`. The notification of `mq_notify` is left out:
it sends a signal, which is a step of its own here, and does not touch the queue. No task
is deleted. `none` is a failed ASSERT or a step that is not the task's next one.
-/
namespace NbLot.Source.Mqueue

open Lib.Mailbox Source.Sched

/-- `enum mqalloc_e`. -/
inductive MqAlloc where
  | fixed
  | dyn
  | irq
  deriving DecidableEq, Repr

/-- The values of `pterrno` that the message queues set. -/
inductive Errno where
  | ok
  | einval
  | eperm
  | emsgsize
  | enomem
  | eagain
  | eintr
  | etimedout
  deriving DecidableEq, Repr

/-- `MQ_MAX_BYTES`, `MQ_PRIO_MAX`, `CONFIG_PREALLOC_MQ_MSGS` and `NUM_INTERRUPT_MSGS`. -/
def mqMaxBytes : Nat := 32
def mqPrioMax : Nat := 255
def preallocMqMsgs : Nat := 4
def numInterruptMsgs : Nat := 8

/-- The structures that are allocated when the system starts. -/
def numPrealloc : Nat := preallocMqMsgs + numInterruptMsgs

/-- No more structures than this fit in the memory: they have 40 bytes, and the heap is in
the two RAMs of the board, CONFIG_RAM_SIZE=98304 and 32 KiB more. -/
def dynMsgsMax : Nat := (98304 + 32768) / 40

/-- `MAX_LOCK_COUNT`. -/
def maxLockCount : Int := 127

/-- `struct mqueue_msg_s` without its link. -/
structure MqMsg where
  type : MqAlloc
  priority : Nat
  msglen : Nat
  mail : List UInt8

/-- The fields of `struct mqueue_inode_s` that `mq_msgqalloc` sets. -/
structure MqAttr where
  maxmsgs : Int
  maxmsgsize : Nat
  maxmsgsize_le : maxmsgsize ≤ mqMaxBytes

/-- `struct mq_des`: the queue and the flags O_RDOK, O_WROK and O_NONBLOCK. -/
structure MqDes where
  msgq : Nat
  rdok : Bool
  wrok : Bool
  nonblock : Bool
  deriving DecidableEq, Repr

/-- The arguments of a send that `mq_verifysend` has accepted. -/
structure Outgoing where
  msgq : Nat
  nonblock : Bool
  msg : List UInt8
  prio : Nat
  msg_le : msg.length ≤ mqMaxBytes
  prio_le : prio ≤ mqPrioMax
  deriving DecidableEq

/-- A message that was sent. -/
structure Message where
  msgq : Nat
  msg : List UInt8
  prio : Nat
  deriving DecidableEq, Repr

def Outgoing.message (o : Outgoing) : Message :=
  ⟨o.msgq, o.msg, o.prio⟩

/-- What a receive returns: the message, and which one of those sent it is. The latter is
not in the source. -/
abbrev Receipt := Item Message

/-- What a call returns. -/
inductive Result where
  | ok
  | error (errcode : Errno)
  | received (r : Receipt)
  deriving DecidableEq, Repr

/-- What tasks wait for. -/
inductive Wait where
  | notfull
  | notempty
  deriving DecidableEq, Repr

def Wait.state : Wait → TState
  | .notfull => .waitMqnotfull
  | .notempty => .waitMqnotempty

/-- `g_waitingformqnotfull` and `g_waitingformqnotempty`. -/
def Wait.list : Wait → TaskList
  | .notfull => .waitingformqnotfull
  | .notempty => .waitingformqnotempty

/-- Where a task is: outside the message queues; in `mq_timedsend` in front of
`sched_lock`, and behind its test that found the queue full; inside `up_block_task` of
`mq_waitsend`, with the structure that `mq_timedsend` has allocated already; in `mq_send`
in front of `mq_msgalloc`; in front of `mq_dosend`, and inside it in front of the second
critical section; at the label `errout_with_mqmsg`; inside `up_block_task` of
`mq_waitreceive`; in front of `mq_doreceive`, and inside it in front of and behind the
test of `nwaitnotfull`; in front of the `sched_unlock` that ends the call. -/
inductive Pc where
  | idle
  | room (o : Outgoing) (mqmsg : Nat) (late : Option Errno)
  | full (o : Outgoing) (mqmsg : Nat)
  | waitsend (o : Outgoing) (mqmsg : Option Nat)
  | alloc (o : Outgoing)
  | dosend (o : Outgoing) (mqmsg : Nat)
  | wake (msgq : Nat)
  | errout (mqmsg : Nat) (errcode : Errno)
  | waitreceive (msgq : Nat)
  | doreceive (msgq mqmsg : Nat)
  | check (r : Receipt)
  | wakesender (r : Receipt)
  | ret (result : Result)
  deriving DecidableEq

/-- The queues, the message structures, the lists of free ones, the structures allocated
from the heap, and where the tasks are. Not in the source are `sent`, the messages in the
order they entered the queues, `ident`, which of them a structure carries, and `returned`,
what the calls of `mq_receive` and `mq_timedreceive` have returned. -/
structure MqData where
  pc : Nat → Pc
  attr : Nat → MqAttr
  msglist : Nat → List Nat
  nmsgs : Nat → Int
  mqmsg : Nat → MqMsg
  msgfree : List Nat
  msgfreeirq : List Nat
  heap : List Nat
  sent : List Message
  ident : Nat → Nat
  returned : List Receipt

namespace MqData

@[simps]
def setPc (d : MqData) (tcb : Nat) (pc : Pc) : MqData :=
  { d with pc := Function.update d.pc tcb pc }

/-- A list of messages and its count. -/
@[simps]
def setMsglist (d : MqData) (msgq : Nat) (msglist : List Nat) (nmsgs : Int) : MqData :=
  { d with
    msglist := Function.update d.msglist msgq msglist
    nmsgs := Function.update d.nmsgs msgq nmsgs }

@[simps]
def setMqmsg (d : MqData) (mqmsg : Nat) (m : MqMsg) : MqData :=
  { d with mqmsg := Function.update d.mqmsg mqmsg m }

@[simps]
def setMsgfree (d : MqData) (msgfree : List Nat) : MqData :=
  { d with msgfree := msgfree }

@[simps]
def setMsgfreeirq (d : MqData) (msgfreeirq : List Nat) : MqData :=
  { d with msgfreeirq := msgfreeirq }

@[simps]
def setHeap (d : MqData) (heap : List Nat) : MqData :=
  { d with heap := heap }

/-- A structure carries a new message into a queue. -/
@[simps]
def logSent (d : MqData) (mqmsg : Nat) (message : Message) : MqData :=
  { d with
    sent := d.sent ++ [message]
    ident := Function.update d.ident mqmsg d.sent.length }

/-- A receive returns. -/
@[simps]
def logReturned (d : MqData) (r : Receipt) : MqData :=
  { d with returned := d.returned ++ [r] }

/-- What `mq_doreceive` copies out of a structure. -/
def receipt (d : MqData) (msgq mqmsg : Nat) : Receipt where
  ident := d.ident mqmsg
  message :=
    ⟨msgq, (d.mqmsg mqmsg).mail.take (d.mqmsg mqmsg).msglen, (d.mqmsg mqmsg).priority⟩

end MqData

/-- `mq_verifysend`. -/
def mqVerifysend (d : MqData) (mqdes : Option MqDes) (msg : Option (List UInt8)) (prio : Int) :
    Except Errno Outgoing :=
  match mqdes, msg with
  | some mqdes, some msg =>
    if hprio : 0 ≤ prio ∧ prio ≤ mqPrioMax then
      if mqdes.wrok = false then .error .eperm
      else if hlen : msg.length ≤ (d.attr mqdes.msgq).maxmsgsize then
        .ok ⟨mqdes.msgq, mqdes.nonblock, msg, prio.toNat,
          hlen.trans (d.attr mqdes.msgq).maxmsgsize_le, by omega⟩
      else .error .emsgsize
    else .error .einval
  | _, _ => .error .einval

/-- `mq_verifyreceive`; `msg` tells whether the pointer to the buffer is not NULL. -/
def mqVerifyreceive (d : MqData) (mqdes : Option MqDes) (msg : Bool) (msglen : Nat) :
    Except Errno MqDes :=
  match mqdes, msg with
  | some mqdes, true =>
    if mqdes.rdok = false then .error .eperm
    else if msglen < (d.attr mqdes.msgq).maxmsgsize then .error .emsgsize
    else .ok mqdes
  | _, _ => .error .einval

/-- `mq_msgalloc` of a task; `fresh` is what `kmm_malloc` returns if it is called. -/
def mqMsgalloc (d : MqData) (fresh : Option Nat) : MqData × Option Nat :=
  match d.msgfree with
  | mqmsg :: msgfree => (d.setMsgfree msgfree, some mqmsg)
  | [] =>
    match fresh with
    | none => (d, none)
    | some mqmsg =>
      ((d.setHeap (mqmsg :: d.heap)).setMqmsg mqmsg { d.mqmsg mqmsg with type := .dyn },
        some mqmsg)

/-- `mq_msgalloc` of an interrupt handler. -/
def mqMsgallocIrq (d : MqData) : Option (MqData × Nat) :=
  match d.msgfree with
  | mqmsg :: msgfree => some (d.setMsgfree msgfree, mqmsg)
  | [] =>
    match d.msgfreeirq with
    | mqmsg :: msgfreeirq => some (d.setMsgfreeirq msgfreeirq, mqmsg)
    | [] => none

/-- `mq_msgfree`. -/
def mqMsgfree (d : MqData) (mqmsg : Nat) : MqData :=
  match (d.mqmsg mqmsg).type with
  | .fixed => d.setMsgfree (d.msgfree ++ [mqmsg])
  | .irq => d.setMsgfreeirq (d.msgfreeirq ++ [mqmsg])
  | .dyn => d.setHeap (d.heap.erase mqmsg)

/-- The first critical section of `mq_dosend`, with the lines in front of it. -/
def mqInsert (d : MqData) (o : Outgoing) (mqmsg : Nat) : MqData :=
  let m := d.mqmsg mqmsg
  let d := d.setMqmsg mqmsg
    { m with
      priority := o.prio % 256
      msglen := o.msg.length % 256
      mail := o.msg ++ m.mail.drop o.msg.length }
  let msglist := (d.msglist o.msgq).orderedInsert
    (fun _ next => (d.mqmsg next).priority < o.prio) mqmsg
  (d.setMsglist o.msgq msglist (wrap16 (d.nmsgs o.msgq + 1))).logSent mqmsg o.message

/-- The scheduler, the fields `msgwaitq` and `pterrno` of the TCBs, the counts
`nwaitnotfull` and `nwaitnotempty` of the queues, and their other data. -/
structure MqSys where
  tasks : Tasks
  msgwaitq : Nat → Option Nat
  pterrno : Nat → Errno
  nwait : Wait → Nat → Int
  data : MqData

namespace MqSys

@[simps]
def setTasks (s : MqSys) (tasks : Tasks) : MqSys :=
  { s with tasks := tasks }

@[simps]
def setMsgwaitq (s : MqSys) (tcb : Nat) (msgq : Option Nat) : MqSys :=
  { s with msgwaitq := Function.update s.msgwaitq tcb msgq }

@[simps]
def setErrno (s : MqSys) (tcb : Nat) (errcode : Errno) : MqSys :=
  { s with pterrno := Function.update s.pterrno tcb errcode }

@[simps]
def setNwait (s : MqSys) (w : Wait) (msgq : Nat) (n : Int) : MqSys :=
  { s with nwait := Function.update s.nwait w (Function.update (s.nwait w) msgq n) }

@[simps]
def setData (s : MqSys) (data : MqData) : MqSys :=
  { s with data := data }

@[simps! tasks msgwaitq pterrno nwait data]
def setPc (s : MqSys) (tcb : Nat) (pc : Pc) : MqSys :=
  s.setData (s.data.setPc tcb pc)

/-- `sched_lock` and `sched_unlock` of the running task. -/
@[simps! tasks msgwaitq pterrno nwait data]
def lock (s : MqSys) : MqSys :=
  s.setTasks (schedLock s.tasks)

def unlock (s : MqSys) : Option MqSys :=
  (schedUnlock s.tasks).map s.setTasks

end MqSys

/-- The running task goes to wait: the common lines of `mq_waitsend` and
`mq_waitreceive`. -/
def waitFor (s : MqSys) (rtcb : Nat) (w : Wait) (msgq : Nat) (pc : Pc) : Option MqSys :=
  let s := (s.setMsgwaitq rtcb (some msgq)).setNwait w msgq (wrap16 (s.nwait w msgq + 1))
  let s := (s.setErrno rtcb .ok).setPc rtcb pc
  (upBlockTask s.tasks rtcb w.state).map s.setTasks

/-- A task that waits is unblocked: the common lines of `mq_dosend`, `mq_doreceive` and
`mq_waitirq`. -/
def unblock (s : MqSys) (tcb : Nat) (w : Wait) (msgq : Nat) : Option MqSys :=
  let s := (s.setMsgwaitq tcb none).setNwait w msgq (wrap16 (s.nwait w msgq - 1))
  (upUnblockTask s.tasks tcb).map s.setTasks

/-- The first task that waits for the queue is unblocked, with the ASSERT that there is
one. -/
def wakeFirst (s : MqSys) (w : Wait) (msgq : Nat) : Option MqSys :=
  match (s.tasks.list w.list).find? (fun btcb => s.msgwaitq btcb = some msgq) with
  | none => none
  | some btcb => unblock s btcb w msgq

/-- A send goes on: `mq_timedsend` has its structure already. -/
def sendNext (o : Outgoing) : Option Nat → Pc
  | none => .alloc o
  | some mqmsg => .dosend o mqmsg

/-- A send fails: with a structure at `errout_with_mqmsg`, without one at the end. -/
def sendError (errcode : Errno) : Option Nat → Pc
  | none => .ret (.error errcode)
  | some mqmsg => .errout mqmsg errcode

/-- `mq_waitsend`; the test in front of it in `mq_send` is its own first one. -/
def mqWaitsend (s : MqSys) (rtcb : Nat) (o : Outgoing) (mqmsg : Option Nat) : Option MqSys :=
  if (s.data.attr o.msgq).maxmsgs ≤ s.data.nmsgs o.msgq then
    if o.nonblock then some (s.setPc rtcb (sendError .eagain mqmsg))
    else waitFor s rtcb .notfull o.msgq (.waitsend o mqmsg)
  else some (s.setPc rtcb (sendNext o mqmsg))

/-- The second critical section of `mq_dosend`. -/
def mqNotify (s : MqSys) (msgq : Nat) : Option MqSys :=
  if 0 < s.nwait .notempty msgq then wakeFirst s .notempty msgq else some s

/-- `mq_waitreceive`. -/
def mqWaitreceive (s : MqSys) (rtcb msgq : Nat) (nonblock : Bool) : Option MqSys :=
  match s.data.msglist msgq with
  | mqmsg :: rest =>
    some (s.setData ((s.data.setMsglist msgq rest (wrap16 (s.data.nmsgs msgq - 1))).setPc rtcb
      (.doreceive msgq mqmsg)))
  | [] =>
    if nonblock then some (s.setPc rtcb (.ret (.error .eagain)))
    else waitFor s rtcb .notempty msgq (.waitreceive msgq)

/-- The calls: `late` is the error of the time limit, if it has one: for `mq_timedsend`
EINVAL if the limit is malformed, no watchdog is left or the clock fails, and ETIMEDOUT if
it has passed. `mq_timedreceive` finds the first two, here `bad`, in any case, and the
others only if the queue is empty. -/
inductive MqCall where
  | send (mqdes : Option MqDes) (msg : Option (List UInt8)) (prio : Int)
  | timedsend (mqdes : Option MqDes) (msg : Option (List UInt8)) (prio : Int)
      (late : Option Errno)
  | receive (mqdes : Option MqDes) (msg : Bool) (msglen : Nat)
  | timedreceive (mqdes : Option MqDes) (msg : Bool) (msglen : Nat) (bad : Bool)
      (late : Option Errno)
  deriving DecidableEq

/-- The beginning of a call, up to the end of the first critical section. -/
def MqSys.call (s : MqSys) (rtcb : Nat) (fresh : Option Nat) : MqCall → Option MqSys
  | .send mqdes msg prio =>
    match mqVerifysend s.data mqdes msg prio with
    | .error e => some (s.setErrno rtcb e)
    | .ok o => mqWaitsend s.lock rtcb o none
  | .timedsend mqdes msg prio late =>
    match mqVerifysend s.data mqdes msg prio with
    | .error e => some (s.setErrno rtcb e)
    | .ok o =>
      match mqMsgalloc s.data fresh with
      | (_, none) => some (s.setErrno rtcb .enomem)
      | (d, some mqmsg) => some (s.setData (d.setPc rtcb (.room o mqmsg late)))
  | .receive mqdes msg msglen =>
    match mqVerifyreceive s.data mqdes msg msglen with
    | .error e => some (s.setErrno rtcb e)
    | .ok mqdes => mqWaitreceive s.lock rtcb mqdes.msgq mqdes.nonblock
  | .timedreceive mqdes msg msglen bad late =>
    match mqVerifyreceive s.data mqdes msg msglen with
    | .error e => some (s.setErrno rtcb e)
    | .ok mqdes =>
      if bad then some (s.setErrno rtcb .einval)
      else
        match s.data.msglist mqdes.msgq, late with
        | [], some e => some (s.lock.setPc rtcb (.ret (.error e)))
        | _, _ => mqWaitreceive s.lock rtcb mqdes.msgq mqdes.nonblock

/-- The running task goes on from where it is. -/
def MqSys.go (s : MqSys) (rtcb : Nat) (fresh : Option Nat) : Pc → Option MqSys
  | .idle => none
  | .room o mqmsg late =>
    if s.data.nmsgs o.msgq < (s.data.attr o.msgq).maxmsgs then
      some (s.lock.setPc rtcb (.dosend o mqmsg))
    else
      match late with
      | none => some (s.lock.setPc rtcb (.full o mqmsg))
      | some e => some (s.lock.setPc rtcb (.errout mqmsg e))
  | .full o mqmsg => mqWaitsend s rtcb o (some mqmsg)
  | .waitsend o mqmsg =>
    if s.pterrno rtcb ≠ .ok then some (s.setPc rtcb (sendError (s.pterrno rtcb) mqmsg))
    else mqWaitsend s rtcb o mqmsg
  | .alloc o =>
    match mqMsgalloc s.data fresh with
    | (_, none) => some (s.setPc rtcb (.ret (.error .enomem)))
    | (d, some mqmsg) => some (s.setData (d.setPc rtcb (.dosend o mqmsg)))
  | .dosend o mqmsg =>
    some (s.lock.setData ((mqInsert s.data o mqmsg).setPc rtcb (.wake o.msgq)))
  | .wake msgq =>
    match mqNotify s msgq with
    | none => none
    | some s => (s.setPc rtcb (.ret .ok)).unlock
  | .errout mqmsg errcode =>
    some (s.setData ((mqMsgfree s.data mqmsg).setPc rtcb (.ret (.error errcode))))
  | .waitreceive msgq =>
    if s.pterrno rtcb ≠ .ok then some (s.setPc rtcb (.ret (.error (s.pterrno rtcb))))
    else mqWaitreceive s rtcb msgq false
  | .doreceive msgq mqmsg =>
    some (s.setData ((mqMsgfree s.data mqmsg).setPc rtcb (.check (s.data.receipt msgq mqmsg))))
  | .check r =>
    if 0 < s.nwait .notfull r.message.msgq then some (s.setPc rtcb (.wakesender r))
    else some (s.setPc rtcb (.ret (.received r)))
  | .wakesender r =>
    match wakeFirst s .notfull r.message.msgq with
    | none => none
    | some s => some (s.setPc rtcb (.ret (.received r)))
  | .ret .ok => (s.setPc rtcb .idle).unlock
  | .ret (.error e) => ((s.setErrno rtcb e).setPc rtcb .idle).unlock
  | .ret (.received r) => (s.setData ((s.data.logReturned r).setPc rtcb .idle)).unlock

/-- `mq_send` of an interrupt handler. -/
def mqSendIrq (s : MqSys) (mqdes : Option MqDes) (msg : Option (List UInt8)) (prio : Int) :
    Option MqSys :=
  match mqVerifysend s.data mqdes msg prio with
  | .error _ => some s
  | .ok o =>
    match mqMsgallocIrq s.data with
    | none => some s
    | some (d, mqmsg) => mqNotify (s.setData (mqInsert d o mqmsg)) o.msgq

/-- `mq_waitirq`. -/
def mqWaitirq (s : MqSys) (wtcb : Nat) (errcode : Errno) : Option MqSys :=
  let interrupted (w : Wait) : Option MqSys :=
    match s.msgwaitq wtcb with
    | none => none
    | some msgq => unblock (s.setErrno wtcb errcode) wtcb w msgq
  if s.tasks.taskState wtcb = .waitMqnotempty then interrupted .notempty
  else if s.tasks.taskState wtcb = .waitMqnotfull then interrupted .notfull
  else some s

/-- The places at which a task may block or be preempted elsewhere: outside the message
queues, in front of `sched_lock`, and where it calls `kmm_malloc`, itself or in
`wd_create`, which waits for the heap's semaphore. -/
def Pc.yields : Pc → Bool
  | .idle | .room _ _ _ | .full _ _ | .alloc _ => true
  | _ => false

/-- The scheduler's other requests: the running task sets up a task, whose TCB is cleared,
blocks for something else, gives a task other than the IDLE task a priority, or yields; it
locks and unlocks preemption between its calls; a task that waits for something else is
unblocked. -/
def mqSched (s : MqSys) (rtcb : Nat) : SchedAct → Option MqSys
  | .setup pid p =>
    if s.data.pc rtcb = .idle then
      (threadSchedsetup s.tasks pid p).map fun tasks =>
        ((s.setTasks tasks).setMsgwaitq pid none).setErrno pid .ok
    else none
  | .block wait =>
    if (s.data.pc rtcb).yields ∧ wait.1 ≠ .waitMqnotfull ∧ wait.1 ≠ .waitMqnotempty then
      (upBlockTask s.tasks rtcb wait.1).map s.setTasks
    else none
  | .unblock tcb =>
    if s.tasks.taskState tcb ≠ .waitMqnotfull ∧ s.tasks.taskState tcb ≠ .waitMqnotempty then
      (upUnblockTask s.tasks tcb).map s.setTasks
    else none
  | .setpriority tcb p =>
    if (s.data.pc rtcb).yields ∧ tcb ≠ idle then
      (s.tasks.step (.setpriority tcb p)).map s.setTasks
    else none
  | .reprioritize tcb p =>
    if (s.data.pc rtcb).yields ∧ tcb ≠ idle then
      (upReprioritizeRtr s.tasks tcb p).map s.setTasks
    else none
  | .lock =>
    if s.data.pc rtcb = .idle ∧ s.tasks.lockcount rtcb < maxLockCount then some s.lock else none
  | .unlock => if s.data.pc rtcb = .idle then s.unlock else none
  | .terminate _ => none

/-- What happens: the running task calls a function or goes on with one, an interrupt
handler sends, a wait ends with a timeout or a signal, or the scheduler is asked for
something else. -/
inductive MqAct where
  | call (c : MqCall) (fresh : Option Nat)
  | go (fresh : Option Nat)
  | sendIrq (mqdes : Option MqDes) (msg : Option (List UInt8)) (prio : Int)
  | timeout (tcb : Nat)
  | signal (tcb : Nat)
  | sched (a : SchedAct)
  deriving DecidableEq

/-- `kmm_malloc` returns a block that is not in use, or none. -/
def MqData.Unused (d : MqData) (fresh : Option Nat) : Prop :=
  ∀ mqmsg ∈ fresh, numPrealloc ≤ mqmsg ∧ mqmsg ∉ d.heap ∧ d.heap.length < dynMsgsMax

instance (d : MqData) (fresh : Option Nat) : Decidable (d.Unused fresh) := by
  unfold MqData.Unused
  infer_instance

/-- One step. -/
def MqSys.step (s : MqSys) (a : MqAct) : Option MqSys :=
  match s.tasks.thisTask with
  | none => none
  | some rtcb =>
    match a with
    | .call c fresh =>
      if s.data.pc rtcb = .idle ∧ s.data.Unused fresh then s.call rtcb fresh c else none
    | .go fresh => if s.data.Unused fresh then s.go rtcb fresh (s.data.pc rtcb) else none
    | .sendIrq mqdes msg prio => mqSendIrq s mqdes msg prio
    | .timeout tcb => mqWaitirq s tcb .etimedout
    | .signal tcb => mqWaitirq s tcb .eintr
    | .sched a => mqSched s rtcb a

/-- Boot: `mq_initialize` has allocated the structures, and queues with the given
attributes have been created. -/
def mqStart (attr : Nat → MqAttr) : MqSys where
  tasks := osStart
  msgwaitq := fun _ => none
  pterrno := fun _ => .ok
  nwait := fun _ _ => 0
  data :=
    { pc := fun _ => .idle
      attr := attr
      msglist := fun _ => []
      nmsgs := fun _ => 0
      mqmsg := fun mqmsg =>
        ⟨if mqmsg < preallocMqMsgs then .fixed else .irq, 0, 0, List.replicate mqMaxBytes 0⟩
      msgfree := List.range preallocMqMsgs
      msgfreeirq := List.range' preallocMqMsgs numInterruptMsgs
      heap := []
      sent := []
      ident := fun _ => 0
      returned := [] }

end NbLot.Source.Mqueue
