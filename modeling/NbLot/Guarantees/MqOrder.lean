import NbLot.Source.Mqueue.Progress

/-!
# Order and conservation of messages

Source: nuttx/sched/mqueue/mq_sndinternal.c:231-466, mq_rcvinternal.c:139-308, mq_send.c,
mq_timedsend.c, mq_receive.c, mq_timedreceive.c, mq_waitirq.c.

Every step of the message queues is a step of mailboxes with priorities, and a receiver
that has taken a message returns it. The second part needs a condition: `mq_doreceive`
tests `nwaitnotfull` before it disables interrupts, and asserts that it then finds a
waiting sender. A timeout in between that ends the wait of the only one makes the assertion
fail, with the message out of the queue and its structure freed.
-/
namespace NbLot.Guarantees.MqOrder

open Lib.Transition Lib.Mailbox Source.Sched Source.Mqueue

/-- What holds in every state of a run. -/
structure Reached (s : MqSys) : Prop where
  waits : WaitInv s
  tested : Tested s
  owned : Owned s.data
  mail : MailInv s.data.mail

theorem Reached.step {s s' : MqSys} {a : MqAct} (h : Reached s) (hspares : SparesWakeup s a)
    (hstep : s.step a = some s') : Reached s' where
  waits := (wait_step h.waits hstep).1
  tested := tested_step h.waits h.tested hspares hstep
  owned := h.owned.move (step_move hstep)
  mail := h.mail.step (h.owned.refines (step_move hstep))

theorem mqStart_reached (attr : Nat → MqAttr) : Reached (mqStart attr) where
  waits := mqStart_wait attr
  tested := fun t r ht => by cases ht
  owned := mqStart_owned attr
  mail := mqStart_mailInv attr

theorem reached_run {attr : Nat → MqAttr} {acts : List MqAct} {s : MqSys}
    (hrun : run MqSys.step (mqStart attr) acts = some s)
    (hspares : StepsMeet MqSys.step SparesWakeup (mqStart attr) acts) : Reached s :=
  invariant_run (fun _ _ _ h hok hstep => h.step hok hstep) (mqStart_reached attr)
    hspares hrun

/-- Order and conservation in a state: the queues are sorted and counted, every message is
in one place and was sent, every structure is in one place; what happens next is a step of
the mailboxes, in which a receiver takes the oldest message of the highest priority; who
has taken a message returns it, and a send that fails gives its structure back. -/
structure Conserves (s : MqSys) : Prop where
  mail : MailInv s.data.mail
  counted : ∀ msgq, s.data.nmsgs msgq = (s.data.msglist msgq).length
  owned : Owned s.data
  steps : ∀ a s', s.step a = some s' → MailStep s.data.mail s'.data.mail
  takes : ∀ a s' t r, s.step a = some s' → s.data.mail.status t ≠ .taken r →
    s'.data.mail.status t = .taken r →
    ∃ msgq, r ∈ s.data.mail.queue msgq ∧
      ∀ r' ∈ s.data.mail.queue msgq, r' ≠ r → Before Message.prio r r'
  returns : ∀ t r, s.data.mail.status t = .taken r → Returns s r
  fails : ∀ t mqmsg e, s.data.pc t = .errout mqmsg e →
    ∃ s', s.step (.go none) = some s' ∧ s'.data.pc t = .ret (.error e) ∧
      s'.data.msglist = s.data.msglist ∧ AtHome s'.data mqmsg

/-- In every run in which no timeout or signal comes between the test of `mq_doreceive` and
its critical section and ends the wait of the only sender there, the order and the
conservation of the messages hold. -/
theorem messages_ordered_and_conserved (attr : Nat → MqAttr) (acts : List MqAct) (s : MqSys)
    (hrun : run MqSys.step (mqStart attr) acts = some s)
    (hspares : StepsMeet MqSys.step SparesWakeup (mqStart attr) acts) : Conserves s := by
  have h := reached_run hrun hspares
  have hsteps : ∀ a s', s.step a = some s' → MailStep s.data.mail s'.data.mail :=
    fun a s' hstep => h.owned.refines (step_move hstep)
  exact
    { mail := h.mail
      counted := h.owned.count
      owned := h.owned
      steps := hsteps
      takes := fun a s' t r hstep hold hnew => h.mail.taken_first (hsteps a s' hstep) hold hnew
      returns := fun t r htaken => returns_taken h.waits h.tested htaken
      fails := fun t mqmsg e hpc => errout_gives_back h.waits h.owned hpc }

/-- Queues of one message. -/
def single : Nat → MqAttr := fun _ => ⟨1, 32, Nat.le_refl 32⟩

/-- A descriptor of queue 7, for both directions. -/
def mqdes : Option MqDes := some ⟨7, true, true, false⟩

/-- Task 1 fills the queue and waits to send once more, with a time limit. Task 2 takes the
message and sees that a sender waits. -/
def receiveFromFull : List MqAct :=
  [.sched (.setup 1 100), .sched (.setup 2 50), .sched (.unblock 2), .sched (.unblock 1),
    .call (.send mqdes (some [1, 2]) 3) none, .go none, .go none, .go none, .go none,
    .call (.timedsend mqdes (some [4]) 3 none) none, .go none, .go none,
    .call (.receive mqdes true 32) none, .go none, .go none]

/-- The receiver of a full queue returns the message. -/
theorem messages_ordered_and_conserved_full :
    ∃ s, run MqSys.step (mqStart single) receiveFromFull = some s ∧
      s.data.pc 2 = .wakesender ⟨0, ⟨7, [1, 2], 3⟩⟩ ∧ Conserves s := by
  have hend : ((run MqSys.step (mqStart single) receiveFromFull).map
      fun s => s.data.pc 2) = some (.wakesender ⟨0, ⟨7, [1, 2], 3⟩⟩) := by decide +kernel
  obtain ⟨s, hrun, hs⟩ := Option.map_eq_some_iff.mp hend
  exact ⟨s, hrun, hs, messages_ordered_and_conserved single receiveFromFull s hrun
    (by decide +kernel)⟩

/-- The timeout of task 1 comes before task 2 disables interrupts: the receiver stops at
its assertion, and the message, which was sent, is in no queue and is never returned. -/
theorem receiver_asserts :
    ∃ s, run MqSys.step (mqStart single) (receiveFromFull ++ [.timeout 1]) = some s ∧
      s.data.mail.status 2 = .taken ⟨0, ⟨7, [1, 2], 3⟩⟩ ∧ s.data.msglist 7 = [] ∧
      s.step (.go none) = none ∧ ¬ Returns s ⟨0, ⟨7, [1, 2], 3⟩⟩ := by
  have hend : ((run MqSys.step (mqStart single) (receiveFromFull ++ [.timeout 1])).map
      fun s => (s.data.pc 2, s.data.msglist 7, (s.step (.go none)).isNone, s.data.returned)) =
      some (.wakesender ⟨0, ⟨7, [1, 2], 3⟩⟩, [], true, []) := by decide +kernel
  obtain ⟨s, hrun, hs⟩ := Option.map_eq_some_iff.mp hend
  simp only [Prod.mk.injEq, Option.isNone_iff_eq_none] at hs
  obtain ⟨hpc, hlist, hstuck, -⟩ := hs
  refine ⟨s, hrun, by simp [MqData.status, hpc], hlist, hstuck, ?_⟩
  rintro ⟨n, s', hgo, hreturned⟩
  cases n with
  | zero =>
    cases hgo
    simp at hreturned
  | succ n =>
    rw [List.replicate_succ] at hgo
    simp only [run, hstuck] at hgo
    cases hgo

end NbLot.Guarantees.MqOrder
