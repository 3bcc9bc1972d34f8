import NbLot.Source.Mqueue.WaitSteps

/-!
# No lost wake-up of a receiver

Source: nuttx/sched/mqueue/mq_sndinternal.c:339-466 (`mq_dosend` inserts the message in one
critical section and looks for a waiting receiver in the next) and mq_rcvinternal.c:139-227
(`mq_waitreceive` counts the task in and tests the queue again when it comes back).

Between the two critical sections of `mq_dosend` interrupts are enabled: an interrupt
handler then sees a message in the queue, a receiver blocked and nobody unblocked for it.
The sender itself is then the one who makes up for it.
-/
namespace NbLot.Guarantees.MqWakeup

open Lib.Transition Source.Sched Source.Mqueue

/-- Where tasks wait for a message, none is left alone. -/
def Covered (s : MqSys) : Prop :=
  ∀ msgq, 0 < s.nwait .notempty msgq → deficit s msgq ≤ 0

theorem covered_of_eases {s s' : MqSys} (h : Covered s) (heases : Eases s s') : Covered s' := by
  intro msgq hwait
  rcases heases msgq hwait with ⟨hold, hle⟩ | hle
  · exact hle.trans (h msgq hold)
  · exact hle

theorem covered_run {acts : List MqAct} {attr : Nat → MqAttr} {s : MqSys}
    (hrun : run MqSys.step (mqStart attr) acts = some s) : WaitInv s ∧ Covered s := by
  have hstep : ∀ s a s', WaitInv s ∧ Covered s → True → s.step a = some s' →
      WaitInv s' ∧ Covered s' := by
    intro s a s' hs _ hstep
    obtain ⟨hinv, heases⟩ := wait_step hs.1 hstep
    exact ⟨hinv, covered_of_eases hs.2 heases⟩
  exact invariant_run hstep
    ⟨mqStart_wait attr, fun msgq hwait => absurd hwait (lt_irrefl 0)⟩
    (stepsMeet_of_forall _ acts fun _ _ => trivial) hrun

theorem countP_covers_le (s : MqSys) (msgq : Nat) (pids : List Nat) :
    pids.countP (covers s msgq) ≤
      pids.countP (promised s msgq) + pids.countP (notifying s msgq) := by
  induction pids with
  | nil => simp
  | cons t pids ih =>
    cases hp : promised s msgq t <;> cases hn : notifying s msgq t <;>
      simp only [List.countP_cons, covers, hn, Bool.or_true, Bool.or_false] <;>
      omega

theorem nwait_pos {s : MqSys} {t msgq : Nat} (h : WaitInv s)
    (hblocked : blocked s .notempty msgq t = true) : 0 < s.nwait .notempty msgq := by
  have hst : s.tasks.taskState t = .waitMqnotempty := (of_decide_eq_true hblocked).1
  have hpid : t ∈ s.tasks.pids := (h.sched.registered t).mpr (by simp [hst])
  have hcount : 0 < s.tasks.pids.countP (blocked s .notempty msgq) :=
    List.countP_pos_iff.mpr ⟨t, hpid, hblocked⟩
  have hnwait := h.count .notempty msgq
  omega

/-- In every run, the counts of a queue are those of the tasks blocked on it, and while a
receiver is blocked there are no more messages in the queue than receivers that a send has
unblocked and that have not run yet, and senders between the two critical sections of
`mq_dosend`. -/
theorem receivers_not_forgotten (attr : Nat → MqAttr) (acts : List MqAct) (s : MqSys)
    (hrun : run MqSys.step (mqStart attr) acts = some s) (msgq : Nat) :
    (∀ w, s.nwait w msgq = s.tasks.pids.countP (blocked s w msgq)) ∧
      ∀ t, blocked s .notempty msgq t = true →
        (s.data.msglist msgq).length ≤
          s.tasks.pids.countP (promised s msgq) + s.tasks.pids.countP (notifying s msgq) := by
  obtain ⟨hinv, hcovered⟩ := covered_run hrun
  refine ⟨fun w => hinv.count w msgq, fun t ht => ?_⟩
  have hdeficit := hcovered msgq (nwait_pos hinv ht)
  have hsides := countP_covers_le s msgq s.tasks.pids
  unfold deficit at hdeficit
  omega

/-- Queues of one message. -/
def oneMessage : Nat → MqAttr := fun _ => ⟨1, 32, by decide⟩

/-- A descriptor of queue 7, for both directions. -/
def seven : Option MqDes := some ⟨7, true, true, false⟩

/-- The receivers 1 and 3 block, task 2 inserts a message. -/
def receiversAndSender : List MqAct :=
  [.sched (.setup 1 100), .sched (.setup 3 90), .sched (.setup 2 50), .sched (.unblock 2),
    .sched (.unblock 3), .sched (.unblock 1), .call (.receive seven true 32) none,
    .call (.receive seven true 32) none, .call (.send seven (some [1, 2]) 3) none, .go none,
    .go none]

/-- After the second critical section, receiver 1 is unblocked for the message and
receiver 3 is still blocked. -/
theorem receivers_not_forgotten_handover :
    ∃ s, run MqSys.step (mqStart oneMessage) (receiversAndSender ++ [.go none]) = some s ∧
      blocked s .notempty 7 3 = true ∧ s.data.msglist 7 = [0] ∧ promised s 7 1 = true ∧
      (s.data.msglist 7).length ≤
        s.tasks.pids.countP (promised s 7) + s.tasks.pids.countP (notifying s 7) := by
  have hend : ((run MqSys.step (mqStart oneMessage) (receiversAndSender ++ [.go none])).map
      fun s => (blocked s .notempty 7 3, s.data.msglist 7, promised s 7 1)) =
      some (true, [0], true) := by decide +kernel
  obtain ⟨s, hrun, hs⟩ := Option.map_eq_some_iff.mp hend
  simp only [Prod.mk.injEq] at hs
  exact ⟨s, hrun, hs.1, hs.2.1, hs.2.2, (receivers_not_forgotten oneMessage _ s hrun 7).2 3 hs.1⟩

/-- The receiver was unblocked, for whatever reason, and has not run yet. -/
def unblockedReceiver (s : MqSys) (msgq t : Nat) : Bool :=
  s.data.pc t = .waitreceive msgq ∧ s.tasks.taskState t ≠ .waitMqnotempty

/-- In front of the second critical section there is a message in the queue, both
receivers are blocked, and no receiver has been unblocked. -/
theorem message_before_notify :
    ∃ s, run MqSys.step (mqStart oneMessage) receiversAndSender = some s ∧
      blocked s .notempty 7 1 = true ∧
      ¬ (s.data.msglist 7).length ≤ s.tasks.pids.countP (unblockedReceiver s 7) :=
  exists_run (by decide +kernel)

end NbLot.Guarantees.MqWakeup
