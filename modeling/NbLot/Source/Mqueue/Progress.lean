import NbLot.Source.Mqueue.Refines
import NbLot.Source.Mqueue.WaitSteps

/-!
# Receivers return

A receiver that has taken a message looks whether senders wait for room, and then unblocks
the first of them. It is the running task until it returns, but interrupts come between:
`SparesWakeup` says that none ends the wait of the last such sender there. Then one is
found, and the receiver returns the message.
-/
namespace NbLot.Source.Mqueue

open Lib.Transition Lib.Mailbox Source.Sched Function

/-- The end of the wait leaves the receiver a sender to unblock. -/
def LeavesSender (s : MqSys) (tcb : Nat) : Pc → Prop
  | .wakesender r =>
    s.tasks.taskState tcb = .waitMqnotfull → s.msgwaitq tcb = some r.message.msgq →
      1 < s.nwait .notfull r.message.msgq
  | _ => True

instance (s : MqSys) (tcb : Nat) (pc : Pc) : Decidable (LeavesSender s tcb pc) := by
  unfold LeavesSender
  split <;> infer_instance

/-- No timeout and no signal ends the wait of the last sender while the running task is
about to unblock one. -/
def SparesWakeup (s : MqSys) : MqAct → Prop
  | .timeout tcb | .signal tcb => ∀ rtcb ∈ s.tasks.thisTask, LeavesSender s tcb (s.data.pc rtcb)
  | _ => True

instance (s : MqSys) (a : MqAct) : Decidable (SparesWakeup s a) := by
  unfold SparesWakeup
  split <;> infer_instance

/-- Whoever is about to unblock a sender has one. -/
def Tested (s : MqSys) : Prop :=
  ∀ t r, s.data.pc t = .wakesender r → 0 < s.nwait .notfull r.message.msgq

/-- The running task has moved on, to the critical section of `mq_doreceive` only from the
test in front of it. -/
def Lands (s s' : MqSys) (rtcb : Nat) : Prop :=
  ∃ pc, s'.data.pc = Function.update s.data.pc rtcb pc ∧
    ∀ r, pc = .wakesender r → 0 < s'.nwait .notfull r.message.msgq

variable {s s₁ s' : MqSys} {t rtcb msgq mqmsg : Nat} {w : Wait} {pc : Pc} {r : Receipt}
  {msg : Option (List UInt8)} {mqdes : Option MqDes} {fresh : Option Nat} {prio : Int} {d : MqData}

theorem Lands.of_ne (hpc : s'.data.pc = update d.pc rtcb pc) (hd : d.pc = s.data.pc)
    (hne : ∀ r, pc ≠ .wakesender r) : Lands s s' rtcb :=
  ⟨pc, hd ▸ hpc, fun r hr => absurd hr (hne r)⟩

theorem Lands.stay (hdata : s'.data.pc = s.data.pc) (hne : ∀ r, s.data.pc rtcb ≠ .wakesender r) :
    Lands s s' rtcb :=
  .of_ne (by rw [hdata, update_eq_self]) rfl hne

theorem mqWaitsend_lands {o : Outgoing} {mqmsg : Option Nat} (hdata : s₁.data = s.data)
    (hrun : mqWaitsend s₁ rtcb o mqmsg = some s') : Lands s s' rtcb := by
  unfold mqWaitsend at hrun
  split at hrun
  · split at hrun
    · cases hrun
      exact .of_ne rfl (by rw [hdata]) (by cases mqmsg <;> simp [sendError])
    · exact .of_ne (by rw [waitFor_data hrun]; rfl) (by rw [hdata]) (by simp)
  · cases hrun
    exact .of_ne rfl (by rw [hdata]) (by cases mqmsg <;> simp [sendNext])

theorem mqWaitreceive_lands {nonblock : Bool} (hdata : s₁.data = s.data)
    (hrun : mqWaitreceive s₁ rtcb msgq nonblock = some s') : Lands s s' rtcb := by
  unfold mqWaitreceive at hrun
  split at hrun
  · cases hrun
    exact .of_ne rfl (by rw [hdata]; rfl) (by simp)
  · split at hrun
    · cases hrun
      exact .of_ne rfl (by rw [hdata]) (by simp)
    · exact .of_ne (by rw [waitFor_data hrun]; rfl) (by rw [hdata]) (by simp)

theorem call_lands {c : MqCall} (hpc : s.data.pc rtcb = .idle)
    (hrun : s.call rtcb fresh c = some s') : Lands s s' rtcb := by
  have hidle : ∀ r, s.data.pc rtcb ≠ .wakesender r := by simp [hpc]
  have herror : ∀ e, s.setErrno rtcb e = s' → Lands s s' rtcb := by
    rintro e rfl
    exact .stay rfl hidle
  cases c with
  | send mqdes msg prio =>
    simp only [MqSys.call] at hrun
    split at hrun
    · exact herror _ (Option.some.inj hrun)
    · exact mqWaitsend_lands s.lock_data hrun
  | timedsend mqdes msg prio late =>
    simp only [MqSys.call] at hrun
    split at hrun
    · exact herror _ (Option.some.inj hrun)
    · split at hrun
      · exact herror _ (Option.some.inj hrun)
      · next halloc =>
        cases hrun
        exact .of_ne rfl (mqMsgalloc_frame halloc).2 (by simp)
  | receive mqdes msg msglen =>
    simp only [MqSys.call] at hrun
    split at hrun
    · exact herror _ (Option.some.inj hrun)
    · exact mqWaitreceive_lands s.lock_data hrun
  | timedreceive mqdes msg msglen bad late =>
    simp only [MqSys.call] at hrun
    split at hrun
    · exact herror _ (Option.some.inj hrun)
    · split at hrun
      · exact herror _ (Option.some.inj hrun)
      · split at hrun
        · cases hrun
          exact .of_ne rfl rfl (by simp)
        · exact mqWaitreceive_lands s.lock_data hrun

theorem go_lands (hrun : s.go rtcb fresh (s.data.pc rtcb) = some s') : Lands s s' rtcb := by
  cases hpc : s.data.pc rtcb <;> rw [hpc] at hrun <;> simp only [MqSys.go] at hrun
  case idle => cases hrun
  case room o mqmsg late =>
    split at hrun
    · cases hrun
      exact .of_ne rfl rfl (by simp)
    · split at hrun <;> cases hrun <;> exact .of_ne rfl rfl (by simp)
  case full o mqmsg => exact mqWaitsend_lands rfl hrun
  case waitsend o mqmsg =>
    split at hrun
    · cases hrun
      exact .of_ne rfl rfl (by cases mqmsg <;> simp [sendError])
    · exact mqWaitsend_lands rfl hrun
  case alloc o =>
    split at hrun
    · cases hrun
      exact .of_ne rfl rfl (by simp)
    · next halloc =>
      cases hrun
      exact .of_ne rfl (mqMsgalloc_frame halloc).2 (by simp)
  case dosend o mqmsg =>
    cases hrun
    exact .of_ne rfl rfl (by simp)
  case wake msgq =>
    split at hrun
    · cases hrun
    · next s₁ hnotify =>
      exact .of_ne (by rw [unlock_data hrun, MqSys.setPc_data, mqNotify_data hnotify]; rfl)
        rfl (by simp)
  case errout mqmsg e =>
    cases hrun
    exact .of_ne rfl mqMsgfree_frame.2 (by simp)
  case waitreceive msgq =>
    split at hrun
    · cases hrun
      exact .of_ne rfl rfl (by simp)
    · exact mqWaitreceive_lands rfl hrun
  case doreceive msgq mqmsg =>
    cases hrun
    exact .of_ne rfl mqMsgfree_frame.2 (by simp)
  case check r =>
    -- the test in front of the critical section
    split at hrun
    · next hpos =>
      cases hrun
      refine ⟨_, rfl, fun r' hr => ?_⟩
      obtain rfl : r = r' := by simpa using hr
      exact hpos
    · cases hrun
      exact .of_ne rfl rfl (by simp)
  case wakesender r =>
    split at hrun
    · cases hrun
    · next s₁ hwake =>
      cases hrun
      exact .of_ne (by rw [MqSys.setPc_data, wakeFirst_data hwake]; rfl) rfl (by simp)
  case ret result =>
    cases result <;> exact .of_ne (by rw [unlock_data hrun]; rfl) rfl (by simp)

/-- Nobody but the running task is about to unblock a sender. -/
theorem Lands.tested (h : WaitInv s) (hthis : s.tasks.thisTask = some rtcb)
    (hlands : Lands s s' rtcb) : Tested s' := by
  obtain ⟨pc, hpc, hpos⟩ := hlands
  intro t r ht
  rw [hpc] at ht
  by_cases htask : t = rtcb
  · rw [htask, update_self] at ht
    exact hpos r ht
  · rw [update_of_ne htask] at ht
    have hruns := h.runs t (by rw [ht]; rfl)
    rw [hthis, Option.some.injEq] at hruns
    exact absurd hruns.symm htask

theorem wakeFirst_nwait (hrun : wakeFirst s w msgq = some s') {w' : Wait} (hne : w' ≠ w) :
    s'.nwait w' = s.nwait w' := by
  unfold wakeFirst at hrun
  split at hrun
  · cases hrun
  · obtain ⟨-, -, rfl⟩ := Option.map_eq_some_iff.mp hrun
    exact update_of_ne hne _ _

theorem mqSendIrq_nwait (hrun : mqSendIrq s mqdes msg prio = some s') :
    s'.nwait .notfull = s.nwait .notfull := by
  unfold mqSendIrq at hrun
  split at hrun
  · cases hrun
    rfl
  · split at hrun
    · cases hrun
      rfl
    · unfold mqNotify at hrun
      split at hrun
      · rw [wakeFirst_nwait hrun (by simp)]
        rfl
      · cases hrun
        rfl

theorem mqSendIrq_pc (hrun : mqSendIrq s mqdes msg prio = some s') : s'.data.pc = s.data.pc := by
  unfold mqSendIrq at hrun
  split at hrun
  · cases hrun
    rfl
  · split at hrun
    · cases hrun
      rfl
    · next halloc =>
      rw [mqNotify_data hrun]
      unfold mqMsgallocIrq at halloc
      split at halloc
      · cases halloc
        rfl
      · split at halloc <;> cases halloc
        rfl

theorem mqSched_nwait {a : SchedAct} (hrun : mqSched s rtcb a = some s') : s'.nwait = s.nwait := by
  cases a <;> simp only [mqSched] at hrun
  case lock =>
    split at hrun <;> cases hrun
    rfl
  case unlock =>
    split at hrun
    · obtain ⟨tasks, -, rfl⟩ := Option.map_eq_some_iff.mp hrun
      rfl
    · cases hrun
  case terminate => cases hrun
  all_goals
    split at hrun
    · obtain ⟨-, -, rfl⟩ := Option.map_eq_some_iff.mp hrun
      rfl
    · cases hrun

/-- A wait that ends leaves the receiver a sender. -/
theorem mqWaitirq_tested {e : Errno} (h : WaitInv s) (htested : Tested s)
    (hspares : ∀ rtcb ∈ s.tasks.thisTask, LeavesSender s t (s.data.pc rtcb))
    (hrun : mqWaitirq s t e = some s') : Tested s' := by
  intro u r hu
  rw [mqWaitirq_data hrun] at hu
  have hpos := htested u r hu
  have hleaves := hspares u (h.runs u (by rw [hu]; rfl))
  rw [hu] at hleaves
  obtain rfl | ⟨w, msgq, hst, hq, hrun⟩ := mqWaitirq_cases hrun
  · exact hpos
  · obtain ⟨-, -, hnwait, -⟩ := h.release hst hq hrun
    rw [hnwait]
    split
    · next hsame =>
      obtain ⟨rfl, rfl⟩ := hsame
      have := hleaves hst hq
      omega
    · omega

theorem tested_step {a : MqAct} (h : WaitInv s) (htested : Tested s) (hspares : SparesWakeup s a)
    (hstep : s.step a = some s') : Tested s' := by
  unfold MqSys.step at hstep
  split at hstep
  · cases hstep
  · next rtcb hthis =>
    cases a with
    | call c fresh =>
      simp only at hstep
      split at hstep
      · next hok => exact (call_lands hok.1 hstep).tested h hthis
      · cases hstep
    | go fresh =>
      simp only at hstep
      split at hstep
      · exact (go_lands hstep).tested h hthis
      · cases hstep
    | sendIrq mqdes msg prio =>
      intro t r ht
      rw [mqSendIrq_pc hstep] at ht
      rw [mqSendIrq_nwait hstep]
      exact htested t r ht
    | timeout tcb => exact mqWaitirq_tested h htested hspares hstep
    | signal tcb => exact mqWaitirq_tested h htested hspares hstep
    | sched a =>
      intro t r ht
      rw [mqSched_data hstep] at ht
      rw [mqSched_nwait hstep]
      exact htested t r ht

theorem step_go (hthis : s.tasks.thisTask = some rtcb) :
    s.step (.go none) = s.go rtcb none (s.data.pc rtcb) := by
  have hunused : s.data.Unused none := by
    intro mqmsg hnone
    cases hnone
  simp only [MqSys.step, hthis, if_pos hunused]

/-- Left alone, the running task returns with the message. -/
def Returns (s : MqSys) (r : Receipt) : Prop :=
  ∃ n s', run MqSys.step s (List.replicate n (.go none)) = some s' ∧
    s'.data.returned = s.data.returned ++ [r]

theorem Returns.cons (hstep : s.step (.go none) = some s₁)
    (hsame : s₁.data.returned = s.data.returned) (h : Returns s₁ r) : Returns s r := by
  obtain ⟨n, s', hrun, hreturned⟩ := h
  refine ⟨n + 1, s', ?_, hsame ▸ hreturned⟩
  rw [List.replicate_succ]
  simp only [run, hstep, hrun]

theorem returns_received (h : WaitInv s) (hpc : s.data.pc t = .ret (.received r)) :
    Returns s r := by
  obtain ⟨tasks, hunlock⟩ := schedUnlock_returns h.idle
  have hthis := h.runs t (by rw [hpc]; rfl)
  refine ⟨1, (s.setData ((s.data.logReturned r).setPc t .idle)).setTasks tasks, ?_, rfl⟩
  simp only [List.replicate_one, run, step_go hthis, hpc, MqSys.go, MqSys.unlock,
    MqSys.setData_tasks, hunlock]
  rfl

/-- In the critical section of `mq_doreceive`, the loop finds a sender. -/
theorem returns_wakesender (h : WaitInv s) (htested : Tested s)
    (hpc : s.data.pc t = .wakesender r) : Returns s r := by
  obtain ⟨s₁, hwake⟩ := wakeFirst_returns h (htested t r hpc)
  have hgo := step_go (h.runs t (by rw [hpc]; rfl))
  rw [hpc] at hgo
  simp only [MqSys.go, hwake] at hgo
  refine .cons hgo ?_ (returns_received (t := t) (wait_step h hgo).1 (by simp))
  rw [MqSys.setPc_data, wakeFirst_data hwake]
  rfl

theorem returns_check (h : WaitInv s) (htested : Tested s) (hpc : s.data.pc t = .check r) :
    Returns s r := by
  have hgo := step_go (h.runs t (by rw [hpc]; rfl))
  rw [hpc] at hgo
  simp only [MqSys.go] at hgo
  split at hgo
  · exact .cons hgo rfl (returns_wakesender (t := t) (wait_step h hgo).1
      (tested_step (a := .go none) h htested trivial hgo) (by simp))
  · exact .cons hgo rfl (returns_received (t := t) (wait_step h hgo).1 (by simp))

theorem mqMsgfree_returned : (mqMsgfree d mqmsg).returned = d.returned := by
  unfold mqMsgfree
  split <;> rfl

/-- Whoever has taken a message returns it. -/
theorem returns_taken (h : WaitInv s) (htested : Tested s)
    (htaken : s.data.mail.status t = .taken r) : Returns s r := by
  cases hpc : s.data.pc t <;> simp [MqData.status, hpc] at htaken
  case doreceive msgq mqmsg =>
    have hgo := step_go (h.runs t (by rw [hpc]; rfl))
    rw [hpc] at hgo
    simp only [MqSys.go, htaken] at hgo
    exact .cons hgo mqMsgfree_returned (returns_check (t := t) (wait_step h hgo).1
      (tested_step (a := .go none) h htested trivial hgo) (by simp))
  case check r' => exact returns_check h htested (htaken ▸ hpc)
  case wakesender r' => exact returns_wakesender h htested (htaken ▸ hpc)
  case ret result =>
    cases result <;> simp at htaken
    exact returns_received h (htaken ▸ hpc)

/-- The structure is with the pool it came from. -/
def AtHome (d : MqData) (mqmsg : Nat) : Prop :=
  match home mqmsg with
  | .fixed => mqmsg ∈ d.msgfree
  | .irq => mqmsg ∈ d.msgfreeirq
  | .dyn => mqmsg ∉ d.heap

/-- A send that fails with a structure gives it back. -/
theorem errout_gives_back {e : Errno} (h : WaitInv s) (howned : Owned s.data)
    (hpc : s.data.pc t = .errout mqmsg e) :
    ∃ s', s.step (.go none) = some s' ∧ s'.data.pc t = .ret (.error e) ∧
      s'.data.msglist = s.data.msglist ∧ AtHome s'.data mqmsg := by
  have hgo := step_go (h.runs t (by rw [hpc]; rfl))
  rw [hpc] at hgo
  refine ⟨_, hgo, by simp, mqMsgfree_frame.1, ?_⟩
  have hmem : mqmsg ∈ s.data.contents (.task t) := by simp [contents_task, hpc, Pc.held]
  have htype := howned.typed _ _ hmem
  cases hhome : home mqmsg <;> rw [hhome] at htype <;> simp only [AtHome, hhome, mqMsgfree, htype]
  case fixed => simp
  case irq => simp
  case dyn => exact howned.heap_nodup.not_mem_erase

end NbLot.Source.Mqueue
