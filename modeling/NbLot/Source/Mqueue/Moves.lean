import NbLot.Source.Mqueue.Model

/-!
# What a step does to the queues and the message structures

`Move` lists it, whoever takes the step and whatever the scheduler does meanwhile: a task
goes on in its call, gets a structure, gives one back, puts it in a queue, takes one out
of a queue, or returns with what it has received; and an interrupt handler puts a message
in a queue. `step_move` is the only place where the steps are taken apart for this.
-/
namespace NbLot.Source.Mqueue

open Lib.Mailbox Source.Sched

/-- The message structure that the task has for itself. -/
def Pc.held : Pc → Option Nat
  | .room _ mqmsg _ | .full _ mqmsg | .dosend _ mqmsg | .errout mqmsg _ | .doreceive _ mqmsg =>
    some mqmsg
  | .waitsend _ mqmsg => mqmsg
  | _ => none

/-- The task as a client of the mailboxes. -/
def MqData.status (d : MqData) : Pc → Status Nat Message
  | .idle => .idle
  | .room o _ _ | .full o _ | .waitsend o _ | .alloc o | .dosend o _ => .sending o.message
  | .wake _ | .ret .ok => .posted
  | .errout _ _ | .ret (.error _) => .failed
  | .waitreceive msgq => .receiving msgq
  | .doreceive msgq mqmsg => .taken (d.receipt msgq mqmsg)
  | .check r | .wakesender r | .ret (.received r) => .taken r

/-- The task goes on, with what it has taken if it has taken something. -/
def MqData.Goes (d : MqData) (t : Nat) (pc : Pc) : Prop :=
  Relation.ReflGen Status.Quiet (d.status (d.pc t)) (d.status pc)

/-- What one step does to the data. -/
inductive Move (d : MqData) : MqData → Prop
  | stay : Move d d
  | advance (t : Nat) (pc : Pc) (hheld : pc.held = (d.pc t).held) (hgoes : d.Goes t pc) :
      Move d (d.setPc t pc)
  | alloc (t : Nat) (pc : Pc) (mqmsg : Nat) (msgfree : List Nat)
      (hfree : d.msgfree = mqmsg :: msgfree) (hnone : (d.pc t).held = none)
      (hheld : pc.held = some mqmsg) (hgoes : d.Goes t pc) :
      Move d ((d.setMsgfree msgfree).setPc t pc)
  | malloc (t : Nat) (pc : Pc) (mqmsg : Nat) (hunused : d.Unused (some mqmsg))
      (hnone : (d.pc t).held = none) (hheld : pc.held = some mqmsg) (hgoes : d.Goes t pc) :
      Move d (((d.setHeap (mqmsg :: d.heap)).setMqmsg mqmsg
        { d.mqmsg mqmsg with type := .dyn }).setPc t pc)
  | free (t : Nat) (pc : Pc) (mqmsg : Nat) (hheld : (d.pc t).held = some mqmsg)
      (hnone : pc.held = none) (hgoes : d.Goes t pc) : Move d ((mqMsgfree d mqmsg).setPc t pc)
  | insert (t : Nat) (o : Outgoing) (mqmsg : Nat) (hpc : d.pc t = .dosend o mqmsg) :
      Move d ((mqInsert d o mqmsg).setPc t (.wake o.msgq))
  | insertIrq (o : Outgoing) (d₁ : MqData) (mqmsg : Nat)
      (halloc : mqMsgallocIrq d = some (d₁, mqmsg)) : Move d (mqInsert d₁ o mqmsg)
  | take (t msgq mqmsg : Nat) (rest : List Nat) (hqueue : d.msglist msgq = mqmsg :: rest)
      (hpc : d.pc t = .idle ∨ d.pc t = .waitreceive msgq) :
      Move d ((d.setMsglist msgq rest (wrap16 (d.nmsgs msgq - 1))).setPc t
        (.doreceive msgq mqmsg))
  | give (t : Nat) (r : Receipt) (hpc : d.pc t = .ret (.received r)) :
      Move d ((d.logReturned r).setPc t .idle)

variable {s s' : MqSys} {d d' : MqData} {rtcb t msgq : Nat} {w : Wait} {pc : Pc}
  {fresh : Option Nat}

theorem waitFor_data (hrun : waitFor s rtcb w msgq pc = some s') :
    s'.data = s.data.setPc rtcb pc := by
  obtain ⟨-, -, rfl⟩ := Option.map_eq_some_iff.mp hrun
  rfl

theorem unblock_data (hrun : unblock s t w msgq = some s') : s'.data = s.data := by
  obtain ⟨-, -, rfl⟩ := Option.map_eq_some_iff.mp hrun
  rfl

theorem wakeFirst_data (hrun : wakeFirst s w msgq = some s') : s'.data = s.data := by
  unfold wakeFirst at hrun
  split at hrun
  · cases hrun
  · exact unblock_data hrun

theorem mqNotify_data (hrun : mqNotify s msgq = some s') : s'.data = s.data := by
  unfold mqNotify at hrun
  split at hrun
  · exact wakeFirst_data hrun
  · cases hrun
    rfl

theorem unlock_data (hrun : s.unlock = some s') : s'.data = s.data := by
  obtain ⟨-, -, rfl⟩ := Option.map_eq_some_iff.mp hrun
  rfl

theorem goes_of_eq (h : d.status (d.pc t) = d.status pc) : d.Goes t pc := by
  unfold MqData.Goes
  rw [h]

theorem goes_of_quiet (h : (d.status (d.pc t)).Quiet (d.status pc)) : d.Goes t pc :=
  .single h

theorem Move.along {pc' : Pc} (hpc : d.pc t = pc) (hheld : pc'.held = pc.held)
    (hgoes : d.status pc = d.status pc' ∨ (d.status pc).Quiet (d.status pc')) :
    Move d (d.setPc t pc') := by
  subst hpc
  exact .advance t pc' hheld (hgoes.elim goes_of_eq goes_of_quiet)

theorem mqMsgalloc_move {mqmsg : Nat} (hunused : d.Unused fresh)
    (hrun : mqMsgalloc d fresh = (d', some mqmsg)) (hnone : (d.pc t).held = none)
    (hheld : pc.held = some mqmsg) (hgoes : d.Goes t pc) : Move d (d'.setPc t pc) := by
  unfold mqMsgalloc at hrun
  split at hrun
  · next m msgfree hfree =>
    obtain ⟨rfl, rfl⟩ : d.setMsgfree msgfree = d' ∧ m = mqmsg := by simpa using hrun
    exact .alloc t pc m msgfree hfree hnone hheld hgoes
  · split at hrun
    · cases hrun
    · next m =>
      cases hrun
      exact .malloc t pc mqmsg hunused hnone hheld hgoes

/-- A send that has not waited, or has waited for the queue, goes on, waits, or fails. -/
theorem mqWaitsend_move {o : Outgoing} {mqmsg : Option Nat} (hheld : (s.data.pc rtcb).held = mqmsg)
    (hsends : ∀ pc, s.data.status pc = .sending o.message ∨ s.data.status pc = .failed →
      s.data.Goes rtcb pc)
    (hrun : mqWaitsend s rtcb o mqmsg = some s') : Move s.data s'.data := by
  unfold mqWaitsend at hrun
  split at hrun
  · split at hrun
    · cases hrun
      refine .advance rtcb _ ?_ (hsends _ (.inr ?_))
      · cases mqmsg <;> exact hheld.symm
      · cases mqmsg <;> rfl
    · rw [waitFor_data hrun]
      exact .advance rtcb _ hheld.symm (hsends _ (.inl rfl))
  · cases hrun
    refine .advance rtcb _ ?_ (hsends _ (.inl ?_))
    · cases mqmsg <;> exact hheld.symm
    · cases mqmsg <;> rfl

/-- A receive takes the first message, waits, or fails. -/
theorem mqWaitreceive_move {nonblock : Bool}
    (hpc : s.data.pc rtcb = .idle ∨ s.data.pc rtcb = .waitreceive msgq)
    (hrun : mqWaitreceive s rtcb msgq nonblock = some s') : Move s.data s'.data := by
  unfold mqWaitreceive at hrun
  split at hrun
  · next mqmsg rest hqueue =>
    cases hrun
    exact .take rtcb msgq mqmsg rest hqueue hpc
  · split at hrun
    · cases hrun
      rcases hpc with hpc | hpc
      · exact .along hpc rfl (.inr .refuse)
      · exact .along hpc rfl (.inr (.failReceive msgq))
    · rw [waitFor_data hrun]
      rcases hpc with hpc | hpc
      · exact .along hpc rfl (.inr (.receive msgq))
      · exact .along hpc rfl (.inl rfl)

theorem call_move {c : MqCall} (hpc : s.data.pc rtcb = .idle) (hunused : s.data.Unused fresh)
    (hrun : s.call rtcb fresh c = some s') : Move s.data s'.data := by
  have hheld : (s.data.pc rtcb).held = none := by rw [hpc]; rfl
  have hsends : ∀ (o : Outgoing) pc, s.data.status pc = .sending o.message ∨
      s.data.status pc = .failed → s.data.Goes rtcb pc := by
    intro o pc h
    refine goes_of_quiet ?_
    rcases h with h | h <;> rw [h, hpc]
    · exact .send o.message
    · exact .refuse
  cases c with
  | send mqdes msg prio =>
    simp only [MqSys.call] at hrun
    split at hrun
    · cases hrun
      exact .stay
    · next o _ => exact mqWaitsend_move (s := s.lock) hheld (hsends o) hrun
  | timedsend mqdes msg prio late =>
    simp only [MqSys.call] at hrun
    split at hrun
    · cases hrun
      exact .stay
    · next o _ =>
      split at hrun
      · cases hrun
        exact .stay
      · next d₁ mqmsg halloc =>
        cases hrun
        exact mqMsgalloc_move hunused halloc hheld rfl (hsends o _ (.inl rfl))
  | receive mqdes msg msglen =>
    simp only [MqSys.call] at hrun
    split at hrun
    · cases hrun
      exact .stay
    · exact mqWaitreceive_move (s := s.lock) (.inl hpc) hrun
  | timedreceive mqdes msg msglen bad late =>
    simp only [MqSys.call] at hrun
    split at hrun
    · cases hrun
      exact .stay
    · split at hrun
      · cases hrun
        exact .stay
      · split at hrun
        · cases hrun
          exact .along hpc rfl (.inr .refuse)
        · exact mqWaitreceive_move (s := s.lock) (.inl hpc) hrun

theorem go_move (hunused : s.data.Unused fresh)
    (hrun : s.go rtcb fresh (s.data.pc rtcb) = some s') : Move s.data s'.data := by
  have hsends : ∀ (o : Outgoing) pc, s.data.status (s.data.pc rtcb) = .sending o.message →
      s.data.status pc = .sending o.message ∨ s.data.status pc = .failed →
      s.data.Goes rtcb pc := by
    intro o pc hold h
    rcases h with h | h
    · exact goes_of_eq (by rw [hold, h])
    · exact goes_of_quiet (by rw [hold, h]; exact .failSend o.message)
  -- each place of the code has one or two successors
  generalize hpc : s.data.pc rtcb = pc at hrun
  cases pc with
  | idle =>
    cases hrun
  | room o mqmsg late =>
    simp only [MqSys.go] at hrun
    split at hrun
    · cases hrun
      exact .along hpc rfl (.inl rfl)
    · split at hrun
      · cases hrun
        exact .along hpc rfl (.inl rfl)
      · cases hrun
        exact .along hpc rfl (.inr (.failSend o.message))
  | full o mqmsg =>
    exact mqWaitsend_move (by rw [hpc]; rfl) (fun pc => hsends o pc (by rw [hpc]; rfl)) hrun
  | waitsend o mqmsg =>
    simp only [MqSys.go] at hrun
    split at hrun
    · cases hrun
      cases mqmsg <;> exact .along hpc rfl (.inr (.failSend o.message))
    · exact mqWaitsend_move (by rw [hpc]; rfl) (fun pc => hsends o pc (by rw [hpc]; rfl)) hrun
  | alloc o =>
    simp only [MqSys.go] at hrun
    split at hrun
    · cases hrun
      exact .along hpc rfl (.inr (.failSend o.message))
    · next d₁ mqmsg halloc =>
      cases hrun
      exact mqMsgalloc_move hunused halloc (by rw [hpc]; rfl) rfl
        (hsends o _ (by rw [hpc]; rfl) (.inl rfl))
  | dosend o mqmsg =>
    cases hrun
    exact .insert rtcb o mqmsg hpc
  | wake msgq =>
    simp only [MqSys.go] at hrun
    split at hrun
    · cases hrun
    · next s₁ hnotify =>
      rw [unlock_data hrun, MqSys.setPc_data, mqNotify_data hnotify]
      exact .along hpc rfl (.inl rfl)
  | errout mqmsg errcode =>
    cases hrun
    exact .free rtcb _ mqmsg (by rw [hpc]; rfl) rfl (goes_of_eq (by rw [hpc]; rfl))
  | waitreceive msgq =>
    simp only [MqSys.go] at hrun
    split at hrun
    · cases hrun
      exact .along hpc rfl (.inr (.failReceive msgq))
    · exact mqWaitreceive_move (.inr hpc) hrun
  | doreceive msgq mqmsg =>
    cases hrun
    exact .free rtcb _ mqmsg (by rw [hpc]; rfl) rfl (goes_of_eq (by rw [hpc]; rfl))
  | check r =>
    simp only [MqSys.go] at hrun
    split at hrun <;> cases hrun <;>
      exact .along hpc rfl (.inl rfl)
  | wakesender r =>
    simp only [MqSys.go] at hrun
    split at hrun
    · cases hrun
    · next s₁ hwake =>
      cases hrun
      rw [MqSys.setPc_data, wakeFirst_data hwake]
      exact .along hpc rfl (.inl rfl)
  | ret result =>
    cases result with
    | ok =>
      rw [unlock_data hrun]
      exact .along hpc rfl (.inr .returnOk)
    | error e =>
      rw [unlock_data hrun]
      exact .along hpc rfl (.inr .returnError)
    | received r =>
      rw [unlock_data hrun]
      exact .give rtcb r hpc

theorem mqSendIrq_move {mqdes : Option MqDes} {msg : Option (List UInt8)} {prio : Int}
    (hrun : mqSendIrq s mqdes msg prio = some s') : Move s.data s'.data := by
  unfold mqSendIrq at hrun
  split at hrun
  · cases hrun
    exact .stay
  · next o _ =>
    split at hrun
    · cases hrun
      exact .stay
    · next d₁ mqmsg halloc =>
      rw [mqNotify_data hrun]
      exact .insertIrq o d₁ mqmsg halloc

/-- A task that waits for a queue is taken off it; any other task is left alone. -/
theorem mqWaitirq_cases {errcode : Errno} (hrun : mqWaitirq s t errcode = some s') :
    s' = s ∨ ∃ w msgq, s.tasks.taskState t = Wait.state w ∧ s.msgwaitq t = some msgq ∧
      unblock (s.setErrno t errcode) t w msgq = some s' := by
  simp only [mqWaitirq] at hrun
  split at hrun
  · next hst =>
    split at hrun
    · cases hrun
    · next msgq hq => exact .inr ⟨.notempty, msgq, hst, hq, hrun⟩
  · split at hrun
    · next hst =>
      split at hrun
      · cases hrun
      · next msgq hq => exact .inr ⟨.notfull, msgq, hst, hq, hrun⟩
    · cases hrun
      exact .inl rfl

theorem mqWaitirq_data {errcode : Errno} (hrun : mqWaitirq s t errcode = some s') :
    s'.data = s.data := by
  obtain rfl | ⟨w, msgq, -, -, hrun⟩ := mqWaitirq_cases hrun
  · rfl
  · exact unblock_data (s := s.setErrno t errcode) hrun

theorem mqSched_data {a : SchedAct} (hrun : mqSched s rtcb a = some s') : s'.data = s.data := by
  cases a <;> simp only [mqSched] at hrun
  case lock =>
    split at hrun <;> cases hrun
    rfl
  case unlock =>
    split at hrun
    · exact unlock_data hrun
    · cases hrun
  case terminate => cases hrun
  all_goals
    split at hrun
    · obtain ⟨-, -, rfl⟩ := Option.map_eq_some_iff.mp hrun
      rfl
    · cases hrun

/-- Every step is one of the moves. -/
theorem step_move {a : MqAct} (hstep : s.step a = some s') : Move s.data s'.data := by
  unfold MqSys.step at hstep
  split at hstep
  · cases hstep
  · next rtcb _ =>
    cases a with
    | call c fresh =>
      simp only at hstep
      split at hstep
      · next hok => exact call_move hok.1 hok.2 hstep
      · cases hstep
    | go fresh =>
      simp only at hstep
      split at hstep
      · next hok => exact go_move hok hstep
      · cases hstep
    | sendIrq mqdes msg prio => exact mqSendIrq_move hstep
    | timeout tcb => exact mqWaitirq_data hstep ▸ .stay
    | signal tcb => exact mqWaitirq_data hstep ▸ .stay
    | sched a => exact mqSched_data hstep ▸ .stay

end NbLot.Source.Mqueue
