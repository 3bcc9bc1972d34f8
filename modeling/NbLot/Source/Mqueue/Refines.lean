import NbLot.Source.Mqueue.Structures

/-!
# The message queues as mailboxes

`MqData.mail` forgets the structures: what is left are the messages in the queues, those
that receivers have taken and returned, and where the tasks stand in their calls. Every
step is a step of the mailboxes, and so the mailboxes' invariant holds. What carries this
over is that a structure is in one place: nobody writes to one that is in a queue or with
another task.
-/
namespace NbLot.Source.Mqueue

open Lib.Mailbox Source.Sched Function

/-- The messages and the tasks, without the structures. -/
@[simps]
def MqData.mail (d : MqData) : Mail Nat Nat Message where
  sent := d.sent
  queue msgq := (d.msglist msgq).map (d.receipt msgq)
  status t := d.status (d.pc t)
  returned := d.returned

/-- A step of the mailboxes. -/
abbrev MailStep : Mail Nat Nat Message → Mail Nat Nat Message → Prop :=
  Step Message.msgq Message.prio

abbrev MailInv : Mail Nat Nat Message → Prop :=
  Inv Message.msgq Message.prio

variable {d d' : MqData} {t mqmsg msgq : Nat} {pc : Pc} {o : Outgoing}

theorem mail_setPc : (d.setPc t pc).mail = d.mail.setStatus t (d.status pc) := by
  refine Mail.ext rfl rfl (funext fun u => ?_) rfl
  have hstatus : (d.setPc t pc).status = d.status := rfl
  by_cases hu : u = t
  · simp [hu, hstatus]
  · simp [hu, hstatus]

theorem mail_goes (hgoes : d.Goes t pc) : MailStep d.mail (d.mail.setStatus t (d.status pc)) := by
  have hstay : d.status (d.pc t) = d.status pc →
      MailStep d.mail (d.mail.setStatus t (d.status pc)) := by
    intro heq
    have hsame : d.mail.setStatus t (d.status pc) = d.mail := by
      refine Mail.ext rfl rfl ?_ rfl
      exact update_eq_self_iff.mpr heq.symm
    rw [hsame]
    exact .stay _
  unfold MqData.Goes at hgoes
  generalize hst : d.status pc = st at hgoes hstay ⊢
  cases hgoes with
  | refl => exact hstay rfl
  | single hquiet => exact .quiet _ t st hquiet

theorem status_congr (h : d'.receipt = d.receipt) : d'.status = d.status := by
  funext pc
  unfold MqData.status
  rw [h]

/-- The type of a structure is not part of its message. -/
theorem receipt_malloc : ((d.setHeap (mqmsg :: d.heap)).setMqmsg mqmsg
    { d.mqmsg mqmsg with type := .dyn }).receipt = d.receipt := by
  funext k m
  by_cases hm : m = mqmsg
  · simp [MqData.receipt, hm]
  · simp [MqData.receipt, hm]

theorem mail_malloc : ((d.setHeap (mqmsg :: d.heap)).setMqmsg mqmsg
    { d.mqmsg mqmsg with type := .dyn }).mail = d.mail := by
  refine Mail.ext rfl (funext fun k => ?_) (funext fun u => ?_) rfl
  · simp [receipt_malloc]
  · simp [status_congr receipt_malloc]

theorem mail_mqMsgfree : (mqMsgfree d mqmsg).mail = d.mail := by
  unfold mqMsgfree
  split <;> rfl

/-- The structure carries the message it was given, whole. -/
theorem receipt_mqInsert :
    (mqInsert d o mqmsg).receipt o.msgq mqmsg = ⟨d.sent.length, o.message⟩ := by
  have hlen := o.msg_le
  have hprio := o.prio_le
  have hlen : o.msg.length % 256 = o.msg.length := by
    unfold mqMaxBytes at hlen
    omega
  have hprio : o.prio % 256 = o.prio := by
    unfold mqPrioMax at hprio
    omega
  simp [MqData.receipt, mqInsert, hlen, hprio, Outgoing.message]

theorem receipt_mqInsert_of_ne {m k : Nat} (hm : m ≠ mqmsg) :
    (mqInsert d o mqmsg).receipt k m = d.receipt k m := by
  simp [MqData.receipt, mqInsert, hm]

/-- An insertion posts the message, if the structure is nobody else's. -/
theorem mail_mqInsert (hqueue : ∀ k, mqmsg ∉ d.msglist k)
    (htaken : ∀ u k, d.pc u ≠ .doreceive k mqmsg) :
    (mqInsert d o mqmsg).mail = d.mail.post Message.msgq Message.prio o.message := by
  have hmap : ∀ k, (d.msglist k).map ((mqInsert d o mqmsg).receipt k) =
      (d.msglist k).map (d.receipt k) := by
    intro k
    refine List.map_congr_left fun m hm => receipt_mqInsert_of_ne ?_
    rintro rfl
    exact hqueue k hm
  refine Mail.ext rfl (funext fun k => ?_) (funext fun u => ?_) rfl
  · by_cases hk : k = o.msgq
    · subst hk
      simp only [MqData.mail_queue, Mail.post_queue, Outgoing.message, update_self]
      have hlist : (mqInsert d o mqmsg).msglist o.msgq = (d.msglist o.msgq).orderedInsert
          (fun _ next => (update d.mqmsg mqmsg
            ((mqInsert d o mqmsg).mqmsg mqmsg) next).priority < o.prio) mqmsg := by
        simp [mqInsert]
      rw [hlist, NbLot.Lib.OrderedInsert.map_orderedInsert
        (p := fun x y : Item Message => y.message.prio < x.message.prio), hmap,
        receipt_mqInsert]
      · rfl
      · intro m hm
        have hne : m ≠ mqmsg := by
          rintro rfl
          exact hqueue o.msgq hm
        rw [receipt_mqInsert, receipt_mqInsert_of_ne hne]
        simp [hne, MqData.receipt, Outgoing.message]
    · have hk' : k ≠ o.message.msgq := hk
      simp only [MqData.mail_queue, Mail.post_queue, update_of_ne hk', ← hmap k]
      simp [mqInsert, hk]
  · simp only [MqData.mail_status, Mail.post_status]
    have hpc : (mqInsert d o mqmsg).pc = d.pc := rfl
    rw [hpc]
    cases hu : d.pc u with
    | doreceive k m =>
      have hne : m ≠ mqmsg := by
        rintro rfl
        exact htaken u k hu
      simp [MqData.status, receipt_mqInsert_of_ne hne]
    | ret result => cases result <;> rfl
    | _ => rfl

/-- A structure that is with a task, or free, is in no queue and not about to be read by
another task. -/
theorem Owned.exclusive {p : Store} (h : Owned d) (hmem : mqmsg ∈ d.contents p)
    (hp : ∀ k, p ≠ .queue k) (hpc : ∀ u k, p = .task u → d.pc u ≠ .doreceive k mqmsg) :
    (∀ k, mqmsg ∉ d.msglist k) ∧ ∀ u k, d.pc u ≠ .doreceive k mqmsg := by
  refine ⟨fun k hk => hp k (h.apart.disjoint p (.queue k) mqmsg hmem hk), fun u k hu => ?_⟩
  have hheld : mqmsg ∈ d.contents (.task u) := by simp [MqData.contents, hu, Pc.held]
  exact hpc u k (h.apart.disjoint p (.task u) mqmsg hmem hheld) hu

/-- Every move is a step of the mailboxes. -/
theorem Owned.refines (h : Owned d) (hmove : Move d d') : MailStep d.mail d'.mail := by
  cases hmove with
  | stay => exact .stay _
  | advance t pc hheld hgoes =>
    rw [mail_setPc]
    exact mail_goes hgoes
  | alloc t pc mqmsg msgfree hfree hnone hheld hgoes =>
    rw [mail_setPc]
    exact mail_goes hgoes
  | malloc t pc mqmsg hunused hnone hheld hgoes =>
    rw [mail_setPc, mail_malloc, status_congr receipt_malloc]
    exact mail_goes hgoes
  | free t pc mqmsg hheld hnone hgoes =>
    have hstatus : (mqMsgfree d mqmsg).status pc = d.status pc := by
      unfold mqMsgfree
      split <;> rfl
    rw [mail_setPc, mail_mqMsgfree, hstatus]
    exact mail_goes hgoes
  | insert t o mqmsg hpc =>
    have hmem : mqmsg ∈ d.contents (.task t) := by simp [MqData.contents, hpc, Pc.held]
    obtain ⟨hqueue, htaken⟩ := h.exclusive hmem (by simp) fun u k hu => by
      obtain rfl := Store.task.inj hu
      rw [hpc]
      simp
    rw [mail_setPc, mail_mqInsert hqueue htaken]
    refine .post _ t o.message ?_
    rw [MqData.mail_status, hpc]
    rfl
  | insertIrq o d₁ mqmsg halloc =>
    -- the structure was free, and nothing else has changed
    have hfree : (∃ p, mqmsg ∈ d.contents p ∧ (∀ k, p ≠ .queue k) ∧ ∀ u, p ≠ .task u) ∧
        d₁.mail = d.mail ∧ d₁.msglist = d.msglist ∧ d₁.pc = d.pc := by
      unfold mqMsgallocIrq at halloc
      split at halloc
      · next m msgfree hfree =>
        obtain ⟨rfl, rfl⟩ : d.setMsgfree msgfree = d₁ ∧ m = mqmsg := by simpa using halloc
        exact ⟨⟨.free, by simp [MqData.contents, hfree], by simp, by simp⟩, rfl, rfl, rfl⟩
      · split at halloc
        · next m msgfreeirq hfree =>
          obtain ⟨rfl, rfl⟩ : d.setMsgfreeirq msgfreeirq = d₁ ∧ m = mqmsg := by
            simpa using halloc
          exact ⟨⟨.freeirq, by simp [MqData.contents, hfree], by simp, by simp⟩, rfl, rfl, rfl⟩
        · cases halloc
    obtain ⟨⟨p, hmem, hnotqueue, hnottask⟩, hmail, hlist, hpc⟩ := hfree
    obtain ⟨hqueue, htaken⟩ := h.exclusive hmem hnotqueue fun u k hu => absurd hu (hnottask u)
    rw [mail_mqInsert (hlist ▸ hqueue) (hpc ▸ htaken), hmail]
    exact .postOutside _ o.message
  | take t msgq mqmsg rest hqueue hpc =>
    have hmail : (d.setMsglist msgq rest (wrap16 (d.nmsgs msgq - 1))).mail =
        d.mail.setQueue msgq (rest.map (d.receipt msgq)) := by
      refine Mail.ext rfl (funext fun k => ?_) rfl rfl
      have hreceipt : (d.setMsglist msgq rest (wrap16 (d.nmsgs msgq - 1))).receipt = d.receipt :=
        rfl
      by_cases hk : k = msgq
      · subst hk
        simp [hreceipt]
      · simp [hk, hreceipt]
    rw [mail_setPc, hmail]
    refine .take _ t msgq (d.receipt msgq mqmsg) _ ?_ (by simp [hqueue])
    rcases hpc with hpc | hpc
    · exact .inl (by simp [hpc, MqData.status])
    · exact .inr (by simp [hpc, MqData.status])
  | give t r hpc =>
    rw [mail_setPc]
    exact .give _ t r (by simp [hpc, MqData.status])

theorem mqStart_mailInv (attr : Nat → MqAttr) : MailInv (mqStart attr).data.mail where
  sorted k := List.Pairwise.nil
  boxed k x hx := absurd hx List.not_mem_nil
  genuine p x hx := by cases p <;> cases hx
  once :=
    { nodup := by
        intro p
        cases p <;> exact List.nodup_nil
      disjoint := by
        intro p q i hp
        cases p <;> cases hp }

end NbLot.Source.Mqueue
