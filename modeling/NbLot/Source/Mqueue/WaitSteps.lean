import NbLot.Source.Mqueue.Waits

/-!
# The waiting tasks, step by step

`wait_step`: every step keeps `WaitInv` and leaves no message to itself where tasks wait.
A waiting task that is to be unblocked is found and can be unblocked, so the ASSERTs in
`mq_dosend` and `mq_doreceive` hold whenever the count read in the same critical section
is positive.
-/
namespace NbLot.Source.Mqueue
open Option (map_eq_some_iff)

open Lib.Counting Source.Sched List Function MqSys

variable {s s₁ s' : MqSys} {t rtcb msgq : Nat} {w : Wait} {pc : Pc} {fresh mqmsg : Option Nat}
  {d : MqData} {e : Errno}

theorem MqSys.setPc_self (h : s.data.pc t = pc) : s.setPc t pc = s := by
  have hupdate : update s.data.pc t pc = s.data.pc := update_eq_self_iff.mpr h.symm
  simp [MqSys.setPc, MqSys.setData, MqData.setPc, hupdate]

theorem setErrno_self (h : s.pterrno t = e) : s.setErrno t e = s := by
  have hupdate : update s.pterrno t e = s.pterrno := update_eq_self_iff.mpr h.symm
  simp [MqSys.setErrno, hupdate]

theorem waitFor_setPc : waitFor (s.setPc rtcb pc) rtcb w msgq pc = waitFor s rtcb w msgq pc := by
  simp [waitFor, MqSys.setPc, MqSys.setData, MqData.setPc, MqSys.setMsgwaitq, MqSys.setNwait,
    MqSys.setErrno]

theorem covers_eq_false (hreceive : s.data.pc t ≠ .waitreceive msgq)
    (hwake : s.data.pc t ≠ .wake msgq) : covers s msgq t = false := by
  simp [covers, promised, notifying, hreceive, hwake]

theorem covers_none (hpc : s.data.pc t = pc)
    (hne : ∀ k, pc ≠ .waitreceive k ∧ pc ≠ .wake k) (k : Nat) : covers s k t = false :=
  covers_eq_false (hpc ▸ (hne k).1) (hpc ▸ (hne k).2)

section

variable (h : WaitInv s)
include h

/-- The task for which the loops of `mq_dosend` and `mq_doreceive` stop is one that waits
for the queue. -/
theorem WaitInv.find_blocked
    (hfind : (s.tasks.list w.list).find? (fun btcb => s.msgwaitq btcb = some msgq) = some t) :
    s.tasks.taskState t = w.state ∧ s.msgwaitq t = some msgq := by
  have hmem := mem_of_find?_eq_some hfind
  have hq := find?_some hfind
  exact ⟨(h.sched.lists.mem_wait (isWait_state w) (tasklist_state w)).mp hmem, by simpa using hq⟩

theorem wakeFirst_inv (hrun : wakeFirst s w msgq = some s') :
    WaitInv s' ∧ s'.data = s.data ∧
      (∀ w' k, s'.nwait w' k = s.nwait w' k - if w' = w ∧ k = msgq then 1 else 0) ∧
      ∀ k, deficit s' k = deficit s k - if w = .notempty ∧ k = msgq then 1 else 0 := by
  unfold wakeFirst at hrun
  split at hrun
  · cases hrun
  · next btcb hfind =>
    obtain ⟨hst, hq⟩ := h.find_blocked hfind
    obtain ⟨-, -, -, hok⟩ := h.waits btcb w hst
    rw [← setErrno_self hok] at hrun
    obtain ⟨hinv, hdata, hnwait, hdeficit⟩ := h.release hst hq hrun
    exact ⟨hinv, hdata, hnwait, by simpa using hdeficit⟩

theorem wakeFirst_returns (hpos : 0 < s.nwait w msgq) : ∃ s', wakeFirst s w msgq = some s' := by
  have hcount := h.count w msgq
  have hsome : 0 < s.tasks.pids.countP (blocked s w msgq) := by omega
  obtain ⟨u, -, hu⟩ := countP_pos_iff.mp hsome
  obtain ⟨hst, hq⟩ : s.tasks.taskState u = w.state ∧ s.msgwaitq u = some msgq :=
    of_decide_eq_true hu
  have hmem := (h.sched.lists.mem_wait (isWait_state w) (tasklist_state w)).mpr hst
  cases hfind : (s.tasks.list w.list).find? (fun btcb => s.msgwaitq btcb = some msgq) with
  | none => exact absurd hq (by simpa using find?_eq_none.mp hfind u hmem)
  | some btcb =>
    obtain ⟨hbst, -⟩ := h.find_blocked hfind
    obtain ⟨tasks, hun⟩ := upUnblockTask_returns h.sched.lists
      (hbst ▸ isBlocked_of_isWait (isWait_state w)) (h.ranked btcb w hbst)
    refine ⟨((s.setMsgwaitq btcb none).setNwait w msgq (wrap16 (s.nwait w msgq - 1))).setTasks
      tasks, ?_⟩
    simp [wakeFirst, hfind, unblock, hun]

/-- The second critical section of `mq_dosend` looks after one message. -/
theorem mqNotify_inv (hrun : mqNotify s msgq = some s') :
    WaitInv s' ∧ s'.data = s.data ∧ ∀ k, 0 < s'.nwait .notempty k →
      0 < s.nwait .notempty k ∧ deficit s' k + (if k = msgq then 1 else 0) = deficit s k := by
  unfold mqNotify at hrun
  split at hrun
  · next hpos =>
    obtain ⟨hinv, hdata, hnwait, hdeficit⟩ := wakeFirst_inv h hrun
    refine ⟨hinv, hdata, fun k hk => ?_⟩
    rw [hnwait] at hk
    rw [hdeficit]
    by_cases hq : k = msgq
    · subst hq
      simp only [and_self] at hk ⊢
      omega
    · omega
  · next hpos =>
    cases hrun
    refine ⟨h, rfl, fun k hk => ⟨hk, ?_⟩⟩
    have hq : k ≠ msgq := fun heq => hpos (heq ▸ hk)
    simp [hq]

end

/-- A call has begun: it holds the lock already, or takes it now. -/
def Entered (s s₁ : MqSys) (rtcb : Nat) : Prop :=
  (s₁ = s ∧ (s.data.pc rtcb).locks = 1) ∨ (s₁ = s.lock ∧ (s.data.pc rtcb).locks = 0)

section

variable (h : Entered s s₁ rtcb)
include h

theorem Entered.data : s₁.data = s.data := by
  rcases h with ⟨rfl, -⟩ | ⟨rfl, -⟩ <;> rfl

theorem Entered.msglist : (s₁.setPc rtcb pc).data.msglist = s.data.msglist := by
  rcases h with ⟨rfl, -⟩ | ⟨rfl, -⟩ <;> rfl

theorem Entered.thisTask : s₁.tasks.thisTask = s.tasks.thisTask := by
  rcases h with ⟨rfl, -⟩ | ⟨rfl, -⟩
  · rfl
  · simp [Tasks.thisTask]

end

/-- The running task goes on under one lock. -/
theorem WaitInv.enter (h : WaitInv s) (hthis : s.tasks.thisTask = some rtcb)
    (hentered : Entered s s₁ rtcb) (hworks : Works s s' rtcb) (htasks : s'.tasks = s₁.tasks)
    (hlocks : (s'.data.pc rtcb).locks = 1) (hminds : Minds s s' rtcb) :
    WaitInv s' ∧ Eases s s' := by
  rcases hentered with ⟨rfl, hold⟩ | ⟨rfl, hold⟩
  · exact h.goes hthis hworks htasks (by omega) hminds
  · exact h.goesLocked hthis hworks htasks (by omega) hminds

theorem Entered.works (hentered : Entered s s₁ rtcb) (hpc : ∀ u, u ≠ rtcb → d.pc u = s.data.pc u) :
    Works s (s₁.setData d) rtcb := by
  rcases hentered with ⟨rfl, -⟩ | ⟨rfl, -⟩ <;> exact ⟨rfl, rfl, fun u _ => rfl, hpc⟩

theorem Entered.worksPc (hentered : Entered s s₁ rtcb) : Works s (s₁.setPc rtcb pc) rtcb :=
  hentered.works fun u hu => by simp [hentered.data, hu]

/-- A task that counts on no message, or on the same one, and leaves the queues alone. -/
theorem minds_of_covers (hlist : s'.data.msglist = s.data.msglist)
    (hcovers : ∀ k, covers s k rtcb = false ∨ covers s k rtcb = covers s' k rtcb) :
    Minds s s' rtcb := by
  intro k
  rw [hlist]
  rcases hcovers k with hk | hk
  · simp [hk]
  · rw [hk]

section

variable (h : WaitInv s) (hthis : s.tasks.thisTask = some rtcb) (hentered : Entered s s₁ rtcb)
include h hthis hentered

theorem WaitInv.waitFor (hpc : pc.waits = some (w, msgq)) (hlocks : pc.locks = 1)
    (hcovers : ∀ k, covers s k rtcb = false ∨ covers s k rtcb = covers (s₁.setPc rtcb pc) k rtcb)
    (hempty : w = .notempty → s.data.msglist msgq = [])
    (hrun : waitFor s₁ rtcb w msgq pc = some s') : WaitInv s' ∧ Eases s s' := by
  have hself : (s₁.setPc rtcb pc).data.pc rtcb = pc := by simp
  obtain ⟨h₂, heases⟩ := h.enter hthis hentered hentered.worksPc rfl
    (by rw [hself]; exact hlocks) (minds_of_covers hentered.msglist hcovers)
  have hthis₂ : (s₁.setPc rtcb pc).tasks.thisTask = some rtcb := hentered.thisTask.trans hthis
  rw [← waitFor_setPc] at hrun
  obtain ⟨tasks, hblock, hs'⟩ := map_eq_some_iff.mp hrun
  have hsame : ((((s₁.setPc rtcb pc).setMsgwaitq rtcb (some msgq)).setNwait w msgq
      (wrap16 ((s₁.setPc rtcb pc).nwait w msgq + 1))).setErrno rtcb .ok).setPc rtcb pc =
      (((s₁.setPc rtcb pc).setMsgwaitq rtcb (some msgq)).setNwait w msgq
        (wrap16 ((s₁.setPc rtcb pc).nwait w msgq + 1))).setErrno rtcb .ok :=
    setPc_self hself
  rw [hsame] at hs'
  obtain ⟨h', heases'⟩ := h₂.block hthis₂ (by rw [hself]; exact hpc)
    (fun hw => by rw [hentered.msglist]; exact hempty hw)
    hblock hs'.symm
  exact ⟨h', heases.trans heases'⟩

theorem mqWaitsend_wait {o : Outgoing} (hcovers : ∀ k, covers s k rtcb = false)
    (hrun : mqWaitsend s₁ rtcb o mqmsg = some s') : WaitInv s' ∧ Eases s s' := by
  have hgoes : ∀ pc : Pc, pc.locks = 1 → WaitInv (s₁.setPc rtcb pc) ∧ Eases s (s₁.setPc rtcb pc) := by
    intro pc hlocks
    exact h.enter hthis hentered hentered.worksPc rfl (by simpa using hlocks)
      (minds_of_covers hentered.msglist fun k => .inl (hcovers k))
  unfold mqWaitsend at hrun
  split at hrun
  · split at hrun
    · cases hrun
      exact hgoes _ (by cases mqmsg <;> rfl)
    · exact h.waitFor hthis hentered rfl rfl (fun k => .inl (hcovers k)) (by simp) hrun
  · cases hrun
    exact hgoes _ (by cases mqmsg <;> rfl)

theorem mqWaitreceive_wait {nonblock : Bool}
    (hpc : s.data.pc rtcb = .idle ∨ (s.data.pc rtcb = .waitreceive msgq ∧ nonblock = false))
    (hrun : mqWaitreceive s₁ rtcb msgq nonblock = some s') : WaitInv s' ∧ Eases s s' := by
  have hcovers : ∀ k, k ≠ msgq → covers s k rtcb = false := by
    intro k hk
    rcases hpc with hpc | ⟨hpc, -⟩ <;> exact covers_eq_false (by simp [hpc, Ne.symm hk]) (by simp [hpc])
  unfold mqWaitreceive at hrun
  split at hrun
  · next mqmsg rest hqueue =>
    cases hrun
    rw [hentered.data] at hqueue
    refine h.enter hthis hentered (hentered.works fun u hu => ?_) rfl (by simp [Pc.locks]) fun k => ?_
    · simp [hentered.data, hu]
    · -- the one message it may count on is the one it takes
      by_cases hk : k = msgq
      · subst hk
        have := Bool.toNat_le (covers s k rtcb)
        simp only [setData_data, MqData.setPc_msglist, MqData.setMsglist_msglist,
          update_self, hqueue, length_cons]
        omega
      · rw [hcovers k hk]
        simp [hentered.data, hk]
  · next hqueue =>
    rw [hentered.data] at hqueue
    split at hrun
    · next hnonblock =>
      cases hrun
      have hidle : s.data.pc rtcb = .idle := by
        rcases hpc with hpc | ⟨-, hfalse⟩
        · exact hpc
        · simp [hfalse] at hnonblock
      refine h.enter hthis hentered hentered.worksPc rfl (by simp [Pc.locks])
        (minds_of_covers hentered.msglist fun k => .inl ?_)
      exact covers_eq_false (by simp [hidle]) (by simp [hidle])
    · refine h.waitFor hthis hentered rfl rfl (fun k => ?_) (fun _ => hqueue) hrun
      rcases hpc with hidle | ⟨hwait, -⟩
      · exact .inl (covers_eq_false (by simp [hidle]) (by simp [hidle]))
      · refine .inr ?_
        have hsame : s₁ = s := by
          rcases hentered with ⟨rfl, -⟩ | ⟨-, hlocks⟩
          · rfl
          · simp [hwait, Pc.locks] at hlocks
        rw [hsame, setPc_self hwait]

end

theorem mqMsgalloc_frame {d' : MqData} (hrun : mqMsgalloc d fresh = (d', mqmsg)) :
    d'.msglist = d.msglist ∧ d'.pc = d.pc := by
  unfold mqMsgalloc at hrun
  split at hrun
  · cases hrun
    exact ⟨rfl, rfl⟩
  · split at hrun <;> cases hrun <;> exact ⟨rfl, rfl⟩

theorem mqMsgfree_frame {mqmsg : Nat} :
    (mqMsgfree d mqmsg).msglist = d.msglist ∧ (mqMsgfree d mqmsg).pc = d.pc := by
  unfold mqMsgfree
  split <;> exact ⟨rfl, rfl⟩

section

variable (h : WaitInv s)
include h

theorem call_wait {c : MqCall} (hthis : s.tasks.thisTask = some rtcb) (hpc : s.data.pc rtcb = .idle)
    (hrun : s.call rtcb fresh c = some s') : WaitInv s' ∧ Eases s s' := by
  have hentered : Entered s s.lock rtcb := .inr ⟨rfl, by rw [hpc]; rfl⟩
  have hcovers : ∀ k, covers s k rtcb = false := fun k =>
    covers_eq_false (by simp [hpc]) (by simp [hpc])
  have herror : ∀ e, WaitInv (s.setErrno rtcb e) ∧ Eases s (s.setErrno rtcb e) := by
    intro e
    exact h.goes hthis ⟨rfl, rfl, fun u hu => by simp [hu], fun u hu => rfl⟩ rfl rfl
      (minds_of_covers rfl fun k => .inl (hcovers k))
  cases c with
  | send mqdes msg prio =>
    simp only [MqSys.call] at hrun
    split at hrun
    · cases hrun
      exact herror _
    · exact mqWaitsend_wait h hthis hentered hcovers hrun
  | timedsend mqdes msg prio late =>
    simp only [MqSys.call] at hrun
    split at hrun
    · cases hrun
      exact herror _
    · next o _ =>
      split at hrun
      · cases hrun
        exact herror _
      · next d mqmsg halloc =>
        cases hrun
        obtain ⟨hlist, hpcs⟩ := mqMsgalloc_frame halloc
        refine h.goes hthis ⟨rfl, rfl, fun u hu => rfl, fun u hu => ?_⟩ rfl ?_
          (minds_of_covers hlist fun k => .inl (hcovers k))
        · simp [hu, hpcs]
        · simp [hpc, Pc.locks]
  | receive mqdes msg msglen =>
    simp only [MqSys.call] at hrun
    split at hrun
    · cases hrun
      exact herror _
    · exact mqWaitreceive_wait h hthis hentered (.inl hpc) hrun
  | timedreceive mqdes msg msglen bad late =>
    simp only [MqSys.call] at hrun
    split at hrun
    · cases hrun
      exact herror _
    · split at hrun
      · cases hrun
        exact herror _
      · split at hrun
        · cases hrun
          exact h.enter hthis hentered hentered.worksPc rfl (by simp [Pc.locks])
            (minds_of_covers rfl fun k => .inl (hcovers k))
        · exact mqWaitreceive_wait h hthis hentered (.inl hpc) hrun

theorem go_wait (hthis : s.tasks.thisTask = some rtcb)
    (hrun : s.go rtcb fresh (s.data.pc rtcb) = some s') : WaitInv s' ∧ Eases s s' := by
  -- under the one lock of its call, the task goes on with other data
  have hgoes : ∀ {d : MqData} {pc : Pc}, (∀ k, covers s k rtcb = false) →
      (s.data.pc rtcb).locks = 1 → pc.locks = 1 → d.msglist = s.data.msglist ∧ d.pc = s.data.pc →
      WaitInv (s.setData (d.setPc rtcb pc)) ∧ Eases s (s.setData (d.setPc rtcb pc)) := by
    intro d pc hcovers hold hlocks hd
    refine h.goes hthis ⟨rfl, rfl, fun u hu => rfl, fun u hu => ?_⟩ rfl ?_
      (minds_of_covers hd.1 fun k => .inl (hcovers k))
    · simp [hu, hd.2]
    · simp [hlocks, hold]
  have hreturn : ∀ s₁ : MqSys, Works s s₁ rtcb → s₁.tasks = s.tasks →
      s₁.data.msglist = s.data.msglist → (∀ k, covers s k rtcb = false) →
      (s.data.pc rtcb).locks = 1 → s₁.data.pc rtcb = .idle → s₁.unlock = some s' →
      WaitInv s' ∧ Eases s s' := by
    intro s₁ hworks htasks hlist hcovers hold hidle hrun
    have hlocks := h.locks rtcb
    obtain ⟨h', htally, hnwait⟩ := h.goesUnlocked hthis hworks htasks (.inr (by rw [hidle]; rfl))
      (by rw [hidle]; simp only [Pc.locks]; omega) hrun
    exact ⟨h', htally.eases (minds_of_covers hlist fun k => .inl (hcovers k)) hnwait⟩
  generalize hpc : s.data.pc rtcb = pc at hrun
  cases pc with
  | idle =>
    cases hrun
  | room o mqmsg late =>
    have hcovers := covers_none hpc (by simp)
    have hentered : Entered s s.lock rtcb := .inr ⟨rfl, by rw [hpc]; rfl⟩
    have hlocked : ∀ pc : Pc, pc.locks = 1 →
        WaitInv (s.lock.setPc rtcb pc) ∧ Eases s (s.lock.setPc rtcb pc) := fun pc hlocks =>
      h.enter hthis hentered hentered.worksPc rfl (by simpa using hlocks)
        (minds_of_covers rfl fun k => .inl (hcovers k))
    simp only [MqSys.go] at hrun
    split at hrun
    · cases hrun
      exact hlocked _ rfl
    · split at hrun <;> cases hrun <;> exact hlocked _ rfl
  | full o mqmsg =>
    exact mqWaitsend_wait h hthis (.inl ⟨rfl, by rw [hpc]; rfl⟩)
      (covers_none hpc (by simp)) hrun
  | waitsend o mqmsg =>
    have hcovers := covers_none hpc (by simp)
    simp only [MqSys.go] at hrun
    split at hrun
    · cases hrun
      exact hgoes hcovers (by rw [hpc]; rfl) (by cases mqmsg <;> rfl) ⟨rfl, rfl⟩
    · exact mqWaitsend_wait h hthis (.inl ⟨rfl, by rw [hpc]; rfl⟩) hcovers hrun
  | alloc o =>
    have hcovers := covers_none hpc (by simp)
    simp only [MqSys.go] at hrun
    split at hrun
    · cases hrun
      exact hgoes hcovers (by rw [hpc]; rfl) rfl ⟨rfl, rfl⟩
    · next d mqmsg halloc =>
      cases hrun
      exact hgoes hcovers (by rw [hpc]; rfl) rfl (mqMsgalloc_frame halloc)
  | dosend o mqmsg =>
    -- one more message, and its sender on the way to unblock a receiver
    cases hrun
    refine h.goesLocked hthis ⟨rfl, rfl, fun u hu => rfl, fun u hu => ?_⟩ rfl ?_ fun k => ?_
    · simp [hu, mqInsert]
    · simp [hpc, Pc.locks]
    · rw [covers_none hpc (by simp)]
      by_cases hk : k = o.msgq
      · subst hk
        simp [covers, notifying, mqInsert, orderedInsert_length]
      · simp [mqInsert, hk]
  | wake msgq =>
    simp only [MqSys.go] at hrun
    split at hrun
    · cases hrun
    · next s₁ hnotify =>
      obtain ⟨h₁, hdata, hdeficit⟩ := mqNotify_inv h hnotify
      have hpc₁ : s₁.data.pc rtcb = .wake msgq := by rw [hdata, hpc]
      have hworks : Works s₁ (s₁.setPc rtcb (.ret .ok)) rtcb :=
        ⟨rfl, rfl, fun u hu => rfl, fun u hu => by simp [hu]⟩
      have hlocks := h₁.locks rtcb
      rw [hpc₁] at hlocks
      simp only [Pc.locks] at hlocks
      obtain ⟨h', htally, hnwait⟩ := h₁.goesUnlocked (h₁.runs rtcb (by rw [hpc₁]; rfl))
        hworks rfl
        (.inl (by simp only [setPc_data, MqData.setPc_pc, update_self, Pc.locks]; omega))
        (by simp only [setPc_data, MqData.setPc_pc, update_self, Pc.locks]; omega) hrun
      refine ⟨h', fun k hk => ?_⟩
      -- what it owed the queue it has done, or nobody waits
      rw [hnwait] at hk
      obtain ⟨hpos, hless⟩ := hdeficit k hk
      refine .inl ⟨hpos, ?_⟩
      have hsum := htally k
      have hnow : covers (s₁.setPc rtcb (.ret .ok)) k rtcb = false :=
        covers_eq_false (by simp) (by simp)
      by_cases hkq : k = msgq
      · subst hkq
        have hwas : covers s₁ k rtcb = true := by simp [covers, notifying, hpc₁]
        rw [hnow, hwas] at hsum
        simp only [setPc_data, MqData.setPc_msglist, Bool.toNat_true,
          if_true] at hsum hless
        omega
      · have hwas : covers s₁ k rtcb = false :=
          covers_eq_false (by simp [hpc₁]) (by simp [hpc₁, Ne.symm hkq])
        rw [hnow, hwas] at hsum
        simp only [setPc_data, MqData.setPc_msglist, if_neg hkq]
          at hsum hless
        omega
  | errout mqmsg errcode =>
    cases hrun
    exact hgoes (covers_none hpc (by simp)) (by rw [hpc]; rfl) rfl
      mqMsgfree_frame
  | waitreceive msgq =>
    simp only [MqSys.go] at hrun
    split at hrun
    · next herr =>
      cases hrun
      refine hgoes (fun k => ?_) (by rw [hpc]; rfl) rfl ⟨rfl, rfl⟩
      simp [covers, promised, notifying, hpc, herr]
    · exact mqWaitreceive_wait h hthis (.inl ⟨rfl, by rw [hpc]; rfl⟩) (.inr ⟨hpc, rfl⟩) hrun
  | doreceive msgq mqmsg =>
    cases hrun
    exact hgoes (covers_none hpc (by simp)) (by rw [hpc]; rfl) rfl
      mqMsgfree_frame
  | check r =>
    simp only [MqSys.go] at hrun
    split at hrun <;> cases hrun <;>
      exact hgoes (covers_none hpc (by simp)) (by rw [hpc]; rfl) rfl
        ⟨rfl, rfl⟩
  | wakesender r =>
    simp only [MqSys.go] at hrun
    split at hrun
    · cases hrun
    · next s₁ hwake =>
      cases hrun
      obtain ⟨h₁, hdata, hnwait, hdeficit⟩ := wakeFirst_inv h hwake
      have hpc₁ : s₁.data.pc rtcb = .wakesender r := by rw [hdata, hpc]
      have heases : Eases s s₁ := by
        intro k hk
        rw [hnwait] at hk
        rw [hdeficit]
        exact .inl (by simpa using hk)
      have hworks : Works s₁ (s₁.setPc rtcb (.ret (.received r))) rtcb :=
        ⟨rfl, rfl, fun u hu => rfl, fun u hu => by simp [hu]⟩
      obtain ⟨h', heases'⟩ := h₁.goes (h₁.runs rtcb (by rw [hpc₁]; rfl)) hworks rfl
        (by rw [hpc₁]; simp [Pc.locks])
        (minds_of_covers rfl fun k => .inl (covers_none hpc₁ (by simp) k))
      exact ⟨h', heases.trans heases'⟩
  | ret result =>
    have hcovers := covers_none hpc (by simp)
    have hlocks : (s.data.pc rtcb).locks = 1 := by rw [hpc]; rfl
    cases result with
    | ok =>
      exact hreturn (s.setPc rtcb .idle) ⟨rfl, rfl, fun u hu => rfl, fun u hu => by simp [hu]⟩
        rfl rfl hcovers hlocks (by simp) hrun
    | error e =>
      exact hreturn ((s.setErrno rtcb e).setPc rtcb .idle)
        ⟨rfl, rfl, fun u hu => by simp [hu], fun u hu => by simp [hu]⟩ rfl rfl hcovers hlocks
        (by simp) hrun
    | received r =>
      exact hreturn (s.setData ((s.data.logReturned r).setPc rtcb .idle))
        ⟨rfl, rfl, fun u hu => rfl, fun u hu => by simp [hu]⟩ rfl rfl hcovers hlocks (by simp) hrun

theorem mqSendIrq_wait {mqdes : Option MqDes} {msg : Option (List UInt8)} {prio : Int}
    (hrun : mqSendIrq s mqdes msg prio = some s') : WaitInv s' ∧ Eases s s' := by
  have hstay : Eases s s := fun k hk => .inl ⟨hk, le_rfl⟩
  unfold mqSendIrq at hrun
  split at hrun
  · cases hrun
    exact ⟨h, hstay⟩
  · next o _ =>
    split at hrun
    · cases hrun
      exact ⟨h, hstay⟩
    · next d mqmsg halloc =>
      have hd : d.msglist = s.data.msglist ∧ d.pc = s.data.pc := by
        unfold mqMsgallocIrq at halloc
        split at halloc
        · cases halloc
          exact ⟨rfl, rfl⟩
        · split at halloc <;> cases halloc
          exact ⟨rfl, rfl⟩
      -- the message is in the queue before anybody is told
      have hpc : (mqInsert d o mqmsg).pc = s.data.pc := by
        rw [← hd.2]
        rfl
      have h₁ : WaitInv (s.setData (mqInsert d o mqmsg)) := by
        refine ⟨h.sched, h.idle, h.ranked, fun t w ht => ?_, h.count, fun t => ?_, fun t ht => ?_,
          fun t ht => ?_⟩
        · rw [setData_data, hpc]
          exact h.waits t w ht
        · rw [setData_data, hpc]
          exact h.locks t
        · rw [setData_data, hpc] at ht
          exact h.runs t ht
        · rw [setData_data, hpc]
          exact h.fresh t ht
      have hdeficit : ∀ k, deficit (s.setData (mqInsert d o mqmsg)) k =
          deficit s k + if k = o.msgq then 1 else 0 := by
        intro k
        have hcovers : covers (s.setData (mqInsert d o mqmsg)) k = covers s k := by
          funext t
          simp [covers, promised, notifying, hpc]
        unfold deficit
        rw [hcovers]
        by_cases hk : k = o.msgq
        · subst hk
          simp [mqInsert, orderedInsert_length, hd.1]
          omega
        · simp [mqInsert, hk, hd.1]
      obtain ⟨h', -, hless⟩ := mqNotify_inv h₁ hrun
      refine ⟨h', fun k hk => ?_⟩
      obtain ⟨hpos, hsum⟩ := hless k hk
      have hmore := hdeficit k
      exact .inl ⟨hpos, by omega⟩

theorem mqWaitirq_wait (hrun : mqWaitirq s t e = some s') : WaitInv s' ∧ Eases s s' := by
  obtain rfl | ⟨w, msgq, hst, hq, hrun⟩ := mqWaitirq_cases hrun
  · exact ⟨h, fun k hk => .inl ⟨hk, le_rfl⟩⟩
  · obtain ⟨h', -, hnwait, hdeficit⟩ := h.release hst hq hrun
    refine ⟨h', fun k hk => .inl ?_⟩
    have hnow := hdeficit k
    rw [hnwait] at hk
    split at hk <;> exact ⟨by omega, by omega⟩

/-- A new task waits for nothing and nobody counts on it. -/
theorem setup_wait {p : Int} {tasks : Tasks} (hthis : s.tasks.thisTask = some rtcb)
    (hpc : s.data.pc rtcb = .idle) (hrun : threadSchedsetup s.tasks t p = some tasks) :
    WaitInv (((s.setTasks tasks).setMsgwaitq t none).setErrno t .ok) ∧
      Eases s (((s.setTasks tasks).setMsgwaitq t none).setErrno t .ok) := by
  obtain ⟨hsched, hidle, hnew, hpids, hwait, hprio⟩ := threadSchedsetup_wait h.sched hrun
  have hwait : ∀ u (w : Wait), tasks.taskState u = w.state ↔ s.tasks.taskState u = w.state :=
    fun u w => hwait u _ (isWait_state w)
  have hempty : ∀ u, tasks.taskState u = .waitMqnotempty ↔
      s.tasks.taskState u = .waitMqnotempty := fun u => hwait u .notempty
  obtain ⟨hlock, hlocks⟩ := threadSchedsetup_lockcount h.sched (fun u => by
    have := h.locks u
    have := locks_nonneg (s.data.pc u)
    unfold maxLockCount at *
    omega) hrun
  have hoff : ∀ w : Wait, s.tasks.taskState t ≠ w.state := by
    intro w heq
    refine hnew ((h.sched.registered t).mpr ?_)
    rw [heq]
    cases w <;> simp [Wait.state]
  have hne : ∀ u (w : Wait), s.tasks.taskState u = w.state → u ≠ t := by
    rintro u w hu rfl
    exact hoff w hu
  have hblocked : ∀ w k, s.tasks.pids.countP (blocked (((s.setTasks tasks).setMsgwaitq t
      none).setErrno t .ok) w k) = s.tasks.pids.countP (blocked s w k) := by
    intro w k
    refine countP_congr fun u hu => ?_
    have hut : u ≠ t := fun heq => hnew (heq ▸ hu)
    simp [blocked, hwait, hut]
  have hcovers : ∀ k, s.tasks.pids.countP (covers (((s.setTasks tasks).setMsgwaitq t
      none).setErrno t .ok) k) = s.tasks.pids.countP (covers s k) := by
    intro k
    refine countP_congr fun u hu => ?_
    have hut : u ≠ t := fun heq => hnew (heq ▸ hu)
    simp [covers, promised, notifying, hempty, hut]
  refine ⟨⟨hsched, hidle h.idle, fun u w hu => ?_, fun u w hu => ?_, fun w k => ?_, fun u => ?_,
    fun u hu => ?_, fun u hu => ?_⟩, fun k hk => .inl ⟨hk, le_of_eq ?_⟩⟩
  · have hold := (hwait u w).mp hu
    exact (h.ranked u w hold).trans_eq (hprio u (hne u w hold)).symm
  · have hold := (hwait u w).mp hu
    simpa [hne u w hold] using h.waits u w hold
  · have hself : blocked (((s.setTasks tasks).setMsgwaitq t none).setErrno t .ok) w k t = false := by
      simp [blocked]
    change s.nwait w k = (tasks.pids.countP _ : Nat)
    rw [hpids, countP_cons, hself, hblocked, h.count]
    simp
  · change (s.data.pc u).locks ≤ tasks.lockcount u ∧
      tasks.lockcount u ≤ maxLockCount + (s.data.pc u).locks
    by_cases hu : u = t
    · subst hu
      rw [hlock, h.fresh u hnew]
      decide
    · rw [hlocks u hu]
      exact h.locks u
  · -- the running task is not at work, and nobody else can be
    have hrun := h.runs u hu
    obtain rfl : u = rtcb := by simpa [hthis] using hrun.symm
    have hu : (s.data.pc u).working = true := hu
    rw [hpc] at hu
    cases hu
  · refine h.fresh u fun hold => hu ?_
    change u ∈ tasks.pids
    rw [hpids]
    exact mem_cons_of_mem t hold
  · have hself : covers (((s.setTasks tasks).setMsgwaitq t none).setErrno t .ok) k t = false :=
      covers_eq_false (by simp [h.fresh t hnew]) (by simp [h.fresh t hnew])
    change ((s.data.msglist k).length : Int) - (tasks.pids.countP _ : Nat) = _
    rw [hpids, countP_cons, hself, hcovers]
    simp [deficit]

theorem mqSched_wait {a : SchedAct} (hthis : s.tasks.thisTask = some rtcb)
    (hrun : mqSched s rtcb a = some s') : WaitInv s' ∧ Eases s s' := by
  have hquiet : ∀ {tasks : Tasks}, WaitInv (s.setTasks tasks) ∧
      (∀ k, deficit (s.setTasks tasks) k = deficit s k) →
      WaitInv (s.setTasks tasks) ∧ Eases s (s.setTasks tasks) := fun hq =>
    ⟨hq.1, fun k hk => .inl ⟨hk, (hq.2 k).le⟩⟩
  -- where the running task may lose the processor, nobody is at work
  have hruns : (s.data.pc rtcb).yields = true → ∀ (tasks : Tasks) u,
      (s.data.pc u).working = true → tasks.thisTask = some u := by
    intro hyields tasks u hu
    have hrun := h.runs u hu
    cases hp : s.data.pc u <;> simp_all [Pc.yields, Pc.working]
  cases a with
  | setup pid p =>
    simp only [mqSched] at hrun
    split at hrun
    · next hpc =>
      obtain ⟨tasks, hsetup, rfl⟩ := map_eq_some_iff.mp hrun
      exact setup_wait h hthis hpc hsetup
    · cases hrun
  | block wait =>
    simp only [mqSched] at hrun
    split at hrun
    · next hok =>
      obtain ⟨tasks, hblock, rfl⟩ := map_eq_some_iff.mp hrun
      obtain ⟨⟨l, hcall⟩, hself, hothers⟩ := upBlockTask_wait h.sched.lists hthis wait.2 hblock
      refine hquiet (h.call hcall (fun u w => ?_) (hruns hok.1 tasks))
      by_cases hu : u = rtcb
      · subst hu
        rw [hself]
        refine ⟨fun heq => ?_, fun heq => absurd heq (h.not_waiting hthis w)⟩
        cases w with
        | notfull => exact absurd heq hok.2.1
        | notempty => exact absurd heq hok.2.2
      · exact hothers u _ hu (isWait_state w)
    · cases hrun
  | unblock tcb =>
    simp only [mqSched] at hrun
    split at hrun
    · next hok =>
      obtain ⟨tasks, hun, rfl⟩ := map_eq_some_iff.mp hrun
      obtain ⟨⟨l, hcall⟩, hwait⟩ := upUnblockTask_wait h.sched.lists hun
      refine hquiet (h.call hcall (fun u w => ?_) fun u hu => ?_)
      · rw [hwait u _ (isWait_state w)]
        refine ⟨fun hu => hu.2, fun hu => ⟨?_, hu⟩⟩
        rintro rfl
        cases w with
        | notfull => exact hok.1 hu
        | notempty => exact hok.2 hu
      · have hlock : 0 < s.tasks.lockcount u := by
          have := (h.locks u).1
          have := locks_of_working hu
          omega
        exact upUnblockTask_thisTask (h.runs u hu) hlock hun
    · cases hrun
  | setpriority tcb p =>
    simp only [mqSched] at hrun
    split at hrun
    · next hok =>
      obtain ⟨tasks, hstep, rfl⟩ := map_eq_some_iff.mp hrun
      obtain ⟨hsched, hidle⟩ := sched_step h.sched hstep
      have hidle := hidle (by simpa [SchedAct.ranksIdle] using hok.2) h.idle
      obtain ⟨⟨tasks, b⟩, hset, rfl⟩ := map_eq_some_iff.mp hstep
      have hwait : ∀ u (w : Wait), tasks.taskState u = w.state ↔ s.tasks.taskState u = w.state :=
        fun u w => schedSetpriority_wait h.sched.lists (isWait_state w) hset
      rcases schedSetpriority_call h.sched.lists hset with ⟨-, rfl⟩ | ⟨-, hmin, -, hcall⟩
      · exact ⟨h, fun k hk => .inl ⟨hk, le_rfl⟩⟩
      · refine hquiet (h.setTasks hsched hidle hwait (fun u w hu => ?_) hcall.frame.pids
          hcall.frame.lockcount (hruns hok.1 tasks))
        rw [hcall.frame.priority]
        by_cases hut : u = tcb
        · simp only [hut, Tasks.setPriority_schedPriority, update_self]
          omega
        · simpa [hut] using h.ranked u w hu
    · cases hrun
  | reprioritize tcb p =>
    simp only [mqSched] at hrun
    split at hrun
    · next hok =>
      obtain ⟨tasks, hstep, rfl⟩ := map_eq_some_iff.mp hrun
      obtain ⟨hsched, hidle⟩ := sched_step (a := .reprioritize tcb p) h.sched hstep
      have hidle := hidle (by simpa [SchedAct.ranksIdle] using hok.2) h.idle
      obtain ⟨hcall, hmin, -⟩ := upReprioritizeRtr_call h.sched.lists hstep
      refine hquiet (h.setTasks hsched hidle
        (fun u w => upReprioritizeRtr_wait h.sched.lists (isWait_state w) hstep)
        (fun u w hu => ?_) hcall.frame.pids hcall.frame.lockcount (hruns hok.1 tasks))
      rw [hcall.frame.priority]
      by_cases hut : u = tcb
      · simpa [hut] using hmin
      · simpa [hut] using h.ranked u w hu
    · cases hrun
  | lock =>
    simp only [mqSched] at hrun
    split at hrun
    · next hok =>
      cases hrun
      have hold := h.locks rtcb
      rw [hok.1] at hold
      simp only [Pc.locks, maxLockCount] at hold hok
      have hwrap : wrap16 (s.tasks.lockcount rtcb + 1) = s.tasks.lockcount rtcb + 1 := by
        unfold wrap16
        omega
      have hworks : Works s s.lock rtcb := ⟨rfl, rfl, fun u hu => rfl, fun u hu => rfl⟩
      obtain ⟨h', htally⟩ := h.works hthis hworks
        (by rw [lock_tasks, schedLock_of_thisTask hthis])
        (by rw [lock_data, hok.1]; simp only [Pc.locks, maxLockCount]; omega)
      refine ⟨h', htally.eases (minds_of_covers rfl fun k => .inl ?_) rfl⟩
      exact covers_eq_false (by simp [hok.1]) (by simp [hok.1])
    · cases hrun
  | unlock =>
    simp only [mqSched] at hrun
    split at hrun
    · next hpc =>
      have hold := h.locks rtcb
      rw [hpc] at hold
      simp only [Pc.locks] at hold
      obtain ⟨h', htally, hnwait⟩ := h.goesUnlocked hthis
        ⟨rfl, rfl, fun u hu => rfl, fun u hu => rfl⟩ rfl (.inr (by rw [hpc]; rfl))
        (by rw [hpc]; simp only [Pc.locks]; omega) hrun
      refine ⟨h', htally.eases (minds_of_covers rfl fun k => .inr rfl) hnwait⟩
    · cases hrun
  | terminate tcb => cases hrun

/-- Every step keeps the invariant and leaves no message to itself where tasks wait. -/
theorem wait_step {a : MqAct} (hstep : s.step a = some s') : WaitInv s' ∧ Eases s s' := by
  unfold MqSys.step at hstep
  split at hstep
  · cases hstep
  · next rtcb hthis =>
    cases a with
    | call c fresh =>
      simp only at hstep
      split at hstep
      · next hok => exact call_wait h hthis hok.1 hstep
      · cases hstep
    | go fresh =>
      simp only at hstep
      split at hstep
      · exact go_wait h hthis hstep
      · cases hstep
    | sendIrq mqdes msg prio => exact mqSendIrq_wait h hstep
    | timeout tcb => exact mqWaitirq_wait h hstep
    | signal tcb => exact mqWaitirq_wait h hstep
    | sched a => exact mqSched_wait h hthis hstep

end

theorem mqStart_wait (attr : Nat → MqAttr) : WaitInv (mqStart attr) := by
  have hstate : ∀ t (w : Wait), (mqStart attr).tasks.taskState t ≠ w.state := by
    intro t w
    by_cases ht : t = idle <;> cases w <;> simp [mqStart, osStart, ht, Wait.state]
  refine ⟨osStart_inv, osStart_idle, fun t w ht => absurd ht (hstate t w),
    fun t w ht => absurd ht (hstate t w), fun w k => ?_, fun t => ?_, fun t ht => ?_, fun t _ => rfl⟩
  · have hblocked : ∀ t, blocked (mqStart attr) w k t = false := by
      intro t
      simp [blocked, hstate]
    rw [funext hblocked]
    rfl
  · simp [mqStart, osStart, Pc.locks, maxLockCount]
  · cases ht

end NbLot.Source.Mqueue
