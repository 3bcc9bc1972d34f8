import NbLot.Lib.Counting
import NbLot.Source.Mqueue.Moves
import NbLot.Source.Sched.Waits

/-!
# Who waits for a queue

`WaitInv` ties the counts of waiting tasks to the scheduler's lists and to the places the
tasks are at, and says who holds the preemption lock: a task that is at work in a queue's
function is the running one, and stays it until it blocks or returns.

`deficit` is the number of messages in a queue that nobody is about to take: those for
which no receiver has been unblocked and no sender is on its way to unblock one. `Eases`
says that a step does not raise it where tasks wait.
-/
namespace NbLot.Source.Mqueue

open Lib.Counting Source.Sched List MqSys

/-- What the task waits for, or was unblocked from and has not returned yet. -/
def Pc.waits : Pc → Option (Wait × Nat)
  | .waitsend o _ => some (.notfull, o.msgq)
  | .waitreceive msgq => some (.notempty, msgq)
  | _ => none

/-- How often the call holds the preemption lock. -/
def Pc.locks : Pc → Int
  | .idle | .room _ _ _ => 0
  | .wake _ => 2
  | _ => 1

/-- The call is at a place where it does not give up the processor. -/
def Pc.working : Pc → Bool
  | .dosend _ _ | .wake _ | .errout _ _ | .doreceive _ _ | .check _ | .wakesender _ | .ret _ =>
    true
  | _ => false

/-- The task is blocked waiting for the queue. -/
def blocked (s : MqSys) (w : Wait) (msgq t : Nat) : Bool :=
  s.tasks.taskState t = w.state ∧ s.msgwaitq t = some msgq

/-- The receiver was unblocked by a send and has not run yet. -/
def promised (s : MqSys) (msgq t : Nat) : Bool :=
  s.data.pc t = .waitreceive msgq ∧ s.tasks.taskState t ≠ .waitMqnotempty ∧ s.pterrno t = .ok

/-- The sender has inserted its message and has not looked for a waiting receiver yet. -/
def notifying (s : MqSys) (msgq t : Nat) : Bool :=
  s.data.pc t = .wake msgq

/-- The task will take a message from the queue, or will unblock one that does. -/
def covers (s : MqSys) (msgq t : Nat) : Bool :=
  promised s msgq t || notifying s msgq t

/-- The messages of the queue that nobody is about to take. -/
def deficit (s : MqSys) (msgq : Nat) : Int :=
  (s.data.msglist msgq).length - s.tasks.pids.countP (covers s msgq)

/-- The invariant of the waiting tasks. -/
structure WaitInv (s : MqSys) : Prop where
  sched : SchedInv s.tasks
  idle : IdleLast s.tasks
  ranked : ∀ t (w : Wait), s.tasks.taskState t = w.state →
    schedPriorityMin ≤ s.tasks.schedPriority t
  waits : ∀ t (w : Wait), s.tasks.taskState t = w.state →
    ∃ msgq, s.msgwaitq t = some msgq ∧ (s.data.pc t).waits = some (w, msgq) ∧ s.pterrno t = .ok
  count : ∀ w msgq, s.nwait w msgq = s.tasks.pids.countP (blocked s w msgq)
  locks : ∀ t, (s.data.pc t).locks ≤ s.tasks.lockcount t ∧
    s.tasks.lockcount t ≤ maxLockCount + (s.data.pc t).locks
  runs : ∀ t, (s.data.pc t).working = true → s.tasks.thisTask = some t
  fresh : ∀ t, t ∉ s.tasks.pids → s.data.pc t = .idle

/-- Where tasks wait for a message after the step, they did before and no message more is
left to itself, or none is. -/
def Eases (s s' : MqSys) : Prop :=
  ∀ msgq, 0 < s'.nwait .notempty msgq →
    (0 < s.nwait .notempty msgq ∧ deficit s' msgq ≤ deficit s msgq) ∨ deficit s' msgq ≤ 0

variable {s s₁ s' : MqSys} {t rtcb msgq : Nat} {w : Wait} {pc : Pc} {tasks : Tasks}

theorem Eases.trans (h : Eases s s₁) (h' : Eases s₁ s') : Eases s s' := by
  intro k hk
  rcases h' k hk with ⟨hpos, hle⟩ | hle
  · rcases h k hpos with ⟨hold, hle'⟩ | hle'
    · exact .inl ⟨hold, hle.trans hle'⟩
    · exact .inr (hle.trans hle')
  · exact .inr hle

theorem isWait_state (w : Wait) : w.state.isWait = true := by
  cases w <;> rfl

theorem tasklist_state (w : Wait) : w.state.tasklist = some w.list := by
  cases w <;> rfl

theorem state_inj {w w' : Wait} (h : w.state = w'.state) : w = w' := by
  cases w <;> cases w' <;> simp_all [Wait.state]

theorem locks_of_working (h : pc.working = true) : 1 ≤ pc.locks := by
  cases pc <;> simp_all [Pc.working, Pc.locks]

theorem locks_nonneg (pc : Pc) : 0 ≤ pc.locks ∧ pc.locks ≤ 2 := by
  cases pc <;> simp [Pc.locks]

/-- How the deficit changes when one task changes sides. -/
theorem deficit_update (hsched : SchedInv s.tasks) (ht : t ∈ s.tasks.pids)
    (hpids : s'.tasks.pids = s.tasks.pids)
    (hothers : ∀ u, u ≠ t → covers s' msgq u = covers s msgq u) :
    deficit s' msgq + (covers s' msgq t).toNat = deficit s msgq + (covers s msgq t).toNat +
      ((s'.data.msglist msgq).length - (s.data.msglist msgq).length) := by
  have hcount := countP_agree_off hsched.pids_nodup ht
    (p := covers s' msgq) fun u _ hu => by rw [hothers u hu]
  unfold deficit
  rw [hpids]
  cases hnow : covers s' msgq t <;> cases hold : covers s msgq t <;>
    simp only [hnow, hold, Bool.false_eq_true, ↓reduceIte, Bool.toNat_true,
      Bool.toNat_false] at hcount ⊢ <;>
    omega

section

variable (h : WaitInv s)
include h

theorem WaitInv.not_waiting (hthis : s.tasks.thisTask = some rtcb) (w : Wait) :
    s.tasks.taskState rtcb ≠ w.state := by
  rw [(h.sched.lists.running rtcb).mpr hthis]
  cases w <;> simp [Wait.state]

theorem WaitInv.running_pid (hthis : s.tasks.thisTask = some rtcb) : rtcb ∈ s.tasks.pids := by
  refine (h.sched.registered rtcb).mpr ?_
  simp [(h.sched.lists.running rtcb).mpr hthis]

/-- The scheduler's state changes, but not for a waiting task. -/
theorem WaitInv.setTasks (hsched : SchedInv tasks) (hidle : IdleLast tasks)
    (hwait : ∀ t (w : Wait), tasks.taskState t = w.state ↔ s.tasks.taskState t = w.state)
    (hprio : ∀ t (w : Wait), s.tasks.taskState t = w.state → schedPriorityMin ≤ tasks.schedPriority t)
    (hpids : tasks.pids = s.tasks.pids) (hlocks : ∀ t, tasks.lockcount t = s.tasks.lockcount t)
    (hruns : ∀ t, (s.data.pc t).working = true → tasks.thisTask = some t) :
    WaitInv (s.setTasks tasks) ∧ ∀ k, deficit (s.setTasks tasks) k = deficit s k := by
  have hempty : ∀ t, tasks.taskState t = .waitMqnotempty ↔
      s.tasks.taskState t = .waitMqnotempty := fun t => hwait t .notempty
  refine ⟨⟨hsched, hidle, fun t w ht => hprio t w ((hwait t w).mp ht),
    fun t w ht => h.waits t w ((hwait t w).mp ht), fun w k => ?_, fun t => ?_, hruns,
    fun t ht => h.fresh t (hpids ▸ ht)⟩, fun k => ?_⟩
  · rw [setTasks_nwait, h.count, MqSys.setTasks_tasks, hpids]
    congr 2
    funext t
    simp [blocked, hwait]
  · rw [MqSys.setTasks_tasks, hlocks]
    exact h.locks t
  · have hcovers : covers (s.setTasks tasks) k = covers s k := by
      funext t
      simp [covers, promised, notifying, hempty]
    simp only [deficit, hcovers, MqSys.setTasks_tasks, hpids, setTasks_data]

/-- Requests that neither change priorities nor waiting tasks. -/
theorem WaitInv.call {l : Option TaskList} (hcall : Call l s.tasks tasks)
    (hwait : ∀ t (w : Wait), tasks.taskState t = w.state ↔ s.tasks.taskState t = w.state)
    (hruns : ∀ t, (s.data.pc t).working = true → tasks.thisTask = some t) :
    WaitInv (s.setTasks tasks) ∧ ∀ k, deficit (s.setTasks tasks) k = deficit s k :=
  h.setTasks (h.sched.call hcall rfl rfl rfl rfl) (hcall.idle h.idle) hwait
    (fun t w ht => (h.ranked t w ht).trans_eq (hcall.frame.priority t).symm) hcall.frame.pids
    hcall.frame.lockcount hruns

end

/-- The running task has changed nothing but its own place and errno, the queues and the
structures. -/
structure Works (s s' : MqSys) (rtcb : Nat) : Prop where
  msgwaitq : s'.msgwaitq = s.msgwaitq
  nwait : s'.nwait = s.nwait
  pterrno : ∀ u, u ≠ rtcb → s'.pterrno u = s.pterrno u
  pc : ∀ u, u ≠ rtcb → s'.data.pc u = s.data.pc u

/-- The messages that the running task put in or took out, and those it counts on, make
up the change of the deficit. -/
def Tally (s s₁ s' : MqSys) (rtcb : Nat) : Prop :=
  ∀ k, deficit s' k + (covers s₁ k rtcb).toNat = deficit s k + (covers s k rtcb).toNat +
    ((s₁.data.msglist k).length - (s.data.msglist k).length)

/-- The running task takes no message that somebody else counts on, and leaves none
alone. -/
def Minds (s s₁ : MqSys) (rtcb : Nat) : Prop :=
  ∀ k, (s₁.data.msglist k).length + (covers s k rtcb).toNat ≤
    (s.data.msglist k).length + (covers s₁ k rtcb).toNat

theorem Tally.eases (htally : Tally s s₁ s' rtcb) (hminds : Minds s s₁ rtcb)
    (hnwait : s'.nwait = s.nwait) : Eases s s' := by
  intro k hk
  have hdeficit := htally k
  have hmessages := hminds k
  exact .inl ⟨hnwait ▸ hk, by omega⟩

section

variable (h : WaitInv s) (hthis : s.tasks.thisTask = some rtcb) (hworks : Works s s' rtcb)
include h hthis hworks

theorem WaitInv.works {n : Int} (htasks : s'.tasks = s.tasks.setLockcount rtcb n)
    (hn : (s'.data.pc rtcb).locks ≤ n ∧ n ≤ maxLockCount + (s'.data.pc rtcb).locks) :
    WaitInv s' ∧ Tally s s' s' rtcb := by
  have hpid := h.running_pid hthis
  have hne : ∀ u (w : Wait), s.tasks.taskState u = w.state → u ≠ rtcb := by
    rintro u w hu rfl
    exact h.not_waiting hthis w hu
  have hstate : s'.tasks.taskState = s.tasks.taskState := by rw [htasks]; rfl
  have hpids : s'.tasks.pids = s.tasks.pids := by rw [htasks]; rfl
  refine ⟨⟨?_, ?_, fun u w hu => ?_, fun u w hu => ?_, fun w k => ?_, fun u => ?_, fun u hu => ?_,
    fun u hu => ?_⟩, fun k => deficit_update h.sched hpid hpids fun u hu => ?_⟩
  · rw [htasks]
    exact ⟨h.sched.lists.setLockcount, h.sched.registered, h.sched.pids_nodup, h.sched.pids_lt,
      h.sched.context⟩
  · rw [htasks]
    exact h.idle.setLockcount
  · rw [hstate] at hu
    rw [htasks]
    exact h.ranked u w hu
  · rw [hstate] at hu
    rw [hworks.msgwaitq, hworks.pc u (hne u w hu), hworks.pterrno u (hne u w hu)]
    exact h.waits u w hu
  · rw [hworks.nwait, h.count, hpids]
    congr 2
    funext u
    simp [blocked, hstate, hworks.msgwaitq]
  · by_cases hu : u = rtcb
    · subst hu
      simpa [htasks] using hn
    · rw [hworks.pc u hu, htasks]
      simpa [hu] using h.locks u
  · rw [htasks]
    by_cases hr : u = rtcb
    · rw [hr]
      exact hthis
    · exact h.runs u (hworks.pc u hr ▸ hu)
  · rw [hpids] at hu
    have hr : u ≠ rtcb := fun heq => hu (heq ▸ hpid)
    rw [hworks.pc u hr]
    exact h.fresh u hu
  · simp [covers, promised, notifying, hstate, hworks.pc u hu, hworks.pterrno u hu]

theorem WaitInv.goes (htasks : s'.tasks = s.tasks)
    (hlocks : (s'.data.pc rtcb).locks = (s.data.pc rtcb).locks) (hminds : Minds s s' rtcb) :
    WaitInv s' ∧ Eases s s' := by
  have hself : s.tasks = s.tasks.setLockcount rtcb (s.tasks.lockcount rtcb) := by
    simp [Tasks.setLockcount]
  obtain ⟨h', htally⟩ := h.works hthis hworks (htasks.trans hself) (hlocks ▸ h.locks rtcb)
  exact ⟨h', htally.eases hminds hworks.nwait⟩

theorem WaitInv.goesLocked (htasks : s'.tasks = schedLock s.tasks)
    (hlocks : (s'.data.pc rtcb).locks = (s.data.pc rtcb).locks + 1) (hminds : Minds s s' rtcb) :
    WaitInv s' ∧ Eases s s' := by
  have hold := h.locks rtcb
  have hrange := locks_nonneg (s.data.pc rtcb)
  have hwrap : wrap16 (s.tasks.lockcount rtcb + 1) = s.tasks.lockcount rtcb + 1 := by
    unfold maxLockCount at hold
    unfold wrap16
    omega
  rw [schedLock_of_thisTask hthis] at htasks
  obtain ⟨h', htally⟩ := h.works hthis hworks htasks (by omega)
  exact ⟨h', htally.eases hminds hworks.nwait⟩

end

/-- It unlocks preemption once, at the end of a call or inside one. -/
theorem WaitInv.goesUnlocked (h : WaitInv s) (hthis : s.tasks.thisTask = some rtcb)
    (hworks : Works s s₁ rtcb) (htasks : s₁.tasks = s.tasks)
    (hlocks : (s₁.data.pc rtcb).locks ≤ s.tasks.lockcount rtcb - 1 ∨
      (s₁.data.pc rtcb).locks = 0)
    (hmax : s.tasks.lockcount rtcb - 1 ≤ maxLockCount + (s₁.data.pc rtcb).locks)
    (hrun : s₁.unlock = some s') : WaitInv s' ∧ Tally s s₁ s' rtcb ∧ s'.nwait = s.nwait := by
  obtain ⟨tasks, hunlock, rfl⟩ := Option.map_eq_some_iff.mp hrun
  rw [htasks] at hunlock
  have hrange := locks_nonneg (s₁.data.pc rtcb)
  have hwork : ∀ n, Works s (s₁.setTasks (s.tasks.setLockcount rtcb n)) rtcb := fun n =>
    ⟨hworks.msgwaitq, hworks.nwait, hworks.pterrno, hworks.pc⟩
  have hcovers : ∀ n k, covers (s₁.setTasks (s.tasks.setLockcount rtcb n)) k rtcb =
      covers s₁ k rtcb := by
    intro n k
    simp [covers, promised, notifying, htasks]
  rcases schedUnlock_some h.sched.lists hthis hunlock with ⟨hone, rfl⟩ | ⟨hone, hcall⟩
  · obtain ⟨h', htally⟩ := h.works hthis (hwork (s.tasks.lockcount rtcb - 1)) rfl
      (by simp only [setTasks_data]; omega)
    refine ⟨h', fun k => ?_, hworks.nwait⟩
    have := htally k
    rwa [hcovers] at this
  · -- the last lock is given up: the call is over
    obtain ⟨h₁, htally⟩ := h.works hthis (hwork 0) rfl
      (by simp only [setTasks_data, maxLockCount]; omega)
    obtain ⟨h₂, hdeficit⟩ := h₁.call hcall
      (fun t w => hcall.wait_iff h₁.sched.lists (isWait_state w) (by simp [tasklist_state]))
      fun u hu => by
        have hu : (s₁.data.pc u).working = true := hu
        have heq : u = rtcb := by
          have : s.tasks.thisTask = some u := h₁.runs u hu
          simpa [hthis] using this.symm
        have := locks_of_working (heq ▸ hu)
        omega
    refine ⟨h₂, fun k => ?_, hworks.nwait⟩
    have hnow := hdeficit k
    have := htally k
    rw [hcovers] at this
    rw [← hnow] at this
    exact this

/-- Fewer tasks are blocked than there are pids: the IDLE task is not. -/
theorem countP_blocked_lt (hsched : SchedInv s.tasks) (hidle : IdleLast s.tasks) (w : Wait)
    (msgq : Nat) : s.tasks.pids.countP (blocked s w msgq) < 2 ^ 15 := by
  have hready : (s.tasks.taskState idle).tasklist = some .readytorun :=
    (hsched.lists.mem_list idle .readytorun).mp hidle.mem
  have hpid : idle ∈ s.tasks.pids := by
    refine (hsched.registered idle).mpr fun heq => ?_
    rw [heq] at hready
    cases hready
  have hnot : ¬ blocked s w msgq idle = true := by
    intro hb
    have hstate : s.tasks.taskState idle = w.state := (of_decide_eq_true hb).1
    rw [hstate] at hready
    cases w <;> cases hready
  have hlt : s.tasks.pids.countP (blocked s w msgq) < s.tasks.pids.length := by
    refine lt_of_le_of_ne countP_le_length fun heq => ?_
    exact hnot (countP_eq_length.mp heq idle hpid)
  have hsub : s.tasks.pids ⊆ List.range (2 ^ 15) := fun u hu =>
    mem_range.mpr (hsched.pids_lt u hu)
  have hle := (subperm_of_subset hsched.pids_nodup hsub).length_le
  rw [length_range] at hle
  omega

/-- The running task, at the place where it waits, is blocked. -/
theorem WaitInv.block (h : WaitInv s) (hthis : s.tasks.thisTask = some rtcb)
    (hpc : (s.data.pc rtcb).waits = some (w, msgq))
    (hempty : w = .notempty → s.data.msglist msgq = [])
    (hrun : upBlockTask s.tasks rtcb w.state = some tasks)
    (hs' : s' = (((s.setMsgwaitq rtcb (some msgq)).setNwait w msgq (wrap16 (s.nwait w msgq + 1))).setErrno rtcb .ok).setTasks tasks) :
    WaitInv s' ∧ Eases s s' := by
  obtain ⟨⟨l, hcall⟩, hself, hothers⟩ := upBlockTask_wait h.sched.lists hthis (isWait_state w) hrun
  have hsched := h.sched.call hcall rfl rfl rfl rfl
  have hpid := h.running_pid hthis
  have hidle := hcall.idle h.idle
  have hwait : ∀ u, u ≠ rtcb → ∀ w' : Wait, tasks.taskState u = w'.state ↔
      s.tasks.taskState u = w'.state := fun u hu w' => hothers u _ hu (isWait_state w')
  have hpids : s'.tasks.pids = s.tasks.pids := by
    subst hs'
    exact hcall.frame.pids
  have hnow : ∀ w' k, blocked s' w' k rtcb = decide (w' = w ∧ k = msgq) := by
    intro w' k
    subst hs'
    have hst : w.state = w'.state ↔ w' = w := ⟨fun heq => (state_inj heq).symm, fun heq => heq ▸ rfl⟩
    simp [blocked, hself, hst, eq_comm]
  have hcount : ∀ w' k, s'.tasks.pids.countP (blocked s' w' k) =
      s.tasks.pids.countP (blocked s w' k) + if w' = w ∧ k = msgq then 1 else 0 := by
    intro w' k
    have hagree : ∀ u ∈ s.tasks.pids, u ≠ rtcb → (blocked s' w' k u ↔ blocked s w' k u) := by
      intro u _ hu
      subst hs'
      simp [blocked, hwait u hu, hu]
    have hold : blocked s w' k rtcb = false := by simp [blocked, h.not_waiting hthis]
    have := countP_agree_off h.sched.pids_nodup hpid hagree
    simpa [hold, hnow, hpids] using this
  have hwrap : wrap16 (s.nwait w msgq + 1) = s.nwait w msgq + 1 := by
    have hlt := countP_blocked_lt (s := s') (by subst hs'; exact hsched)
      (by subst hs'; exact hidle) w msgq
    rw [hcount] at hlt
    simp only [and_self, if_true] at hlt
    have := h.count w msgq
    unfold wrap16
    omega
  have hnwait : ∀ w' k, s'.nwait w' k = s.nwait w' k + if w' = w ∧ k = msgq then 1 else 0 := by
    intro w' k
    subst hs'
    rw [hwrap]
    by_cases hw : w' = w
    · subst hw
      by_cases hk : k = msgq <;> simp [hk]
    · simp [hw]
  refine ⟨⟨?_, ?_, fun u w' hu => ?_, fun u w' hu => ?_, fun w' k => ?_, fun u => ?_,
    fun u hu => ?_, fun u hu => ?_⟩, fun k hk => ?_⟩
  · subst hs'
    exact hsched
  · subst hs'
    exact hidle
  · subst hs'
    refine le_of_le_of_eq ?_ (hcall.frame.priority u).symm
    by_cases hr : u = rtcb
    · subst hr
      obtain ⟨l', hl', -, hmin, -⟩ :=
        upBlockTask_call h.sched.lists hthis (isWait_state w) hrun
      refine hmin ?_
      rw [tasklist_state, Option.some.injEq] at hl'
      rw [← hl']
      cases w <;> rfl
    · exact h.ranked u w' ((hwait u hr w').mp hu)
  · subst hs'
    by_cases hr : u = rtcb
    · subst hr
      obtain rfl : w = w' := state_inj (hself.symm.trans hu)
      exact ⟨msgq, by simp, hpc, by simp⟩
    · simpa [hr] using h.waits u w' ((hwait u hr w').mp hu)
  · rw [hnwait, hcount, h.count]
    split <;> rfl
  · subst hs'
    change _ ≤ tasks.lockcount u ∧ tasks.lockcount u ≤ _
    rw [hcall.frame.lockcount]
    exact h.locks u
  · -- only the running task was at work, and it waits now
    subst hs'
    have hrun := h.runs u hu
    have hu : (s.data.pc u).working = true := hu
    cases hp : s.data.pc u <;> simp_all [Pc.working, Pc.waits]
  · rw [hpids] at hu
    subst hs'
    exact h.fresh u hu
  · by_cases hq : w = .notempty ∧ k = msgq
    · refine .inr ?_
      have hnil : s'.data.msglist k = [] := by
        subst hs'
        rw [hq.2]
        exact hempty hq.1
      simp [deficit, hnil]
    · have hq' : ¬ (Wait.notempty = w ∧ k = msgq) := fun heq => hq ⟨heq.1.symm, heq.2⟩
      rw [hnwait, if_neg hq', Int.add_zero] at hk
      refine .inl ⟨hk, le_of_eq ?_⟩
      have hcovers : ∀ u, u ≠ rtcb → covers s' k u = covers s k u := by
        intro u hu
        subst hs'
        have := hwait u hu .notempty
        simp only [Wait.state] at this
        simp [covers, promised, notifying, hu, this]
      have hown : covers s k rtcb = false ∧ covers s' k rtcb = false := by
        have hpc' : s'.data.pc = s.data.pc := by
          subst hs'
          rfl
        have hne : s.data.pc rtcb ≠ .waitreceive k ∧ s.data.pc rtcb ≠ .wake k := by
          constructor <;> intro heq <;> rw [heq] at hpc
          · simp only [Pc.waits, Option.some.injEq, Prod.mk.injEq] at hpc
            exact hq' hpc
          · cases hpc
        simp [covers, promised, notifying, hpc', hne]
      have hlist : s'.data.msglist = s.data.msglist := by
        subst hs'
        rfl
      have hdeficit := deficit_update h.sched hpid hpids hcovers
      simp only [hown.1, hown.2, hlist] at hdeficit
      omega

/-- A waiting task is unblocked, by a task that sends or receives or by a timeout or a
signal. -/
theorem WaitInv.release {e : Errno} (h : WaitInv s) (hst : s.tasks.taskState t = w.state)
    (hq : s.msgwaitq t = some msgq) (hrun : unblock (s.setErrno t e) t w msgq = some s') :
    WaitInv s' ∧ s'.data = s.data ∧
      (∀ w' k, s'.nwait w' k = s.nwait w' k - if w' = w ∧ k = msgq then 1 else 0) ∧
      ∀ k, deficit s' k = deficit s k - if w = .notempty ∧ k = msgq ∧ e = .ok then 1 else 0 := by
  obtain ⟨tasks, hun, hs'⟩ := Option.map_eq_some_iff.mp hrun
  have hun : upUnblockTask s.tasks t = some tasks := hun
  obtain ⟨⟨l, hcall⟩, hwait⟩ := upUnblockTask_wait h.sched.lists hun
  have hwait : ∀ u (w' : Wait), tasks.taskState u = w'.state ↔
      u ≠ t ∧ s.tasks.taskState u = w'.state := fun u w' => hwait u _ (isWait_state w')
  have hsched := h.sched.call hcall rfl rfl rfl rfl
  obtain ⟨q, hq', hpc, -⟩ := h.waits t w hst
  obtain rfl : msgq = q := by simpa [hq] using hq'
  have hpid : t ∈ s.tasks.pids := by
    refine (h.sched.registered t).mpr ?_
    rw [hst]
    cases w <;> simp [Wait.state]
  have hpids : s'.tasks.pids = s.tasks.pids := by
    rw [← hs']
    exact hcall.frame.pids
  have hold : ∀ w' k, blocked s w' k t = decide (w' = w ∧ k = msgq) := by
    intro w' k
    have hiff : w.state = w'.state ↔ w' = w := ⟨fun heq => (state_inj heq).symm, fun heq => heq ▸ rfl⟩
    simp [blocked, hst, hq, hiff, eq_comm]
  have hcount : ∀ w' k, s'.tasks.pids.countP (blocked s' w' k) +
      (if w' = w ∧ k = msgq then 1 else 0) = s.tasks.pids.countP (blocked s w' k) := by
    intro w' k
    have hagree : ∀ u ∈ s.tasks.pids, u ≠ t → (blocked s' w' k u ↔ blocked s w' k u) := by
      intro u _ hu
      rw [← hs']
      simp [blocked, hwait, hu]
    have hnow : blocked s' w' k t = false := by
      rw [← hs']
      simp [blocked]
    have := countP_agree_off h.sched.pids_nodup hpid hagree
    simpa [hold, hnow, hpids] using this
  have hwrap : wrap16 (s.nwait w msgq - 1) = s.nwait w msgq - 1 := by
    have hlt := countP_blocked_lt h.sched h.idle w msgq
    have := h.count w msgq
    unfold wrap16
    omega
  have hnwait : ∀ w' k, s'.nwait w' k = s.nwait w' k - if w' = w ∧ k = msgq then 1 else 0 := by
    intro w' k
    rw [← hs']
    simp only [setErrno_nwait, hwrap]
    by_cases hw : w' = w
    · subst hw
      by_cases hk : k = msgq <;> simp [hk]
    · simp [hw]
  have hdata : s'.data = s.data := by
    rw [← hs']
    rfl
  refine ⟨⟨?_, ?_, fun u w' hu => ?_, fun u w' hu => ?_, fun w' k => ?_, fun u => ?_,
    fun u hu => ?_, fun u hu => ?_⟩, hdata, hnwait, fun k => ?_⟩
  · rw [← hs']
    exact hsched
  · rw [← hs']
    exact hcall.idle h.idle
  · rw [← hs'] at hu ⊢
    exact (h.ranked u w' ((hwait u w').mp hu).2).trans_eq (hcall.frame.priority u).symm
  · rw [← hs'] at hu ⊢
    obtain ⟨hne, hu⟩ := (hwait u w').mp hu
    simpa [hne] using h.waits u w' hu
  · have := hcount w' k
    rw [hnwait, h.count]
    by_cases hc : w' = w ∧ k = msgq
    · rw [if_pos hc] at this ⊢
      omega
    · rw [if_neg hc] at this ⊢
      omega
  · rw [← hs']
    change _ ≤ tasks.lockcount u ∧ tasks.lockcount u ≤ _
    rw [hcall.frame.lockcount]
    exact h.locks u
  · -- a task that is at work holds the lock
    rw [hdata] at hu
    have hlock : 0 < s.tasks.lockcount u := by
      have := (h.locks u).1
      have := locks_of_working hu
      omega
    rw [← hs']
    exact upUnblockTask_thisTask (h.runs u hu) hlock hun
  · rw [hdata]
    exact h.fresh u (hpids ▸ hu)
  · have hcovers : ∀ u, u ≠ t → covers s' k u = covers s k u := by
      intro u hu
      have hiff := hwait u .notempty
      simp only [Wait.state] at hiff
      rw [← hs']
      simp [covers, promised, notifying, hu, hiff]
    have hown : covers s k t = false ∧
        covers s' k t = decide (w = .notempty ∧ k = msgq ∧ e = .ok) := by
      have hiff := hwait t .notempty
      simp only [Wait.state] at hiff
      rw [← hs']
      cases hp : s.data.pc t <;> simp only [hp, Pc.waits, Option.some.injEq, Prod.mk.injEq,
        reduceCtorEq] at hpc
      case waitsend o m => simp [covers, promised, notifying, hp, ← hpc.1]
      case waitreceive q =>
        obtain ⟨rfl, rfl⟩ := hpc
        have hwaits : s.tasks.taskState t = .waitMqnotempty := hst
        simp [covers, promised, notifying, hp, hiff, hwaits, eq_comm]
    have hdeficit := deficit_update h.sched hpid hpids hcovers
    rw [hown.1, hown.2, hdata] at hdeficit
    by_cases hc : w = .notempty ∧ k = msgq ∧ e = .ok
    · rw [decide_eq_true hc] at hdeficit
      simp only [Bool.toNat_true, Bool.toNat_false] at hdeficit
      rw [if_pos hc]
      omega
    · rw [decide_eq_false hc] at hdeficit
      rw [if_neg hc]
      omega

end NbLot.Source.Mqueue
