import NbLot.Source.Sched.System

/-!
# The preemption lock

Source: nuttx/sched/sched/sched_lock.c:69-89: the thread that locks preemption is the
only one to run until it unlocks it as often or blocks. The lock is tested in
`sched_addreadytorun`, against the task that is the head at that moment. When the lock
holder's own priority is lowered to that of the next task or below, it has been taken
off the list before the test, and the head changes.
-/
namespace NbLot.Guarantees.SchedLock

open Lib.Transition Source.Sched List

/-- What can happen while the running task does not block: a blocked task is taken off
its list, a task that is off its list is added, the two together, a priority is set,
and the running task locks or unlocks preemption. -/
inductive LockedCall where
  | removeblocked (tcb : Nat)
  | addreadytorun (tcb : Nat)
  | unblock (tcb : Nat)
  | setpriority (tcb : Nat) (priority : Int)
  | lock
  | unlock
  deriving DecidableEq

def lockedStep (s : Tasks) : LockedCall → Option Tasks
  | .removeblocked tcb => if (s.taskState tcb).isBlocked then schedRemoveblocked s tcb else none
  | .addreadytorun tcb =>
    if s.taskState tcb = .invalid ∧ tcb ∈ s.pids then (schedAddreadytorun s tcb).map Prod.fst
    else none
  | .unblock tcb => upUnblockTask s tcb
  | .setpriority tcb priority => (schedSetpriority s tcb priority).map Prod.fst
  | .lock => some (schedLock s)
  | .unlock => schedUnlock s

/-- The lock stays held, and the running task's priority is not set to that of the next
ready-to-run task or below. -/
def KeepsLock (s : Tasks) : LockedCall → Prop
  | .setpriority tcb priority => s.thisTask = some tcb → schedPriorityMin ≤ priority →
      priority ≤ schedPriorityMax →
      ∀ nxttcb ∈ (s.list .readytorun).tail.head?, (s.schedPriority nxttcb : Int) < priority
  | .lock => ∀ rtcb ∈ s.thisTask, s.lockcount rtcb < 2 ^ 15 - 1
  | .unlock => ∀ rtcb ∈ s.thisTask, 1 < s.lockcount rtcb
  | _ => True

instance (s : Tasks) (a : LockedCall) : Decidable (KeepsLock s a) := by
  cases a <;> unfold KeepsLock <;> infer_instance

/-- The running task holds the preemption lock. -/
structure Held (r : Nat) (s : Tasks) : Prop where
  lists : TaskLists s
  head : s.thisTask = some r
  context : s.context = r
  locked : 0 < s.lockcount r

variable {s s' : Tasks} {r t : Nat}

theorem pending_unready : (s.unready t).list .pendingtasks = s.list .pendingtasks := by
  unfold Tasks.unready
  split
  · split <;> simp [Tasks.take]
  · simp [Tasks.take]

theorem mem_pending_enlist {u : Nat} (hu : u ∈ s.list .pendingtasks) :
    u ∈ (s.enlist r t).list .pendingtasks := by
  unfold Tasks.enlist Tasks.makeReady
  split
  · simp [Tasks.enqueue, hu]
  · split <;> simpa [Tasks.enqueue] using hu

/-- Under the lock no task is enlisted in front of the running one. -/
theorem thisTask_enlist_locked (hthis : s.thisTask = some r) (hlock : 0 < s.lockcount r) :
    (s.enlist r t).thisTask = some r := by
  rw [thisTask_enlist hthis, if_neg (by simp [hlock])]

/-- Under the lock, a task that outranks the running one is enlisted to the pending
tasks. -/
theorem mem_pending_of_outranks (hlock : 0 < s.lockcount r) (hout : s.Outranks t r) :
    t ∈ (s.enlist r t).list .pendingtasks := by
  rw [Tasks.enlist, if_pos ⟨hlock, hout⟩]
  simp [Tasks.enqueue]

section

variable (h : Held r s) {p : Nat}
include h

theorem held_unblock (hrun : upUnblockTask s t = some s') :
    Held r s' ∧ (∀ u ∈ s.list .pendingtasks, u ∈ s'.list .pendingtasks) ∧
      (s.Outranks t r → t ∈ s'.list .pendingtasks) := by
  obtain ⟨l, -, hcall, -⟩ := upUnblockTask_call h.lists hrun
  obtain ⟨l, rtcb, added, -, -, hlr, hlp, hthis, -, rfl, hadded⟩ := upUnblockTask_some hrun
  obtain rfl : r = rtcb := by simpa [h.head] using hthis
  have hthis₁ : (s.take t l).thisTask = some r := (thisTask_take_of_ne hlr).trans h.head
  have hnot : added = false := by
    simpa [h.locked] using hadded
  refine ⟨⟨hcall.lists, ?_, ?_, h.locked.trans_eq (hcall.frame.lockcount r).symm⟩,
    fun u hu => ?_, fun hout => ?_⟩
  · exact thisTask_enlist_locked hthis₁ h.locked
  · simp only [hnot, Tasks.switchcontext_context, context_enlist]
    exact h.context
  · exact mem_pending_enlist (by simpa [Tasks.take, Ne.symm hlp] using hu)
  · exact mem_pending_of_outranks h.locked hout

theorem held_relist {removed added : Bool} {s₁ : Tasks} (hstate : s.taskState t = .readytorun)
    (hremove : schedRemovereadytorun s t = some (s₁, removed))
    (hadd : schedAddreadytorun (s₁.setPriority t p) t = some (s', added)) :
    removed = false ∧ added = false ∧ Held r s' ∧
      ∀ u ∈ s.list .pendingtasks, u ∈ s'.list .pendingtasks := by
  have hne : s.thisTask ≠ some t := fun heq => by
    have := (h.lists.running t).mpr heq
    simp [hstate] at this
  obtain ⟨hlists, hframe, -, hctx, hthis, -⟩ :=
    relist_call h.lists (by simp [hstate, TState.isReady]) hremove hadd
  obtain ⟨rfl, hrem, -⟩ := schedRemovereadytorun_some hremove
  obtain ⟨rtcb, hhead, -, rfl, hadded⟩ := schedAddreadytorun_some hadd
  have hkept : (s.unready t).thisTask = some r := (h.lists.thisTask_unready hne).trans h.head
  obtain rfl : r = rtcb := by
    have : some r = some rtcb := hkept.symm.trans hhead
    simpa using this
  have hlock : 0 < ((s.unready t).setPriority t p).lockcount r :=
    h.locked.trans_eq ((frame_unready).lockcount r).symm
  have hout : removed = false := by simpa [hne] using hrem
  have hnot : added = false := by
    cases added with
    | false => rfl
    | true => exact absurd hlock (hadded.mp rfl).2
  refine ⟨hout, hnot, ⟨hlists, ?_, hctx.trans h.context, ?_⟩, fun u hu => ?_⟩
  · rw [hthis (by simp [hout, hnot])]
    exact h.head
  · exact h.locked.trans_eq (hframe.lockcount r).symm
  · exact mem_pending_enlist (by simpa [pending_unready] using hu)

theorem held_readytorun_setpriority (hstate : s.taskState t = .readytorun)
    (hrun : schedReadytorunSetpriority s t p = some s') :
    Held r s' ∧ ∀ u ∈ s.list .pendingtasks, u ∈ s'.list .pendingtasks := by
  unfold schedReadytorunSetpriority at hrun
  simp only [h.head] at hrun
  split at hrun
  · unfold upReprioritizeRtr at hrun
    split at hrun
    · cases hrun
    · split at hrun
      · cases hrun
      · next s₁ removed hremove =>
        split at hrun
        · cases hrun
        · next s₂ added hadd =>
          obtain ⟨rfl, rfl, hheld⟩ := held_relist h hstate hremove hadd
          cases hrun
          exact hheld
  · split at hrun
    · next s₁ hremove =>
      split at hrun
      · next s₂ hadd =>
        obtain ⟨-, -, hheld⟩ := held_relist h hstate hremove hadd
        cases hrun
        exact hheld
      · cases hrun
    · cases hrun

/-- The running task's priority is changed in place as long as it stays above the next
task's. -/
theorem held_running_setpriority
    (hp : ∀ nxttcb ∈ (s.list .readytorun).tail.head?, s.schedPriority nxttcb < p)
    (hrun : schedRunningSetpriority s r p = some s') :
    Held r s' ∧ ∀ u ∈ s.list .pendingtasks, u ∈ s'.list .pendingtasks := by
  have hcall := schedRunningSetpriority_call h.lists ((h.lists.running r).mpr h.head) hrun
  unfold schedRunningSetpriority at hrun
  split at hrun
  · cases hrun
  · next nxttcb hnext =>
    rw [if_neg (not_le.mpr (hp nxttcb hnext))] at hrun
    cases hrun
    exact ⟨⟨hcall.lists, h.head, h.context, h.locked⟩, fun u hu => hu⟩

theorem held_blocked_setpriority (hstate : (s.taskState t).isReady = false)
    (hrun : schedBlockedSetpriority s t p = some s') :
    Held r s' ∧ ∀ u ∈ s.list .pendingtasks, u ∈ s'.list .pendingtasks := by
  obtain ⟨hcall, hthis, hstates, -⟩ := schedBlockedSetpriority_call h.lists hstate hrun
  have hhead := hthis.trans h.head
  have hctx := hcall.context (h.head.trans (congrArg some h.context.symm))
  refine ⟨⟨hcall.lists, hhead, ?_, ?_⟩, fun u hu => ?_⟩
  · simpa [hhead, eq_comm] using hctx
  · exact h.locked.trans_eq (hcall.frame.lockcount r).symm
  · rw [hcall.lists.mem_list, hstates, ← h.lists.mem_list]
    exact hu

theorem held_setpriority {p : Int} {b : Bool} (hok : KeepsLock s (.setpriority t p))
    (hrun : schedSetpriority s t p = some (s', b)) :
    Held r s' ∧ ∀ u ∈ s.list .pendingtasks, u ∈ s'.list .pendingtasks := by
  unfold schedSetpriority at hrun
  split at hrun
  · cases hrun
    exact ⟨h, fun u hu => hu⟩
  · next hrange =>
    rw [not_or, not_lt, not_lt] at hrange
    obtain ⟨s₁, hset, heq⟩ := Option.map_eq_some_iff.mp hrun
    obtain ⟨rfl, -⟩ : s₁ = s' ∧ true = b := by simpa using heq
    split at hset
    · next hst =>
      have hthis := (h.lists.running t).mp hst
      obtain rfl : r = t := by simpa [h.head] using hthis
      refine held_running_setpriority h (fun nxttcb hnext => ?_) hset
      have := hok hthis hrange.1 hrange.2 nxttcb hnext
      omega
    · next hst => exact held_readytorun_setpriority h hst hset
    · next hnr hnt =>
      refine held_blocked_setpriority h ?_ hset
      cases hst : s.taskState t <;> simp_all [TState.isReady]

/-- One call under the lock: the running task stays the head, and the pending tasks
stay pending. -/
theorem held_step {a : LockedCall} (hok : KeepsLock s a) (hstep : lockedStep s a = some s') :
    Held r s' ∧ ∀ u ∈ s.list .pendingtasks, u ∈ s'.list .pendingtasks := by
  cases a with
  | removeblocked tcb =>
    simp only [lockedStep] at hstep
    split at hstep
    · next hblocked =>
      obtain ⟨l, hl, hlr, hlp⟩ := tasklist_of_isBlocked hblocked
      have hnot : s.taskState tcb ≠ .running := fun heq => by
        simp [heq, TState.isBlocked] at hblocked
      simp only [schedRemoveblocked, hl] at hstep
      cases hstep
      refine ⟨⟨h.lists.take hl hnot, ?_, h.context, h.locked⟩, fun u hu => ?_⟩
      · exact (thisTask_take_of_ne hlr).trans h.head
      · simpa [Ne.symm hlp] using hu
    · cases hstep
  | addreadytorun tcb =>
    simp only [lockedStep] at hstep
    split at hstep
    · next hoff =>
      obtain ⟨⟨s₁, b⟩, hadd, rfl⟩ := Option.map_eq_some_iff.mp hstep
      obtain ⟨rtcb, hthis, -, rfl, -⟩ := schedAddreadytorun_some hadd
      obtain rfl : r = rtcb := by simpa [h.head] using hthis
      refine ⟨⟨h.lists.enlist (tasklist_eq_none.mpr hoff.1) hthis, ?_, ?_, ?_⟩,
        fun u hu => mem_pending_enlist hu⟩
      · exact thisTask_enlist_locked hthis h.locked
      · exact context_enlist.trans h.context
      · exact h.locked.trans_eq ((frame_enlist).lockcount r).symm
    · cases hstep
  | unblock tcb =>
    obtain ⟨hheld, hpending, -⟩ := held_unblock h hstep
    exact ⟨hheld, hpending⟩
  | setpriority tcb p =>
    obtain ⟨⟨s₁, b⟩, hset, rfl⟩ := Option.map_eq_some_iff.mp hstep
    exact held_setpriority h hok hset
  | lock =>
    have hok : s.lockcount r < 2 ^ 15 - 1 := hok r h.head
    have hlock := h.locked
    simp only [lockedStep, schedLock, h.head] at hstep
    cases hstep
    refine ⟨⟨h.lists.setLockcount, h.head, h.context, ?_⟩, fun u hu => hu⟩
    simp only [Tasks.setLockcount_lockcount, Function.update_self, wrap16]
    omega
  | unlock =>
    have hok : 1 < s.lockcount r := hok r h.head
    have hpos : ¬ s.lockcount r - 1 ≤ 0 := by omega
    simp only [lockedStep, schedUnlock, h.head, if_pos h.locked, if_neg hpos,
      Option.some.injEq] at hstep
    subst hstep
    refine ⟨⟨h.lists.setLockcount, h.head, h.context, ?_⟩, fun u hu => hu⟩
    simp only [Tasks.setLockcount_lockcount, Function.update_self]
    omega

end

theorem readyAll_lists (h : TaskLists s) {pending : List Nat}
    (hpending : s.list .pendingtasks = pending) :
    (s.readyAll pending).list .pendingtasks = [] ∧
      ((s.readyAll pending).list .readytorun).Perm (pending ++ s.list .readytorun) := by
  induction pending generalizing s with
  | nil => exact ⟨hpending, List.Perm.refl _⟩
  | cons ptcb pnext ih =>
    obtain ⟨rtcb, hthis⟩ := h.thisTask_some
    obtain ⟨hnext, hrest⟩ := h.ready_pending hpending hthis
    simp only [Tasks.readyAll, hthis]
    obtain ⟨hnil, hperm⟩ := ih hnext hrest
    refine ⟨hnil, hperm.trans ?_⟩
    have hready : ((s.take ptcb .pendingtasks).makeReady rtcb ptcb).list .readytorun =
        (s.list .readytorun).orderedInsert s.Outranks ptcb := by
      unfold Tasks.makeReady
      split <;> simp [Tasks.take] <;> rfl
    rw [hready]
    exact ((perm_orderedInsert s.Outranks ptcb _).append_left pnext).trans
      perm_middle

theorem priority_le_head (h : TaskLists s) (hhead : s.thisTask = some r)
    (ht : t ∈ s.list .readytorun) : s.schedPriority t ≤ s.schedPriority r := by
  obtain ⟨rest, hlist⟩ := head?_eq_some_iff.mp hhead
  have hsorted := h.sorted .readytorun rfl
  rw [hlist, pairwise_cons] at hsorted
  rw [hlist] at ht
  rcases mem_cons.mp ht with rfl | ht
  · exact le_rfl
  · have := hsorted.1 t ht
    unfold Tasks.Before at this
    omega

theorem held_last_unlock (h : Held r s) (hcount : s.lockcount r = 1)
    (hrun : schedUnlock s = some s') :
    s'.lockcount r = 0 ∧ s'.list .pendingtasks = [] ∧
      ∀ t ∈ s.list .pendingtasks, t ∈ s'.list .readytorun ∧
        ∃ head ∈ s'.thisTask, s'.schedPriority t ≤ s'.schedPriority head := by
  have hzero : s.lockcount r - 1 ≤ 0 := by omega
  simp only [schedUnlock, h.head, if_pos h.locked, if_pos hzero] at hrun
  split at hrun
  · next hnil =>
    cases hrun
    have hnil : s.list .pendingtasks = [] := hnil
    simp [hnil]
  · have hcall := upReleasePending_call h.lists.setLockcount hrun
    unfold upReleasePending at hrun
    split at hrun
    · cases hrun
    · next s₁ merged hmerge =>
      cases hrun
      obtain ⟨rfl, -⟩ := schedMergepending_some h.lists.setLockcount hmerge
      obtain ⟨hnil, hperm⟩ := readyAll_lists (h.lists.setLockcount) rfl
      refine ⟨(hcall.frame.lockcount r).trans (by simp), hnil, fun t ht => ?_⟩
      have hmem : t ∈ ((s.setLockcount r 0).readyAll (s.list .pendingtasks)).list
          .readytorun := hperm.mem_iff.mpr (mem_append_left _ ht)
      obtain ⟨head, hhead⟩ := hcall.lists.thisTask_some
      exact ⟨hmem, head, hhead, priority_le_head hcall.lists hhead hmem⟩

/-- The preemption lock: while it is held the head of the ready-to-run list stays, the
tasks that would preempt it go to the pending tasks and stay there, and the `sched_unlock`
that brings the count to zero makes them ready to run. -/
theorem preemption_lock (acts : List SchedAct) (s : Tasks)
    (hrun : run Tasks.step osStart acts = some s) (r : Nat) (hhead : s.thisTask = some r)
    (hlock : 0 < s.lockcount r) (calls : List LockedCall) (s' : Tasks)
    (hcalls : run lockedStep s calls = some s')
    (hkeep : StepsMeet lockedStep KeepsLock s calls) :
    s'.thisTask = some r ∧ s'.context = r ∧
      (∀ t, s'.taskState t = .readytorun → s'.schedPriority t ≤ s'.schedPriority r) ∧
      (∀ t s'', upUnblockTask s' t = some s'' → s'.schedPriority r < s'.schedPriority t →
        t ∈ s''.list .pendingtasks) ∧
      (∀ t ∈ s.list .pendingtasks, t ∈ s'.list .pendingtasks) ∧
      ∀ s'', s'.lockcount r = 1 → schedUnlock s' = some s'' →
        s''.lockcount r = 0 ∧ s''.list .pendingtasks = [] ∧
          ∀ t ∈ s'.list .pendingtasks, t ∈ s''.list .readytorun ∧
            ∃ head ∈ s''.thisTask, s''.schedPriority t ≤ s''.schedPriority head := by
  have hinv : SchedInv s := invariant_run (fun s a s' h (_ : True) hstep => (sched_step h hstep).1)
      osStart_inv (stepsMeet_of_forall osStart acts fun _ _ => trivial) hrun
  have hheld : Held r s := ⟨hinv.lists, hhead, by simpa [hhead, eq_comm] using hinv.context, hlock⟩
  have hstep : ∀ s₁ a s₂,
      (Held r s₁ ∧ ∀ t ∈ s.list .pendingtasks, t ∈ s₁.list .pendingtasks) → KeepsLock s₁ a →
      lockedStep s₁ a = some s₂ →
      Held r s₂ ∧ ∀ t ∈ s.list .pendingtasks, t ∈ s₂.list .pendingtasks := by
    intro s₁ a s₂ h ha hstep
    obtain ⟨hnext, hpending⟩ := held_step h.1 ha hstep
    exact ⟨hnext, fun t ht => hpending t (h.2 t ht)⟩
  obtain ⟨h, hpending⟩ := invariant_run hstep ⟨hheld, fun _ ht => ht⟩ hkeep hcalls
  refine ⟨h.head, h.context, fun t ht => ?_, fun t s'' hunblock hrank => ?_, hpending,
    fun s'' hcount hunlock => held_last_unlock h hcount hunlock⟩
  · refine priority_le_head h.lists h.head ?_
    rw [h.lists.mem_list, ht]
    rfl
  · exact (held_unblock h hunblock).2.2 hrank

/-- Task 1 runs with preemption locked, task 2 is ready to run and task 3 set up. -/
def lockHeld : List SchedAct :=
  [.setup 1 100, .unblock 1, .setup 2 50, .unblock 2, .setup 3 200, .lock]

/-- Task 3 is activated, task 2 gets priority 150 and task 1 priority 120. -/
def wouldPreempt : List LockedCall :=
  [.unblock 3, .setpriority 2 150, .setpriority 1 120]

theorem preemption_lock_pending :
    ∃ s s', run Tasks.step osStart lockHeld = some s ∧
      run lockedStep s wouldPreempt = some s' ∧ s'.thisTask = some 1 ∧
      s'.list .pendingtasks = [3, 2] ∧
      ∀ s'', schedUnlock s' = some s'' → s''.list .pendingtasks = [] := by
  have hreach : ((run Tasks.step osStart lockHeld).bind fun s =>
      (run lockedStep s wouldPreempt).map fun s' =>
        (s.thisTask, decide (0 < s.lockcount 1), decide (StepsMeet lockedStep KeepsLock s
          wouldPreempt), s'.list .pendingtasks, s'.lockcount 1)) =
      some (some 1, true, true, [3, 2], 1) := by decide +kernel
  obtain ⟨s, hrun, hmap⟩ := Option.bind_eq_some_iff.mp hreach
  obtain ⟨s', hcalls, hs⟩ := Option.map_eq_some_iff.mp hmap
  simp only [Prod.mk.injEq, decide_eq_true_eq] at hs
  obtain ⟨hhead, hlock, hkeep, hlist, hcount⟩ := hs
  obtain ⟨hthis, -, -, -, -, hunlock⟩ :=
    preemption_lock lockHeld s hrun 1 hhead hlock wouldPreempt s' hcalls hkeep
  exact ⟨s, s', hrun, hcalls, hthis, hlist, fun s'' h => (hunlock s'' hcount h).2.1⟩

/-- The lock holder's priority is set to that of the next task. -/
theorem lowered_lock_holder_preempted :
    ∃ s s', run Tasks.step osStart lockHeld = some s ∧ s.thisTask = some 1 ∧
      0 < s.lockcount 1 ∧ lockedStep s (.setpriority 1 50) = some s' ∧
      s'.thisTask = some 2 ∧ s'.lockcount 1 = s.lockcount 1 := by
  have hreach : ((run Tasks.step osStart lockHeld).bind fun s =>
      (lockedStep s (.setpriority 1 50)).map fun s' =>
        (s.thisTask, s.lockcount 1, s'.thisTask, s'.lockcount 1)) =
      some (some 1, 1, some 2, 1) := by decide +kernel
  obtain ⟨s, hrun, hmap⟩ := Option.bind_eq_some_iff.mp hreach
  obtain ⟨s', hset, hs⟩ := Option.map_eq_some_iff.mp hmap
  simp only [Prod.mk.injEq] at hs
  obtain ⟨hhead, hlock, hnew, hkept⟩ := hs
  exact ⟨s, s', hrun, hhead, by simp [hlock], hset, hnew, by rw [hkept, hlock]⟩

end NbLot.Guarantees.SchedLock
