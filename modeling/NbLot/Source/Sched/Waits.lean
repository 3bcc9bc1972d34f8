import NbLot.Source.Sched.System

/-!
# Which tasks wait, and who runs under the lock

What the requests leave to somebody who keeps books on waiting tasks: a call changes the
waiting state of the task it is about and of no other. Under the preemption lock a task
that is unblocked does not take the processor, and `sched_unlock` returns, because the
IDLE task is below every pending one.
-/
namespace NbLot.Source.Sched
open List Function

variable {s s' : Tasks} {t u rtcb : Nat} {st : TState} {p : Int}

theorem isBlocked_of_isWait (h : st.isWait = true) : st.isBlocked = true := by
  cases st <;> simp_all [TState.isWait, TState.isBlocked]

theorem tasklist_eq_iff {st' : TState} (h : st.isWait = true) :
    st'.tasklist = st.tasklist ↔ st' = st := by
  cases st <;> cases st' <;> simp_all [TState.isWait, TState.tasklist]

theorem TaskLists.mem_wait {l : TaskList} (h : TaskLists s) (hst : st.isWait = true)
    (hl : st.tasklist = some l) : u ∈ s.list l ↔ s.taskState u = st := by
  rw [h.mem_list, ← hl, tasklist_eq_iff hst]

/-- A call about another list leaves the waiting tasks alone. -/
theorem Call.wait_iff {l : Option TaskList} (hcall : Call l s s') (h : TaskLists s)
    (hst : st.isWait = true) (hl : st.tasklist ≠ l) : s'.taskState u = st ↔ s.taskState u = st := by
  obtain ⟨k, hk, hr, hp⟩ := tasklist_of_isBlocked (isBlocked_of_isWait hst)
  have hlist := hcall.frame.list k hr hp (hk ▸ hl)
  rw [← hcall.lists.mem_wait hst hk, ← h.mem_wait hst hk, hlist]

/-- `up_block_task`: the running task waits now, and nothing else changed in the waiting
tasks. -/
theorem upBlockTask_wait (h : TaskLists s) (hthis : s.thisTask = some t)
    (hst : st.isWait = true) (hrun : upBlockTask s t st = some s') :
    (∃ l, Call l s s') ∧ s'.taskState t = st ∧
      ∀ u st', u ≠ t → st'.isWait = true → (s'.taskState u = st' ↔ s.taskState u = st') := by
  obtain ⟨l, hl, hcall, -, hlist⟩ := upBlockTask_call h hthis hst hrun
  have hmem : ∀ u, u ∈ s'.list l ↔ u = t ∨ u ∈ s.list l := by
    intro u
    rw [hlist]
    split
    · rw [(perm_orderedInsert _ _ _).mem_iff, mem_cons]
    · rw [mem_append, mem_singleton, or_comm]
  refine ⟨⟨_, hcall⟩, ?_, fun u st' hu hst' => ?_⟩
  · rw [← hcall.lists.mem_wait hst hl, hmem]
    exact .inl rfl
  · by_cases heq : st' = st
    · subst heq
      rw [← hcall.lists.mem_wait hst hl, hmem, ← h.mem_wait hst hl]
      simp [hu]
    · refine hcall.wait_iff h hst' fun hlists => heq ?_
      exact (tasklist_eq_iff hst).mp (hlists.trans hl.symm)

/-- `up_unblock_task`: the task does not wait any more, and nothing else changed in the
waiting tasks. -/
theorem upUnblockTask_wait (h : TaskLists s) (hrun : upUnblockTask s t = some s') :
    (∃ l, Call l s s') ∧
      ∀ u st', st'.isWait = true → (s'.taskState u = st' ↔ u ≠ t ∧ s.taskState u = st') := by
  obtain ⟨l, hl, hcall, hlist⟩ := upUnblockTask_call h hrun
  refine ⟨⟨_, hcall⟩, fun u st' hst' => ?_⟩
  by_cases heq : st'.tasklist = some l
  · rw [← hcall.lists.mem_wait hst' heq, hlist, (h.nodup l).mem_erase_iff, h.mem_wait hst' heq]
  · rw [hcall.wait_iff h hst' heq]
    refine ⟨fun hu => ⟨?_, hu⟩, fun hu => hu.2⟩
    rintro rfl
    exact heq (hu ▸ hl)

theorem upUnblockTask_thisTask (hthis : s.thisTask = some rtcb) (hlock : 0 < s.lockcount rtcb)
    (hrun : upUnblockTask s t = some s') : s'.thisTask = some rtcb := by
  obtain ⟨l, r, -, -, -, hlr, -, hhead, -, rfl, -⟩ := upUnblockTask_some hrun
  obtain rfl : rtcb = r := by simpa [hthis] using hhead
  have hthis₁ : (s.take t l).thisTask = some rtcb := (thisTask_take_of_ne hlr).trans hthis
  change ((s.take t l).enlist rtcb t).thisTask = some rtcb
  rw [thisTask_enlist hthis₁, if_neg (fun hc => hc.2 hlock)]

theorem schedSetpriority_wait {b : Bool} (h : TaskLists s) (hst : st.isWait = true)
    (hrun : schedSetpriority s t p = some (s', b)) : s'.taskState u = st ↔ s.taskState u = st := by
  unfold schedSetpriority at hrun
  split at hrun
  · cases hrun
    rfl
  · obtain ⟨s₁, hset, heq⟩ := Option.map_eq_some_iff.mp hrun
    obtain ⟨rfl, -⟩ : s₁ = s' ∧ true = b := by simpa using heq
    have hready : ∀ {p : Nat}, Call none (s.setPriority t p) s₁ →
        (s₁.taskState u = st ↔ s.taskState u = st) := by
      intro p hcall
      obtain ⟨k, hk, hr, hp⟩ := tasklist_of_isBlocked (isBlocked_of_isWait hst)
      have hlist := hcall.frame.list k hr hp (by simp)
      rw [← hcall.lists.mem_wait hst hk, hlist, ← h.mem_wait hst hk]
      rfl
    split at hset
    · next hstate => exact hready (schedRunningSetpriority_call h hstate hset)
    · next hstate => exact hready (schedReadytorunSetpriority_call h hstate hset)
    · next hnr hnt =>
      have hstate : (s.taskState t).isReady = false := by
        cases hst : s.taskState t <;> simp_all [TState.isReady]
      rw [(schedBlockedSetpriority_call h hstate hset).2.2.1 u]

theorem upReprioritizeRtr_wait {p : Nat} (h : TaskLists s) (hst : st.isWait = true)
    (hrun : upReprioritizeRtr s t p = some s') : s'.taskState u = st ↔ s.taskState u = st := by
  obtain ⟨hcall, -⟩ := upReprioritizeRtr_call h hrun
  obtain ⟨k, hk, hr, hp⟩ := tasklist_of_isBlocked (isBlocked_of_isWait hst)
  have hlist := hcall.frame.list k hr hp (by simp)
  rw [← hcall.lists.mem_wait hst hk, hlist, ← h.mem_wait hst hk]
  rfl

/-- `sched_unlock` with a lock that is held once or not at all releases the pending tasks,
and otherwise only counts. -/
theorem schedUnlock_some (h : TaskLists s) (hthis : s.thisTask = some rtcb)
    (hrun : schedUnlock s = some s') :
    (1 < s.lockcount rtcb ∧ s' = s.setLockcount rtcb (s.lockcount rtcb - 1)) ∨
      (s.lockcount rtcb ≤ 1 ∧ Call none (s.setLockcount rtcb 0) s') := by
  simp only [schedUnlock, hthis] at hrun
  by_cases hone : 1 < s.lockcount rtcb
  · have hpos : 0 < s.lockcount rtcb := by omega
    rw [if_pos hpos, if_neg (by omega), Option.some.injEq] at hrun
    exact .inl ⟨hone, hrun.symm⟩
  · have hle : (if 0 < s.lockcount rtcb then s.lockcount rtcb - 1 else s.lockcount rtcb) ≤ 0 := by
      split <;> omega
    rw [if_pos hle] at hrun
    refine .inr ⟨by omega, ?_⟩
    split at hrun
    · cases hrun
      exact ⟨h.setLockcount, ⟨fun _ => rfl, fun _ => rfl, rfl, fun _ _ _ _ => rfl⟩,
        fun _ => Iff.rfl, id, id⟩
    · exact upReleasePending_call h.setLockcount hrun

/-- The inner loop of the merge stops at the IDLE task at the latest. -/
theorem mergeLoop_returns {pending rest : List Nat} (passed : List Nat) (ret : Bool)
    (hlowest : s.schedPriority idle = 0) (hlast : rest.getLast? = some idle)
    (hranked : ∀ p ∈ pending, schedPriorityMin ≤ s.schedPriority p) :
    ∃ r, mergeLoop s passed rest ret pending = some r := by
  induction pending generalizing s passed rest ret with
  | nil => exact ⟨_, rfl⟩
  | cons ptcb pnext ih =>
    rw [forall_mem_cons] at hranked
    have hout : s.Outranks ptcb idle := by
      rw [Tasks.Outranks, hlowest]
      exact hranked.1
    obtain ⟨front, rfl⟩ := getLast?_eq_some_iff.mp hlast
    simp only [mergeLoop]
    split
    · next hnil =>
      have := dropWhile_eq_nil_iff.mp hnil idle (by simp)
      simp [hout] at this
    · next rtcb after hdrop =>
      have hafter : (ptcb :: rtcb :: after).getLast? = some idle := by
        have hsuffix : (rtcb :: after) <:+ front ++ [idle] := hdrop ▸ dropWhile_suffix _
        obtain ⟨pre, hpre⟩ := hsuffix
        have hend := congrArg List.getLast? hpre
        rwa [getLast?_concat, getLast?_append_of_ne_nil _ (by simp)] at hend
      split
      · exact ih _ _ hlowest hafter hranked.2
      · exact ih _ _ hlowest hafter hranked.2

theorem schedUnlock_returns (hidle : IdleLast s) : ∃ s', schedUnlock s = some s' := by
  have hmerge : ∀ rtcb, ∃ s', upReleasePending (s.setLockcount rtcb 0) = some s' := by
    intro rtcb
    obtain ⟨⟨s₁, ret⟩, hloop⟩ := mergeLoop_returns (s := s.setLockcount rtcb 0) [] false
      hidle.lowest hidle.last hidle.ranked
    exact ⟨_, by simp only [upReleasePending, schedMergepending, Tasks.setLockcount_list, hloop]; rfl⟩
  unfold schedUnlock
  cases s.thisTask with
  | none => exact ⟨s, rfl⟩
  | some rtcb =>
    dsimp only
    generalize (if 0 < s.lockcount rtcb then s.lockcount rtcb - 1 else s.lockcount rtcb) = count
    split
    · split
      · exact ⟨_, rfl⟩
      · exact hmerge rtcb
    · exact ⟨_, rfl⟩

/-- A new task does not wait, and leaves the tasks that do alone. -/
theorem threadSchedsetup_wait (h : SchedInv s) (hrun : threadSchedsetup s t p = some s') :
    SchedInv s' ∧ (IdleLast s → IdleLast s') ∧ t ∉ s.pids ∧ s'.pids = t :: s.pids ∧
      (∀ u st, st.isWait = true → (s'.taskState u = st ↔ s.taskState u = st)) ∧
      ∀ u, u ≠ t → s'.schedPriority u = s.schedPriority u := by
  obtain ⟨hnew, s₁, hunlock, h₁, hpids₁, hidle₁, hlists₁, hprio₁, -⟩ :=
    threadSchedsetup_some h hrun
  obtain ⟨rtcb, n, hcall⟩ := schedUnlock_call h₁.lists hunlock
  have hinv := h₁.call hcall rfl rfl rfl rfl
  refine ⟨hinv, fun hidle => hcall.idle (hidle₁ hidle).setLockcount, hnew,
    hcall.frame.pids.trans hpids₁, fun u st hst => ?_, fun u hu => ?_⟩
  · obtain ⟨k, hk, hr, hp⟩ := tasklist_of_isBlocked (isBlocked_of_isWait hst)
    have hne : k ≠ .inactivetasks := by
      rintro rfl
      cases st <;> simp_all [TState.tasklist, TState.isWait]
    rw [← hinv.lists.mem_wait hst hk, ← h.lists.mem_wait hst hk, hcall.frame.list k hr hp (by simp)]
    exact iff_of_eq (congrArg (u ∈ ·) (hlists₁ k hne))
  · rw [hcall.frame.priority, Tasks.setLockcount_schedPriority, hprio₁, update_of_ne hu]

/-- Setting up a task leaves the lock as it was, and the new task holds none. -/
theorem threadSchedsetup_lockcount (h : SchedInv s)
    (hlocks : ∀ u, 0 ≤ s.lockcount u ∧ s.lockcount u < 2 ^ 15 - 1)
    (hrun : threadSchedsetup s t p = some s') :
    s'.lockcount t = 0 ∧ ∀ u, u ≠ t → s'.lockcount u = s.lockcount u := by
  obtain ⟨hnew, s₁, hunlock, h₁, -, -, hlists₁, -, hcount⟩ := threadSchedsetup_some h hrun
  obtain ⟨rtcb, hthis⟩ := h.lists.thisTask_some
  have hcount := hcount rtcb hthis
  have hne : t ≠ rtcb := by
    rintro rfl
    refine hnew ((h.registered t).mpr ?_)
    simp [(h.lists.running t).mpr hthis]
  have hwrap : wrap16 (s.lockcount rtcb + 1) = s.lockcount rtcb + 1 := by
    have := hlocks rtcb
    unfold wrap16
    omega
  have hthis₁ : s₁.thisTask = some rtcb := by
    rw [Tasks.thisTask, hlists₁ _ (by decide)]
    exact hthis
  have hrtcb : s₁.lockcount rtcb = s.lockcount rtcb + 1 := by simp [hcount, hwrap]
  have hold : ∀ u, u ≠ rtcb → s₁.lockcount u = update s.lockcount t 0 u := by
    intro u hu
    simp [hcount, hu]
  have hnow : s'.lockcount rtcb = s.lockcount rtcb ∧
      ∀ u, u ≠ rtcb → s'.lockcount u = s₁.lockcount u := by
    rcases schedUnlock_some h₁.lists hthis₁ hunlock with ⟨-, rfl⟩ | ⟨hle, hcall⟩
    · exact ⟨by simp [hrtcb], fun u hu => by simp [hu]⟩
    · refine ⟨?_, fun u hu => by simp [hcall.frame.lockcount, hu]⟩
      have := hlocks rtcb
      rw [hcall.frame.lockcount, Tasks.setLockcount_lockcount, update_self]
      omega
  refine ⟨by rw [hnow.2 t hne, hold t hne, update_self], fun u hu => ?_⟩
  by_cases hr : u = rtcb
  · rw [hr, hnow.1]
  · rw [hnow.2 u hr, hold u hr, update_of_ne hu]

end NbLot.Source.Sched
