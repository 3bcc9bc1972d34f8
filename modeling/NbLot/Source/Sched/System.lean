import NbLot.Source.Sched.Calls

/-!
# The scheduler between two requests

Between two requests no task is under way: the tasks of `g_pidhash` are exactly those
on a list. `SchedInv` adds this to the invariant of the lists, and every request keeps
it.
-/
namespace NbLot.Source.Sched

open Lib.Transition Function

/-- The state of the scheduler between two requests. -/
structure SchedInv (s : Tasks) : Prop where
  lists : TaskLists s
  registered : ∀ u, u ∈ s.pids ↔ s.taskState u ≠ .invalid
  pids_nodup : s.pids.Nodup
  pids_lt : ∀ u ∈ s.pids, u < 2 ^ 15
  context : s.thisTask = some s.context

variable {s s' : Tasks} {t : Nat}

/-- A call made in such a state returns in one. -/
theorem SchedInv.call {l : Option TaskList} {s₁ : Tasks} (h : SchedInv s) (hcall : Call l s₁ s')
    (hpids : s₁.pids = s.pids) (hstate : s₁.taskState = s.taskState)
    (hthis : s₁.thisTask = s.thisTask) (hctx : s₁.context = s.context) : SchedInv s' where
  lists := hcall.lists
  registered u := by
    rw [hcall.frame.pids, hpids, h.registered, Ne, Ne, hcall.valid, hstate]
  pids_nodup := by
    rw [hcall.frame.pids, hpids]
    exact h.pids_nodup
  pids_lt := by
    rw [hcall.frame.pids, hpids]
    exact h.pids_lt
  context := hcall.context (by rw [hthis, hctx, h.context])

@[simp]
theorem schedLock_list : (schedLock s).list = s.list := by
  unfold schedLock
  split <;> rfl

@[simp]
theorem schedLock_pids : (schedLock s).pids = s.pids := by
  unfold schedLock
  split <;> rfl

@[simp]
theorem schedLock_schedPriority : (schedLock s).schedPriority = s.schedPriority := by
  unfold schedLock
  split <;> rfl

@[simp]
theorem schedLock_taskState : (schedLock s).taskState = s.taskState := by
  unfold schedLock
  split <;> rfl

theorem schedLock_of_thisTask {rtcb : Nat} (hthis : s.thisTask = some rtcb) :
    schedLock s = s.setLockcount rtcb (wrap16 (s.lockcount rtcb + 1)) := by
  simp only [schedLock, hthis]

theorem schedLock_eq (h : TaskLists s) :
    ∃ rtcb n, schedLock s = s.setLockcount rtcb n := by
  obtain ⟨rtcb, hthis⟩ := h.thisTask_some
  exact ⟨rtcb, _, schedLock_of_thisTask hthis⟩

theorem IdleLast.setLockcount {n : Int} (h : IdleLast s) : IdleLast (s.setLockcount t n) :=
  ⟨h.last, h.lowest, h.ranked⟩

/-- `sched_unlock`: apart from the count, the pending tasks may have been released. -/
theorem schedUnlock_call (h : TaskLists s) (hrun : schedUnlock s = some s') :
    ∃ rtcb n, Call none (s.setLockcount rtcb n) s' := by
  obtain ⟨rtcb, hthis⟩ := h.thisTask_some
  refine ⟨rtcb, ?_⟩
  have hkeep : ∀ n, Call none (s.setLockcount rtcb n) (s.setLockcount rtcb n) := fun n =>
    ⟨h.setLockcount, ⟨fun _ => rfl, fun _ => rfl, rfl, fun _ _ _ _ => rfl⟩, fun _ => Iff.rfl,
      id, id⟩
  simp only [schedUnlock, hthis] at hrun
  generalize (if 0 < s.lockcount rtcb then s.lockcount rtcb - 1 else s.lockcount rtcb)
    = count at hrun
  split at hrun
  · split at hrun
    · cases hrun
      exact ⟨0, hkeep 0⟩
    · exact ⟨0, upReleasePending_call h.setLockcount hrun⟩
  · cases hrun
    exact ⟨_, hkeep _⟩

/-- The new task on the list of inactive tasks, before preemption is unlocked again. -/
theorem threadSchedsetup_some {p : Int} (h : SchedInv s) (hrun : threadSchedsetup s t p = some s') :
    t ∉ s.pids ∧ ∃ s₁, schedUnlock s₁ = some s' ∧ SchedInv s₁ ∧ s₁.pids = t :: s.pids ∧
      (IdleLast s → IdleLast s₁) ∧
      (∀ k, k ≠ .inactivetasks → s₁.list k = s.list k) ∧
      s₁.schedPriority = update s.schedPriority t (p % 256).toNat ∧
      ∀ rtcb, s.thisTask = some rtcb → s₁.lockcount =
        update (update s.lockcount t 0) rtcb (wrap16 (s.lockcount rtcb + 1)) := by
  unfold threadSchedsetup at hrun
  split at hrun
  · cases hrun
  · next hcheck =>
    rw [not_or, not_le] at hcheck
    obtain ⟨hnew, hlt⟩ := hcheck
    have hoff : s.taskState t = .invalid := by
      by_contra hvalid
      exact hnew ((h.registered t).mpr hvalid)
    have hnone := tasklist_eq_none.mpr hoff
    have hsame : (((s.setPids (t :: s.pids)).setPriority t (p % 256).toNat).setLockcount t
        0).setState t .invalid =
        ((s.setPids (t :: s.pids)).setPriority t (p % 256).toNat).setLockcount t 0 :=
      Tasks.ext rfl rfl (update_eq_self_iff.mpr hoff.symm) rfl rfl rfl rfl rfl
    have hlists : TaskLists (((s.setPids (t :: s.pids)).setPriority t
        (p % 256).toNat).setLockcount t 0) :=
      (TaskLists.setPriority_off (h.lists.setPids (t :: s.pids))
        fun l hl => absurd hl (h.lists.not_mem hnone)).setLockcount
    obtain ⟨rtcb, hthis⟩ := h.lists.thisTask_some
    have hne : rtcb ≠ t := by
      rintro rfl
      rw [(h.lists.running rtcb).mpr hthis] at hoff
      cases hoff
    have hlock := schedLock_of_thisTask (s := ((s.setPids (t :: s.pids)).setPriority t
      (p % 256).toNat).setLockcount t 0) hthis
    simp only [hsame, hlock] at hrun
    refine ⟨hnew, _, hrun, ⟨?_, ?_, ?_, ?_, h.context⟩, rfl, ?_, ?_, rfl, ?_⟩
    · exact (TaskLists.setLockcount hlists).append hnone rfl rfl (List.Perm.refl _)
    · intro u
      by_cases hu : u = t
      · simp [hu]
      · simpa [hu] using h.registered u
    · exact List.nodup_cons.mpr ⟨hnew, h.pids_nodup⟩
    · exact List.forall_mem_cons.mpr ⟨hlt, h.pids_lt⟩
    · intro hlast
      have hvalid : s.taskState idle ≠ .invalid := fun heq =>
        h.lists.not_mem (tasklist_eq_none.mpr heq) hlast.mem
      have hne : t ≠ idle := fun heq => hvalid (heq ▸ hoff)
      refine ⟨by simpa using hlast.last, by simpa [Ne.symm hne] using hlast.lowest, ?_⟩
      intro u hu
      have hu : u ∈ s.list .pendingtasks := by simpa using hu
      have hut : u ≠ t := fun heq => h.lists.not_mem hnone (heq ▸ hu)
      simpa [hut] using hlast.ranked u hu
    · exact fun k hk => by simp [hk]
    · intro r hr
      obtain rfl : rtcb = r := by simpa [hthis] using hr
      change update (update s.lockcount t 0) rtcb
        (wrap16 (update s.lockcount t 0 rtcb + 1)) = _
      rw [update_of_ne hne]

theorem taskTerminate_some (h : SchedInv s) (hrun : taskTerminate s t = some s') :
    SchedInv s' ∧ (IdleLast s → IdleLast s') ∧ s'.pids = s.pids.erase t ∧
      ∃ l, (s.taskState t).tasklist = some l ∧ s' = (s.take t l).setPids (s.pids.erase t) := by
  unfold taskTerminate at hrun
  split at hrun
  · cases hrun
  · next hcheck =>
    rw [not_or] at hcheck
    split at hrun
    · cases hrun
    · next l hl =>
      cases hrun
      refine ⟨⟨(h.lists.take hl hcheck.2).setPids _, fun u => ?_, h.pids_nodup.erase t,
        fun u hu => h.pids_lt u (List.mem_of_mem_erase hu), ?_⟩, fun hlast => ?_, rfl, l, hl, rfl⟩
      · simp only [Tasks.setPids_pids, h.pids_nodup.mem_erase_iff,
          h.registered]
        by_cases hu : u = t <;> simp [hu]
      · have hthis := (h.lists.running s.context).mpr h.context
        have hkept := (h.lists.take hl hcheck.2).running s.context
        have hne : s.context ≠ t := fun heq => hcheck.2 (heq ▸ hthis)
        exact hkept.mp (by simpa [Tasks.take, hne] using hthis)
      · have := hlast.take (l := l) hcheck.1
        exact ⟨this.last, this.lowest, this.ranked⟩

/-- The request gives the IDLE task a priority. -/
def SchedAct.ranksIdle : SchedAct → Bool
  | .setpriority tcb _ => tcb = idle
  | .reprioritize tcb _ => tcb = idle
  | _ => false

/-- Every request that returns keeps the invariant, and the IDLE task at the end of its
list unless it gives it a priority. -/
theorem sched_step {a : SchedAct} (h : SchedInv s) (hstep : s.step a = some s') :
    SchedInv s' ∧ (a.ranksIdle = false → IdleLast s → IdleLast s') := by
  cases a with
  | setup pid p =>
    obtain ⟨-, s₁, hunlock, h₁, -, hidle, -⟩ := threadSchedsetup_some h hstep
    obtain ⟨rtcb, n, hcall⟩ := schedUnlock_call h₁.lists hunlock
    refine ⟨h₁.call hcall rfl rfl rfl rfl, fun _ hlast => ?_⟩
    exact hcall.idle (hidle hlast).setLockcount
  | block wait =>
    simp only [Tasks.step, h.context] at hstep
    obtain ⟨l, -, hcall, -⟩ := upBlockTask_call h.lists h.context wait.2 hstep
    exact ⟨h.call hcall rfl rfl rfl rfl, fun _ => hcall.idle⟩
  | unblock tcb =>
    obtain ⟨l, -, hcall, -⟩ := upUnblockTask_call h.lists hstep
    exact ⟨h.call hcall rfl rfl rfl rfl, fun _ => hcall.idle⟩
  | setpriority tcb p =>
    obtain ⟨⟨s₁, b⟩, hset, rfl⟩ := Option.map_eq_some_iff.mp hstep
    rcases schedSetpriority_call h.lists hset with ⟨-, rfl⟩ | ⟨-, hmin, -, hcall⟩
    · exact ⟨h, fun _ => id⟩
    · refine ⟨h.call hcall rfl rfl rfl rfl, fun ha hlast => hcall.idle ?_⟩
      exact hlast.setPriority (by simpa [SchedAct.ranksIdle] using ha) (by omega)
  | reprioritize tcb p =>
    obtain ⟨hcall, hmin, -⟩ := upReprioritizeRtr_call h.lists hstep
    refine ⟨h.call hcall rfl rfl rfl rfl, fun ha hlast => hcall.idle ?_⟩
    exact hlast.setPriority (by simpa [SchedAct.ranksIdle] using ha) hmin
  | lock =>
    obtain ⟨rtcb, n, hlock⟩ := schedLock_eq h.lists
    simp only [Tasks.step, hlock, Option.some.injEq] at hstep
    rw [← hstep]
    exact ⟨⟨h.lists.setLockcount, h.registered, h.pids_nodup, h.pids_lt, h.context⟩,
      fun _ => IdleLast.setLockcount⟩
  | unlock =>
    obtain ⟨rtcb, n, hcall⟩ := schedUnlock_call h.lists hstep
    exact ⟨h.call hcall rfl rfl rfl rfl, fun _ hlast => hcall.idle hlast.setLockcount⟩
  | terminate tcb =>
    obtain ⟨hinv, hidle, -⟩ := taskTerminate_some h hstep
    exact ⟨hinv, fun _ => hidle⟩

theorem osStart_inv : SchedInv osStart where
  lists :=
    { mem_list := by
        intro u l
        by_cases hu : u = idle <;> cases l <;> simp [osStart, hu, TState.tasklist]
      nodup := by
        intro l
        cases l <;> simp [osStart]
      sorted := by
        intro l _
        cases l <;> simp [osStart]
      running := by
        intro u
        by_cases hu : u = idle
        · simp [osStart, Tasks.thisTask, hu]
        · simp [osStart, Tasks.thisTask, hu, Ne.symm hu]
      occupied := by simp [osStart]
      arrived_lt := by simp [osStart] }
  registered := by
    intro u
    by_cases hu : u = idle <;> simp [osStart]
  pids_nodup := by simp [osStart]
  pids_lt := by simp [osStart, idle]
  context := rfl

theorem osStart_idle : IdleLast osStart :=
  ⟨rfl, rfl, by simp [osStart]⟩

end NbLot.Source.Sched
