import NbLot.Source.Sem.Counts

/-!
# Posts, interrupted waits and the other steps

A post hands its count to the first waiting task of the list, which is the one of the
highest priority that has waited longest. The theorem `sem_step` collects what every
step of the semaphores keeps.
-/
namespace NbLot.Source.Sem
open Option (map_eq_some_iff)

open Lib.Counting Source.Sched List Function SemSys

variable {s s' : SemSys} {t w sem : Nat} {init : Nat → Nat}

/-- The loop of `sem_post` finds the first of the waiting tasks. -/
theorem find_waiter :
    (s.tasks.list .waitingforsemaphore).find? (fun t => s.waitsem t = some sem) =
      (waiters s sem).head? := by
  rw [waiters, head?_filter]

section

variable (h : SemInv s)
include h

/-- While tasks wait, a post returns and hands the count to the first of them. -/
theorem semPost_waiters {rest : List Nat} (hw : waiters s sem = w :: rest) :
    ∃ tasks, upUnblockTask s.tasks w = some tasks ∧ s.waitsem w = some sem ∧
      semPost s sem = some ((((s.setCount sem (s.semcount sem + 1)).setWaitsem w none).setErrno
        w .ok).setTasks tasks) := by
  have hmem : w ∈ waiters s sem := by simp [hw]
  obtain ⟨hlist, hsem⟩ := mem_filter.mp hmem
  have hsem : s.waitsem w = some sem := by simpa using hsem
  have hstate := (mem_waitSem h.sched.lists).mp hlist
  obtain ⟨hneg, hpos⟩ := h.count_neg hsem
  have hmax : ¬ semValueMax ≤ s.semcount sem := by
    unfold semValueMax
    omega
  have hle : s.semcount sem + 1 ≤ 0 := by omega
  obtain ⟨tasks, hun⟩ := upUnblockTask_returns h.sched.lists
    (by rw [hstate]; rfl) (h.ranked w hlist)
  have hfind : (s.tasks.list .waitingforsemaphore).find? (fun t => s.waitsem t = some sem) =
      some w := find_waiter.trans (by rw [hw, head?_cons])
  refine ⟨tasks, hun, hsem, ?_⟩
  -- its errno is still the one `sem_wait` has set
  have hok : ((s.setCount sem (s.semcount sem + 1)).setWaitsem w none).setErrno w .ok =
      (s.setCount sem (s.semcount sem + 1)).setWaitsem w none :=
    setErrno_ok (h.blocked w hstate).2
  simp [semPost, hmax, hle, hfind, hun, hok]

theorem semPost_inv (hrun : semPost s sem = some s') :
    SemInv s' ∧ ∀ k, used s' k ≤ used s k + if k = sem then 1 else 0 := by
  cases hw : waiters s sem with
  | cons w rest =>
    obtain ⟨tasks, hun, hsem, hpost⟩ := semPost_waiters h hw
    rw [hrun, Option.some.injEq] at hpost
    obtain ⟨hinv, -, hused⟩ := h.release hsem hun hpost
    exact ⟨hinv, by simpa using hused⟩
  | nil =>
    have hnonneg : 0 ≤ s.semcount sem := by
      rcases h.count sem with hc | hc
      · exact hc.1
      · simp [hc, hw]
    unfold semPost at hrun
    split at hrun
    · cases hrun
    · next hmax =>
      have hpos : ¬ s.semcount sem + 1 ≤ 0 := by omega
      simp only [setCount_semcount, update_self, if_neg hpos, Option.some.injEq] at hrun
      subst hrun
      refine ⟨h.setCount hnonneg (by omega) (by omega), fun k => ?_⟩
      have hgrant : holdsGrant (s.setCount sem (s.semcount sem + 1)) k = holdsGrant s k := rfl
      simp only [used, hgrant, setCount_tasks, setCount_acquired, setCount_semcount]
      by_cases hk : k = sem
      · subst hk
        simp only [update_self, if_true]
        omega
      · simp [hk]

/-- The posts of a reset use up what it then has less to set. -/
theorem resetLoop_inv {count left : Nat} (hrun : resetLoop s sem count = some (s', left)) :
    SemInv s' ∧ left ≤ count ∧
      ∀ k, used s' k ≤ used s k + if k = sem then count - left else 0 := by
  induction count generalizing s with
  | zero =>
    cases hrun
    exact ⟨h, le_rfl, fun k => by simp⟩
  | succ count ih =>
    simp only [resetLoop] at hrun
    split at hrun
    · split at hrun
      · cases hrun
      · next s₁ hpost =>
        obtain ⟨h₁, hused₁⟩ := semPost_inv h hpost
        obtain ⟨h', hle, hused⟩ := ih h₁ hrun
        refine ⟨h', by omega, fun k => (hused k).trans ?_⟩
        have h1 := hused₁ k
        by_cases hk : k = sem
        · rw [if_pos hk] at h1 ⊢
          rw [if_pos hk]
          omega
        · rw [if_neg hk] at h1 ⊢
          omega
    · cases hrun
      exact ⟨h, le_rfl, fun k => by simp⟩

theorem SemInv.unlock {tasks : Tasks} (hrun : schedUnlock s.tasks = some tasks) :
    SemInv (s.setTasks tasks) ∧ ∀ k, used (s.setTasks tasks) k ≤ used s k := by
  obtain ⟨rtcb, n, hcall⟩ := schedUnlock_call h.sched.lists hrun
  exact h.setTasks (h.sched.call hcall rfl rfl rfl rfl)
    (hcall.frame.list _ (by decide) (by decide) (by simp)) (fun t _ => hcall.frame.priority t)
    (by rw [hcall.frame.pids]; exact List.Sublist.refl _)

theorem SemInv.lock : SemInv (s.setTasks (schedLock s.tasks)) ∧
    ∀ k, used (s.setTasks (schedLock s.tasks)) k ≤ used s k := by
  obtain ⟨rtcb, n, hlock⟩ := schedLock_eq h.sched.lists
  rw [hlock]
  refine h.setTasks ⟨h.sched.lists.setLockcount, h.sched.registered, h.sched.pids_nodup,
    h.sched.pids_lt, h.sched.context⟩ rfl (fun t _ => rfl) (List.Sublist.refl _)

theorem semReset_inv {count : Nat} {irq : Bool} (hcount : count ≤ 0x7fff)
    (hrun : semReset s sem count irq = some s') :
    SemInv s' ∧ ∀ k, used s' k ≤ used s k + if k = sem then count else 0 := by
  have hlocked : SemInv (if irq then s else s.setTasks (schedLock s.tasks)) ∧
      ∀ k, used (if irq then s else s.setTasks (schedLock s.tasks)) k ≤ used s k := by
    cases irq with
    | true => exact ⟨h, fun k => le_rfl⟩
    | false => exact h.lock
  unfold semReset at hrun
  split at hrun
  · cases hrun
  · next s₁ left hloop =>
    obtain ⟨h₁, hleft, hused₁⟩ := resetLoop_inv hlocked.1 hloop
    -- the count is set to what is left if no task waits
    have hset : ∃ s₂, s₂ = (if 0 ≤ s₁.semcount sem then s₁.setCount sem left else s₁) ∧
        SemInv s₂ ∧ ∀ k, used s₂ k ≤ used s₁ k + if k = sem then left else 0 := by
      refine ⟨_, rfl, ?_⟩
      split
      · next hpos =>
        refine ⟨h₁.setCount hpos (by omega) (by unfold semValueMax; omega), fun k => ?_⟩
        have hgrant : holdsGrant (s₁.setCount sem left) k = holdsGrant s₁ k := rfl
        simp only [used, hgrant, setCount_tasks, setCount_acquired, setCount_semcount]
        by_cases hk : k = sem
        · subst hk
          simp only [update_self, if_true]
          omega
        · simp [hk]
      · exact ⟨h₁, fun k => by omega⟩
    obtain ⟨s₂, hs₂, h₂, hused₂⟩ := hset
    have hbound : ∀ k, used s₂ k ≤ used s k + if k = sem then count else 0 := by
      intro k
      have h0 := hlocked.2 k
      have h1 := hused₁ k
      have h2 := hused₂ k
      by_cases hk : k = sem
      · rw [if_pos hk] at h1 h2 ⊢
        omega
      · rw [if_neg hk] at h1 h2 ⊢
        omega
    simp only [← hs₂] at hrun
    split at hrun
    · cases hrun
      exact ⟨h₂, hbound⟩
    · obtain ⟨tasks, hunlock, rfl⟩ := map_eq_some_iff.mp hrun
      obtain ⟨h₃, hused₃⟩ := h₂.unlock hunlock
      exact ⟨h₃, fun k => (hused₃ k).trans (hbound k)⟩

theorem semWaitirq_inv {errcode : Errno} (herr : errcode = .eintr ∨ errcode = .etimedout)
    (hrun : semWaitirq s t errcode = some s') : SemInv s' ∧ ∀ k, used s' k ≤ used s k := by
  unfold semWaitirq at hrun
  split at hrun
  · next hstate =>
    split at hrun
    · cases hrun
    · next sem hsem =>
      obtain ⟨tasks, hun, rfl⟩ := map_eq_some_iff.mp hrun
      obtain ⟨hneg, hpos⟩ := h.count_neg hsem
      have hwaiters := SemInv.length_waiters_le h.sched sem
      have hwrap : wrap16 (s.semcount sem + 1) = s.semcount sem + 1 := by
        unfold wrap16
        omega
      rw [hwrap]
      obtain ⟨hinv, -, hused⟩ := h.release hsem hun rfl
      refine ⟨hinv, fun k => (hused k).trans_eq ?_⟩
      rcases herr with rfl | rfl <;> simp
  · cases hrun
    exact ⟨h, fun k => le_rfl⟩

theorem taskDelete_inv (hnot : s.tasks.taskState t ≠ .waitSem) (hrun : taskDelete s t = some s') :
    SemInv s' ∧ ∀ k, used s' k ≤ used s k := by
  unfold taskDelete at hrun
  split at hrun
  · cases hrun
  · next tasks hterm =>
    obtain ⟨hinv, -, hpids, l, hl, htasks⟩ := taskTerminate_some h.sched hterm
    have hgone : tasks.taskState t ≠ .waitSem := by
      rw [htasks]
      simp [Tasks.take]
    simp only [semRecover, SemSys.setTasks_tasks, if_neg hgone] at hrun
    cases hrun
    have hne : TaskList.waitingforsemaphore ≠ l := by
      rintro rfl
      cases hst : s.tasks.taskState t <;> simp_all [TState.tasklist]
    refine h.setTasks hinv ?_ (fun u _ => ?_) ?_
    · rw [htasks]
      simp [Tasks.take, hne]
    · rw [htasks]
      rfl
    · rw [hpids]
      exact erase_sublist

end

/-- A new task leaves the tasks that wait for a semaphore alone. -/
theorem threadSchedsetup_frame {tasks tasks' : Tasks} {p : Int} (h : SchedInv tasks)
    (hrun : threadSchedsetup tasks t p = some tasks') :
    SchedInv tasks' ∧ t ∉ tasks.pids ∧ tasks'.pids = t :: tasks.pids ∧
      tasks'.list .waitingforsemaphore = tasks.list .waitingforsemaphore ∧
      tasks'.schedPriority t = (p % 256).toNat ∧
      ∀ u, u ≠ t → tasks'.schedPriority u = tasks.schedPriority u := by
  obtain ⟨hnew, s₁, hunlock, h₁, hpids₁, -, hlists₁, hprio₁, -⟩ :=
    threadSchedsetup_some h hrun
  obtain ⟨rtcb, n, hcall⟩ := schedUnlock_call h₁.lists hunlock
  have hprio : ∀ u, tasks'.schedPriority u =
      update tasks.schedPriority t (p % 256).toNat u := by
    intro u
    rw [hcall.frame.priority, Tasks.setLockcount_schedPriority, hprio₁]
  refine ⟨h₁.call hcall rfl rfl rfl rfl, hnew, hcall.frame.pids.trans hpids₁,
    (hcall.frame.list _ (by decide) (by decide) (by simp)).trans (hlists₁ _ (by decide)),
    by simp [hprio], fun u hu => by simp [hprio, hu]⟩

theorem semSetup_inv {p : Int} (h : SemInv s)
    (hrun : semSched s (.setup t p) = some s') : SemInv s' ∧ ∀ k, used s' k ≤ used s k := by
  obtain ⟨tasks, hsetup, hs'⟩ := map_eq_some_iff.mp hrun
  obtain ⟨hinv, hnew, hpids, hlist, -, hprio⟩ := threadSchedsetup_frame h.sched hsetup
  have hoff : s.tasks.taskState t = .invalid := by
    by_contra hvalid
    exact hnew ((h.sched.registered t).mpr hvalid)
  have hclear : s.waitsem t = none := by
    by_contra hwaits
    have := (h.waits t).mpr hwaits
    simp [hoff] at this
  have hstate : ∀ u, tasks.taskState u = .waitSem ↔ s.tasks.taskState u = .waitSem := by
    intro u
    rw [← mem_waitSem hinv.lists, ← mem_waitSem h.sched.lists, hlist]
  have hwaiters : ∀ k, waiters s' k = waiters s k := by
    intro k
    subst hs'
    simp only [waiters, setInWait_tasks, SemSys.setErrno_tasks, setWaitsem_tasks,
      SemSys.setTasks_tasks, hlist]
    refine filter_congr fun u _ => ?_
    by_cases hu : u = t <;> simp [hu, hclear]
  subst hs'
  refine ⟨⟨hinv, fun u hu => ?_, fun u => ?_, fun u hu => ?_, fun k => ?_, h.count_le⟩, fun k => ?_⟩
  · have hu : u ∈ s.tasks.list .waitingforsemaphore := hlist ▸ hu
    have hne : u ≠ t := fun heq => by
      rw [mem_waitSem h.sched.lists, heq, hoff] at hu
      cases hu
    exact (h.ranked u hu).trans_eq (hprio u hne).symm
  · by_cases hu : u = t
    · subst hu
      simp [hstate, hoff]
    · simpa [hu, hstate] using h.waits u
  · have hu : s.tasks.taskState u = .waitSem := (hstate u).mp hu
    have hne : u ≠ t := fun heq => by simp [heq, hoff] at hu
    simpa [hne] using h.blocked u hu
  · rw [hwaiters]
    exact h.count k
  · have hgrant : s.tasks.pids.countP (holdsGrant ((((s.setTasks tasks).setWaitsem t
        none).setErrno t .ok).setInWait t none) k) = s.tasks.pids.countP (holdsGrant s k) := by
      refine countP_congr fun u hu => ?_
      have hne : u ≠ t := fun heq => hnew (heq ▸ hu)
      simp [holdsGrant, hne, hstate]
    have hown : holdsGrant ((((s.setTasks tasks).setWaitsem t none).setErrno t .ok).setInWait
        t none) k t = false := by simp [holdsGrant]
    simp only [used, setInWait_tasks, SemSys.setErrno_tasks, setWaitsem_tasks,
      SemSys.setTasks_tasks, hpids, countP_cons, hgrant, hown]
    simp

theorem semSched_inv {a : SchedAct} (h : SemInv s) (hrun : semSched s a = some s') :
    SemInv s' ∧ ∀ k, used s' k ≤ used s k := by
  have hother : ∀ {st : TState}, st ≠ .waitSem →
      some TaskList.waitingforsemaphore ≠ st.tasklist := by
    intro st hst
    cases st <;> simp [TState.tasklist] at hst ⊢
  have hkeep : ∀ {l : Option TaskList} {tasks : Tasks}, Call l s.tasks tasks →
      some TaskList.waitingforsemaphore ≠ l →
      SemInv (s.setTasks tasks) ∧ ∀ k, used (s.setTasks tasks) k ≤ used s k := by
    intro l tasks hcall hl
    exact h.setTasks (h.sched.call hcall rfl rfl rfl rfl)
      (hcall.frame.list _ (by decide) (by decide) hl) (fun u _ => hcall.frame.priority u)
      (by rw [hcall.frame.pids])
  have hrank : ∀ {l : Option TaskList} {tasks : Tasks} {tcb p : Nat},
      Call l (s.tasks.setPriority tcb p) tasks → some TaskList.waitingforsemaphore ≠ l →
      s.tasks.taskState tcb ≠ .waitSem →
      SemInv (s.setTasks tasks) ∧ ∀ k, used (s.setTasks tasks) k ≤ used s k := by
    intro l tasks tcb p hcall hl hst
    refine h.setTasks (h.sched.call hcall rfl rfl rfl rfl)
      (hcall.frame.list _ (by decide) (by decide) hl) (fun u hu => ?_)
      (by rw [hcall.frame.pids]; exact List.Sublist.refl _)
    have hne : u ≠ tcb := fun heq => hst ((mem_waitSem h.sched.lists).mp (heq ▸ hu))
    rw [hcall.frame.priority]
    simp [hne]
  cases a with
  | setup pid p => exact semSetup_inv h hrun
  | block wait =>
    simp only [semSched] at hrun
    split at hrun
    · next hok =>
      obtain ⟨tasks, hblock, rfl⟩ := map_eq_some_iff.mp hrun
      simp only [Tasks.step, h.sched.context] at hblock
      obtain ⟨l, hl, hcall, -⟩ := upBlockTask_call h.sched.lists h.sched.context wait.2 hblock
      exact hkeep hcall (hl ▸ hother hok.2)
    · cases hrun
  | unblock tcb =>
    simp only [semSched] at hrun
    split at hrun
    · next hok =>
      obtain ⟨tasks, hun, rfl⟩ := map_eq_some_iff.mp hrun
      obtain ⟨l, hl, hcall, -⟩ := upUnblockTask_call h.sched.lists hun
      exact hkeep hcall (hl ▸ hother hok)
    · cases hrun
  | setpriority tcb p =>
    simp only [semSched] at hrun
    split at hrun
    · next hok =>
      obtain ⟨tasks, hstep, rfl⟩ := map_eq_some_iff.mp hrun
      obtain ⟨⟨tasks, b⟩, hset, rfl⟩ := map_eq_some_iff.mp hstep
      rcases schedSetpriority_call h.sched.lists hset with ⟨-, rfl⟩ | ⟨-, -, -, hcall⟩
      · exact ⟨h, fun k => le_rfl⟩
      · exact hrank hcall (hother hok) hok
    · cases hrun
  | reprioritize tcb p =>
    obtain ⟨tasks, hstep, rfl⟩ := map_eq_some_iff.mp hrun
    obtain ⟨hcall, -, hready⟩ := upReprioritizeRtr_call h.sched.lists hstep
    exact hrank hcall (by simp) fun heq => by simp [heq, TState.isReady] at hready
  | lock =>
    simp only [semSched, Option.some.injEq] at hrun
    exact hrun ▸ h.lock
  | unlock =>
    obtain ⟨tasks, hunlock, rfl⟩ := map_eq_some_iff.mp hrun
    exact h.unlock hunlock
  | terminate tcb => cases hrun

/-- The step does not delete a task that waits for a semaphore. -/
def SparesWaiters (s : SemSys) : SemAct → Prop
  | .delete tcb => s.tasks.taskState tcb ≠ .waitSem
  | _ => True

instance (s : SemSys) (a : SemAct) : Decidable (SparesWaiters s a) := by
  cases a <;> unfold SparesWaiters <;> infer_instance

/-- Every step keeps the invariant, and gives out what it is entitled to. -/
theorem sem_step {a : SemAct} (h : SemInv s) (hok : SparesWaiters s a)
    (hstep : s.step a = some s') : SemInv s' ∧ ∀ k, used s' k ≤ used s k + a.gives k := by
  cases a with
  | wait sem =>
    simp only [SemSys.step] at hstep
    split at hstep
    · next hcalls => exact semWait_inv h hcalls hstep
    · cases hstep
  | waitReturn => exact semWaitReturn_inv h hstep
  | trywait sem =>
    simp only [SemSys.step] at hstep
    split at hstep
    · next hcalls => exact semTrywait_inv h hcalls hstep
    · cases hstep
  | post sem =>
    obtain ⟨hinv, hused⟩ := semPost_inv h hstep
    exact ⟨hinv, fun k => by simpa [SemAct.gives, eq_comm] using hused k⟩
  | reset sem count irq =>
    simp only [SemSys.step] at hstep
    split at hstep
    · next hcount =>
      obtain ⟨hinv, hused⟩ := semReset_inv h hcount hstep
      exact ⟨hinv, fun k => by simpa [SemAct.gives, eq_comm] using hused k⟩
    · cases hstep
  | interrupted tcb => exact semWaitirq_inv h (.inl rfl) hstep
  | timeout tcb => exact semWaitirq_inv h (.inr rfl) hstep
  | delete tcb => exact taskDelete_inv h hok hstep
  | sched a => exact semSched_inv h hstep

theorem semStart_inv (hinit : ∀ sem, init sem ≤ 0x7fff) :
    SemInv (semStart init) where
  sched := osStart_inv
  ranked := by simp [semStart, osStart]
  waits t := by by_cases ht : t = idle <;> simp [semStart, osStart, ht]
  blocked t ht := by by_cases hi : t = idle <;> simp [semStart, osStart, hi] at ht
  count sem := .inl ⟨by simp [semStart], by simp [waiters, semStart]⟩
  count_le sem := by
    have := hinit sem
    simp only [semStart, semValueMax]
    omega

theorem used_semStart (sem : Nat) : used (semStart init) sem = init sem := by
  simp [used, semStart, holdsGrant]

end NbLot.Source.Sem
