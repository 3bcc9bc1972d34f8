import NbLot.Lib.Counting
import NbLot.Source.Sem.Model

/-!
# What the semaphore counts say

`SemInv` ties the counts to the list of waiting tasks. `used` adds up the counts of a
semaphore that have been given out: to calls that returned, to tasks that were unblocked
and have not run yet, and what is still there to take. Every function keeps `SemInv`
and raises `used` by no more than it is entitled to.
-/
namespace NbLot.Source.Sem

open Lib.Counting Source.Sched List Function SemSys

/-- The tasks that wait for the semaphore, in the order they will get it. -/
def waiters (s : SemSys) (sem : Nat) : List Nat :=
  (s.tasks.list .waitingforsemaphore).filter fun t => s.waitsem t = some sem

/-- The task was unblocked by a post and has not returned from `sem_wait` yet. -/
def holdsGrant (s : SemSys) (sem t : Nat) : Bool :=
  s.inWait t = some sem ∧ s.tasks.taskState t ≠ .waitSem ∧ s.pterrno t ≠ .eintr ∧
    s.pterrno t ≠ .etimedout

/-- The counts of the semaphore that have been given out or can be taken. -/
def used (s : SemSys) (sem : Nat) : Nat :=
  s.acquired sem + s.tasks.pids.countP (holdsGrant s sem) + (s.semcount sem).toNat

/-- The invariant of the semaphores. -/
structure SemInv (s : SemSys) : Prop where
  sched : SchedInv s.tasks
  ranked : ∀ t ∈ s.tasks.list .waitingforsemaphore,
    schedPriorityMin ≤ s.tasks.schedPriority t
  waits : ∀ t, s.tasks.taskState t = .waitSem ↔ s.waitsem t ≠ none
  blocked : ∀ t, s.tasks.taskState t = .waitSem → s.inWait t = s.waitsem t ∧ s.pterrno t = .ok
  count : ∀ sem, (0 ≤ s.semcount sem ∧ (waiters s sem).length = 0) ∨
    s.semcount sem = -(waiters s sem).length
  count_le : ∀ sem, s.semcount sem ≤ semValueMax

variable {s s' : SemSys} {t w sem rtcb : Nat} {tasks : Tasks}

theorem mem_waitSem (h : TaskLists tasks) :
    t ∈ tasks.list .waitingforsemaphore ↔ tasks.taskState t = .waitSem := by
  rw [h.mem_list]
  cases tasks.taskState t <;> simp [TState.tasklist]

theorem length_waiters :
    (waiters s sem).length =
      (s.tasks.list .waitingforsemaphore).countP fun t => s.waitsem t = some sem := by
  rw [waiters, countP_eq_length_filter]

theorem SchedInv.length_le (h : SchedInv tasks) (l : TaskList) :
    (tasks.list l).length ≤ 2 ^ 15 := by
  have hsub : tasks.list l ⊆ List.range (2 ^ 15) := by
    intro t ht
    rw [mem_range]
    refine h.pids_lt t ((h.registered t).mpr fun hinvalid => ?_)
    exact h.lists.not_mem (tasklist_eq_none.mpr hinvalid) ht
  simpa using (subperm_of_subset (h.lists.nodup l) hsub).length_le

theorem SemInv.length_waiters_le (h : SchedInv s.tasks) (sem : Nat) :
    (waiters s sem).length ≤ 2 ^ 15 :=
  (length_filter_le _ _).trans (SchedInv.length_le h .waitingforsemaphore)

/-- Changes of the scheduler's state that leave the waiting tasks alone. -/
theorem SemInv.setTasks (h : SemInv s) (hinv : SchedInv tasks)
    (hlist : tasks.list .waitingforsemaphore = s.tasks.list .waitingforsemaphore)
    (hprio : ∀ t ∈ s.tasks.list .waitingforsemaphore, tasks.schedPriority t = s.tasks.schedPriority t)
    (hpids : tasks.pids.Sublist s.tasks.pids) :
    SemInv (s.setTasks tasks) ∧ ∀ k, used (s.setTasks tasks) k ≤ used s k := by
  have hstate : ∀ t, tasks.taskState t = .waitSem ↔ s.tasks.taskState t = .waitSem := by
    intro t
    rw [← mem_waitSem hinv.lists, ← mem_waitSem h.sched.lists, hlist]
  have hwaiters : ∀ k, waiters (s.setTasks tasks) k = waiters s k := by
    intro k
    simp [waiters, hlist]
  refine ⟨⟨hinv, ?_, ?_, ?_, ?_, h.count_le⟩, fun k => ?_⟩
  · intro t ht
    rw [SemSys.setTasks_tasks, hlist] at ht
    exact (h.ranked t ht).trans_eq (hprio t ht).symm
  · exact fun t => (hstate t).trans (h.waits t)
  · exact fun t ht => h.blocked t ((hstate t).mp ht)
  · intro k
    rw [hwaiters]
    exact h.count k
  · have hgrant : ∀ t, holdsGrant (s.setTasks tasks) k t = holdsGrant s k t := by
      intro t
      simp [holdsGrant, hstate]
    have hle := hpids.countP_le (p := holdsGrant s k)
    simp only [used, SemSys.setTasks_tasks, setTasks_acquired, setTasks_semcount, funext hgrant]
    omega

theorem SemSys.setErrno_ok (h : s.pterrno w = .ok) : s.setErrno w .ok = s := by
  simp only [SemSys.setErrno]
  congr 1
  exact update_eq_self_iff.mpr h.symm

section

variable (h : SemInv s)
include h

theorem SemInv.count_neg (hw : s.waitsem w = some sem) :
    s.semcount sem = -(waiters s sem).length ∧ 0 < (waiters s sem).length := by
  have hblocked : s.tasks.taskState w = .waitSem := (h.waits w).mpr (by simp [hw])
  have hmem : w ∈ waiters s sem :=
    mem_filter.mpr ⟨(mem_waitSem h.sched.lists).mpr hblocked, by simpa using hw⟩
  have hpos := length_pos_of_mem hmem
  rcases h.count sem with hc | hc
  · omega
  · exact ⟨hc, hpos⟩

/-- A waiting task gets a count, or gives up: it is unblocked and the count goes up. -/
theorem SemInv.release {errcode : Errno} (hw : s.waitsem w = some sem)
    (hrun : upUnblockTask s.tasks w = some tasks)
    (hs' : s' = (((s.setCount sem (s.semcount sem + 1)).setWaitsem w none).setErrno w errcode).setTasks tasks) :
    SemInv s' ∧ (∀ k, waiters s' k = (waiters s k).erase w) ∧
      ∀ k, used s' k ≤ used s k +
        if k = sem ∧ errcode ≠ .eintr ∧ errcode ≠ .etimedout then 1 else 0 := by
  have hblocked : s.tasks.taskState w = .waitSem := (h.waits w).mpr (by simp [hw])
  obtain ⟨hin, -⟩ := h.blocked w hblocked
  obtain ⟨l, hl, hcall, hlist⟩ := upUnblockTask_call h.sched.lists hrun
  obtain rfl : TaskList.waitingforsemaphore = l := by simpa [hblocked, TState.tasklist] using hl
  have hinv : SchedInv tasks := h.sched.call hcall rfl rfl rfl rfl
  have hmem : w ∈ s.tasks.list .waitingforsemaphore := (mem_waitSem h.sched.lists).mpr hblocked
  have hnodup := h.sched.lists.nodup .waitingforsemaphore
  have hstate : ∀ t, tasks.taskState t = .waitSem ↔ t ≠ w ∧ s.tasks.taskState t = .waitSem := by
    intro t
    rw [← mem_waitSem hinv.lists, hlist, hnodup.mem_erase_iff, mem_waitSem h.sched.lists]
  have hfilter : ∀ k, waiters s' k = ((s.tasks.list .waitingforsemaphore).erase w).filter
      fun t => s.waitsem t = some k := by
    intro k
    subst hs'
    simp only [waiters, SemSys.setTasks_tasks, hlist]
    refine filter_congr fun t ht => ?_
    rw [hnodup.mem_erase_iff] at ht
    simp [ht.1]
  have hlength : ∀ k, (waiters s' k).length + (if k = sem then 1 else 0) =
      (waiters s k).length := by
    intro k
    rw [hfilter, length_waiters, ← countP_eq_length_filter, ← countP_erase_add hmem]
    simp [hw, eq_comm]
  obtain ⟨hcount, hpos⟩ := h.count_neg hw
  have hnew : ∀ k, s'.semcount k = s.semcount k + if k = sem then 1 else 0 := by
    intro k
    subst hs'
    by_cases hk : k = sem <;> simp [hk]
  refine ⟨⟨?_, ?_, ?_, ?_, ?_, ?_⟩, ?_, ?_⟩
  · subst hs'
    exact hinv
  · intro t ht
    subst hs'
    rw [SemSys.setTasks_tasks, hlist] at ht
    exact (h.ranked t (mem_of_mem_erase ht)).trans_eq (hcall.frame.priority t).symm
  · intro t
    subst hs'
    rw [SemSys.setTasks_tasks, hstate, h.waits]
    by_cases ht : t = w <;> simp [ht]
  · intro t ht
    subst hs'
    obtain ⟨hne, hold⟩ := (hstate t).mp ht
    simpa [hne] using h.blocked t hold
  · intro k
    have hk := hlength k
    have hn := hnew k
    rcases h.count k with hc | hc
    · by_cases hks : k = sem
      · subst hks
        exact .inr (by omega)
      · exact .inl (by omega)
    · refine .inr ?_
      split at hk
      · next hks =>
        omega
      · next hks =>
        omega
  · intro k
    have := h.count_le k
    rw [hnew]
    split
    · next hks =>
      subst hks
      simp only [semValueMax]
      omega
    · simpa using this
  · intro k
    rw [hfilter, waiters, erase_filter]
  · intro k
    have hpid : w ∈ s.tasks.pids := (h.sched.registered w).mpr (by simp [hblocked])
    have hnow : holdsGrant s' k w =
        decide (k = sem ∧ errcode ≠ .eintr ∧ errcode ≠ .etimedout) := by
      subst hs'
      simp [holdsGrant, hstate, hin, hw, eq_comm]
    have hothers : ∀ t ∈ s.tasks.pids, t ≠ w → (holdsGrant s' k t ↔ holdsGrant s k t) := by
      intro t _ ht
      subst hs'
      simp [holdsGrant, hstate, ht]
    have hgrant := countP_agree_off h.sched.pids_nodup hpid hothers
    have hzero : (s'.semcount k).toNat = (s.semcount k).toNat := by
      rw [hnew]
      split
      · next hk =>
        subst hk
        omega
      · simp
    have hacq : s'.acquired k = s.acquired k := by
      subst hs'
      rfl
    have hpids : s'.tasks.pids = s.tasks.pids := by
      subst hs'
      exact hcall.frame.pids
    simp only [used, hpids]
    simp only [hnow, decide_eq_true_eq] at hgrant
    omega

theorem SemInv.setCount {count : Int} (hold : 0 ≤ s.semcount sem) (hnew : 0 ≤ count)
    (hmax : count ≤ semValueMax) : SemInv (s.setCount sem count) where
  sched := h.sched
  ranked := h.ranked
  waits := h.waits
  blocked := h.blocked
  count k := by
    by_cases hk : k = sem
    · subst hk
      refine .inl ⟨by simpa using hnew, ?_⟩
      rcases h.count k with hc | hc
      · exact hc.2
      · change (waiters s k).length = 0
        omega
    · have hsame : waiters (s.setCount sem count) k = waiters s k := rfl
      simpa [hk, hsame] using h.count k
  count_le k := by
    by_cases hk : k = sem
    · simpa [hk] using hmax
    · simpa [hk] using h.count_le k

theorem SemInv.waitsem_running (hthis : s.tasks.thisTask = some rtcb) : s.waitsem rtcb = none := by
  by_contra hne
  have hstate := (h.waits rtcb).mpr hne
  rw [(h.sched.lists.running rtcb).mpr hthis] at hstate
  cases hstate

theorem SemInv.take (hthis : s.tasks.thisTask = some rtcb) (hpos : 0 < s.semcount sem)
    (hs' : s' = ((s.setCount sem (s.semcount sem - 1)).setWaitsem rtcb none).acquire sem) :
    SemInv s' ∧ ∀ k, used s' k ≤ used s k := by
  have hsame : (s.setCount sem (s.semcount sem - 1)).setWaitsem rtcb none =
      s.setCount sem (s.semcount sem - 1) := by
    simp only [SemSys.setWaitsem]
    congr 1
    exact update_eq_self_iff.mpr (h.waitsem_running hthis).symm
  rw [hsame] at hs'
  have hmax := h.count_le sem
  have hcore : SemInv (s.setCount sem (s.semcount sem - 1)) :=
    h.setCount (by omega) (by omega) (by omega)
  subst hs'
  refine ⟨⟨hcore.sched, hcore.ranked, hcore.waits, hcore.blocked, hcore.count,
    hcore.count_le⟩, fun k => ?_⟩
  have hgrant : holdsGrant ((s.setCount sem (s.semcount sem - 1)).acquire sem) k =
      holdsGrant s k := rfl
  simp only [used, hgrant, acquire_tasks, setCount_tasks, acquire_acquired,
    setCount_acquired, acquire_semcount, setCount_semcount]
  by_cases hk : k = sem
  · subst hk
    simp only [update_self]
    omega
  · simp [hk]

theorem semTrywait_inv (hcalls : s.calls = true) (hrun : semTrywait s sem = some s') :
    SemInv s' ∧ ∀ k, used s' k ≤ used s k := by
  unfold semTrywait at hrun
  split at hrun
  · cases hrun
  · next rtcb hthis =>
    split at hrun
    · next hpos =>
      cases hrun
      exact h.take hthis hpos rfl
    · cases hrun
      have hidle : s.inWait rtcb = none := by simpa [SemSys.calls, hthis] using hcalls
      have hrunning := (h.sched.lists.running rtcb).mpr hthis
      refine ⟨⟨h.sched, h.ranked, h.waits, fun t ht => ?_, h.count, h.count_le⟩,
        fun k => le_of_eq ?_⟩
      · have hne : t ≠ rtcb := fun heq => by
          rw [heq, SemSys.setErrno_tasks, hrunning] at ht
          cases ht
        simpa [hne] using h.blocked t ht
      · have hgrant : ∀ t, holdsGrant (s.setErrno rtcb .eagain) k t = holdsGrant s k t := by
          intro t
          by_cases ht : t = rtcb
          · simp [holdsGrant, ht, hidle]
          · simp [holdsGrant, ht]
        simp [used, funext hgrant]

end

/-- `up_block_task` puts the running task on the list of tasks waiting for a semaphore. -/
theorem upBlockTask_waitSem {tasks' : Tasks} (h : SchedInv tasks)
    (hthis : tasks.thisTask = some rtcb) (hrun : upBlockTask tasks rtcb .waitSem = some tasks') :
    SchedInv tasks' ∧ rtcb ∉ tasks.list .waitingforsemaphore ∧
      (tasks'.list .waitingforsemaphore).Perm (rtcb :: tasks.list .waitingforsemaphore) ∧
      schedPriorityMin ≤ tasks.schedPriority rtcb ∧ tasks'.pids = tasks.pids ∧
      ∀ t, tasks'.schedPriority t = tasks.schedPriority t := by
  obtain ⟨l, hl, hcall, hmin, hlist⟩ := upBlockTask_call h.lists hthis rfl hrun
  obtain rfl : TaskList.waitingforsemaphore = l := by simpa [TState.tasklist] using hl
  have hlist : tasks'.list .waitingforsemaphore =
      (tasks.list .waitingforsemaphore).orderedInsert tasks.Outranks rtcb := hlist
  refine ⟨h.call hcall rfl rfl rfl rfl, ?_, ?_, hmin rfl, hcall.frame.pids, hcall.frame.priority⟩
  · rw [mem_waitSem h.lists, (h.lists.running rtcb).mpr hthis]
    simp
  · rw [hlist]
    exact perm_orderedInsert _ _ _

/-- The new waiting task joins those of its semaphore. -/
theorem waiters_block (hnot : rtcb ∉ s.tasks.list .waitingforsemaphore)
    (hperm : (s'.tasks.list .waitingforsemaphore).Perm (rtcb :: s.tasks.list .waitingforsemaphore))
    (hwaitsem : s'.waitsem = update s.waitsem rtcb (some sem)) (k : Nat) :
    (waiters s' k).Perm (if k = sem then rtcb :: waiters s k else waiters s k) := by
  have hrest : (s.tasks.list .waitingforsemaphore).filter (fun t => s'.waitsem t = some k) =
      waiters s k := by
    refine filter_congr fun t ht => ?_
    have hne : t ≠ rtcb := fun heq => hnot (heq ▸ ht)
    simp [hwaitsem, hne]
  refine (hperm.filter _).trans (List.Perm.of_eq ?_)
  rw [filter_cons, hrest, hwaitsem]
  by_cases hk : k = sem
  · simp [hk]
  · simp [hk, Ne.symm hk]

theorem SemInv.block (h : SemInv s) (hidle : s.inWait rtcb = none)
    (hthis : s.tasks.thisTask = some rtcb) (hcount : s.semcount sem ≤ 0)
    (hrun : upBlockTask s.tasks rtcb .waitSem = some tasks)
    (hs' : s' = ((((s.setCount sem (wrap16 (s.semcount sem - 1))).setWaitsem rtcb (some sem)).setErrno rtcb .ok).setInWait rtcb (some sem)).setTasks tasks) :
    SemInv s' ∧ ∀ k, used s' k ≤ used s k := by
  obtain ⟨hinv, hnot, hperm, hmin, hpids, hprio⟩ := upBlockTask_waitSem h.sched hthis hrun
  have hstate : ∀ t, tasks.taskState t = .waitSem ↔
      t = rtcb ∨ s.tasks.taskState t = .waitSem := by
    intro t
    rw [← mem_waitSem hinv.lists, hperm.mem_iff, mem_cons, mem_waitSem h.sched.lists]
  have hlength : ∀ k, (waiters s' k).length =
      (waiters s k).length + if k = sem then 1 else 0 := by
    intro k
    have hjoin : (waiters s' k).Perm (if k = sem then rtcb :: waiters s k else waiters s k) := by
      subst hs'
      exact waiters_block hnot hperm rfl k
    rw [hjoin.length_eq]
    split <;> rfl
  have hold : s.semcount sem = -(waiters s sem).length := by
    rcases h.count sem with hc | hc
    · omega
    · exact hc
  have hbound : (waiters s' sem).length ≤ 2 ^ 15 := by
    subst hs'
    exact SemInv.length_waiters_le hinv sem
  have hsem := hlength sem
  rw [if_pos rfl] at hsem
  have hwrap : wrap16 (s.semcount sem - 1) = s.semcount sem - 1 := by
    unfold wrap16
    omega
  rw [hwrap] at hs'
  have hnew : ∀ k, s'.semcount k = s.semcount k - if k = sem then 1 else 0 := by
    intro k
    subst hs'
    by_cases hk : k = sem <;> simp [hk]
  refine ⟨⟨?_, ?_, ?_, ?_, ?_, ?_⟩, ?_⟩
  · subst hs'
    exact hinv
  · intro t ht
    subst hs'
    rw [SemSys.setTasks_tasks, hperm.mem_iff] at ht
    rw [SemSys.setTasks_tasks, hprio]
    rcases mem_cons.mp ht with rfl | ht
    · exact hmin
    · exact h.ranked t ht
  · intro t
    subst hs'
    rw [SemSys.setTasks_tasks, hstate, h.waits]
    by_cases ht : t = rtcb <;> simp [ht]
  · intro t ht
    subst hs'
    by_cases hne : t = rtcb
    · simp [hne]
    · simpa [hne] using h.blocked t (((hstate t).mp ht).resolve_left hne)
  · intro k
    rw [hlength, hnew]
    rcases h.count k with hc | hc
    · by_cases hk : k = sem
      · subst hk
        simp only [if_true]
        exact .inr (by omega)
      · exact .inl (by simpa [hk] using hc)
    · refine .inr ?_
      split <;> push_cast <;> omega
  · intro k
    have := h.count_le k
    rw [hnew]
    split <;> omega
  · intro k
    have hgrant : ∀ t, holdsGrant s' k t = holdsGrant s k t := by
      intro t
      subst hs'
      by_cases ht : t = rtcb
      · simp [holdsGrant, hstate, ht, hidle]
      · simp [holdsGrant, hstate, ht]
    have hpids : s'.tasks.pids = s.tasks.pids := by
      subst hs'
      exact hpids
    have hacq : s'.acquired k = s.acquired k := by
      subst hs'
      rfl
    have := hnew k
    simp only [used, funext hgrant, hpids]
    split at this <;> omega

theorem semWait_inv (h : SemInv s) (hcalls : s.calls = true) (hrun : semWait s sem = some s') :
    SemInv s' ∧ ∀ k, used s' k ≤ used s k := by
  unfold semWait at hrun
  split at hrun
  · cases hrun
  · next rtcb hthis =>
    split at hrun
    · next hpos =>
      cases hrun
      exact h.take hthis hpos rfl
    · next hpos =>
      split at hrun
      · cases hrun
      · dsimp only at hrun
        split at hrun
        · cases hrun
        · next tasks hblock =>
          cases hrun
          have hidle : s.inWait rtcb = none := by simpa [SemSys.calls, hthis] using hcalls
          exact h.block hidle hthis (by omega) hblock rfl

theorem semWaitReturn_inv (h : SemInv s) (hrun : semWaitReturn s = some s') :
    SemInv s' ∧ ∀ k, used s' k ≤ used s k := by
  unfold semWaitReturn at hrun
  split at hrun
  · cases hrun
  · next rtcb hthis =>
    split at hrun
    · cases hrun
    · next sem hin =>
      have hrunning := (h.sched.lists.running rtcb).mpr hthis
      have hpid : rtcb ∈ s.tasks.pids := (h.sched.registered rtcb).mpr (by simp [hrunning])
      have hcore : SemInv (s.setInWait rtcb none) := by
        refine ⟨h.sched, h.ranked, h.waits, fun t ht => ?_, h.count, h.count_le⟩
        have hne : t ≠ rtcb := fun heq => by
          rw [heq, setInWait_tasks, hrunning] at ht
          cases ht
        simpa [hne] using h.blocked t ht
      have hgrant : ∀ k, s.tasks.pids.countP (holdsGrant (s.setInWait rtcb none) k) +
          (if holdsGrant s k rtcb then 1 else 0) = s.tasks.pids.countP (holdsGrant s k) := by
        intro k
        have hothers : ∀ t ∈ s.tasks.pids, t ≠ rtcb →
            (holdsGrant (s.setInWait rtcb none) k t ↔ holdsGrant s k t) := by
          intro t _ ht
          simp [holdsGrant, ht]
        have := countP_agree_off h.sched.pids_nodup hpid hothers
        simpa [holdsGrant] using this
      split at hrun
      · next herr =>
        cases hrun
        refine ⟨⟨hcore.sched, hcore.ranked, hcore.waits, hcore.blocked, hcore.count,
          hcore.count_le⟩, fun k => ?_⟩
        have hg := hgrant k
        have hown : holdsGrant s k rtcb = decide (k = sem) := by
          simp [holdsGrant, hin, hrunning, herr, eq_comm]
        rw [hown] at hg
        have hsame : holdsGrant ((s.setInWait rtcb none).acquire sem) k =
            holdsGrant (s.setInWait rtcb none) k := rfl
        simp only [used, hsame, acquire_tasks, setInWait_tasks,
          acquire_acquired, setInWait_acquired, acquire_semcount,
          setInWait_semcount]
        by_cases hk : k = sem
        · subst hk
          simp only [decide_true, if_true] at hg
          simp only [update_self]
          omega
        · simp [hk] at hg ⊢
          omega
      · cases hrun
        refine ⟨hcore, fun k => ?_⟩
        have hg := hgrant k
        simp only [used, setInWait_tasks, setInWait_acquired, setInWait_semcount]
        omega

end NbLot.Source.Sem
