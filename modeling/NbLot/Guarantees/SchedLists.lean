import NbLot.Source.Sched.System

/-!
# The task lists

Source: nuttx/sched/sched/sched.h:145-216. Every task is on the list its state names,
the prioritized lists are in order, the head of the ready-to-run list runs. The comment
at `g_readytorun` adds that its tail is always the IDLE task; `sched_setpriority` does
not take care of this.
-/
namespace NbLot.Guarantees.SchedLists

open Lib.Transition Source.Sched

/-- The task lists of a single CPU as sched.h describes them. -/
structure TaskListInvariant (s : Tasks) : Prop where
  /-- Every task is on the list its state names, once, and on no other. -/
  on_its_list : ∀ t ∈ s.pids, ∃ l, (s.taskState t).tasklist = some l ∧
    ∀ k, (s.list k).count t = if k = l then 1 else 0
  /-- Higher priorities come first, and equal ones in the order of arrival. -/
  in_order : ∀ l, l.prioritized = true → (s.list l).Pairwise fun a b =>
    s.schedPriority b < s.schedPriority a ∨
      (s.schedPriority a = s.schedPriority b ∧ s.arrived a < s.arrived b)
  /-- The head of the ready-to-run list is the running task, and no other task is. -/
  head_running : ∀ t, s.taskState t = .running ↔ (s.list .readytorun).head? = some t
  head_executes : (s.list .readytorun).head? = some s.context
  idle_last : (s.list .readytorun).getLast? = some idle

theorem taskListInvariant_of_inv {s : Tasks} (h : SchedInv s) (hidle : IdleLast s) :
    TaskListInvariant s where
  on_its_list := by
    intro t ht
    have hvalid := (h.registered t).mp ht
    obtain ⟨l, hl⟩ := Option.ne_none_iff_exists'.mp
      (fun hnone => hvalid (tasklist_eq_none.mp hnone))
    refine ⟨l, hl, fun k => ?_⟩
    split
    · next hk =>
      subst hk
      exact List.count_eq_one_of_mem (h.lists.nodup k) ((h.lists.mem_list t k).mpr hl)
    · next hk =>
      refine List.count_eq_zero_of_not_mem fun hmem => hk ?_
      rw [h.lists.mem_list, hl, Option.some.injEq] at hmem
      exact hmem.symm
  in_order := h.lists.sorted
  head_running := h.lists.running
  head_executes := h.context
  idle_last := hidle.last

/-- In every state reached from boot the task lists are as described, if the IDLE task
is never given a priority. -/
theorem task_lists_invariant (acts : List SchedAct) (s : Tasks)
    (hrun : run Tasks.step osStart acts = some s)
    (hidle : ∀ a ∈ acts, a.ranksIdle = false) : TaskListInvariant s := by
  have hstep : ∀ s a s', SchedInv s ∧ IdleLast s → a.ranksIdle = false →
      Tasks.step s a = some s' → SchedInv s' ∧ IdleLast s' := by
    intro s a s' h ha hstep
    obtain ⟨hinv, hlast⟩ := sched_step h.1 hstep
    exact ⟨hinv, hlast ha h.2⟩
  obtain ⟨hinv, hlast⟩ := invariant_run hstep ⟨osStart_inv, osStart_idle⟩
    (stepsMeet_of_forall osStart acts hidle) hrun
  exact taskListInvariant_of_inv hinv hlast

/-- Tasks 1 and 2 are started, task 3 waits for the end of task 1's lock, runs and
blocks, task 2 gets the priority of task 1 and task 1 yields. -/
def startAndYield : List SchedAct :=
  [.setup 1 100, .unblock 1, .setup 2 50, .unblock 2, .lock, .setup 3 200, .unblock 3, .unlock,
    .block ⟨.waitSem, rfl⟩, .setpriority 2 100, .setpriority 1 100]

theorem task_lists_invariant_yield :
    ∃ s, run Tasks.step osStart startAndYield = some s ∧ TaskListInvariant s ∧
      s.list .readytorun = [2, 1, idle] ∧ s.list .waitingforsemaphore = [3] := by
  have hlists : ((run Tasks.step osStart startAndYield).map fun s =>
      (s.list .readytorun, s.list .waitingforsemaphore)) = some ([2, 1, idle], [3]) := by
    decide +kernel
  obtain ⟨s, hrun, hs⟩ := Option.map_eq_some_iff.mp hlists
  obtain ⟨hready, hsem⟩ := Prod.mk.inj hs
  exact ⟨s, hrun, task_lists_invariant startAndYield s hrun (by decide), hready, hsem⟩

/-- Task 1 runs, task 2 is ready to run, and the IDLE task is given a priority between
theirs. -/
def boostIdle : List SchedAct :=
  [.setup 1 100, .unblock 1, .setup 2 50, .unblock 2, .setpriority idle 60]

/-- The IDLE task is not the last one any more. -/
theorem boosted_idle_not_last :
    ∃ s, run Tasks.step osStart boostIdle = some s ∧ s.list .readytorun = [1, idle, 2] ∧
      ¬ TaskListInvariant s := by
  have hlist : ((run Tasks.step osStart boostIdle).map fun s => s.list .readytorun) =
      some [1, idle, 2] := by decide +kernel
  obtain ⟨s, hrun, hready⟩ := Option.map_eq_some_iff.mp hlist
  refine ⟨s, hrun, hready, fun h => ?_⟩
  have hlast := h.idle_last
  rw [hready] at hlast
  cases hlast

end NbLot.Guarantees.SchedLists
