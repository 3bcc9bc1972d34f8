import NbLot.Source.Sem.Steps

/-!
# The counts of the semaphores

Source: nuttx/include/semaphore.h:85-86 (a negative count is the number of tasks
waiting) and sem_recover.c:55-59 (a deleted task that waits gives its count back). The
function that gives it back tests the task's state, and `task_terminate` has already
set that state to `TSTATE_TASK_INVALID`.
-/
namespace NbLot.Guarantees.SemCounts

open Lib.Transition Source.Sched Source.Sem List

/-- A run keeps the invariant, and gives out what the posts and resets in it gave. -/
theorem sem_run {acts : List SemAct} {s s' : SemSys} (h : SemInv s)
    (hok : StepsMeet SemSys.step SparesWaiters s acts) (hrun : run SemSys.step s acts = some s') :
    SemInv s' ∧ ∀ k, used s' k ≤ used s k + (acts.map (SemAct.gives k)).sum := by
  induction acts generalizing s with
  | nil =>
    cases hrun
    exact ⟨h, fun k => by simp⟩
  | cons a acts ih =>
    simp only [run] at hrun
    unfold StepsMeet at hok
    cases hnext : s.step a with
    | none =>
      rw [hnext] at hrun
      cases hrun
    | some s₁ =>
      rw [hnext] at hrun hok
      obtain ⟨h₁, hused₁⟩ := sem_step h hok.1 hnext
      obtain ⟨h', hused⟩ := ih h₁ hok.2 hrun
      refine ⟨h', fun k => ?_⟩
      have h1 := hused₁ k
      have h2 := hused k
      rw [map_cons, sum_cons]
      omega

/-- The post is granted to the first task of the waiting list, whose `sem_wait` will
return OK, and to no other. -/
def GrantsFirst (s : SemSys) (sem : Nat) : Prop :=
  ∃ w s', semPost s sem = some s' ∧ w ∈ waiters s sem ∧
    (∀ u ∈ waiters s sem, u ≠ w → s.tasks.Before w u) ∧
    s'.tasks.taskState w ≠ .waitSem ∧ holdsGrant s' sem w = true ∧
    ∀ k, waiters s' k = (waiters s k).erase w

theorem post_grants_first {s : SemSys} {sem : Nat} (h : SemInv s)
    (hwaits : waiters s sem ≠ []) : GrantsFirst s sem := by
  obtain ⟨w, rest, hw⟩ := exists_cons_of_ne_nil hwaits
  obtain ⟨tasks, hun, hsem, hpost⟩ := semPost_waiters h hw
  obtain ⟨hinv, hwaiters, -⟩ := h.release hsem hun rfl
  have hblocked : s.tasks.taskState w = .waitSem := (h.waits w).mpr (by simp [hsem])
  have hstate : tasks.taskState w ≠ .waitSem := by
    intro heq
    have := (hinv.waits w).mp heq
    simp at this
  refine ⟨w, _, hpost, by simp [hw], fun u hu hne => ?_, hstate, ?_, hwaiters⟩
  · -- the waiting list is in order, and so are the tasks of this semaphore on it
    have hsorted := (h.sched.lists.sorted .waitingforsemaphore rfl).filter
      (fun t => decide (s.waitsem t = some sem))
    change (waiters s sem).Pairwise s.tasks.Before at hsorted
    rw [hw, pairwise_cons] at hsorted
    rw [hw] at hu
    exact hsorted.1 u ((mem_cons.mp hu).resolve_left hne)
  · simp [holdsGrant, hstate, (h.blocked w hblocked).1, hsem]

/-- Semaphore counts, if no task that waits for a semaphore is deleted: a negative count
is the number of waiting tasks, none waits on a count that is not negative, a post is
granted to the first of them, and no more calls succeed than counts were given. -/
theorem semaphore_counts (init : Nat → Nat) (hinit : ∀ sem, init sem ≤ 0x7fff)
    (acts : List SemAct) (s : SemSys) (hrun : run SemSys.step (semStart init) acts = some s)
    (hspares : StepsMeet SemSys.step SparesWaiters (semStart init) acts) (sem : Nat) :
    (s.semcount sem < 0 → s.semcount sem = -(waiters s sem).length) ∧
      (0 ≤ s.semcount sem → waiters s sem = []) ∧
      (waiters s sem ≠ [] → GrantsFirst s sem) ∧
      s.acquired sem ≤ init sem + (acts.map (SemAct.gives sem)).sum := by
  obtain ⟨hinv, hused⟩ := sem_run (semStart_inv hinit) hspares hrun
  refine ⟨fun hneg => ?_, fun hpos => ?_, post_grants_first hinv, ?_⟩
  · rcases hinv.count sem with hc | hc
    · omega
    · exact hc
  · rcases hinv.count sem with hc | hc
    · exact eq_nil_of_length_eq_zero hc.2
    · exact eq_nil_of_length_eq_zero (by omega)
  · have := hused sem
    rw [used_semStart] at this
    unfold used at this
    omega

/-- Task 1 takes the count; tasks 2 and 3 wait for it, task 3 with the higher priority;
task 2 is interrupted, task 3 gets the count that task 1 posts and returns. -/
def takeAndPost : List SemAct :=
  [.sched (.setup 1 100), .sched (.unblock 1), .wait 0, .sched (.setup 2 150),
    .sched (.unblock 2), .wait 0, .sched (.setup 3 200), .sched (.unblock 3), .wait 0,
    .interrupted 2, .waitReturn, .wait 0, .post 0, .waitReturn]

theorem semaphore_counts_handover :
    ∃ s, run SemSys.step (semStart fun _ => 1) takeAndPost = some s ∧
      waiters s 0 = [2] ∧ s.semcount 0 = -1 ∧ GrantsFirst s 0 ∧
      s.acquired 0 = 2 ∧ s.acquired 0 ≤ 1 + (takeAndPost.map (SemAct.gives 0)).sum := by
  have hreach : ((run SemSys.step (semStart fun _ => 1) takeAndPost).map fun s =>
      (waiters s 0, s.semcount 0, s.acquired 0)) = some ([2], -1, 2) := by decide +kernel
  obtain ⟨s, hrun, hs⟩ := Option.map_eq_some_iff.mp hreach
  simp only [Prod.mk.injEq] at hs
  obtain ⟨hwaits, hcount, hacq⟩ := hs
  obtain ⟨-, -, hgrant, hle⟩ := semaphore_counts (fun _ => 1) (fun _ => by decide) takeAndPost s
    hrun (by decide +kernel) 0
  exact ⟨s, hrun, hwaits, hcount, hgrant (by simp [hwaits]), hacq, hle⟩

/-- Task 1 waits for the semaphore and is deleted. -/
def deleteWaiter : List SemAct :=
  [.sched (.setup 1 100), .sched (.unblock 1), .wait 0, .delete 1]

/-- The count stays negative with no task waiting. -/
theorem deleted_waiter_keeps_count :
    ∃ s, run SemSys.step (semStart fun _ => 0) deleteWaiter = some s ∧ s.semcount 0 = -1 ∧
      waiters s 0 = [] := by
  have hreach : ((run SemSys.step (semStart fun _ => 0) deleteWaiter).map fun s =>
      (s.semcount 0, waiters s 0)) = some (-1, []) := by decide +kernel
  obtain ⟨s, hrun, hs⟩ := Option.map_eq_some_iff.mp hreach
  exact ⟨s, hrun, (Prod.mk.inj hs).1, (Prod.mk.inj hs).2⟩

end NbLot.Guarantees.SemCounts
