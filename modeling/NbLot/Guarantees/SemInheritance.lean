import NbLot.Source.Sem.InheritSteps

/-!
# Priority inheritance

Source: nuttx/sched/semaphore/sem_holder.c:345-411 and 482-612. A holder inherits the
priority of the tasks that wait for it and gives it back when they wait no longer. The
functions decide from the holder's own list of pending priorities and never look at the
tasks that wait, which is right as long as every count is taken with `sem_wait`, one at a
time, and a wait that ends is one the holder has recorded. Counts taken with
`sem_trywait` have no holder at all, and a post that leaves a task waiting leaves the
priority of that task with the one that has posted.
-/
namespace NbLot.Guarantees.SemInheritance

open Lib.Inheritance Lib.Transition Source.Sched Source.Sem

/-- No priority inversion: no task that waits for a semaphore has a higher priority than
one that has a count of it. -/
theorem no_priority_inversion (init : Nat → Nat) (hinit : ∀ sem, init sem ≤ 0x7fff)
    (acts : List PiAct) (s : PiSys) (hrun : run PiSys.step (piStart init) acts = some s)
    (horderly : StepsMeet PiSys.step Orderly (piStart init) acts) (sem tcb htcb : Nat)
    (hblocked : tcb ∈ waiters s.toSemSys sem) (hheld : sem ∈ s.held htcb) :
    s.tasks.schedPriority tcb ≤ s.tasks.schedPriority htcb := by
  have hstep : ∀ s a s', PiInv false s → Orderly s a → PiSys.step s a = some s' →
      PiInv false s' := fun s a s' h hok hstep => pi_step h hok (by simp) hstep
  have hinv : PiInv false s := invariant_run hstep (piStart_inv hinit) horderly hrun
  obtain ⟨k, hk⟩ : ∃ k, s.held htcb = [k] := by
    rcases hinv.held htcb with hfree | ⟨k, hk, -⟩
    · simp [hfree] at hheld
    · exact ⟨k, hk⟩
  obtain rfl : sem = k := by simpa [hk] using hheld
  exact (hinv.claimed htcb sem hk).le_priority
    (Multiset.mem_coe.mpr (List.mem_map_of_mem hblocked))

/-- Task 1 takes the count; task 2 and then task 3, both of higher priorities, wait for it;
the wait of task 2 times out, and it waits again. -/
def waitBehindHolder : List PiAct :=
  [.sched (.setup 1 50), .sched (.unblock 1), .wait 0, .sched (.setup 2 100),
    .sched (.unblock 2), .wait 0, .sched (.block ⟨.waitSig, rfl⟩), .sched (.setup 3 80),
    .sched (.unblock 3), .wait 0, .interrupted 2 .etimedout, .waitReturn, .wait 0]

theorem no_priority_inversion_two_waiters :
    ∃ s, run PiSys.step (piStart fun _ => 1) waitBehindHolder = some s ∧
      waiters s.toSemSys 0 = [2, 3] ∧ s.held 1 = [0] ∧ s.basePriority 1 = 50 ∧
      s.tasks.schedPriority 2 ≤ s.tasks.schedPriority 1 ∧ s.tasks.schedPriority 1 = 100 := by
  have hreach : ((run PiSys.step (piStart fun _ => 1) waitBehindHolder).map fun s =>
      (waiters s.toSemSys 0, s.held 1, s.basePriority 1, s.tasks.schedPriority 1)) =
      some ([2, 3], [0], 50, 100) := by decide +kernel
  obtain ⟨s, hrun, hs⟩ := Option.map_eq_some_iff.mp hreach
  simp only [Prod.mk.injEq] at hs
  obtain ⟨hwaits, hheld, hbase, hprio⟩ := hs
  exact ⟨s, hrun, hwaits, hheld, hbase,
    no_priority_inversion (fun _ => 1) (fun _ => by decide) waitBehindHolder s hrun
      (by decide +kernel) 0 2 1 (by simp [hwaits]) (by simp [hheld]), hprio⟩

/-- Task 1 takes the count with `sem_trywait`, and task 2 waits for it. -/
def waitBehindTrywait : List PiAct :=
  [.sched (.setup 1 50), .sched (.unblock 1), .trywait 0, .sched (.setup 2 100),
    .sched (.unblock 2), .wait 0]

/-- The task that has the count stays below the one that waits for it. -/
theorem trywait_inversion :
    ∃ s, run PiSys.step (piStart fun _ => 1) waitBehindTrywait = some s ∧
      2 ∈ waiters s.toSemSys 0 ∧ 0 ∈ s.held 1 ∧
      ¬ s.tasks.schedPriority 2 ≤ s.tasks.schedPriority 1 := by
  have hreach : ((run PiSys.step (piStart fun _ => 1) waitBehindTrywait).map fun s =>
      (waiters s.toSemSys 0, s.held 1, s.tasks.schedPriority 2, s.tasks.schedPriority 1)) =
      some ([2], [0], 100, 50) := by decide +kernel
  obtain ⟨s, hrun, hs⟩ := Option.map_eq_some_iff.mp hreach
  simp only [Prod.mk.injEq] at hs
  obtain ⟨hwaits, hheld, hwaiter, hholder⟩ := hs
  exact ⟨s, hrun, by simp [hwaits], by simp [hheld], by simp [hwaiter, hholder]⟩

/-- Priority restoration: a task that no task waits for is at its base priority and has no
pending priorities. -/
theorem priority_restored (init : Nat → Nat) (hinit : ∀ sem, init sem ≤ 0x7fff)
    (acts : List PiAct) (s : PiSys) (hrun : run PiSys.step (piStart init) acts = some s)
    (hok : StepsMeet PiSys.step (fun s a => Orderly s a ∧ Restores s a) (piStart init) acts)
    (htcb : Nat) (hnone : ∀ sem ∈ s.held htcb, waiters s.toSemSys sem = []) :
    s.tasks.schedPriority htcb = s.basePriority htcb ∧ s.pendReprios htcb = [] := by
  have hstep : ∀ s a s', PiInv true s → Orderly s a ∧ Restores s a →
      PiSys.step s a = some s' → PiInv true s' := fun s a s' h hok hstep =>
    pi_step h hok.1 (fun _ => hok.2) hstep
  have hinv : PiInv true s := invariant_run hstep (piStart_inv hinit) hok hrun
  rcases hinv.held htcb with hfree | ⟨k, hk, -⟩
  · exact (hinv.unclaimed htcb hfree).restored rfl
  · refine (hinv.claimed htcb k hk).restored ?_
    have hempty : waiting s k = 0 := by
      rw [waiting, hnone k (by simp [hk])]
      rfl
    rw [hempty]
    rfl

/-- Task 1 takes the count, task 2 of a higher priority waits for it, task 3 of a lower one
takes the count of another semaphore, and task 1 posts. -/
def waitAndPost : List PiAct :=
  [.sched (.setup 1 50), .sched (.unblock 1), .wait 0, .sched (.setup 2 100),
    .sched (.unblock 2), .wait 0, .sched (.setup 3 70), .sched (.unblock 3), .post 0,
    .waitReturn, .sched (.block ⟨.waitSig, rfl⟩), .wait 1, .sched (.block ⟨.waitSig, rfl⟩),
    .postReturn]

theorem priority_restored_handover :
    ∃ s, run PiSys.step (piStart fun _ => 1) waitAndPost = some s ∧ s.held 1 = [] ∧
      s.held 2 = [0] ∧ s.tasks.schedPriority 1 = s.basePriority 1 ∧ s.pendReprios 1 = [] := by
  have hreach : ((run PiSys.step (piStart fun _ => 1) waitAndPost).map fun s =>
      (s.held 1, s.held 2)) = some ([], [0]) := by decide +kernel
  obtain ⟨s, hrun, hs⟩ := Option.map_eq_some_iff.mp hreach
  obtain ⟨hfree, hheld⟩ := Prod.mk.inj hs
  obtain ⟨hprio, hpend⟩ := priority_restored (fun _ => 1) (fun _ => by decide) waitAndPost s hrun
    (by decide +kernel) 1 (by simp [hfree])
  exact ⟨s, hrun, hfree, hheld, hprio, hpend⟩

/-- Task 1 takes the count, tasks 2 and 3 of higher priorities wait for it, and task 1
posts: task 2 gets the count. -/
def postBeforeTwo : List PiAct :=
  [.sched (.setup 1 50), .sched (.unblock 1), .wait 0, .sched (.setup 2 100),
    .sched (.unblock 2), .wait 0, .sched (.block ⟨.waitSig, rfl⟩), .sched (.setup 3 80),
    .sched (.unblock 3), .wait 0, .sched (.unblock 1), .post 0, .waitReturn,
    .sched (.block ⟨.waitSig, rfl⟩), .postReturn]

/-- Task 1 has no count any more, has returned from `sem_post`, and runs at the priority of
task 3. -/
theorem post_keeps_boost :
    ∃ s, run PiSys.step (piStart fun _ => 1) postBeforeTwo = some s ∧ s.held 1 = [] ∧
      s.inPost 1 = none ∧ s.tasks.schedPriority 1 = 80 ∧ s.basePriority 1 = 50 := by
  have hreach : ((run PiSys.step (piStart fun _ => 1) postBeforeTwo).map fun s =>
      (s.held 1, s.inPost 1, s.tasks.schedPriority 1, s.basePriority 1)) =
      some ([], none, 80, 50) := by decide +kernel
  obtain ⟨s, hrun, hs⟩ := Option.map_eq_some_iff.mp hreach
  simp only [Prod.mk.injEq] at hs
  exact ⟨s, hrun, hs⟩

end NbLot.Guarantees.SemInheritance
