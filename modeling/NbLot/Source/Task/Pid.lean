import NbLot.Lib.Transition
import Mathlib.Data.Nat.Bitwise

/-!
# Task identifiers

Source: nuttx/sched/task/task_setup.c:91-147, nuttx/sched/sched/sched_gettcb.c:60-86,
sched_releasetcb.c:64-85, 134-137, sched.h:60-67, nuttx/sched/init/os_start.c:416-439.

The table `g_pidhash` and the counter `g_lastpid`, with the TCBs that exist. A `pid_t` is a
signed 16-bit number; CONFIG_MAX_TASKS is the parameter `maxTasks`.
-/
namespace NbLot.Source.Task
open Lib.Transition Function

/-- Conversion to `pid_t`. -/
def toPid (n : Int) : Int := n.bmod (2 ^ 16)

def invalidProcessId : Int := -1

/-- `struct pidhash_s`, with the TCB under a name. -/
structure Pidhash where
  tcb : Option Nat
  pid : Int
  deriving DecidableEq, Repr

structure PidTable where
  lastpid : Int
  pidhash : Nat → Pidhash

/-- `PIDHASH` of an identifier that is not negative. -/
def pidHash (maxTasks : Nat) (pid : Int) : Nat := pid.toNat &&& (maxTasks - 1)

/-- The next candidate, which is also stored in `g_lastpid`. -/
def nextPid (lastpid : Int) : Int :=
  let next := toPid (lastpid + 1)
  if next ≤ 0 then 1 else next

/-- The loop of `task_assignpid` with the tries that are left. -/
def assignTries (maxTasks tcb : Nat) : Nat → PidTable → PidTable × Option Int
  | 0, g => (g, none)
  | tries + 1, g =>
    let pid := nextPid g.lastpid
    let hashNdx := pidHash maxTasks pid
    if (g.pidhash hashNdx).tcb = none then
      (⟨pid, Function.update g.pidhash hashNdx ⟨some tcb, pid⟩⟩, some pid)
    else assignTries maxTasks tcb tries { g with lastpid := pid }

/-- `task_assignpid`; no identifier for ERROR. -/
def taskAssignpid (maxTasks : Nat) (g : PidTable) (tcb : Nat) : PidTable × Option Int :=
  assignTries maxTasks tcb maxTasks g

/-- `sched_gettcb`. -/
def schedGettcb (maxTasks : Nat) (g : PidTable) (pid : Int) : Option Nat :=
  if pid ≥ 0 then
    let entry := g.pidhash (pidHash maxTasks pid)
    if pid = entry.pid then entry.tcb else none
  else none

/-- `sched_releasepid`. -/
def schedReleasepid (maxTasks : Nat) (g : PidTable) (pid : Int) : PidTable :=
  { g with
    pidhash := Function.update g.pidhash (pidHash maxTasks pid) ⟨none, invalidProcessId⟩ }

/-- A TCB with its field `pid`. -/
structure Tcb where
  name : Nat
  pid : Int
  deriving DecidableEq, Repr

/-- The tasks that are alive, and the table. -/
structure TaskState where
  table : PidTable
  tasks : List Tcb

/-- `os_start`: the idle task has the name and the identifier 0. -/
def osStart : TaskState where
  table := ⟨0, Function.update (fun _ => ⟨none, invalidProcessId⟩) 0 ⟨some 0, 0⟩⟩
  tasks := [⟨0, 0⟩]

inductive TaskAct where
  | create (name : Nat)
  | exit (name : Nat)
  deriving DecidableEq, Repr

/-- A new TCB gets an identifier or is freed again; a task other than the idle task exits. -/
def TaskState.step (maxTasks : Nat) (s : TaskState) : TaskAct → Option TaskState
  | .create name =>
    if name ∈ s.tasks.map Tcb.name then none
    else
      match taskAssignpid maxTasks s.table name with
      | (g, some pid) => some ⟨g, ⟨name, pid⟩ :: s.tasks⟩
      | (g, none) => some ⟨g, s.tasks⟩
  | .exit name =>
    match s.tasks.find? fun t => t.name = name with
    | none => none
    | some t =>
      if t.pid = 0 then none
      else some ⟨schedReleasepid maxTasks s.table t.pid, s.tasks.erase t⟩

variable {k n : Nat} {s t : TaskState} {g : PidTable} {pid : Int}

/-- The slots that identifiers can have: the table may be larger than their number. -/
def slots (maxTasks : Nat) : Nat := min maxTasks (2 ^ 15)

theorem slots_dvd (k : Nat) : slots (2 ^ k) ∣ 2 ^ 15 := by
  unfold slots
  rcases Nat.le_total k 15 with h | h
  · rw [Nat.min_eq_left (Nat.pow_le_pow_right (by decide) h)]
    exact Nat.pow_dvd_pow 2 h
  · rw [Nat.min_eq_right (Nat.pow_le_pow_right (by decide) h)]

theorem slots_pos (k : Nat) : 0 < slots (2 ^ k) := by
  have := Nat.two_pow_pos k
  unfold slots
  omega

theorem pidHash_eq (hpid : pid = n) (hn : n < 2 ^ 15) :
    pidHash (2 ^ k) pid = n % slots (2 ^ k) := by
  subst hpid
  rw [pidHash, Int.toNat_natCast, Nat.and_two_pow_sub_one_eq_mod]
  unfold slots
  rcases Nat.le_total (2 ^ k) (2 ^ 15) with h | h
  · rw [Nat.min_eq_left h]
  · rw [Nat.min_eq_right h, Nat.mod_eq_of_lt hn, Nat.mod_eq_of_lt (Nat.lt_of_lt_of_le hn h)]

theorem pidHash_lt (hpid : 0 ≤ pid ∧ pid < 2 ^ 15) : pidHash (2 ^ k) pid < slots (2 ^ k) := by
  obtain ⟨n, rfl⟩ := Int.eq_ofNat_of_zero_le hpid.1
  rw [pidHash_eq rfl (by omega)]
  exact Nat.mod_lt _ (slots_pos k)

theorem nextPid_eq (hn : n < 2 ^ 15) : nextPid n = if n + 1 = 2 ^ 15 then 1 else (n + 1 : Nat) := by
  unfold nextPid toPid
  by_cases hwrap : n + 1 = 2 ^ 15
  · obtain rfl : n = 32767 := by omega
    rfl
  · rw [if_neg hwrap]
    have hbmod : ((n : Int) + 1).bmod (2 ^ 16) = n + 1 := Int.bmod_eq_of_le (by omega) (by omega)
    rw [hbmod]
    rfl

theorem nextPid_range (hpid : 0 ≤ pid ∧ pid < 2 ^ 15) : 0 < nextPid pid ∧ nextPid pid < 2 ^ 15 := by
  obtain ⟨n, rfl⟩ := Int.eq_ofNat_of_zero_le hpid.1
  rw [nextPid_eq (by omega)]
  split <;> omega

theorem iterate_nextPid {j : Nat} (h : n + j < 2 ^ 15) : nextPid^[j] n = (n + j : Nat) := by
  induction j with
  | zero => rfl
  | succ j ih =>
    rw [iterate_succ_apply', ih (by omega), nextPid_eq (by omega), if_neg (by omega)]
    rfl

/-- Every slot but the first comes up within as many tries as there are slots, also when the
counter wraps on the way. -/
theorem probe_reaches {slot : Nat} (hn : n < 2 ^ 15) (hslot : 0 < slot)
    (hlt : slot < slots (2 ^ k)) :
    ∃ j, j < slots (2 ^ k) ∧ pidHash (2 ^ k) (nextPid^[j + 1] n) = slot := by
  obtain ⟨q, hq⟩ := slots_dvd k
  obtain ⟨r, a, hr, hna⟩ : ∃ r a, r < slots (2 ^ k) ∧ n = slots (2 ^ k) * a + r :=
    ⟨_, _, Nat.mod_lt n (slots_pos k), (Nat.div_add_mod n _).symm⟩
  generalize hm : slots (2 ^ k) = m at *
  have haq : m * (a + 1) ≤ 2 ^ 15 := by
    rw [hq]
    refine Nat.mul_le_mul_left m ?_
    by_contra hge
    have := Nat.mul_le_mul_left m (show q ≤ a by omega)
    omega
  rw [Nat.mul_add] at haq
  by_cases hup : r < slot
  · refine ⟨slot - r - 1, by omega, ?_⟩
    have hreach : n + (slot - r - 1 + 1) = slot + m * a := by omega
    rw [iterate_nextPid (by omega), hreach, pidHash_eq rfl (by omega), hm, Nat.add_mul_mod_self_left,
      Nat.mod_eq_of_lt hlt]
  · by_cases hwrap : m * a + m = 2 ^ 15
    · -- the counter passes its maximum, and goes on with 1
      refine ⟨m - 1 - r + slot - 1, by omega, ?_⟩
      have htop : nextPid^[m - 1 - r] n = (2 ^ 15 - 1 : Nat) := by
        rw [iterate_nextPid (by omega)]
        congr 1
        omega
      have hone : nextPid^[m - 1 - r + 1] n = (1 : Nat) := by
        rw [iterate_succ_apply', htop]
        rfl
      have hreach : nextPid^[m - 1 - r + slot - 1 + 1] n = (slot : Nat) := by
        rw [show m - 1 - r + slot - 1 + 1 = (slot - 1) + (m - 1 - r + 1) by omega,
          iterate_add_apply, hone, iterate_nextPid (by omega)]
        congr 1
        omega
      rw [hreach, pidHash_eq rfl (by omega), hm, Nat.mod_eq_of_lt hlt]
    · have hnext : m * a + m + m ≤ 2 ^ 15 := by
        rw [hq] at hwrap haq ⊢
        have hlt' : a + 1 < q := by
          by_contra hge
          have := Nat.mul_le_mul_left m (show q ≤ a + 1 by omega)
          rw [Nat.mul_add] at this
          omega
        have := Nat.mul_le_mul_left m (show a + 2 ≤ q by omega)
        rw [Nat.mul_add] at this
        omega
      refine ⟨m - r + slot - 1, by omega, ?_⟩
      have hreach : n + (m - r + slot - 1 + 1) = slot + m * (a + 1) := by
        rw [Nat.mul_add]
        omega
      rw [iterate_nextPid (by omega), hreach, pidHash_eq rfl (by rw [Nat.mul_add]; omega), hm,
        Nat.add_mul_mod_self_left, Nat.mod_eq_of_lt hlt]

/-- What the loop of `task_assignpid` does: it stores the TCB under the candidate of the first
free slot, or has tried that many candidates without one. -/
theorem assignTries_spec {maxTasks tcb tries : Nat} {pid? : Option Int} {h : PidTable}
    (hrun : assignTries maxTasks tcb tries g = (h, pid?)) :
    match pid? with
    | some pid =>
      (∃ j, pid = nextPid^[j + 1] g.lastpid) ∧ (g.pidhash (pidHash maxTasks pid)).tcb = none ∧
        h = ⟨pid, update g.pidhash (pidHash maxTasks pid) ⟨some tcb, pid⟩⟩
    | none =>
      h = { g with lastpid := nextPid^[tries] g.lastpid } ∧
        ∀ j < tries, (g.pidhash (pidHash maxTasks (nextPid^[j + 1] g.lastpid))).tcb ≠ none := by
  induction tries generalizing g with
  | zero =>
    cases hrun
    exact ⟨rfl, nofun⟩
  | succ tries ih =>
    unfold assignTries at hrun
    dsimp only at hrun
    split at hrun
    · next hfree =>
      cases hrun
      exact ⟨⟨0, rfl⟩, hfree, rfl⟩
    · next hused =>
      have hrest := ih hrun
      cases pid? with
      | some pid =>
        obtain ⟨⟨j, hj⟩, hfree, hh⟩ := hrest
        exact ⟨⟨j + 1, hj⟩, hfree, hh⟩
      | none =>
        refine ⟨hrest.1, fun j hj => ?_⟩
        cases j with
        | zero => exact hused
        | succ j => exact hrest.2 j (by omega)

theorem iterate_nextPid_range (hpid : 0 ≤ pid ∧ pid < 2 ^ 15) (j : Nat) :
    0 ≤ nextPid^[j] pid ∧ nextPid^[j] pid < 2 ^ 15 := by
  induction j with
  | zero => exact hpid
  | succ j ih =>
    rw [iterate_succ_apply']
    have := nextPid_range ih
    omega

end NbLot.Source.Task
