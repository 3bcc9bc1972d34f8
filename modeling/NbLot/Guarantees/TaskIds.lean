import NbLot.Source.Task.Pid
import Mathlib.Data.Finset.Card

/-!
# Task identifiers are unique

For every power of two as CONFIG_MAX_TASKS and every sequence of task creations and exits:

* the tasks that are alive have distinct identifiers, and the idle task keeps 0;
* `sched_gettcb` finds the task that is alive with an identifier, and nothing else;
* `task_assignpid` succeeds exactly when a slot is free. There are CONFIG_MAX_TASKS slots,
  but not more than the 2 ^ 15 identifiers of a signed 16-bit `pid_t` (`pid_t_exhausted`).
-/
namespace NbLot.Guarantees.TaskIds
open Lib.Transition Source.Task List Function

variable {k : Nat} {s t : TaskState}

/-- The slot of a task. -/
def slotOf (k : Nat) (t : Tcb) : Nat := pidHash (2 ^ k) t.pid

structure TableInv (k : Nat) (s : TaskState) : Prop where
  lastpid : 0 ≤ s.table.lastpid ∧ s.table.lastpid < 2 ^ 15
  idle : ⟨0, 0⟩ ∈ s.tasks
  pids : ∀ t ∈ s.tasks, 0 ≤ t.pid ∧ t.pid < 2 ^ 15
  names : (s.tasks.map Tcb.name).Nodup
  apart : (s.tasks.map (slotOf k)).Nodup
  entry : ∀ t ∈ s.tasks, s.table.pidhash (slotOf k t) = ⟨some t.name, t.pid⟩
  free : ∀ i, (∀ t ∈ s.tasks, slotOf k t ≠ i) → s.table.pidhash i = ⟨none, invalidProcessId⟩

theorem osStart_inv (k : Nat) : TableInv k osStart where
  lastpid := by decide
  idle := mem_singleton_self _
  pids := fun t ht => by
    obtain rfl := mem_singleton.mp ht
    decide
  names := by simp [osStart]
  apart := by simp [osStart]
  entry := fun t ht => by
    obtain rfl := mem_singleton.mp ht
    simp [slotOf, pidHash, osStart]
  free := fun i hi => by
    have h0 : slotOf k ⟨0, 0⟩ ≠ i := hi _ (mem_singleton_self _)
    simp only [slotOf, pidHash, Int.toNat_zero, Nat.zero_and] at h0
    exact update_of_ne (f := fun _ => (⟨none, invalidProcessId⟩ : Pidhash)) (Ne.symm h0) _

section

variable (inv : TableInv k s) {g : PidTable} {name : Nat}
include inv

theorem TableInv.card_slots : (s.tasks.map (slotOf k)).toFinset.card = s.tasks.length := by
  rw [toFinset_card_of_nodup inv.apart, length_map]

theorem TableInv.slots_subset :
    (s.tasks.map (slotOf k)).toFinset ⊆ Finset.range (slots (2 ^ k)) := by
  intro i hi
  obtain ⟨t, ht, rfl⟩ := mem_map.mp (mem_toFinset.mp hi)
  exact Finset.mem_range.mpr (pidHash_lt (inv.pids t ht))

/-- As long as there are fewer tasks than slots, one is free, and not that of the idle task. -/
theorem TableInv.exists_free (h : s.tasks.length < slots (2 ^ k)) :
    ∃ i, 0 < i ∧ i < slots (2 ^ k) ∧ s.table.pidhash i = ⟨none, invalidProcessId⟩ := by
  have hcard : (s.tasks.map (slotOf k)).toFinset.card < (Finset.range (slots (2 ^ k))).card := by
    rw [inv.card_slots, Finset.card_range]
    exact h
  obtain ⟨i, hi, hnot⟩ := Finset.exists_mem_notMem_of_card_lt_card hcard
  have hno : ∀ t ∈ s.tasks, slotOf k t ≠ i := fun t ht heq =>
    hnot (mem_toFinset.mpr (mem_map.mpr ⟨t, ht, heq⟩))
  have h0 : slotOf k ⟨0, 0⟩ ≠ i := hno _ inv.idle
  simp only [slotOf, pidHash, Int.toNat_zero, Nat.zero_and] at h0
  exact ⟨i, by omega, Finset.mem_range.mp hi, inv.free i hno⟩

theorem TableInv.candidate (j : Nat) :
    0 < nextPid^[j + 1] s.table.lastpid ∧ nextPid^[j + 1] s.table.lastpid < 2 ^ 15 := by
  rw [iterate_succ_apply']
  exact nextPid_range (iterate_nextPid_range inv.lastpid j)

theorem TableInv.not_used {i : Nat} (h : (s.table.pidhash i).tcb = none) :
    ∀ t ∈ s.tasks, slotOf k t ≠ i := by
  rintro t ht rfl
  rw [inv.entry t ht] at h
  cases h

/-- The slot of the new task was free, so there are fewer tasks than slots. -/
theorem TableInv.length_lt {i : Nat} (hi : i < slots (2 ^ k)) (h : (s.table.pidhash i).tcb = none) :
    s.tasks.length < slots (2 ^ k) := by
  have hnot : i ∉ (s.tasks.map (slotOf k)).toFinset := fun hmem => by
    obtain ⟨t, ht, heq⟩ := mem_map.mp (mem_toFinset.mp hmem)
    exact inv.not_used h t ht heq
  have hlt := Finset.card_lt_card
    (Finset.ssubset_iff_of_subset inv.slots_subset |>.mpr ⟨i, Finset.mem_range.mpr hi, hnot⟩)
  rw [inv.card_slots, Finset.card_range] at hlt
  exact hlt

theorem TableInv.assign_iff (name : Nat) :
    (taskAssignpid (2 ^ k) s.table name).2 ≠ none ↔ s.tasks.length < slots (2 ^ k) := by
  obtain ⟨⟨g, pid?⟩, hassign⟩ : ∃ r, taskAssignpid (2 ^ k) s.table name = r := ⟨_, rfl⟩
  have hspec := assignTries_spec hassign
  rw [hassign]
  constructor
  · intro hsome
    obtain ⟨pid, rfl⟩ := Option.ne_none_iff_exists'.mp hsome
    obtain ⟨⟨j, rfl⟩, hfree, -⟩ := hspec
    have hcand := inv.candidate j
    exact inv.length_lt (pidHash_lt ⟨by omega, hcand.2⟩) hfree
  · rintro hlt rfl
    obtain ⟨i, hpos, hi, hfree⟩ := inv.exists_free hlt
    obtain ⟨n, hn⟩ := Int.eq_ofNat_of_zero_le inv.lastpid.1
    have hbound := inv.lastpid.2
    obtain ⟨j, hj, hreach⟩ := probe_reaches (n := n) (by omega) hpos hi
    refine hspec.2 j (Nat.lt_of_lt_of_le hj (Nat.min_le_left ..)) ?_
    rw [hn, hreach, hfree]

theorem TableInv.create {pid : Int} (hname : name ∉ s.tasks.map Tcb.name)
    (h : taskAssignpid (2 ^ k) s.table name = (g, some pid)) :
    TableInv k ⟨g, ⟨name, pid⟩ :: s.tasks⟩ := by
  obtain ⟨⟨j, rfl⟩, hfree, rfl⟩ := assignTries_spec h
  have hcand := inv.candidate j
  generalize nextPid^[j + 1] s.table.lastpid = pid at *
  have hapart := inv.not_used hfree
  have hrange : 0 ≤ pid ∧ pid < 2 ^ 15 := ⟨Int.le_of_lt hcand.1, hcand.2⟩
  refine ⟨hrange, mem_cons_of_mem _ inv.idle, ?_, ?_, ?_, ?_, ?_⟩
  · intro t ht
    rcases mem_cons.mp ht with rfl | ht
    · exact hrange
    · exact inv.pids t ht
  · exact nodup_cons.mpr ⟨hname, inv.names⟩
  · refine nodup_cons.mpr ⟨fun hmem => ?_, inv.apart⟩
    obtain ⟨t, ht, heq⟩ := mem_map.mp hmem
    exact hapart t ht heq
  · intro t ht
    rcases mem_cons.mp ht with rfl | ht
    · exact update_self ..
    · exact (update_of_ne (hapart t ht) ..).trans (inv.entry t ht)
  · intro i hi
    have hne : pidHash (2 ^ k) pid ≠ i := hi _ mem_cons_self
    exact (update_of_ne (Ne.symm hne) ..).trans
      (inv.free i fun t ht => hi t (mem_cons_of_mem _ ht))

theorem TableInv.refused (h : taskAssignpid (2 ^ k) s.table name = (g, none)) :
    TableInv k ⟨g, s.tasks⟩ := by
  obtain ⟨rfl, -⟩ := assignTries_spec h
  exact ⟨iterate_nextPid_range inv.lastpid _, inv.idle, inv.pids, inv.names, inv.apart, inv.entry,
    inv.free⟩

theorem TableInv.exit {t : Tcb} (ht : t ∈ s.tasks) (hpid : t.pid ≠ 0) :
    TableInv k ⟨schedReleasepid (2 ^ k) s.table t.pid, s.tasks.erase t⟩ := by
  have hnodup : s.tasks.Nodup := inv.names.of_map _
  have hother : ∀ u ∈ s.tasks.erase t, u ∈ s.tasks ∧ slotOf k u ≠ slotOf k t := by
    intro u hu
    obtain ⟨hne, hmem⟩ := hnodup.mem_erase_iff.mp hu
    exact ⟨hmem, fun heq => hne (inj_on_of_nodup_map inv.apart hmem ht heq)⟩
  refine ⟨inv.lastpid, ?_, fun u hu => inv.pids u (hother u hu).1,
    inv.names.sublist (erase_sublist.map _), inv.apart.sublist (erase_sublist.map _),
    ?_, ?_⟩
  · refine (mem_erase_of_ne ?_).mpr inv.idle
    rintro rfl
    exact hpid rfl
  · intro u hu
    obtain ⟨hmem, hne⟩ := hother u hu
    exact (update_of_ne hne ..).trans (inv.entry u hmem)
  · intro i hi
    by_cases heq : i = slotOf k t
    · subst heq
      exact update_self ..
    · refine (update_of_ne heq ..).trans (inv.free i fun u hu hslot => ?_)
      by_cases hut : u = t
      · subst hut
        exact heq hslot.symm
      · exact hi u ((mem_erase_of_ne hut).mpr hu) hslot

theorem TableInv.step {a : TaskAct} (h : s.step (2 ^ k) a = some t) : TableInv k t := by
  cases a with
  | create name =>
    dsimp only [TaskState.step] at h
    split at h
    · cases h
    · next hname =>
      split at h
      · next heq =>
        cases h
        exact inv.create hname heq
      · next heq =>
        cases h
        exact inv.refused heq
  | exit name =>
    dsimp only [TaskState.step] at h
    split at h
    · cases h
    · next hfind =>
      split at h
      · cases h
      · next hpid =>
        cases h
        exact inv.exit (mem_of_find?_eq_some hfind) hpid

end

theorem TableInv.run {acts : List TaskAct} (hrun : run (TaskState.step (2 ^ k)) osStart acts = some s) :
    TableInv k s :=
  invariant_run (fun _ _ _ hs _ h => TableInv.step hs h) (osStart_inv k)
    (stepsMeet_of_forall osStart acts fun _ _ => trivial) hrun

theorem TableInv.gettcb (inv : TableInv k s) (pid : Int) (name : Nat) :
    schedGettcb (2 ^ k) s.table pid = some name ↔ ⟨name, pid⟩ ∈ s.tasks := by
  constructor
  · intro h
    unfold schedGettcb at h
    dsimp only at h
    split at h
    · next hpos =>
      split at h
      · next hpid =>
        by_cases hfree : ∀ t ∈ s.tasks, slotOf k t ≠ pidHash (2 ^ k) pid
        · rw [inv.free _ hfree] at h
          cases h
        · push Not at hfree
          obtain ⟨t, ht, hslot⟩ := hfree
          have hentry := inv.entry t ht
          rw [hslot] at hentry
          rw [hentry] at h hpid
          obtain ⟨tname, tpid⟩ := t
          obtain rfl : tname = name := Option.some.inj h
          obtain rfl : pid = tpid := hpid
          exact ht
      · cases h
    · cases h
  · intro ht
    have hentry := inv.entry _ ht
    unfold slotOf at hentry
    unfold schedGettcb
    rw [if_pos (inv.pids _ ht).1, hentry, if_pos rfl]

/-- The live tasks have distinct identifiers, `sched_gettcb` finds them, and
`task_assignpid` succeeds exactly when a slot is left. -/
theorem task_ids_unique (k : Nat) (acts : List TaskAct) (s : TaskState)
    (hrun : run (TaskState.step (2 ^ k)) osStart acts = some s) :
    (s.tasks.map Tcb.pid).Nodup ∧ (s.tasks.map Tcb.name).Nodup ∧ ⟨0, 0⟩ ∈ s.tasks ∧
      (∀ pid name, schedGettcb (2 ^ k) s.table pid = some name ↔ ⟨name, pid⟩ ∈ s.tasks) ∧
      ∀ name, (taskAssignpid (2 ^ k) s.table name).2 ≠ none ↔
        s.tasks.length < min (2 ^ k) (2 ^ 15) := by
  have inv := TableInv.run hrun
  refine ⟨?_, inv.names, inv.idle, inv.gettcb, inv.assign_iff⟩
  have hpids : s.tasks.map (slotOf k) = (s.tasks.map Tcb.pid).map (pidHash (2 ^ k)) := by
    rw [map_map]
    rfl
  exact (hpids ▸ inv.apart).of_map _

theorem creations_succeed (n first : Nat) (inv : TableInv k s)
    (hfirst : ∀ t ∈ s.tasks, t.name < first) (hroom : s.tasks.length + n ≤ slots (2 ^ k)) :
    ∃ t, run (TaskState.step (2 ^ k)) s ((List.range' first n).map .create) = some t ∧
      TableInv k t ∧ t.tasks.length = s.tasks.length + n := by
  induction n generalizing s first with
  | zero => exact ⟨s, rfl, inv, rfl⟩
  | succ n ih =>
    obtain ⟨⟨g, pid?⟩, hassign⟩ : ∃ r, taskAssignpid (2 ^ k) s.table first = r := ⟨_, rfl⟩
    have hsome := (inv.assign_iff first).mpr (by omega)
    rw [hassign] at hsome
    obtain ⟨pid, rfl⟩ := Option.ne_none_iff_exists'.mp hsome
    have hname : first ∉ s.tasks.map Tcb.name := fun hmem => by
      obtain ⟨t, ht, heq⟩ := mem_map.mp hmem
      have := hfirst t ht
      omega
    have hstep : s.step (2 ^ k) (.create first) = some ⟨g, ⟨first, pid⟩ :: s.tasks⟩ := by
      dsimp only [TaskState.step]
      rw [if_neg hname, hassign]
    obtain ⟨t, hrun, hinv, hlen⟩ := ih (first + 1) (inv.create hname hassign) (fun t ht => by
      rcases mem_cons.mp ht with rfl | ht
      · exact Nat.lt_succ_self _
      · exact Nat.lt_succ_of_lt (hfirst t ht)) (by rw [length_cons]; omega)
    refine ⟨t, ?_, hinv, by rw [hlen, length_cons]; omega⟩
    rw [range'_succ, map_cons]
    unfold Lib.Transition.run
    rw [hstep]
    exact hrun

/-- Two tasks in a table of four; the third identifier is that of a task which has exited. -/
theorem task_ids_unique_reused :
    ∃ s, run (TaskState.step (2 ^ 2)) osStart [.create 1, .create 2, .exit 1, .create 3] = some s ∧
      schedGettcb (2 ^ 2) s.table 3 = some 3 ∧ (s.tasks.map Tcb.pid).Nodup := by
  have hrun : ((run (TaskState.step (2 ^ 2)) osStart
      [.create 1, .create 2, .exit 1, .create 3]).map fun s => s.tasks) =
      some [⟨3, 3⟩, ⟨2, 2⟩, ⟨0, 0⟩] := by decide +kernel
  obtain ⟨s, hs, htasks⟩ := Option.map_eq_some_iff.mp hrun
  have hunique := task_ids_unique 2 _ s hs
  refine ⟨s, hs, (hunique.2.2.2.1 3 3).mpr ?_, hunique.1⟩
  rw [htasks]
  exact mem_cons_self

/-- With a table of 2 ^ 16 entries the identifiers run out before the slots do: the loop of
`task_assignpid` does not find one for the 32769th task. -/
theorem pid_t_exhausted :
    ∃ s, run (TaskState.step (2 ^ 16)) osStart ((List.range' 1 32767).map .create) = some s ∧
      s.tasks.length < 2 ^ 16 ∧ (taskAssignpid (2 ^ 16) s.table 32768).2 = none := by
  obtain ⟨s, hrun, inv, hlen⟩ := creations_succeed 32767 1 (osStart_inv 16)
    (fun t ht => by
      obtain rfl := mem_singleton.mp ht
      decide) (by decide)
  have hlength : s.tasks.length = 32768 := hlen
  refine ⟨s, hrun, by omega, ?_⟩
  by_contra hsome
  have := (inv.assign_iff 32768).mp hsome
  rw [hlength] at this
  exact absurd this (by decide)

end NbLot.Guarantees.TaskIds
