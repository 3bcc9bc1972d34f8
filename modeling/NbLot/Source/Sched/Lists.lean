import NbLot.Source.Sched.Model

/-!
# What the task lists hold

`TaskLists` is the invariant of the lists between two edits: every task is on the list
its state names and on no other, the prioritized lists are in order, and the head of
the ready-to-run list is the running task. A task that a function has taken off its
list and not put back yet has the state `invalid`. Every function of the scheduler is
a sequence of a few edits (`take`, `enqueue`, `makeReady`, a change of priority), and
each edit keeps the invariant.
-/
namespace NbLot.Source.Sched

open Lib.OrderedInsert List Function Tasks

/-- `a` has its place in front of `b`: it has the higher priority, or the same one and
came first. -/
def Tasks.Before (s : Tasks) (a b : Nat) : Prop :=
  s.schedPriority b < s.schedPriority a ∨
    (s.schedPriority a = s.schedPriority b ∧ s.arrived a < s.arrived b)

/-- The invariant of the task lists. -/
structure TaskLists (s : Tasks) : Prop where
  mem_list : ∀ t l, t ∈ s.list l ↔ (s.taskState t).tasklist = some l
  nodup : ∀ l, (s.list l).Nodup
  sorted : ∀ l, l.prioritized = true → (s.list l).Pairwise s.Before
  running : ∀ t, s.taskState t = .running ↔ s.thisTask = some t
  occupied : s.list .readytorun ≠ []
  arrived_lt : ∀ t, s.arrived t < s.clock

namespace Tasks

/-- The task is put on the list at the place its priority gives it. -/
def enqueue (s : Tasks) (t : Nat) (l : TaskList) : Tasks :=
  (s.setList l ((s.list l).orderedInsert s.Outranks t)).arrive t

/-- The task is taken off the list. -/
def take (s : Tasks) (t : Nat) (l : TaskList) : Tasks :=
  (s.setList l ((s.list l).erase t)).setState t .invalid

/-- The task becomes ready to run, and the running one if it outranks `rtcb`. -/
def makeReady (s : Tasks) (rtcb t : Nat) : Tasks :=
  if s.Outranks t rtcb then
    ((s.enqueue t .readytorun).setState t .running).setState rtcb .readytorun
  else (s.enqueue t .readytorun).setState t .readytorun

end Tasks

section Lists

variable {s s' : Tasks} {t rtcb : Nat} {l : TaskList} {tasks : List Nat}

theorem before_congr {a b : Nat} (hpa : s'.schedPriority a = s.schedPriority a)
    (hpb : s'.schedPriority b = s.schedPriority b) (haa : s'.arrived a = s.arrived a)
    (hab : s'.arrived b = s.arrived b) : s'.Before a b ↔ s.Before a b := by
  simp [Tasks.Before, hpa, hpb, haa, hab]

/-- A list none of whose tasks changed priority or arrived anew stays sorted. -/
theorem sorted_congr (h : tasks.Pairwise s.Before)
    (hprio : ∀ u ∈ tasks, s'.schedPriority u = s.schedPriority u)
    (harr : ∀ u ∈ tasks, s'.arrived u = s.arrived u) : tasks.Pairwise s'.Before :=
  h.imp_of_mem fun ha hb hab =>
    (before_congr (hprio _ ha) (hprio _ hb) (harr _ ha) (harr _ hb)).mpr hab

section

variable (h : TaskLists s)
include h

theorem TaskLists.not_mem (hoff : (s.taskState t).tasklist = none) : t ∉ s.list l := by
  rw [h.mem_list, hoff]
  simp

theorem TaskLists.sorted_enqueue (hoff : t ∉ s.list l) (hl : l.prioritized = true) :
    ((s.list l).orderedInsert s.Outranks t).Pairwise (s.arrive t).Before := by
  have hold : (s.list l).Pairwise (s.arrive t).Before := by
    refine sorted_congr (h.sorted l hl) (fun u _ => rfl) fun u hu => ?_
    have hne : u ≠ t := fun heq => hoff (heq ▸ hu)
    simp [hne]
  refine pairwise_orderedInsert hold ?_ ?_ ?_
  · intro b c hbc hb
    simp only [Tasks.Before, Tasks.Outranks, arrive_schedPriority] at hbc hb ⊢
    omega
  · exact fun b _ hb => .inl hb
  · intro b hb hnot
    have hne : b ≠ t := fun heq => hoff (heq ▸ hb)
    have hb := h.arrived_lt b
    simp only [Tasks.Before, Tasks.Outranks, arrive_schedPriority,
      arrive_arrived, update_self, update_of_ne hne] at hnot ⊢
    omega

theorem TaskLists.put (hoff : (s.taskState t).tasklist = none)
    (hperm : (s'.list l).Perm (t :: s.list l)) (hlists : ∀ k, k ≠ l → s'.list k = s.list k)
    (hstate : (s'.taskState t).tasklist = some l)
    (hstates : ∀ u, u ≠ t → (s'.taskState u).tasklist = (s.taskState u).tasklist)
    (hsorted : l.prioritized = true → (s'.list l).Pairwise s'.Before)
    (hprio : ∀ u, s'.schedPriority u = s.schedPriority u)
    (harr : ∀ u, u ≠ t → s'.arrived u = s.arrived u) (hlast : s'.arrived t = s.clock)
    (hclock : s'.clock = s.clock + 1)
    (hrun : ∀ u, s'.taskState u = .running ↔ s'.thisTask = some u) : TaskLists s' where
  mem_list := by
    intro u k
    by_cases hk : k = l
    · subst hk
      rw [hperm.mem_iff]
      by_cases hu : u = t
      · simp [hu, hstate]
      · simp [hu, hstates u hu, h.mem_list]
    · rw [hlists k hk]
      by_cases hu : u = t
      · subst hu
        simp [h.not_mem hoff, hstate, Ne.symm hk]
      · rw [hstates u hu, h.mem_list]
  nodup := by
    intro k
    by_cases hk : k = l
    · subst hk
      exact hperm.nodup_iff.mpr (nodup_cons.mpr ⟨h.not_mem hoff, h.nodup k⟩)
    · rw [hlists k hk]
      exact h.nodup k
  sorted := by
    intro k hprior
    by_cases hk : k = l
    · subst hk
      exact hsorted hprior
    · rw [hlists k hk]
      refine sorted_congr (h.sorted k hprior) (fun u _ => hprio u) fun u hu => harr u ?_
      exact fun heq => h.not_mem hoff (heq ▸ hu)
  running := hrun
  occupied := by
    by_cases hk : TaskList.readytorun = l
    · rw [hk]
      intro hnil
      rw [hnil] at hperm
      exact absurd hperm.symm.eq_nil (by simp)
    · rw [hlists _ hk]
      exact h.occupied
  arrived_lt := by
    intro u
    by_cases hu : u = t
    · rw [hu]
      omega
    · rw [harr u hu]
      have := h.arrived_lt u
      omega

/-- Putting a task on a prioritized list, whichever ready-to-run task is then marked as
the running one. -/
theorem TaskLists.enqueueWith {states : Nat → TState} (hoff : (s.taskState t).tasklist = none)
    (hl : l.prioritized = true) (hstate : (states t).tasklist = some l)
    (hstates : ∀ u, u ≠ t → (states u).tasklist = (s.taskState u).tasklist)
    (hrun : ∀ u, states u = .running ↔ (s.enqueue t l).thisTask = some u) :
    TaskLists { s.enqueue t l with taskState := states } := by
  refine h.put hoff ?_ ?_ hstate hstates ?_ ?_ ?_ ?_ ?_ hrun
  · simpa [Tasks.enqueue] using perm_orderedInsert s.Outranks t (s.list l)
  · exact fun k hk => by simp [Tasks.enqueue, hk]
  · intro _
    simp only [Tasks.enqueue, arrive_list, setList_list, update_self]
    exact h.sorted_enqueue (h.not_mem hoff) hl
  · exact fun u => by simp [Tasks.enqueue]
  · exact fun u hu => by simp [Tasks.enqueue, hu]
  · simp [Tasks.enqueue]
  · simp [Tasks.enqueue]

end

theorem thisTask_enqueue (hthis : s.thisTask = some rtcb) :
    (s.enqueue t .readytorun).thisTask = some (if s.Outranks t rtcb then t else rtcb) := by
  unfold Tasks.thisTask at hthis
  by_cases hout : s.Outranks t rtcb <;>
    simp [Tasks.thisTask, Tasks.enqueue, head?_orderedInsert, hthis, hout]

theorem thisTask_enqueue_of_ne (hl : l ≠ .readytorun) : (s.enqueue t l).thisTask = s.thisTask := by
  simp [Tasks.thisTask, Tasks.enqueue, Ne.symm hl]

variable (h : TaskLists s) {rest : List Nat}
include h

section

variable (hoff : (s.taskState t).tasklist = none) {st : TState}
include hoff

theorem TaskLists.enqueue (hst : st.tasklist = some l) (hl : l.prioritized = true)
    (hnot : st ≠ .running) (hthis : (s.enqueue t l).thisTask = s.thisTask) :
    TaskLists ((s.enqueue t l).setState t st) := by
  refine h.enqueueWith hoff hl (by simpa using hst)
    (fun u hu => by simp [Tasks.enqueue, hu]) fun u => ?_
  rw [hthis, ← h.running u]
  by_cases hu : u = t
  · subst hu
    have : s.taskState u ≠ .running := fun hr => by simp [hr, TState.tasklist] at hoff
    simp [hnot, this]
  · simp [Tasks.enqueue, hu]

/-- A task that becomes ready to run takes the place of the running one if it
outranks it. -/
theorem TaskLists.makeReady (hthis : s.thisTask = some rtcb) : TaskLists (s.makeReady rtcb t) := by
  unfold Tasks.makeReady
  split
  · next hout =>
    have hrun := (h.running rtcb).mpr hthis
    have hne : rtcb ≠ t := fun heq => by simp [← heq, hrun, TState.tasklist] at hoff
    refine h.enqueueWith hoff rfl ?_ ?_ ?_
    · simp [Ne.symm hne, TState.tasklist]
    · intro u hu
      by_cases hr : u = rtcb
      · simp [hr, hrun, TState.tasklist]
      · simp [Tasks.enqueue, hu, hr]
    · intro u
      rw [thisTask_enqueue hthis, if_pos hout]
      by_cases hr : u = rtcb
      · simp [hr, Ne.symm hne]
      · by_cases hu : u = t
        · simp [hu, Ne.symm hne]
        · have : s.taskState u ≠ .running := by
            rw [Ne, h.running, hthis]
            simpa using Ne.symm hr
          simp [Tasks.enqueue, hu, hr, this, Ne.symm hu]
  · next hout =>
    refine h.enqueue hoff rfl rfl (by decide) ?_
    rw [thisTask_enqueue hthis, if_neg hout, hthis]

theorem TaskLists.append (hst : st.tasklist = some l) (hl : l.prioritized = false)
    (hperm : tasks.Perm (t :: s.list l)) :
    TaskLists (((s.setList l tasks).arrive t).setState t st) := by
  have hready : l ≠ .readytorun := fun heq => by simp [heq, TaskList.prioritized] at hl
  have hnot : st ≠ .running := fun heq => by
    simp only [heq, TState.tasklist, Option.some.injEq] at hst
    exact hready hst.symm
  refine h.put hoff (l := l) ?_ ?_ ?_ ?_ ?_ ?_ ?_ ?_ ?_ ?_
  · simpa using hperm
  · exact fun k hk => by simp [hk]
  · simpa using hst
  · exact fun u hu => by simp [hu]
  · simp [hl]
  · exact fun u => by simp
  · exact fun u hu => by simp [hu]
  · simp
  · simp
  · intro u
    have hthis : (((s.setList l tasks).arrive t).setState t st).thisTask = s.thisTask := by
      simp [Tasks.thisTask, Ne.symm hready]
    rw [hthis, ← h.running u]
    by_cases hu : u = t
    · subst hu
      have : s.taskState u ≠ .running := fun hr => by simp [hr, TState.tasklist] at hoff
      simp [hnot, this]
    · simp [hu]

end

/-- Taking a task off its list when the lists `s'` differ in that, and in which of the
ready-to-run tasks is marked as the running one. -/
theorem TaskLists.remove (hon : (s.taskState t).tasklist = some l)
    (hlist : s'.list l = (s.list l).erase t) (hlists : ∀ k, k ≠ l → s'.list k = s.list k)
    (hstate : (s'.taskState t).tasklist = none)
    (hstates : ∀ u, u ≠ t → (s'.taskState u).tasklist = (s.taskState u).tasklist)
    (hprio : ∀ u, u ≠ t → s'.schedPriority u = s.schedPriority u)
    (harr : ∀ u, s'.arrived u = s.arrived u) (hclock : s'.clock = s.clock)
    (hrun : ∀ u, s'.taskState u = .running ↔ s'.thisTask = some u)
    (hocc : s'.list .readytorun ≠ []) : TaskLists s' where
  mem_list := by
    intro u k
    by_cases hk : k = l
    · subst hk
      rw [hlist, (h.nodup k).mem_erase_iff]
      by_cases hu : u = t
      · simp [hu, hstate]
      · simp [hu, hstates u hu, h.mem_list]
    · rw [hlists k hk]
      by_cases hu : u = t
      · subst hu
        simp [h.mem_list, hon, hstate, Ne.symm hk]
      · rw [hstates u hu, h.mem_list]
  nodup := by
    intro k
    by_cases hk : k = l
    · subst hk
      rw [hlist]
      exact (h.nodup k).erase t
    · rw [hlists k hk]
      exact h.nodup k
  sorted := by
    intro k hprior
    have hsub : (s'.list k).Sublist (s.list k) := by
      by_cases hk : k = l
      · subst hk
        rw [hlist]
        exact erase_sublist
      · rw [hlists k hk]
    refine sorted_congr ((h.sorted k hprior).sublist hsub) (fun u hu => hprio u ?_)
      fun u _ => harr u
    -- `t` is on no list any more
    intro heq
    subst heq
    by_cases hk : k = l
    · subst hk
      rw [hlist, (h.nodup k).mem_erase_iff] at hu
      exact hu.1 rfl
    · rw [hlists k hk, h.mem_list, hon, Option.some.injEq] at hu
      exact hk hu.symm
  running := hrun
  occupied := hocc
  arrived_lt := by
    intro u
    rw [hclock, harr]
    exact h.arrived_lt u

theorem TaskLists.take (hon : (s.taskState t).tasklist = some l) (hnot : s.taskState t ≠ .running) :
    TaskLists (s.take t l) := by
  have hthis : (s.take t l).thisTask = s.thisTask := by
    by_cases hk : l = .readytorun
    · subst hk
      have hne : ¬ s.thisTask = some t := fun heq => hnot ((h.running t).mpr heq)
      cases hlist : s.list .readytorun with
      | nil => exact absurd hlist h.occupied
      | cons r rest =>
        simp only [Tasks.thisTask, hlist, head?_cons, Option.some.injEq] at hne
        simp [Tasks.thisTask, Tasks.take, hlist, hne]
    · simp [Tasks.thisTask, Tasks.take, Ne.symm hk]
  refine h.remove hon ?_ ?_ ?_ ?_ ?_ ?_ ?_ ?_ ?_
  · simp [Tasks.take]
  · exact fun k hk => by simp [Tasks.take, hk]
  · simp [Tasks.take, TState.tasklist]
  · exact fun u hu => by simp [Tasks.take, hu]
  · exact fun u _ => by simp [Tasks.take]
  · exact fun u => by simp [Tasks.take]
  · simp [Tasks.take]
  · intro u
    rw [hthis, ← h.running u]
    by_cases hu : u = t
    · subst hu
      simp [Tasks.take, hnot]
    · simp [Tasks.take, hu]
  · intro hnil
    have : s.thisTask = none := by rw [← hthis, Tasks.thisTask, hnil]; rfl
    exact h.occupied (head?_eq_none_iff.mp this)

/-- Taking the running task off the list makes the next one the running task. -/
theorem TaskLists.takeRunning {nxttcb : Nat} (hlist : s.list .readytorun = t :: nxttcb :: rest) :
    TaskLists ((s.setState nxttcb .running).take t .readytorun) := by
  have hthis : s.thisTask = some t := by simp [Tasks.thisTask, hlist]
  have hnodup := h.nodup .readytorun
  rw [hlist, nodup_cons] at hnodup
  have hne : nxttcb ≠ t := fun heq => hnodup.1 (by simp [heq])
  have hnext : (s.taskState nxttcb).tasklist = some .readytorun := by
    rw [← h.mem_list, hlist]
    simp
  refine h.remove (t := t) (l := .readytorun) ?_ ?_ ?_ ?_ ?_ ?_ ?_ ?_ ?_ ?_
  · rw [(h.running t).mpr hthis]
    rfl
  · simp [Tasks.take]
  · exact fun k hk => by simp [Tasks.take, hk]
  · simp [Tasks.take, TState.tasklist]
  · intro u hu
    by_cases hn : u = nxttcb
    · rw [hn, hnext]
      simp [Tasks.take, hne, TState.tasklist]
    · simp [Tasks.take, hu, hn]
  · exact fun u _ => by simp [Tasks.take]
  · exact fun u => by simp [Tasks.take]
  · simp [Tasks.take]
  · intro u
    have hnew : ((s.setState nxttcb .running).take t .readytorun).thisTask
        = some nxttcb := by
      simp [Tasks.thisTask, Tasks.take, hlist]
    rw [hnew]
    by_cases hu : u = t
    · simp [Tasks.take, hu, hne]
    · by_cases hn : u = nxttcb
      · simp [Tasks.take, hn, hne]
      · have : s.taskState u ≠ .running := by
          rw [Ne, h.running, hthis]
          simpa using Ne.symm hu
        simp [Tasks.take, hu, hn, this, Ne.symm hn]
  · simp [Tasks.take, hlist]

/-- The priority of a task on no prioritized list is free. -/
theorem TaskLists.setPriority_off {p : Nat} (hoff : ∀ l, t ∈ s.list l → l.prioritized = false) :
    TaskLists (s.setPriority t p) where
  mem_list := h.mem_list
  nodup := h.nodup
  sorted := by
    intro l hl
    refine sorted_congr (h.sorted l hl) (fun u hu => ?_) fun u _ => rfl
    have hne : u ≠ t := fun heq => by simp [hoff l (heq ▸ hu)] at hl
    simp [hne]
  running := h.running
  occupied := h.occupied
  arrived_lt := h.arrived_lt

/-- The priority of the running task is changed in place as long as it stays above the
next task's. -/
theorem TaskLists.setPriority_running {p nxttcb : Nat}
    (hlist : s.list .readytorun = t :: nxttcb :: rest) (hp : s.schedPriority nxttcb < p) :
    TaskLists (s.setPriority t p) where
  mem_list := h.mem_list
  nodup := h.nodup
  sorted := by
    intro l hl
    have hon : (s.taskState t).tasklist = some .readytorun := by
      rw [← h.mem_list, hlist]
      simp
    by_cases hready : l = .readytorun
    · subst hready
      have hsorted := h.sorted .readytorun rfl
      have hnodup := h.nodup .readytorun
      rw [hlist, pairwise_cons] at hsorted
      rw [hlist, nodup_cons] at hnodup
      simp only [setPriority_list, hlist]
      have hothers : ∀ u ∈ nxttcb :: rest, u ≠ t := fun u hu heq => hnodup.1 (heq ▸ hu)
      refine pairwise_cons.mpr ⟨fun u hu => .inl ?_, ?_⟩
      · -- the tasks behind `nxttcb` are not above it
        have hle : s.schedPriority u ≤ s.schedPriority nxttcb := by
          rcases mem_cons.mp hu with rfl | hu
          · exact le_rfl
          · have := (pairwise_cons.mp hsorted.2).1 u hu
            unfold Tasks.Before at this
            omega
        simp only [setPriority_schedPriority, update_self, update_of_ne (hothers u hu)]
        omega
      · refine sorted_congr hsorted.2 (fun u hu => ?_) fun u _ => rfl
        simp [hothers u hu]
    · refine sorted_congr (h.sorted l hl) (fun u hu => ?_) fun u _ => rfl
      have hne : u ≠ t := by
        rintro rfl
        rw [setPriority_list, h.mem_list, hon, Option.some.injEq] at hu
        exact hready hu.symm
      simp [hne]
  running := h.running
  occupied := h.occupied
  arrived_lt := h.arrived_lt

theorem TaskLists.setLockcount {n : Int} : TaskLists (s.setLockcount t n) :=
  ⟨h.mem_list, h.nodup, h.sorted, h.running, h.occupied, h.arrived_lt⟩

theorem TaskLists.setPids (pids : List Nat) : TaskLists (s.setPids pids) :=
  ⟨h.mem_list, h.nodup, h.sorted, h.running, h.occupied, h.arrived_lt⟩

theorem TaskLists.switchcontext {needed : Bool} : TaskLists (s.switchcontext needed) :=
  ⟨h.mem_list, h.nodup, h.sorted, h.running, h.occupied, h.arrived_lt⟩

end Lists

end NbLot.Source.Sched
