import Mathlib.Data.List.TakeWhile
import NbLot.Source.Sched.Lists

/-!
# The scheduler's functions as edits of the task lists

One lemma for each function says which edits of the lists a call that returns has made,
and one that the edits keep the invariant. `sched_mergepending` walks the two lists side
by side; since both are in order, this puts the pending tasks into the ready-to-run list
one after the other (`readyAll`).
-/
namespace NbLot.Source.Sched

open Lib.OrderedInsert List Function

namespace Tasks

/-- The task stops being ready to run; the next one runs if it was the running task. -/
def unready (s : Tasks) (t : Nat) : Tasks :=
  match s.list .readytorun with
  | r :: nxttcb :: _ =>
    if r = t then (s.setState nxttcb .running).take t .readytorun
    else s.take t .readytorun
  | _ => s.take t .readytorun

/-- The task becomes ready to run, but not under a running task that has locked
preemption and has the lower priority. -/
def enlist (s : Tasks) (rtcb t : Nat) : Tasks :=
  if 0 < s.lockcount rtcb ∧ s.schedPriority rtcb < s.schedPriority t then
    (s.enqueue t .pendingtasks).setState t .pending
  else s.makeReady rtcb t

/-- The pending tasks become ready to run, one after the other. -/
def readyAll (s : Tasks) : List Nat → Tasks
  | [] => s
  | ptcb :: pending =>
    match s.thisTask with
    | none => s
    | some rtcb => ((s.take ptcb .pendingtasks).makeReady rtcb ptcb).readyAll pending

end Tasks

variable {s s' : Tasks} {t rtcb ptcb u r next : Nat} {l : TaskList} {b : Bool}
  {pending passed pnext rest after : List Nat} {st : TState} {m : Option TaskList}

theorem TaskLists.thisTask_some (h : TaskLists s) : ∃ rtcb, s.thisTask = some rtcb := by
  cases hlist : s.list .readytorun with
  | nil => exact absurd hlist h.occupied
  | cons r rest => exact ⟨r, by simp [Tasks.thisTask, hlist]⟩

theorem schedAddprioritized_some (hrun : schedAddprioritized s t l = some (s', b)) :
    schedPriorityMin ≤ s.schedPriority t ∧ s' = s.enqueue t l ∧
      b = decide (∀ next ∈ (s.list l).head?, s.Outranks t next) := by
  unfold schedAddprioritized at hrun
  split at hrun
  · cases hrun
  · next hmin =>
    simp only [Option.some.injEq, Prod.mk.injEq] at hrun
    exact ⟨by omega, hrun.1.symm, hrun.2.symm⟩

theorem schedAddreadytorun_some (hrun : schedAddreadytorun s t = some (s', b)) :
    ∃ rtcb, s.thisTask = some rtcb ∧ schedPriorityMin ≤ s.schedPriority t ∧
      s' = s.enlist rtcb t ∧ (b = true ↔ s.Outranks t rtcb ∧ ¬ 0 < s.lockcount rtcb) := by
  unfold schedAddreadytorun at hrun
  split at hrun
  · cases hrun
  · next rtcb hthis =>
    refine ⟨rtcb, hthis, ?_⟩
    split at hrun
    · next hlock =>
      split at hrun
      · cases hrun
      · next s₁ c hadd =>
        obtain ⟨hmin, rfl, -⟩ := schedAddprioritized_some hadd
        cases hrun
        simp [Tasks.enlist, hlock, hmin]
    · next hlock =>
      have hret : ∀ s₁ c, schedAddprioritized s t .readytorun = some (s₁, c) →
          schedPriorityMin ≤ s.schedPriority t ∧ s₁ = s.enqueue t .readytorun ∧
            (c = true ↔ s.Outranks t rtcb) := by
        intro s₁ c hadd
        obtain ⟨hmin, hs, hc⟩ := schedAddprioritized_some hadd
        refine ⟨hmin, hs, ?_⟩
        unfold Tasks.thisTask at hthis
        simp [hc, hthis]
      split at hrun
      · cases hrun
      · next s₁ hadd =>
        obtain ⟨hmin, rfl, hout⟩ := hret _ _ hadd
        have hout := hout.mp rfl
        cases hrun
        refine ⟨hmin, ?_, ?_⟩
        · rw [Tasks.enlist, if_neg hlock, Tasks.makeReady, if_pos hout]
        · have : ¬ 0 < s.lockcount rtcb := fun h => hlock ⟨h, hout⟩
          simpa [hout] using this
      · next s₁ hadd =>
        obtain ⟨hmin, rfl, hout⟩ := hret _ _ hadd
        have hout : ¬ s.Outranks t rtcb := by simpa using hout.mpr
        cases hrun
        refine ⟨hmin, ?_, by simp [hout]⟩
        rw [Tasks.enlist, if_neg hlock, Tasks.makeReady, if_neg hout]

theorem schedRemovereadytorun_some (hrun : schedRemovereadytorun s t = some (s', b)) :
    s' = s.unready t ∧ (b = true ↔ s.thisTask = some t) ∧
      (s.thisTask = some t → ∃ nxttcb rest, s.list .readytorun = t :: nxttcb :: rest) := by
  unfold schedRemovereadytorun at hrun
  split at hrun
  · next hthis =>
    obtain ⟨rest, hlist⟩ := head?_eq_some_iff.mp hthis
    rw [hlist] at hrun
    cases rest with
    | nil => simp at hrun
    | cons nxttcb rest =>
      simp only [tail_cons, head?_cons, Option.some.injEq, Prod.mk.injEq] at hrun
      refine ⟨?_, by simp [← hrun.2, hthis], fun _ => ⟨nxttcb, rest, hlist⟩⟩
      rw [← hrun.1]
      simp [Tasks.unready, Tasks.take, hlist]
  · next hthis =>
    simp only [Option.some.injEq, Prod.mk.injEq] at hrun
    refine ⟨?_, by simp [← hrun.2, hthis], fun h => absurd h hthis⟩
    rw [← hrun.1]
    unfold Tasks.unready
    split
    · next r nxttcb rest hlist =>
      have : r ≠ t := fun heq => hthis (by simp [Tasks.thisTask, hlist, heq])
      rw [if_neg this]
      rfl
    · rfl

theorem TaskLists.unready (h : TaskLists s) (hon : (s.taskState t).isReady = true)
    (hnext : s.thisTask = some t → ∃ nxttcb rest, s.list .readytorun = t :: nxttcb :: rest) :
    TaskLists (s.unready t) := by
  by_cases hthis : s.thisTask = some t
  · obtain ⟨nxttcb, rest, hlist⟩ := hnext hthis
    simp only [Tasks.unready, hlist]
    exact h.takeRunning hlist
  · have hnot : s.taskState t ≠ .running := fun hr => hthis ((h.running t).mp hr)
    have htake : s.unready t = s.take t .readytorun := by
      unfold Tasks.unready
      split
      · next r nxttcb rest hlist =>
        exact if_neg fun heq => hthis (by simp [Tasks.thisTask, hlist, heq])
      · rfl
    rw [htake]
    refine h.take ?_ hnot
    cases hst : s.taskState t <;> simp [hst, TState.isReady, TState.tasklist] at hon ⊢

theorem TaskLists.enlist (h : TaskLists s) (hoff : (s.taskState t).tasklist = none)
    (hthis : s.thisTask = some rtcb) : TaskLists (s.enlist rtcb t) := by
  unfold Tasks.enlist
  split
  · exact h.enqueue hoff rfl rfl (by decide) (thisTask_enqueue_of_ne (by decide))
  · exact h.makeReady hoff hthis

/-- One round of the merge puts the task at its place in the whole list. -/
theorem orderedInsert_zip (hpassed : ∀ a ∈ passed, ¬ s.Outranks ptcb a)
    (hdrop : rest.dropWhile (fun a => !decide (s.Outranks ptcb a)) = next :: after) :
    (passed ++ rest).orderedInsert s.Outranks ptcb =
      (passed ++ rest.takeWhile fun a => !decide (s.Outranks ptcb a)) ++
        ptcb :: next :: after := by
  rw [orderedInsert_append hpassed, orderedInsert_split, hdrop, append_assoc]

/-- The tasks in front of the insertion point are not outranked, and the task at it is:
the inserted task is the new head exactly if nothing was passed. -/
theorem front_nil_iff (hpassed : ∀ a ∈ passed, ¬ s.Outranks ptcb a)
    (hdrop : rest.dropWhile (fun a => !decide (s.Outranks ptcb a)) = next :: after)
    (hhead : (passed ++ rest).head? = some r) :
    (passed ++ rest.takeWhile (fun a => !decide (s.Outranks ptcb a)) = [] ↔
      s.Outranks ptcb r) ∧ (s.Outranks ptcb r → next = r) := by
  have hsplit := takeWhile_append_dropWhile
    (p := fun a => !decide (s.Outranks ptcb a)) (l := rest)
  have hnext : s.Outranks ptcb next := by
    have := head?_dropWhile_not (fun a => !decide (s.Outranks ptcb a)) rest
    simpa [hdrop] using this
  cases passed with
  | cons a passed =>
    obtain rfl : a = r := by simpa using hhead
    have := hpassed a (by simp)
    simp [this]
  | nil =>
    cases htake : rest.takeWhile fun a => !decide (s.Outranks ptcb a) with
    | nil =>
      rw [htake, hdrop] at hsplit
      obtain rfl : next = r := by simpa [← hsplit] using hhead
      simp [hnext]
    | cons a front =>
      rw [htake, hdrop] at hsplit
      obtain rfl : a = r := by simpa [← hsplit] using hhead
      have hskip : ¬ s.Outranks ptcb a := by
        have : a ∈ rest.takeWhile fun a => !decide (s.Outranks ptcb a) := by simp [htake]
        simpa using mem_takeWhile_imp this
      simp [hskip]

theorem setState_comm {a b : Nat} {st' : TState} (h : a ≠ b) :
    (s.setState a st).setState b st' = (s.setState b st').setState a st := by
  simp only [Tasks.setState, update_comm h]

theorem mergeLoop_cons (ret : Bool) (pnext : List Nat) (hlist : s.list .readytorun = passed ++ rest)
    (hpassed : ∀ a ∈ passed, ¬ s.Outranks ptcb a)
    (hdrop : rest.dropWhile (fun a => !decide (s.Outranks ptcb a)) = next :: after)
    (hthis : s.thisTask = some r) (hne : ptcb ≠ r) {front : List Nat}
    (hfront : front = passed ++ rest.takeWhile fun a => !decide (s.Outranks ptcb a)) :
    (s.makeReady r ptcb).list .readytorun = front ++ ptcb :: next :: after ∧
      mergeLoop s passed rest ret (ptcb :: pnext) =
        mergeLoop (s.makeReady r ptcb) front (ptcb :: next :: after)
          (ret || decide (s.Outranks ptcb r)) pnext := by
  have hins := orderedInsert_zip hpassed hdrop
  obtain ⟨hnil, hnext⟩ := front_nil_iff hpassed hdrop (by rw [← hlist]; exact hthis)
  simp only [mergeLoop, hdrop]
  rw [← hfront] at hins hnil ⊢
  unfold Tasks.makeReady Tasks.enqueue
  rw [hlist, hins]
  by_cases hrank : s.Outranks ptcb r
  · obtain rfl := hnext hrank
    rw [if_pos (hnil.mpr hrank), setState_comm hne]
    simp [hrank]
  · rw [if_neg (mt hnil.mp hrank)]
    simp [hrank]

/-- A task that leaves the pending tasks for the ones that are ready to run. -/
theorem makeReady_take :
    ((s.setList .pendingtasks (ptcb :: pnext)).take ptcb .pendingtasks).makeReady r ptcb =
      (s.makeReady r ptcb).setList .pendingtasks pnext := by
  have hout : ((s.setList .pendingtasks (ptcb :: pnext)).take ptcb .pendingtasks).Outranks =
      s.Outranks := rfl
  have hlists : ∀ k, (((s.setList .pendingtasks (ptcb :: pnext)).take ptcb .pendingtasks).enqueue ptcb
      .readytorun).list k = ((s.enqueue ptcb .readytorun).setList .pendingtasks pnext).list k := by
    intro k
    cases k <;> simp [Tasks.enqueue, Tasks.take]
    rfl
  unfold Tasks.makeReady
  simp only [hout]
  split
  · refine Tasks.ext rfl rfl (funext fun u => ?_) (funext hlists) rfl rfl rfl rfl
    by_cases hu : u = ptcb <;> simp [Tasks.enqueue, Tasks.take, update_apply, hu]
  · refine Tasks.ext rfl rfl (funext fun u => ?_) (funext hlists) rfl rfl rfl rfl
    by_cases hu : u = ptcb <;> simp [Tasks.enqueue, Tasks.take, hu]

theorem TaskLists.take_pending (h : TaskLists s) (hpending : s.list .pendingtasks = ptcb :: pnext)
    (hthis : s.thisTask = some rtcb) :
    s.taskState ptcb ≠ .invalid ∧ TaskLists (s.take ptcb .pendingtasks) ∧
      (s.take ptcb .pendingtasks).thisTask = some rtcb := by
  have hstate : (s.taskState ptcb).tasklist = some .pendingtasks := by
    rw [← h.mem_list, hpending]
    simp
  refine ⟨fun hr => ?_, h.take hstate fun hr => ?_, ?_⟩
  · simp [hr, TState.tasklist] at hstate
  · simp [hr, TState.tasklist] at hstate
  · simpa [Tasks.thisTask, Tasks.take] using hthis

theorem TaskLists.ready_pending (h : TaskLists s) (hpending : s.list .pendingtasks = ptcb :: pnext)
    (hthis : s.thisTask = some rtcb) :
    TaskLists ((s.take ptcb .pendingtasks).makeReady rtcb ptcb) ∧
      ((s.take ptcb .pendingtasks).makeReady rtcb ptcb).list .pendingtasks = pnext := by
  obtain ⟨-, htake, hthis'⟩ := h.take_pending hpending hthis
  refine ⟨htake.makeReady (by simp [Tasks.take, TState.tasklist]) hthis', ?_⟩
  unfold Tasks.makeReady
  split <;> simp [Tasks.enqueue, Tasks.take, hpending]

theorem TaskLists.readyAll (h : TaskLists s) (hpending : s.list .pendingtasks = pending) :
    TaskLists (s.readyAll pending) := by
  induction pending generalizing s with
  | nil => exact h
  | cons ptcb pnext ih =>
    obtain ⟨rtcb, hthis⟩ := h.thisTask_some
    obtain ⟨hnext, hrest⟩ := h.ready_pending hpending hthis
    simp only [Tasks.readyAll, hthis]
    exact ih hnext hrest

theorem thisTask_makeReady (hthis : s.thisTask = some r) :
    (s.makeReady r ptcb).thisTask = some (if s.Outranks ptcb r then ptcb else r) := by
  have henqueue := thisTask_enqueue (t := ptcb) hthis
  unfold Tasks.makeReady
  by_cases hrank : s.Outranks ptcb r
  · simpa [Tasks.thisTask, hrank] using henqueue
  · simpa [Tasks.thisTask, hrank] using henqueue

/-- What has been passed for the first pending task is not outranked by the next ones. -/
theorem passed_next (rest : List Nat)
    (hsorted : ∀ p ∈ pnext, s.schedPriority p ≤ s.schedPriority ptcb)
    (hpassed : ∀ a ∈ passed, ∀ p ∈ ptcb :: pnext, ¬ s.Outranks p a) :
    ∀ a ∈ passed ++ rest.takeWhile (fun a => !decide (s.Outranks ptcb a)), ∀ p ∈ pnext,
      ¬ s.Outranks p a := by
  intro a ha p hp
  rcases mem_append.mp ha with ha | ha
  · exact hpassed a ha p (by simp [hp])
  · have hskip : ¬ s.Outranks ptcb a := by simpa using mem_takeWhile_imp ha
    have := hsorted p hp
    unfold Tasks.Outranks at hskip ⊢
    omega

/-- The merge makes the pending tasks ready to run one after the other, and the head
changed if it reports so. -/
theorem mergeLoop_some {ret : Bool} (h : TaskLists (s.setList .pendingtasks pending))
    (hlist : s.list .readytorun = passed ++ rest)
    (hpassed : ∀ a ∈ passed, ∀ p ∈ pending, ¬ s.Outranks p a)
    (hrun : mergeLoop s passed rest ret pending = some (s', b)) :
    s'.setList .pendingtasks [] = (s.setList .pendingtasks pending).readyAll pending ∧
      (b = false → ret = false ∧ s'.thisTask = s.thisTask) := by
  induction pending generalizing s passed rest ret with
  | nil =>
    cases hrun
    exact ⟨rfl, fun hb => ⟨hb, rfl⟩⟩
  | cons ptcb pnext ih =>
    obtain ⟨r, hthis⟩ := h.thisTask_some
    have hne : ptcb ≠ r := by
      have hr := (h.running r).mpr hthis
      have hp := (h.mem_list ptcb .pendingtasks).mp (by simp)
      rintro rfl
      rw [hr] at hp
      cases hp
    cases hdrop : rest.dropWhile fun a => !decide (s.Outranks ptcb a) with
    | nil => simp [mergeLoop, hdrop] at hrun
    | cons next after =>
      obtain ⟨hlist', hround⟩ := mergeLoop_cons ret pnext hlist
        (fun a ha => hpassed a ha ptcb (by simp)) hdrop hthis hne rfl
      have hhead : (s.setList .pendingtasks (ptcb :: pnext)).list .pendingtasks = ptcb :: pnext := by
        simp
      have hready := (h.ready_pending hhead hthis).1
      rw [makeReady_take] at hready
      have hsorted := h.sorted .pendingtasks rfl
      simp only [Tasks.setList_list, update_self, pairwise_cons, Tasks.Before,
        Tasks.setList_schedPriority] at hsorted
      have hprio : (s.makeReady r ptcb).schedPriority = s.schedPriority := by
        unfold Tasks.makeReady
        split <;> rfl
      have hfront := passed_next rest (fun p hp => by have := hsorted.1 p hp; omega) hpassed
      obtain ⟨heq, hret⟩ := ih hready hlist' (by simpa [Tasks.Outranks, hprio] using hfront)
        (hround ▸ hrun)
      simp only [Tasks.readyAll, hthis, makeReady_take]
      refine ⟨heq, fun hb => ?_⟩
      obtain ⟨hor, hhead⟩ := hret hb
      simp only [Bool.or_eq_false_iff, decide_eq_false_iff_not] at hor
      refine ⟨hor.1, hhead.trans ?_⟩
      have hthis : s.thisTask = some r := hthis
      rw [thisTask_makeReady hthis, if_neg hor.2, hthis]

theorem schedMergepending_some (h : TaskLists s) (hrun : schedMergepending s = some (s', b)) :
    s' = s.readyAll (s.list .pendingtasks) ∧ (b = false → s'.thisTask = s.thisTask) := by
  unfold schedMergepending at hrun
  split at hrun
  · cases hrun
  · next s₁ ret hloop =>
    have hself : s.setList .pendingtasks (s.list .pendingtasks) = s := by
      simp [Tasks.setList]
    obtain ⟨heq, hret⟩ := mergeLoop_some (by rwa [hself]) rfl (by simp) hloop
    cases hrun
    rw [hself] at heq
    exact ⟨heq, fun hb => (hret hb).2⟩

/-- What an edit of the ready-to-run tasks leaves alone: everything but the two lists
of ready-to-run tasks, and the waiting list `l` if there is one. -/
structure Frame (l : Option TaskList) (s s' : Tasks) : Prop where
  priority : ∀ u, s'.schedPriority u = s.schedPriority u
  lockcount : ∀ u, s'.lockcount u = s.lockcount u
  pids : s'.pids = s.pids
  list : ∀ k, k ≠ .readytorun → k ≠ .pendingtasks → some k ≠ l → s'.list k = s.list k

theorem Frame.trans {s₁ s₂ : Tasks} (h₁ : Frame m s s₁) (h₂ : Frame m s₁ s₂) : Frame m s s₂ where
  priority u := (h₂.priority u).trans (h₁.priority u)
  lockcount u := (h₂.lockcount u).trans (h₁.lockcount u)
  pids := h₂.pids.trans h₁.pids
  list k hr hp hk := (h₂.list k hr hp hk).trans (h₁.list k hr hp hk)

theorem Frame.weaken (h : Frame none s s') : Frame m s s' :=
  ⟨h.priority, h.lockcount, h.pids, fun k hr hp _ => h.list k hr hp (by simp)⟩

theorem frame_take : Frame (some l) s (s.take t l) where
  priority u := by simp [Tasks.take]
  lockcount u := by simp [Tasks.take]
  pids := rfl
  list k _ _ hk := by
    have : k ≠ l := fun heq => hk (congrArg some heq)
    simp [Tasks.take, this]

theorem frame_enqueue : Frame (some l) s ((s.enqueue t l).setState t st) where
  priority u := by simp [Tasks.enqueue]
  lockcount u := by simp [Tasks.enqueue]
  pids := rfl
  list k _ _ hk := by
    have : k ≠ l := fun heq => hk (congrArg some heq)
    simp [Tasks.enqueue, this]

theorem frame_switchcontext : Frame m s (s.switchcontext b) :=
  ⟨fun _ => rfl, fun _ => rfl, rfl, fun _ _ _ _ => rfl⟩

theorem frame_makeReady : Frame none s (s.makeReady rtcb t) := by
  unfold Tasks.makeReady
  split <;>
    exact ⟨fun _ => rfl, fun _ => rfl, rfl, fun k hr _ _ => by simp [Tasks.enqueue, hr]⟩

theorem frame_unready : Frame none s (s.unready t) := by
  unfold Tasks.unready
  split
  · split <;>
      exact ⟨fun _ => rfl, fun _ => rfl, rfl, fun k hr _ _ => by simp [Tasks.take, hr]⟩
  · exact ⟨fun _ => rfl, fun _ => rfl, rfl, fun k hr _ _ => by simp [Tasks.take, hr]⟩

theorem frame_enlist : Frame none s (s.enlist rtcb t) := by
  unfold Tasks.enlist
  split
  · exact ⟨fun _ => rfl, fun _ => rfl, rfl, fun k _ hp _ => by simp [Tasks.enqueue, hp]⟩
  · exact frame_makeReady

theorem frame_readyAll : Frame none s (s.readyAll pending) := by
  induction pending generalizing s with
  | nil => exact ⟨fun _ => rfl, fun _ => rfl, rfl, fun _ _ _ _ => rfl⟩
  | cons ptcb pending ih =>
    unfold Tasks.readyAll
    split
    · exact ⟨fun _ => rfl, fun _ => rfl, rfl, fun _ _ _ _ => rfl⟩
    · have htake : Frame none s (s.take ptcb .pendingtasks) :=
        ⟨fun _ => rfl, fun _ => rfl, rfl, fun k _ hp _ => by simp [Tasks.take, hp]⟩
      exact (htake.trans frame_makeReady).trans ih

/-- The IDLE task is at the end of the ready-to-run list, below every task that could be
inserted. -/
structure IdleLast (s : Tasks) : Prop where
  last : (s.list .readytorun).getLast? = some idle
  lowest : s.schedPriority idle = 0
  ranked : ∀ u ∈ s.list .pendingtasks, schedPriorityMin ≤ s.schedPriority u

theorem IdleLast.mem (h : IdleLast s) : idle ∈ s.list .readytorun :=
  mem_of_getLast? h.last

theorem getLast?_erase_of_ne {tasks : List Nat} {z : Nat} (hlast : tasks.getLast? = some z)
    (hne : t ≠ z) : (tasks.erase t).getLast? = some z := by
  obtain ⟨front, rfl⟩ := getLast?_eq_some_iff.mp hlast
  by_cases ht : t ∈ front
  · rw [erase_append_left _ ht, getLast?_concat]
  · rw [erase_append_right _ ht, erase_of_not_mem (by simpa using hne), getLast?_concat]

section

variable (h : IdleLast s)
include h

theorem IdleLast.take (hne : t ≠ idle) : IdleLast (s.take t l) where
  last := by
    by_cases hl : l = .readytorun
    · subst hl
      simpa [Tasks.take] using getLast?_erase_of_ne h.last hne
    · simpa [Tasks.take, Ne.symm hl] using h.last
  lowest := h.lowest
  ranked := by
    intro u hu
    refine h.ranked u ?_
    by_cases hl : l = .pendingtasks
    · subst hl
      exact mem_of_mem_erase (by simpa [Tasks.take] using hu)
    · simpa [Tasks.take, Ne.symm hl] using hu

theorem IdleLast.enqueue (hmin : schedPriorityMin ≤ s.schedPriority t) :
    IdleLast (s.enqueue t l) where
  last := by
    by_cases hl : l = .readytorun
    · subst hl
      have hout : s.Outranks t idle := by
        unfold Tasks.Outranks
        rw [h.lowest]
        exact hmin
      simpa [Tasks.enqueue] using getLast?_orderedInsert h.last hout
    · simpa [Tasks.enqueue, Ne.symm hl] using h.last
  lowest := h.lowest
  ranked := by
    intro u hu
    by_cases hl : l = .pendingtasks
    · subst hl
      simp only [Tasks.enqueue, Tasks.arrive_list, Tasks.setList_list, update_self,
        mem_orderedInsert] at hu
      rcases hu with rfl | hu
      · exact hmin
      · exact h.ranked u hu
    · exact h.ranked u (by simpa [Tasks.enqueue, Ne.symm hl] using hu)

theorem IdleLast.setState : IdleLast (s.setState t st) :=
  ⟨h.last, h.lowest, h.ranked⟩

theorem IdleLast.setPriority {p : Nat} (hne : t ≠ idle) (hmin : schedPriorityMin ≤ p) :
    IdleLast (s.setPriority t p) where
  last := h.last
  lowest := by simpa [Ne.symm hne] using h.lowest
  ranked := by
    intro u hu
    by_cases hut : u = t
    · simpa [hut] using hmin
    · simpa [hut] using h.ranked u hu

theorem IdleLast.makeReady (hmin : schedPriorityMin ≤ s.schedPriority t) :
    IdleLast (s.makeReady rtcb t) := by
  unfold Tasks.makeReady
  split
  · exact (h.enqueue hmin).setState.setState
  · exact (h.enqueue hmin).setState

theorem IdleLast.enlist (hmin : schedPriorityMin ≤ s.schedPriority t) :
    IdleLast (s.enlist rtcb t) := by
  unfold Tasks.enlist
  split
  · exact (h.enqueue hmin).setState
  · exact h.makeReady hmin

theorem IdleLast.unready (hne : t ≠ idle) : IdleLast (s.unready t) := by
  unfold Tasks.unready
  split
  · split
    · exact (IdleLast.setState h).take hne
    · exact h.take hne
  · exact h.take hne

theorem IdleLast.readyAll (hlists : TaskLists s) (hpending : s.list .pendingtasks = pending) :
    IdleLast (s.readyAll pending) := by
  induction pending generalizing s with
  | nil => exact h
  | cons ptcb pnext ih =>
    obtain ⟨rtcb, hthis⟩ := hlists.thisTask_some
    obtain ⟨hnext, hrest⟩ := hlists.ready_pending hpending hthis
    have hmin := h.ranked ptcb (by simp [hpending])
    have hne : ptcb ≠ idle := by
      rintro rfl
      rw [h.lowest] at hmin
      cases hmin
    simp only [Tasks.readyAll, hthis]
    exact ih ((h.take hne).makeReady hmin) hnext hrest

end

theorem tasklist_eq_none : st.tasklist = none ↔ st = .invalid := by
  cases st <;> simp [TState.tasklist]

/-- Taking a task off its list and putting it back loses and adds none. -/
theorem relisted_iff (ht : s.taskState t ≠ .invalid) :
    u ≠ t ∧ (u = t ∨ s.taskState u = .invalid) ↔ s.taskState u = .invalid :=
  ⟨fun h => h.2.resolve_left h.1, fun hu => ⟨fun heq => ht (heq ▸ hu), .inr hu⟩⟩

theorem invalid_take : (s.take t l).taskState u = .invalid ↔ u = t ∨ s.taskState u = .invalid := by
  by_cases hu : u = t <;> simp [Tasks.take, hu]

theorem invalid_enqueue (hst : st ≠ .invalid) :
    ((s.enqueue t l).setState t st).taskState u = .invalid ↔
      u ≠ t ∧ s.taskState u = .invalid := by
  by_cases hu : u = t <;> simp [Tasks.enqueue, hu, hst]

section

variable (h : TaskLists s)
include h

theorem TaskLists.invalid_makeReady (hthis : s.thisTask = some rtcb) :
    (s.makeReady rtcb t).taskState u = .invalid ↔
      u ≠ t ∧ s.taskState u = .invalid := by
  have hr := (h.running rtcb).mpr hthis
  unfold Tasks.makeReady
  split
  · by_cases hu : u = rtcb
    · simp [hu, hr]
    · by_cases ht : u = t
      · subst ht
        simp [hu]
      · simp [Tasks.enqueue, hu, ht]
  · exact invalid_enqueue (by decide)

theorem TaskLists.invalid_enlist (hthis : s.thisTask = some rtcb) :
    (s.enlist rtcb t).taskState u = .invalid ↔ u ≠ t ∧ s.taskState u = .invalid := by
  unfold Tasks.enlist
  split
  · exact invalid_enqueue (by decide)
  · exact h.invalid_makeReady hthis

theorem TaskLists.invalid_unready :
    (s.unready t).taskState u = .invalid ↔ u = t ∨ s.taskState u = .invalid := by
  unfold Tasks.unready
  split
  · next r nxttcb rest hlist =>
    split
    · rw [invalid_take]
      have hnext : (s.taskState nxttcb).tasklist = some .readytorun := by
        rw [← h.mem_list, hlist]
        simp
      by_cases hu : u = nxttcb
      · have : s.taskState nxttcb ≠ .invalid := fun heq => by
          simp [heq, TState.tasklist] at hnext
        simp [hu, this]
      · simp [hu]
    · exact invalid_take
  · exact invalid_take

theorem TaskLists.invalid_readyAll (hpending : s.list .pendingtasks = pending) :
    (s.readyAll pending).taskState u = .invalid ↔ s.taskState u = .invalid := by
  induction pending generalizing s with
  | nil => rfl
  | cons ptcb pnext ih =>
    obtain ⟨rtcb, hthis⟩ := h.thisTask_some
    obtain ⟨hnext, hrest⟩ := h.ready_pending hpending hthis
    obtain ⟨hvalid, htake, hthis'⟩ := h.take_pending hpending hthis
    simp only [Tasks.readyAll, hthis]
    rw [ih hnext hrest, htake.invalid_makeReady hthis', invalid_take]
    exact relisted_iff hvalid

end

end NbLot.Source.Sched
