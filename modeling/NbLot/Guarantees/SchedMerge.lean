import NbLot.Source.Sched.Ops

/-!
# Merging the pending tasks

`sched_mergepending` is to do what inserting the pending tasks one by one with `sched_addprioritized` does,
as its REVISIT note asks. It goes on from the last task inserted instead of the head: what it has passed is
not outranked by the tasks that follow, since the pending tasks are in order (`mergeLoop_eq`).

Source: nuttx/sched/sched/sched_mergepending.c:87-167, sched_addprioritized.c:79-155.
-/
namespace NbLot.Guarantees.SchedMerge

open Source.Sched List

/-- The tasks are inserted one by one, with the states that `sched_addreadytorun` gives. The result is
true if one of them became the head. -/
def addPending (s : Tasks) (ret : Bool) : List Nat → Option (Tasks × Bool)
  | [] => some (s, ret)
  | ptcb :: pnext =>
    match s.thisTask, schedAddprioritized s ptcb .readytorun with
    | some rtcb, some (s, true) =>
      addPending ((s.setState ptcb .running).setState rtcb .readytorun) true pnext
    | some _, some (s, false) => addPending (s.setState ptcb .readytorun) ret pnext
    | _, _ => none

variable {s : Tasks} {r ptcb : Nat} {passed rest pending pnext : List Nat}

theorem addPending_cons (ret : Bool) (hthis : s.thisTask = some r)
    (hmin : schedPriorityMin ≤ s.schedPriority ptcb) :
    addPending s ret (ptcb :: pnext) =
      addPending (s.makeReady r ptcb) (ret || decide (s.Outranks ptcb r)) pnext := by
  have hhead : (s.list .readytorun).head? = some r := hthis
  rw [addPending, hthis, schedAddprioritized, if_neg (Nat.not_lt.mpr hmin), hhead]
  by_cases hrank : s.Outranks ptcb r
  · simp [hrank, Tasks.makeReady, Tasks.enqueue]
  · simp [hrank, Tasks.makeReady, Tasks.enqueue]

/-- The merge from the place it has come to. The task at the end has the lowest priority. -/
theorem mergeLoop_eq (ret : Bool) (hlist : s.list .readytorun = passed ++ rest)
    (hpassed : ∀ a ∈ passed, ∀ p ∈ pending, ¬ s.Outranks p a)
    (hlast : ∃ z ∈ rest, s.schedPriority z = 0)
    (hsorted : pending.Pairwise fun a b => s.schedPriority b ≤ s.schedPriority a)
    (hmin : ∀ p ∈ pending, schedPriorityMin ≤ s.schedPriority p)
    (hnodup : (pending ++ s.list .readytorun).Nodup) :
    ∃ s' b, mergeLoop s passed rest ret pending = some (s', b) ∧ addPending s ret pending = some (s', b) ∧
      (b = ret ∧ s'.thisTask = s.thisTask ∨ b = true ∧ ∃ p ∈ pending, s'.thisTask = some p) := by
  induction pending generalizing s passed rest ret with
  | nil => exact ⟨s, ret, rfl, rfl, .inl ⟨rfl, rfl⟩⟩
  | cons ptcb pnext ih =>
    rw [forall_mem_cons] at hmin
    rw [pairwise_cons] at hsorted
    obtain ⟨z, hz, hzero⟩ := hlast
    have hrank : s.Outranks ptcb z := by
      unfold Tasks.Outranks
      rw [hzero]
      exact hmin.1
    obtain ⟨r, hthis⟩ : ∃ r, s.thisTask = some r := by
      have hne : s.list .readytorun ≠ [] := ne_nil_of_mem (hlist ▸ mem_append_right passed hz)
      exact ⟨_, head?_eq_some_head hne⟩
    have hne : ptcb ≠ r := by
      rintro rfl
      exact (nodup_cons.mp hnodup).1 (mem_append_right _ (mem_of_head? hthis))
    -- the place in front of a task that is outranked
    cases hdrop : rest.dropWhile fun a => !decide (s.Outranks ptcb a) with
    | nil => exact absurd hrank (by simpa using dropWhile_eq_nil_iff.mp hdrop z hz)
    | cons next after =>
      obtain ⟨hlist', hround⟩ := mergeLoop_cons ret pnext hlist
        (fun a ha => hpassed a ha ptcb mem_cons_self) hdrop hthis hne rfl
      have hprio : (s.makeReady r ptcb).schedPriority = s.schedPriority := by
        unfold Tasks.makeReady
        split <;> rfl
      have hfront := passed_next rest hsorted.1 hpassed
      have hperm : ((s.makeReady r ptcb).list .readytorun).Perm (ptcb :: s.list .readytorun) := by
        rw [hlist', hlist, ← hdrop]
        refine perm_middle.trans (List.Perm.cons ptcb ?_)
        rw [append_assoc, takeWhile_append_dropWhile]
      have hlow : ∃ y ∈ ptcb :: next :: after, (s.makeReady r ptcb).schedPriority y = 0 := by
        rw [hprio, ← hdrop]
        have hsplit := takeWhile_append_dropWhile (p := fun a => !decide (s.Outranks ptcb a)) (l := rest)
        rw [← hsplit, mem_append] at hz
        rcases hz with hz | hz
        · exact absurd hrank (by simpa using mem_takeWhile_imp hz)
        · exact ⟨z, mem_cons_of_mem ptcb hz, hzero⟩
      obtain ⟨s', b, hmerge, hadd, hhead⟩ := ih (ret || decide (s.Outranks ptcb r)) hlist'
        (by simpa [Tasks.Outranks, hprio] using hfront) hlow (by rw [hprio]; exact hsorted.2)
        (by rw [hprio]; exact hmin.2)
        ((hperm.append_left pnext).trans perm_middle |>.nodup_iff.mpr hnodup)
      refine ⟨s', b, hround.trans hmerge, (addPending_cons ret hthis hmin.1).trans hadd, ?_⟩
      rw [thisTask_makeReady hthis] at hhead
      rcases hhead with ⟨hret, hsame⟩ | ⟨hret, p, hp, hnew⟩
      · by_cases hout : s.Outranks ptcb r
        · exact .inr ⟨by simp [hret, hout], ptcb, mem_cons_self, by simp [hsame, hout]⟩
        · exact .inl ⟨by simp [hret, hout], by simp [hsame, hout, hthis]⟩
      · exact .inr ⟨hret, p, mem_cons_of_mem ptcb hp, hnew⟩

/-- `sched_mergepending` inserts the pending tasks like `sched_addprioritized` one by one, and reports a
new head. No task is on two lists or twice on one. -/
theorem mergepending_inserts (hlast : (s.list .readytorun).getLast? = some idle)
    (hidle : s.schedPriority idle = 0)
    (hsorted : (s.list .pendingtasks).Pairwise fun a b => s.schedPriority b ≤ s.schedPriority a)
    (hmin : ∀ p ∈ s.list .pendingtasks, 1 ≤ s.schedPriority p)
    (hnodup : (s.list .pendingtasks ++ s.list .readytorun).Nodup) :
    ∃ s' b, addPending s false (s.list .pendingtasks) = some (s', b) ∧
      schedMergepending s = some (s'.setList .pendingtasks [], b) ∧
      (b = true ↔ s'.thisTask ≠ s.thisTask) := by
  obtain ⟨s', b, hmerge, hadd, hhead⟩ := mergeLoop_eq false (nil_append _).symm nofun
    ⟨idle, mem_of_getLast? hlast, hidle⟩ hsorted hmin hnodup
  refine ⟨s', b, hadd, by rw [schedMergepending, hmerge], ?_⟩
  rcases hhead with ⟨rfl, hsame⟩ | ⟨rfl, p, hp, hnew⟩
  · simp [hsame]
  · refine iff_of_true rfl fun heq => ?_
    rw [heq] at hnew
    exact (nodup_append.mp hnodup).2.2 p hp p (mem_of_head? hnew) rfl

/-- Two tasks are pending while the IDLE task runs. -/
def twoPending : Tasks :=
  ((osStart.setPriority 1 100).setPriority 2 200).setList .pendingtasks [2, 1]

theorem mergepending_inserts_two : ∃ s' b, addPending twoPending false [2, 1] = some (s', b) ∧
    schedMergepending twoPending = some (s'.setList .pendingtasks [], b) ∧
    (b = true ↔ s'.thisTask ≠ some idle) :=
  mergepending_inserts (by decide) (by decide) (by decide) (by decide) (by decide)

end NbLot.Guarantees.SchedMerge
