import NbLot.Source.Sem.Inherit
import NbLot.Source.Sem.Counts

/-!
# Boosting and restoring the holders of a semaphore

The functions of sem_holder.c on one holder are `Rank.raise` and `Rank.lower` on its
priority, base priority and pending priorities, and the loops apply them to every holder.
The one exception is a holder whose base priority `sched_setpriority` refuses, which can
only be the IDLE task or a task set up with priority 0.
-/
namespace NbLot.Source.Sem

open Lib.Inheritance Source.Sched List Function PiSys

/-- What the task runs at. -/
@[simps]
def PiSys.rank (s : PiSys) (t : Nat) : Rank where
  priority := s.tasks.schedPriority t
  base := s.basePriority t
  pend := s.pendReprios t

/-- Only what tasks that wait for no semaphore run at has changed. -/
structure Reranks (s s' : PiSys) (rank : Nat → Rank) : Prop where
  sched : SchedInv s'.tasks
  waiting : s'.tasks.list .waitingforsemaphore = s.tasks.list .waitingforsemaphore
  pids : s'.tasks.pids = s.tasks.pids
  core : s'.toSemSys = s.setTasks s'.tasks
  holders : s'.holders = s.holders
  inPost : s'.inPost = s.inPost
  held : s'.held = s.held
  rank : ∀ t, s'.rank t = rank t

variable {s s' : PiSys} {rtcb htcb stcb t p : Nat} {base : Option Nat} {hs : List Nat}

theorem Reranks.refl (h : SchedInv s.tasks) : Reranks s s s.rank :=
  ⟨h, rfl, rfl, rfl, rfl, rfl, rfl, fun _ => rfl⟩

theorem Reranks.trans {s₁ : PiSys} {rank₁ rank : Nat → Rank} (h₁ : Reranks s s₁ rank₁)
    (h : Reranks s₁ s' rank) : Reranks s s' rank where
  sched := h.sched
  waiting := h.waiting.trans h₁.waiting
  pids := h.pids.trans h₁.pids
  core := by rw [h.core, h₁.core]; rfl
  holders := h.holders.trans h₁.holders
  inPost := h.inPost.trans h₁.inPost
  held := h.held.trans h₁.held
  rank := h.rank

theorem Reranks.congr {rank rank' : Nat → Rank} (h : Reranks s s' rank)
    (heq : ∀ t, rank t = rank' t) : Reranks s s' rank' :=
  { h with rank := fun t => (h.rank t).trans (heq t) }

theorem Reranks.waits_iff {rank : Nat → Rank} (h : Reranks s s' rank) (hs : SchedInv s.tasks) :
    s'.tasks.taskState t = .waitSem ↔ s.tasks.taskState t = .waitSem := by
  rw [← mem_waitSem h.sched.lists, ← mem_waitSem hs.lists, h.waiting]

theorem tasklist_ne_waitSem {st : TState} (hst : st ≠ .waitSem) :
    some TaskList.waitingforsemaphore ≠ st.tasklist := by
  cases st <;> simp [TState.tasklist] at hst ⊢

section

variable (h : SchedInv s.tasks)
include h

theorem setpriority_reranks {tasks : Tasks} {ok : Bool} (hnot : s.tasks.taskState t ≠ .waitSem)
    (hrun : schedSetpriority s.tasks t p = some (tasks, ok)) :
    Reranks s (s.schedule tasks)
        (update s.rank t { s.rank t with
          priority := if ok then p else s.tasks.schedPriority t }) ∧
      (ok = true ↔ schedPriorityMin ≤ p ∧ p ≤ schedPriorityMax) := by
  have hok : ok = true ↔ schedPriorityMin ≤ p ∧ p ≤ schedPriorityMax := by
    unfold schedSetpriority at hrun
    split at hrun
    · next hrange =>
      cases hrun
      simp only [Bool.false_eq_true, false_iff]
      omega
    · next hrange =>
      obtain ⟨tasks', -, heq⟩ := Option.map_eq_some_iff.mp hrun
      obtain ⟨-, rfl⟩ : tasks' = tasks ∧ true = ok := by simpa using heq
      simp only [true_iff]
      omega
  refine ⟨?_, hok⟩
  rcases schedSetpriority_call h.lists hrun with ⟨rfl, rfl⟩ | ⟨rfl, -, -, hcall⟩
  · exact (Reranks.refl h).congr fun u => by by_cases hu : u = t <;> simp [hu]; rfl
  · refine ⟨h.call hcall rfl rfl rfl rfl, hcall.frame.list _ (by decide) (by decide)
      (tasklist_ne_waitSem hnot), hcall.frame.pids, rfl, rfl, rfl, rfl, fun u => ?_⟩
    have hprio := hcall.frame.priority u
    by_cases hu : u = t
    · ext : 1 <;> simp_all [PiSys.schedule]
    · ext : 1 <;> simp_all [PiSys.schedule]

theorem setPend_reranks {pend : List Nat} :
    Reranks s (s.setPend t pend) (update s.rank t { s.rank t with pend := pend }) := by
  refine ⟨h, rfl, rfl, rfl, rfl, rfl, rfl, fun u => ?_⟩
  by_cases hu : u = t
  · subst hu
    simp [PiSys.rank]
  · simp [PiSys.rank, hu]

theorem semBoostholderprio_some (hthis : s.tasks.thisTask = some rtcb) (hne : htcb ≠ rtcb)
    (hmax : s.tasks.schedPriority rtcb ≤ schedPriorityMax)
    (hnot : s.tasks.taskState htcb ≠ .waitSem) (hrun : semBoostholderprio s rtcb htcb = some s') :
    Reranks s s' (update s.rank htcb
        ((s.rank htcb).raise (s.tasks.schedPriority rtcb))) ∧
      s'.tasks.thisTask = some rtcb := by
  unfold semBoostholderprio at hrun
  dsimp only at hrun
  split at hrun
  · next hbase =>
    split at hrun
    · next hprio =>
      have hmin : schedPriorityMin ≤ s.tasks.schedPriority rtcb := by
        unfold schedPriorityMin
        omega
      -- the priority it inherited before is recorded
      have hkeep : ∃ s₁, s₁ = (if s.basePriority htcb < s.tasks.schedPriority htcb then
            s.setPend htcb (s.pendReprios htcb ++ [s.tasks.schedPriority htcb]) else s) ∧
          s₁.tasks = s.tasks ∧
          Reranks s s₁ (update s.rank htcb { s.rank htcb with
            pend := if s.basePriority htcb < s.tasks.schedPriority htcb then
              s.pendReprios htcb ++ [s.tasks.schedPriority htcb] else s.pendReprios htcb }) := by
        refine ⟨_, rfl, ?_⟩
        split
        · exact ⟨rfl, setPend_reranks h⟩
        · exact ⟨rfl, (Reranks.refl h).congr fun u => by by_cases hu : u = htcb <;> simp [hu]; rfl⟩
      obtain ⟨s₁, hs₁, htasks, hrec⟩ := hkeep
      simp only [← hs₁] at hrun
      obtain ⟨⟨tasks, ok⟩, hset, rfl⟩ := Option.map_eq_some_iff.mp hrun
      obtain ⟨hrer, hok⟩ := setpriority_reranks hrec.sched (by rwa [htasks]) hset
      obtain rfl : ok = true := hok.mpr ⟨hmin, hmax⟩
      refine ⟨(hrec.trans hrer).congr fun u => ?_, ?_⟩
      · by_cases hu : u = htcb
        · subst hu
          have hown := hrec.rank u
          rw [hown]
          simp [Rank.raise, hbase, hprio]
        · simp [hu, hrec.rank]
      · rw [htasks] at hset
        exact schedSetpriority_thisTask h.lists hthis hne (by simp) hset
    · next hprio =>
      cases hrun
      refine ⟨(setPend_reranks h).congr fun u => ?_, hthis⟩
      by_cases hu : u = htcb
      · simp [Rank.raise, hbase, hprio]
      · simp [hu]
  · next hbase =>
    cases hrun
    refine ⟨(Reranks.refl h).congr fun u => ?_, hthis⟩
    by_cases hu : u = htcb
    · simp [Rank.raise, hbase]
    · simp [hu]

theorem semBoostpriority_some (hthis : s.tasks.thisTask = some rtcb) (hne : rtcb ∉ hs)
    (hnodup : hs.Nodup) (hmax : s.tasks.schedPriority rtcb ≤ schedPriorityMax)
    (hnot : ∀ htcb ∈ hs, s.tasks.taskState htcb ≠ .waitSem)
    (hrun : semBoostpriority s rtcb hs = some s') :
    Reranks s s' (fun t => if t ∈ hs then (s.rank t).raise (s.tasks.schedPriority rtcb)
        else s.rank t) ∧
      s'.tasks.thisTask = some rtcb := by
  induction hs generalizing s with
  | nil =>
    cases hrun
    exact ⟨(Reranks.refl h).congr fun t => by simp, hthis⟩
  | cons htcb rest ih =>
    rw [mem_cons, not_or] at hne
    rw [nodup_cons] at hnodup
    rw [forall_mem_cons] at hnot
    simp only [semBoostpriority] at hrun
    split at hrun
    · cases hrun
    · next s₁ hboost =>
      obtain ⟨hrer, hthis₁⟩ := semBoostholderprio_some h hthis (Ne.symm hne.1) hmax hnot.1 hboost
      have hsame : s₁.tasks.schedPriority rtcb = s.tasks.schedPriority rtcb := by
        have := congrArg Rank.priority (hrer.rank rtcb)
        simpa [hne.1] using this
      obtain ⟨hrest, hthis'⟩ := ih hrer.sched hthis₁ hne.2 hnodup.2 (by rwa [hsame])
        (fun u hu => by rw [Ne, hrer.waits_iff h]; exact hnot.2 u hu) hrun
      refine ⟨(hrer.trans hrest).congr fun t => ?_, hthis'⟩
      rw [hsame]
      by_cases ht : t = htcb
      · subst ht
        simp [hnodup.1, hrer.rank]
      · simp [ht, hrer.rank]

/-- The holder is lowered, unless its base priority is refused. -/
def Lowered (x : Rank) (p : Nat) (y : Rank) : Prop :=
  y = x.lower p ∨ y = x ∧ x.base < schedPriorityMin

/-- `sem_restoreholderprio` lowers the holder, and leaves to `sched_reprioritize` only to
store what is there already. -/
theorem semRestoreholderprio_some (hnot : s.tasks.taskState htcb ≠ .waitSem)
    (hsound : (s.rank htcb).Sound) (hmax : s.tasks.schedPriority htcb ≤ schedPriorityMax)
    (hrun : semRestoreholderprio s htcb stcb = some (s', base)) :
    ∃ x, Reranks s s' (update s.rank htcb x) ∧
      Lowered (s.rank htcb) (s.tasks.schedPriority stcb) x ∧
      (base = none ∨ base = some (s.basePriority htcb) ∧ x.pend = []) := by
  unfold semRestoreholderprio at hrun
  split at hrun
  · next hne =>
    split at hrun
    · next hpend =>
      unfold schedReprioritize at hrun
      split at hrun
      · cases hrun
      · next tasks ok hset =>
        obtain ⟨rfl, rfl⟩ : s.schedule tasks = s' ∧
            (if ok then some (s.basePriority htcb) else none) = base := by simpa using hrun
        obtain ⟨hrer, hok⟩ := setpriority_reranks h hnot hset
        refine ⟨_, hrer, ?_, ?_⟩
        · cases ok with
          | true => exact .inl (by simp [Rank.lower, hne, hpend])
          | false =>
            refine .inr ⟨by simp; rfl, ?_⟩
            have hle := hsound.base_le
            simp only [rank_base, rank_priority] at hle ⊢
            have : ¬ (schedPriorityMin ≤ s.basePriority htcb ∧
              s.basePriority htcb ≤ schedPriorityMax) := by simpa using hok.mpr
            omega
        · cases ok with
          | true => exact .inr ⟨rfl, hpend⟩
          | false => exact .inl rfl
    · next hpend =>
      split at hrun
      · next htop =>
        obtain ⟨⟨tasks, ok⟩, hset, heq⟩ := Option.map_eq_some_iff.mp hrun
        obtain ⟨rfl, rfl⟩ := Prod.mk.inj heq
        have hrec : Reranks s (s.setPend htcb (swapRemove (s.pendReprios htcb)
            (highest (s.pendReprios htcb)))) _ := setPend_reranks h
        obtain ⟨hrer, hok⟩ := setpriority_reranks hrec.sched hnot hset
        have hmem := hsound.pend_mem _ (highest_mem hpend)
        simp only [rank_pend, rank_priority] at hmem
        obtain rfl : ok = true := hok.mpr ⟨by unfold schedPriorityMin; omega, by omega⟩
        refine ⟨_, (hrec.trans hrer).congr fun u => ?_, .inl rfl, .inl rfl⟩
        by_cases hu : u = htcb
        · subst hu
          simp [Rank.lower, hne, hpend, htop]
        · simp [hu, hrec.rank]
      · next htop =>
        obtain ⟨rfl, rfl⟩ : s.setPend htcb (swapRemove (s.pendReprios htcb)
            (s.tasks.schedPriority stcb)) = s' ∧ none = base := by simpa using hrun
        refine ⟨_, setPend_reranks h, .inl ?_, .inl rfl⟩
        simp [Rank.lower, hne, hpend, htop]
  · next heq =>
    obtain ⟨rfl, rfl⟩ : s' = s ∧ base = none := by simpa [eq_comm] using hrun
    refine ⟨s'.rank htcb, (Reranks.refl h).congr fun u => ?_, .inl ?_, .inl rfl⟩
    · by_cases hu : u = htcb <;> simp [hu]
    · simp [Rank.lower, not_not.mp heq]

end

theorem Lowered.base_eq {x y : Rank} (h : Lowered x p y) : y.base = x.base := by
  rcases h with rfl | ⟨rfl, -⟩
  · exact Rank.base_lower
  · rfl

/-- Storing the base priority that is there, with no pending priorities, changes nothing. -/
theorem storeBase_eq (h : base = none ∨ base = some (s.basePriority t) ∧ s.pendReprios t = []) :
    storeBase s t base = s := by
  rcases h with rfl | ⟨rfl, hpend⟩
  · rfl
  · simp only [storeBase, PiSys.setBase, PiSys.setPend, ← hpend, update_eq_self]

theorem semRestoreholderprioall_some (h : SchedInv s.tasks) (hnodup : hs.Nodup)
    (hnot : ∀ htcb ∈ hs, s.tasks.taskState htcb ≠ .waitSem)
    (hsound : ∀ htcb ∈ hs, (s.rank htcb).Sound)
    (hmax : ∀ htcb ∈ hs, s.tasks.schedPriority htcb ≤ schedPriorityMax)
    (hstcb : s.tasks.schedPriority stcb = s.basePriority stcb)
    (hrun : semRestoreholderprioall s stcb hs = some s') :
    ∃ rank, Reranks s s' rank ∧ (∀ t ∉ hs, rank t = s.rank t) ∧
      ∀ t ∈ hs, Lowered (s.rank t) (s.tasks.schedPriority stcb) (rank t) := by
  induction hs generalizing s with
  | nil =>
    cases hrun
    exact ⟨_, Reranks.refl h, fun t _ => rfl, by simp⟩
  | cons htcb rest ih =>
    rw [nodup_cons] at hnodup
    rw [forall_mem_cons] at hnot hsound hmax
    simp only [semRestoreholderprioall] at hrun
    split at hrun
    · cases hrun
    · next s₁ base hrestore =>
      obtain ⟨x, hrer, hlow, hbase⟩ := semRestoreholderprio_some h hnot.1 hsound.1 hmax.1 hrestore
      have hown : s₁.rank htcb = x := by simp [hrer.rank]
      have hothers : ∀ t, t ≠ htcb → s₁.rank t = s.rank t := fun t ht => by simp [hrer.rank, ht]
      have hstore : storeBase s₁ htcb base = s₁ := by
        refine storeBase_eq ?_
        rw [← rank_base, ← rank_pend, hown, hlow.base_eq]
        exact hbase
      rw [hstore] at hrun
      -- the task that stops waiting is at its base priority, and stays there
      have hstcb₁ : s₁.rank stcb = s.rank stcb := by
        by_cases ht : stcb = htcb
        · subst ht
          rw [hown]
          rcases hlow with rfl | ⟨rfl, -⟩
          · exact if_neg (not_not.mpr hstcb)
          · rfl
        · exact hothers stcb ht
      have hprio : s₁.tasks.schedPriority stcb = s.tasks.schedPriority stcb :=
        congrArg Rank.priority hstcb₁
      have hrest : ∀ t ∈ rest, s₁.rank t = s.rank t := fun t ht =>
        hothers t fun heq => hnodup.1 (heq ▸ ht)
      obtain ⟨rank, hrer', hkept, hlowered⟩ := ih hrer.sched hnodup.2
        (fun t ht => by rw [Ne, hrer.waits_iff h]; exact hnot.2 t ht)
        (fun t ht => by rw [hrest t ht]; exact hsound.2 t ht)
        (fun t ht => (congrArg Rank.priority (hrest t ht)).trans_le (hmax.2 t ht))
        (hprio.trans (hstcb.trans (congrArg Rank.base hstcb₁).symm)) hrun
      refine ⟨rank, hrer.trans hrer', fun t ht => ?_, fun t ht => ?_⟩
      · rw [mem_cons, not_or] at ht
        rw [hkept t ht.2, hothers t ht.1]
      · rcases mem_cons.mp ht with rfl | ht
        · rw [hkept t hnodup.1, hown]
          exact hlow
        · have := hlowered t ht
          rwa [hrest t ht, hprio] at this

end NbLot.Source.Sem
