import NbLot.Source.Sem.Inherited

/-!
# The steps of the semaphores with priority inheritance

`Orderly` is what a step must respect for the holders to record every task that waits for
them, `Restores` what it must respect besides for them to record nothing else. Every
step keeps `PiInv` then.
-/
namespace NbLot.Source.Sem
open Option (map_eq_some_iff)

open Lib.Inheritance Source.Sched List Function SemSys PiSys

/-- The end of the task's wait lowers no holder that another waiting task has raised: the
task is above the holder's base priority, or no other one is. -/
def EndsQuietly (s : PiSys) (tcb : Nat) : Prop :=
  ∀ sem ∈ s.waitsem tcb, ∀ htcb ∈ s.holderTcbs sem,
    s.basePriority htcb < s.tasks.schedPriority tcb ∨
      ∀ u ∈ (waiters s.toSemSys sem).erase tcb, s.tasks.schedPriority u ≤ s.basePriority htcb

/-- A task waits only while it has no count and is at its base priority, `sem_trywait` gets
no count, and interrupted waits end quietly, not by a signal of a holder. -/
def Orderly (s : PiSys) : PiAct → Prop
  | .wait _ => ∀ rtcb ∈ s.tasks.thisTask,
    s.held rtcb = [] ∧ s.tasks.schedPriority rtcb = s.basePriority rtcb
  | .trywait sem => s.semcount sem ≤ 0
  | .interrupted tcb _ => EndsQuietly s tcb
  | .signalled tcb => EndsQuietly s tcb ∧
    ∀ sem ∈ s.waitsem tcb, ∀ rtcb ∈ s.tasks.thisTask, rtcb ∉ s.holderTcbs sem
  | _ => True

/-- Posts are made by tasks that have the count, and leave no task waiting that is above the
base priority of the task that posts; no task waits that is above the base priority of
one still inside its post; the IDLE task, whose priority is 0, does not wait. -/
def Restores (s : PiSys) : PiAct → Prop
  | .wait sem => ∀ rtcb ∈ s.tasks.thisTask, schedPriorityMin ≤ s.tasks.schedPriority rtcb ∧
    ∀ htcb ∈ s.holderTcbs sem, s.held htcb = [] →
      s.tasks.schedPriority rtcb ≤ s.basePriority htcb
  | .post sem => ∀ rtcb ∈ s.tasks.thisTask, sem ∈ s.held rtcb ∧
    ∀ u ∈ (waiters s.toSemSys sem).tail, s.tasks.schedPriority u ≤ s.basePriority rtcb
  | .postIrq _ => False
  | _ => True

instance (s : PiSys) (tcb : Nat) : Decidable (EndsQuietly s tcb) := by
  unfold EndsQuietly
  infer_instance

instance (s : PiSys) (a : PiAct) : Decidable (Orderly s a) := by
  cases a <;> unfold Orderly <;> infer_instance

instance (s : PiSys) (a : PiAct) : Decidable (Restores s a) := by
  cases a <;> unfold Restores <;> infer_instance

variable {exact : Bool} {s s' s₁ : PiSys} {t w k sem rtcb p : Nat} {rank : Nat → Rank}

theorem PiInv.registered (h : PiInv exact s) (hthis : s.tasks.thisTask = some rtcb) :
    rtcb ∈ s.tasks.pids := by
  rw [h.sem.sched.registered, (h.sem.sched.lists.running rtcb).mpr hthis]
  simp

theorem waiting_of_count_nonneg (h : SemInv s.toSemSys) (hcount : 0 ≤ s.semcount sem) :
    waiters s.toSemSys sem = [] := by
  rcases h.count sem with hc | hc
  · exact eq_nil_of_length_eq_zero hc.2
  · exact eq_nil_of_length_eq_zero (by omega)

/-- The holders are raised under the preemption lock, when the running task is about to
wait. -/
theorem PiInv.boost {c : SemSys} (h : PiInv exact s) (hthis : s.tasks.thisTask = some rtcb)
    (hheld : s.held rtcb = []) (hpost : s.inPost rtcb = none) (hc : c.tasks = s.tasks)
    (hrun : semBoostpriority ((s.setSem c).schedule (schedLock c.tasks)) rtcb
      (s.holderTcbs sem) = some s') :
    s'.tasks.thisTask = some rtcb ∧ SemInv (s.toSemSys.setTasks s'.tasks) ∧
      s'.tasks.list .waitingforsemaphore = s.tasks.list .waitingforsemaphore ∧
      s'.tasks.pids = s.tasks.pids ∧ s'.toSemSys = c.setTasks s'.tasks ∧
      s'.holders = s.holders ∧ s'.inPost = s.inPost ∧ s'.held = s.held ∧
      ∀ t, s'.rank t = if t ∈ s.holderTcbs sem then
        (s.rank t).raise (s.tasks.schedPriority rtcb) else s.rank t := by
  have hlocked := h.lock.sem.sched
  rw [hc] at hrun
  obtain ⟨hrer, hthis'⟩ := by
    refine semBoostpriority_some ?_ ?_ ?_ ?_ ?_ ?_ hrun
    · exact hlocked
    · simpa [Tasks.thisTask] using hthis
    · exact h.not_holder hheld hpost
    · exact h.nodup sem
    · simpa using h.priority_le rtcb
    · intro t ht
      simpa using h.holder_not_waitSem ht
  have hrank : ∀ t, s'.rank t = if t ∈ s.holderTcbs sem then
      (s.rank t).raise (s.tasks.schedPriority rtcb) else s.rank t := by
    intro t
    simpa [PiSys.rank] using hrer.rank t
  have hlist := hrer.waiting
  have hpids := hrer.pids
  simp only [schedule_toSemSys, SemSys.setTasks_tasks, schedLock_list,
    schedLock_pids] at hlist hpids
  refine ⟨hthis', ?_, hlist, hpids, hrer.core, hrer.holders, hrer.inPost, hrer.held, hrank⟩
  refine (h.sem.setTasks hrer.sched hlist (fun t ht => ?_) (by rw [hpids])).1
  have hw : s.waitsem t ≠ none := (h.sem.waits t).mp ((mem_waitSem h.sem.sched.lists).mp ht)
  have := hrank t
  rw [if_neg (h.waiter_not_holder hw)] at this
  exact congrArg Rank.priority this

theorem piWait_inv (h : PiInv exact s) (hfree : s.free = true) (hok : Orderly s (.wait sem))
    (hexact : exact = true → Restores s (.wait sem)) (hrun : piWait s sem = some s') :
    PiInv exact s' := by
  unfold piWait at hrun
  split at hrun
  · cases hrun
  · next rtcb hthis =>
    obtain ⟨hin, hpost⟩ : s.inWait rtcb = none ∧ s.inPost rtcb = none := by
      simpa [PiSys.free, hthis] using hfree
    obtain ⟨hheld, hown⟩ := hok rtcb hthis
    split at hrun
    · next hpos =>
      -- the count is there
      have hcore := (h.sem.take hthis hpos rfl).1
      have hnone := h.sem.waitsem_running hthis
      have hbase : PiInv exact (s.setSem (((s.setCount sem (s.semcount sem - 1)).setWaitsem rtcb
          none).acquire sem)) := by
        refine h.quiet hcore rfl rfl ?_ (fun t => rfl) rfl rfl rfl
        exact update_eq_self_iff.mpr hnone.symm
      have hnot : rtcb ∉ s.holderTcbs sem := h.not_holder hheld hpost
      have hadd := hbase.addHolder sem hheld hpost (by simp)
        (h.registered hthis) (fun he => hown ▸ (hexact he rtcb hthis).1) ?_
      · cases hrun
        have hnew : ∀ c, semAddholderTcb (s.setSem c) rtcb sem =
            (s.setSem c).setHolders sem (⟨rtcb, 1⟩ :: s.holders sem) := fun c =>
          semAddholderTcb_new hnot
        simp only [hnew, setSem_held, setHolders_held, hheld]
        exact hadd
      · have hempty := waiting_of_count_nonneg h.sem hpos.le
        have hnew : waiting (s.setSem (((s.setCount sem (s.semcount sem - 1)).setWaitsem rtcb
            none).acquire sem)) sem = 0 := by
          have hsame : waiters (((s.setCount sem (s.semcount sem - 1)).setWaitsem rtcb
              none).acquire sem) sem = waiters s.toSemSys sem := by
            refine filter_congr fun t _ => ?_
            by_cases ht : t = rtcb <;> simp [ht, hnone]
          rw [waiting, setSem_toSemSys, hsame, hempty]
          rfl
        rw [hnew]
        exact h.unclaimed rtcb hheld
    · next hpos =>
      split at hrun
      · cases hrun
      · dsimp only at hrun
        split at hrun
        · cases hrun
        · next s₂ hboost =>
          obtain ⟨tasks, hblock, rfl⟩ := map_eq_some_iff.mp hrun
          obtain ⟨hthis₂, hsem₂, hlist, hpids, hcore, hholders, hinPost, hheld', hrank⟩ := by
            refine h.boost hthis hheld hpost ?_ hboost
            rfl
          obtain ⟨-, hnot, hperm, -, hpids', hprio⟩ := upBlockTask_waitSem hsem₂.sched hthis₂ hblock
          have hblocked := (hsem₂.block hin hthis₂ (not_lt.mp hpos) hblock rfl).1
          have hs' : ((s₂.setSem ((s₂.setErrno rtcb .ok).setInWait rtcb (some sem))).schedule
              tasks).toSemSys = (((((s.setTasks s₂.tasks).setCount sem
                (wrap16 (s.semcount sem - 1))).setWaitsem rtcb (some sem)).setErrno rtcb
                .ok).setInWait rtcb (some sem)).setTasks tasks := by
            rw [schedule_toSemSys, hcore]
            rfl
          refine h.block sem hheld hpost hown (hs' ▸ hblocked) (hpids'.trans hpids)
            (fun k => ?_) (by rw [hs']; rfl) (fun t => ?_)
            (fun he => (hexact he rtcb hthis).2) hholders hinPost hheld'
          · refine waiters_block (hlist ▸ hnot) ?_ (by rw [hs']; rfl) k
            rw [← hlist]
            exact hperm
          · rw [← hrank]
            ext : 1
            · exact hprio t
            · rfl
            · rfl

/-- A count was handed to the first waiting task `w`. -/
structure Granted (s s' : PiSys) (sem w : Nat) : Prop where
  first : ∃ rest, waiters s.toSemSys sem = w :: rest
  waits : s.waitsem w = some sem
  core : SemInv s'.toSemSys
  waiters_eq : ∀ k, waiters s'.toSemSys k = (waiters s.toSemSys k).erase w
  waitsem : s'.waitsem = Function.update s.waitsem w none
  pids : s'.tasks.pids = s.tasks.pids
  rank : ∀ t, s'.rank t = s.rank t
  holders : s'.holders = Function.update s.holders sem (⟨w, 1⟩ :: s.holders sem)
  inPost : s'.inPost = s.inPost
  held : s'.held = Function.update s.held w [sem]

/-- A post finds no task waiting and raises the count, or hands it to the first one. -/
theorem grantFirst_some {stcb : Option Nat} (h : PiInv exact s)
    (hmax : ¬ semValueMax ≤ s.semcount sem) (hrun : grantFirst s sem = some (s', stcb)) :
    (stcb = none ∧ waiters s.toSemSys sem = [] ∧
        s' = s.setSem (s.setCount sem (s.semcount sem + 1)) ∧ SemInv s'.toSemSys) ∨
      ∃ w, stcb = some w ∧ Granted s s' sem w := by
  cases hw : waiters s.toSemSys sem with
  | nil =>
    have hnonneg : 0 ≤ s.semcount sem := by
      rcases h.sem.count sem with hc | hc
      · exact hc.1
      · simp [hc, hw]
    have hpos : ¬ s.semcount sem + 1 ≤ 0 := by omega
    simp only [grantFirst, setSem_toSemSys, setCount_semcount, update_self, if_neg hpos] at hrun
    cases hrun
    exact .inl ⟨rfl, rfl, rfl, h.sem.setCount hnonneg (by omega) (by omega)⟩
  | cons w rest =>
    obtain ⟨tasks, hun, hsem, -⟩ := semPost_waiters h.sem hw
    obtain ⟨hneg, hlen⟩ := h.sem.count_neg hsem
    have hle : s.semcount sem + 1 ≤ 0 := by omega
    have hfind : (s.tasks.list .waitingforsemaphore).find? (fun t => s.waitsem t = some sem) =
        some w := (find_waiter).trans (by rw [hw, head?_cons])
    have hwaits : s.waitsem w ≠ none := by simp [hsem]
    have hblocked : s.tasks.taskState w = .waitSem := (h.sem.waits w).mpr hwaits
    simp only [grantFirst, setSem_toSemSys, setCount_semcount, update_self,
      if_pos hle, setCount_tasks, setCount_waitsem, hfind] at hrun
    have hadd : ∀ c, semAddholderTcb (s.setSem c) w sem =
        (s.setSem c).setHolders sem (⟨w, 1⟩ :: s.holders sem) := fun c =>
      semAddholderTcb_new (h.waiter_not_holder hwaits)
    simp only [hadd, setHeld_toSemSys, setHolders_toSemSys, setSem_toSemSys,
      setSem_held, (h.waiter w hwaits).1, setWaitsem_tasks, setCount_tasks,
      hun] at hrun
    cases hrun
    -- its errno is still the one `sem_wait` has set
    have hok : ((s.setCount sem (s.semcount sem + 1)).setWaitsem w none).setErrno w .ok =
        (s.setCount sem (s.semcount sem + 1)).setWaitsem w none :=
      setErrno_ok (h.sem.blocked w hblocked).2
    obtain ⟨hsem', hwaiters, -⟩ := h.sem.release hsem hun
      (congrArg (fun c : SemSys => c.setTasks tasks) hok.symm)
    obtain ⟨l, -, hcall, -⟩ := upUnblockTask_call h.sem.sched.lists hun
    refine .inr ⟨w, rfl, ⟨⟨rest, hw⟩, hsem, hsem', hwaiters, rfl, hcall.frame.pids, fun t => ?_,
      rfl, rfl, rfl⟩⟩
    ext : 1
    · exact hcall.frame.priority t
    · rfl
    · rfl

theorem priority_le_first (h : SemInv s.toSemSys) {rest : List Nat}
    (hw : waiters s.toSemSys sem = w :: rest) :
    ∀ u ∈ rest, s.tasks.schedPriority u ≤ s.tasks.schedPriority w := by
  have hsorted := (h.sched.lists.sorted .waitingforsemaphore rfl).filter
    (fun t => decide (s.waitsem t = some sem))
  change (waiters s.toSemSys sem).Pairwise s.tasks.Before at hsorted
  rw [hw, pairwise_cons] at hsorted
  intro u hu
  rcases hsorted.1 u hu with hlt | ⟨heq, -⟩
  · exact hlt.le
  · exact heq.ge

section

variable (hg : Granted s s₁ sem w)
include hg

theorem Granted.holderTcbs_eq :
    s₁.holderTcbs sem = w :: s.holderTcbs sem := by
  simp [PiSys.holderTcbs, hg.holders]

/-- The holders do not wait for a semaphore, the one that has just got its count included. -/
theorem Granted.not_waitSem (h : PiInv exact s)
    (ht : t ∈ s₁.holderTcbs sem) : s₁.tasks.taskState t ≠ .waitSem := by
  rw [Ne, hg.core.waits, hg.waitsem]
  by_cases htw : t = w
  · simp [htw]
  · have hmem : t ∈ s.holderTcbs sem := by simpa [hg.holderTcbs_eq, htw] using ht
    rw [update_of_ne htw]
    by_contra hwaits
    exact h.waiter_not_holder hwaits hmem

/-- The loop over holders after a count was handed over. -/
theorem Granted.restore {hs : List Nat}
    (h : PiInv exact s) (hnodup : hs.Nodup) (hsub : ∀ t ∈ hs, t ∈ s₁.holderTcbs sem)
    (hrun : semRestoreholderprioall s₁ w hs = some s') :
    ∃ rank, Reranks s₁ s' rank ∧ (∀ t ∉ hs, rank t = s₁.rank t) ∧
      ∀ t ∈ hs, Lowered (s₁.rank t) (s₁.tasks.schedPriority w) (rank t) := by
  refine semRestoreholderprioall_some hg.core.sched hnodup
    (fun t ht => hg.not_waitSem h (hsub t ht)) (fun t _ => ?_) (fun t _ => ?_) ?_ hrun
  · rw [hg.rank]
    exact h.sound t
  · exact (congrArg Rank.priority (hg.rank t)).trans_le (h.priority_le t)
  · have hown := (h.waiter w (by simp [hg.waits])).2.2
    exact (congrArg Rank.priority (hg.rank w)).trans
      (hown.trans (congrArg Rank.base (hg.rank w)).symm)

theorem Granted.nodup (h : PiInv exact s) :
    (s₁.holderTcbs sem).Nodup := by
  rw [hg.holderTcbs_eq]
  exact nodup_cons.mpr ⟨h.waiter_not_holder (by simp [hg.waits]), h.nodup sem⟩

/-- The task that has just got its count is at its base priority, and not lowered. -/
theorem Granted.rank_granted {x : Rank}
    (h : PiInv exact s) (hlow : Lowered (s₁.rank w) p x) : x = s₁.rank w := by
  have hown := (h.waiter w (by simp [hg.waits])).2.2
  rcases hlow with heq | ⟨heq, -⟩
  · rw [heq]
    refine if_neg (not_not.mpr ?_)
    rw [hg.rank]
    exact hown
  · exact heq

end

section

variable (h : PiInv exact s)
include h

/-- A count is handed to the first waiting task, and the holders are lowered. -/
theorem PiInv.grant (hg : Granted s s₁ sem w) (hrer : Reranks s₁ s' rank)
    (hkept : ∀ t ∉ s₁.holderTcbs sem, rank t = s₁.rank t)
    (hlow : ∀ t ∈ s₁.holderTcbs sem, Lowered (s₁.rank t) (s₁.tasks.schedPriority w) (rank t)) :
    PiInv exact s' := by
  have hwaits : s.waitsem w ≠ none := by simp [hg.waits]
  obtain ⟨hheld, hpost, hown⟩ := h.waiter w hwaits
  obtain ⟨rest, hfirst⟩ := hg.first
  have hbest := priority_le_first h.sem hfirst
  have hrest : (waiters s.toSemSys sem).erase w = rest := by simp [hfirst]
  have hprio₁ : s₁.tasks.schedPriority w = s.tasks.schedPriority w :=
    congrArg Rank.priority (hg.rank w)
  have htcbs := hg.holderTcbs_eq
  have hrank : ∀ t ∉ s.holderTcbs sem, s'.rank t = s.rank t := by
    intro t ht
    rw [hrer.rank, ← hg.rank]
    by_cases htw : t = w
    · subst htw
      exact hg.rank_granted h (hlow t (by simp [htcbs]))
    · exact hkept t (by simp [htcbs, htw, ht])
  have hsem' : SemInv s'.toSemSys := by
    rw [hrer.core]
    refine (hg.core.setTasks hrer.sched hrer.waiting (fun t ht => ?_) (by rw [hrer.pids])).1
    have hw₁ : s₁.waitsem t ≠ none := (hg.core.waits t).mp ((mem_waitSem hg.core.sched.lists).mp ht)
    have htw : t ≠ w := fun heq => by simp [hg.waitsem, heq] at hw₁
    have hw : s.waitsem t ≠ none := by simpa [hg.waitsem, htw] using hw₁
    exact congrArg Rank.priority
      ((hrank t (h.waiter_not_holder hw)).trans (hg.rank t).symm)
  have hwaiters : ∀ k, waiters s'.toSemSys k = (waiters s.toSemSys k).erase w := by
    intro k
    rw [← hg.waiters_eq, waiters, hrer.waiting, hrer.core]
    rfl
  -- first the end of the wait, and then the count
  have hended : PiInv exact { s' with holders := s.holders, held := s.held } := by
    refine h.released hg.waits hsem' (hrer.pids.trans hg.pids) hwaiters ?_ hrank
      (fun t ht => ?_) (fun t _ => ?_) rfl (hrer.inPost.trans hg.inPost) rfl
    · rw [hrer.core]
      exact hg.waitsem
    · have := hlow t (by simp [htcbs, ht])
      rw [hg.rank, hprio₁, ← hrer.rank] at this
      exact this
    · rw [hrest]
      by_cases hlt : s.basePriority t < s.tasks.schedPriority w
      · exact .inl hlt
      · exact .inr fun u hu => (hbest u hu).trans (not_lt.mp hlt)
  have hwnot := h.waiter_not_holder (k := sem) hwaits
  have hbase' : s'.basePriority w = s.basePriority w := congrArg Rank.base (hrank w hwnot)
  have hadd := hended.addHolder sem hheld ?_ ?_ ?_ (fun hexact => ?_) ?_
  · have heq : ((PiSys.setHolders { s' with holders := s.holders, held := s.held } sem
        (⟨w, 1⟩ :: s.holders sem)).setHeld w [sem]) = s' := by
      have hh : s'.holders = update s.holders sem (⟨w, 1⟩ :: s.holders sem) :=
        hrer.holders.trans hg.holders
      have hd : s'.held = update s.held w [sem] := hrer.held.trans hg.held
      simp only [PiSys.setHolders, PiSys.setHeld, ← hh, ← hd]
    exact heq ▸ hadd
  · rw [hrer.inPost, hg.inPost, hpost]
  · rw [hrer.core]
    simp [hg.waitsem]
  · rw [hrer.pids, hg.pids, h.sem.sched.registered, (h.sem.waits w).mpr hwaits]
    simp
  · rw [hbase', ← hown]
    exact h.sem.ranked w ((mem_waitSem h.sem.sched.lists).mpr ((h.sem.waits w).mpr hwaits))
  · have hfree := hended.unclaimed w hheld
    refine hfree.adopt (above_eq_zero.mpr fun q hq => ?_)
    obtain ⟨u, hu, rfl⟩ := mem_map.mp (Multiset.mem_coe.mp hq)
    have hu : u ∈ rest := by
      rw [← hrest, ← hwaiters]
      exact hu
    have huw : s.waitsem u ≠ none := by
      have hmem : u ∈ waiters s.toSemSys sem := by simp [hfirst, hu]
      simp [(mem_waiters h.sem).mp hmem]
    have hprio : s'.tasks.schedPriority u = s.tasks.schedPriority u :=
      congrArg Rank.priority (hrank u (h.waiter_not_holder huw))
    change s'.tasks.schedPriority u ≤ s'.basePriority w
    rw [hprio, hbase', ← hown]
    exact hbest u hu

theorem PiInv.setCount {count : Int} (hsem : SemInv (s.setSem (s.setCount sem count)).toSemSys) :
    PiInv exact (s.setSem (s.setCount sem count)) :=
  h.quiet hsem rfl rfl rfl (fun _ => rfl) rfl rfl rfl

theorem piPostIrq_inv (hrun : piPostIrq s sem = some s') : PiInv exact s' := by
  unfold piPostIrq at hrun
  split at hrun
  · cases hrun
  · next rtcb hthis =>
    split at hrun
    · cases hrun
    · next hmax =>
      have h₀ : PiInv exact (semReleaseholder s rtcb sem) := h.releaseholder
      split at hrun
      · cases hrun
      · next s₁ hgrant =>
        cases hrun
        rcases grantFirst_some h₀ hmax hgrant with ⟨-, -, rfl, hsem⟩ | ⟨w, hw, -⟩
        · exact h₀.setCount hsem
        · cases hw
      · next s₁ stcb hgrant =>
        rcases grantFirst_some h₀ hmax hgrant with ⟨hnone, -⟩ | ⟨w, hw, hg⟩
        · cases hnone
        · obtain rfl : stcb = w := by simpa using hw
          obtain ⟨rank, hrer, hkept, hlow⟩ := hg.restore h₀ (hg.nodup h₀) (fun _ ht => ht) hrun
          exact h₀.grant hg hrer hkept hlow

/-- `sem_post` of a task comes to its end, when the count is given away. -/
theorem PiInv.finishPost_direct {base : Option Nat} (hpost : s.inPost rtcb = none)
    (hzero : ∀ holder ∈ s.holders sem, holder.htcb = rtcb → holder.counts = 0)
    (hbase : base = none ∨ base = some (s.basePriority rtcb))
    (hnone : rtcb ∉ s.holderTcbs sem → base = none)
    (hfree : exact = true → ∀ u ∈ waiters s.toSemSys sem, s.tasks.schedPriority u ≤ s.basePriority rtcb)
    (hrun : postEnd (s.setHeld rtcb ((s.held rtcb).erase sem)) rtcb sem base = some s') :
    PiInv exact s' := by
  by_cases hmem : rtcb ∈ s.holderTcbs sem
  · -- the task was a holder: as if it had been switched out in between
    have hheld : s.held rtcb = [sem] := by
      rcases h.holder_of_mem hmem with hk | ⟨b, hk⟩
      · exact hk
      · simp [hpost] at hk
    have hgiven := h.giveAway hheld hzero hbase hfree
    have hsame : ((s.setHeld rtcb []).setInPost rtcb (some (sem, base))).setInPost rtcb none =
        s.setHeld rtcb ((s.held rtcb).erase sem) := by
      simp [PiSys.setInPost, PiSys.setHeld, hheld, ← hpost]
    rw [← hsame] at hrun
    exact hgiven.finishPost (by simp) hrun
  · -- the task was no holder: only the preemption lock is left
    obtain rfl := hnone hmem
    have hheld : (s.held rtcb).erase sem = s.held rtcb := by
      refine erase_of_not_mem fun hin => hmem ?_
      rcases h.held rtcb with hk | ⟨k, hk, hk'⟩
      · simp [hk] at hin
      · obtain rfl : sem = k := by simpa [hk] using hin
        exact hk'
    have hsame : semFindandfreeholder (storeBase (s.setHeld rtcb ((s.held rtcb).erase sem)) rtcb
        none) rtcb sem = s := by
      have hfilter : (s.holders sem).filter (fun holder =>
          !(holder.htcb = rtcb ∧ holder.counts = 0)) = s.holders sem := by
        refine filter_eq_self.mpr fun holder hh => ?_
        have hne : holder.htcb ≠ rtcb := fun heq => hmem (heq ▸ mem_map_of_mem hh)
        simp [hne]
      simp only [semFindandfreeholder, storeBase, hheld, PiSys.setHeld, PiSys.setHolders, hfilter,
        update_eq_self]
    unfold postEnd at hrun
    rw [hsame] at hrun
    obtain ⟨tasks, hunlock, rfl⟩ := map_eq_some_iff.mp hrun
    exact h.unlock hunlock

end

/-- Who waits after a count was handed over was waiting behind the first. -/
theorem Granted.waiters_le (hg : Granted s s₁ sem w) (h : PiInv exact s)
    (hrer : Reranks s₁ s' rank) (hkept : ∀ t ∉ s₁.holderTcbs sem, rank t = s₁.rank t)
    (hle : ∀ u ∈ (waiters s.toSemSys sem).tail, s.tasks.schedPriority u ≤ p) :
    ∀ u ∈ waiters s'.toSemSys sem, s'.tasks.schedPriority u ≤ p := by
  obtain ⟨rest, hfirst⟩ := hg.first
  have hwaiters : waiters s'.toSemSys sem = rest := by
    rw [waiters, hrer.waiting, hrer.core]
    refine (hg.waiters_eq sem).trans ?_
    simp [hfirst]
  rw [hwaiters]
  rw [hfirst] at hle
  intro u hu
  have hmem : u ∈ waiters s.toSemSys sem := by simp [hfirst, hu]
  have huw : u ≠ w := by
    rintro rfl
    have hnodup : (waiters s.toSemSys sem).Nodup :=
      (h.sem.sched.lists.nodup .waitingforsemaphore).filter _
    rw [hfirst, nodup_cons] at hnodup
    exact hnodup.1 hu
  have hnot : u ∉ s₁.holderTcbs sem := by
    rw [hg.holderTcbs_eq, mem_cons, not_or]
    exact ⟨huw, h.waiter_not_holder (by simp [(mem_waiters h.sem).mp hmem])⟩
  have hsame : s'.rank u = s.rank u := by rw [hrer.rank, hkept u hnot, hg.rank]
  exact (congrArg Rank.priority hsame).trans_le (hle u hu)

/-- The rest of a task's `sem_post` that has handed its count to `w`: the other holders are
lowered, then the task itself if it is one, and then it comes to its end or is switched
out. -/
theorem PiInv.postGranted (h : PiInv exact s) (hg : Granted s s₁ sem w)
    (hrw : rtcb ≠ w) (hpost : s.inPost rtcb = none)
    (hzero : ∀ holder ∈ s.holders sem, holder.htcb = rtcb → holder.counts = 0)
    (hexact : exact = true →
      ∀ u ∈ (waiters s.toSemSys sem).tail, s.tasks.schedPriority u ≤ s.basePriority rtcb)
    (hrun : (match semRestoreholderprioall s₁ w ((s₁.holderTcbs sem).filter (· ≠ rtcb)) with
      | none => none
      | some s =>
        if rtcb ∈ s.holderTcbs sem then
          match semRestoreholderprio s rtcb w with
          | none => none
          | some (s, base) =>
            let s := s.setHeld rtcb ((s.held rtcb).erase sem)
            if s.tasks.thisTask = some rtcb then postEnd s rtcb sem base
            else some (s.setInPost rtcb (some (sem, base)))
        else postEnd (s.setHeld rtcb ((s.held rtcb).erase sem)) rtcb sem none) = some s') :
    PiInv exact s' := by
  split at hrun
  · cases hrun
  · next sA hothers =>
    obtain ⟨rankA, hrerA, hkeptA, hlowA⟩ := hg.restore h ((hg.nodup h).filter _)
      (fun t ht => (mem_filter.mp ht).1) hothers
    have hown : s₁.rank rtcb = s.rank rtcb := hg.rank rtcb
    have hrtcbA : sA.rank rtcb = s₁.rank rtcb := by
      rw [hrerA.rank, hkeptA rtcb (by simp)]
    have htcbsA : sA.holderTcbs sem = s₁.holderTcbs sem := by
      rw [PiSys.holderTcbs, hrerA.holders]
      rfl
    have hslot : ∀ holder ∈ s₁.holders sem, holder.htcb = rtcb → holder.counts = 0 := by
      intro holder hh hr
      rw [hg.holders, update_self, mem_cons] at hh
      rcases hh with rfl | hh
      · exact absurd hr.symm hrw
      · exact hzero holder hh hr
    have hpost₁ : s₁.inPost rtcb = none := by rw [hg.inPost, hpost]
    split at hrun
    · next hmem =>
      split at hrun
      · cases hrun
      · next sB base hself =>
        have hmem₁ : rtcb ∈ s₁.holderTcbs sem := htcbsA ▸ hmem
        obtain ⟨x, hrerB, hlowB, hbase⟩ := semRestoreholderprio_some hrerA.sched
          (by rw [Ne, hrerA.waits_iff hg.core.sched]; exact hg.not_waitSem h hmem₁)
          (by rw [hrtcbA, hown]; exact h.sound rtcb)
          ((congrArg Rank.priority (hrtcbA.trans hown)).trans_le (h.priority_le rtcb)) hself
        -- the task that got the count is where it was, so all are lowered alike
        have hwA : sA.tasks.schedPriority w = s₁.tasks.schedPriority w := by
          have hw : w ∈ (s₁.holderTcbs sem).filter (· ≠ rtcb) := by
            simp [hg.holderTcbs_eq, Ne.symm hrw]
          have hsame : sA.rank w = s₁.rank w :=
            (hrerA.rank w).trans (hg.rank_granted h (hlowA w hw))
          exact congrArg Rank.priority hsame
        have hrer := hrerA.trans hrerB
        have hkept : ∀ t ∉ s₁.holderTcbs sem, update sA.rank rtcb x t = s₁.rank t := by
          intro t ht
          have hne : t ≠ rtcb := fun heq => ht (heq ▸ hmem₁)
          rw [update_of_ne hne, hrerA.rank, hkeptA t fun hin => ht (mem_filter.mp hin).1]
        have hlow : ∀ t ∈ s₁.holderTcbs sem, Lowered (s₁.rank t) (s₁.tasks.schedPriority w)
            (update sA.rank rtcb x t) := by
          intro t ht
          by_cases hne : t = rtcb
          · subst hne
            rwa [update_self, ← hwA, ← hrtcbA]
          · rw [update_of_ne hne, hrerA.rank]
            exact hlowA t (mem_filter.mpr ⟨ht, by simpa using hne⟩)
        have hB := h.grant hg hrer hkept hlow
        have hbaseB : sB.basePriority rtcb = s.basePriority rtcb := by
          have hxB : sB.rank rtcb = x := by simp [hrerB.rank]
          have hx : x.base = s.basePriority rtcb := by
            rw [hlowB.base_eq, hrtcbA, hown]
            rfl
          exact (congrArg Rank.base hxB).trans hx
        have hbase' : base = none ∨ base = some (sB.basePriority rtcb) := by
          rcases hbase with hnone | ⟨hsome, -⟩
          · exact .inl hnone
          · refine .inr (hsome.trans ?_)
            rw [hbaseB]
            exact congrArg some ((congrArg Rank.base hrtcbA).trans (congrArg Rank.base hown))
        have hzeroB : ∀ holder ∈ sB.holders sem, holder.htcb = rtcb → holder.counts = 0 := by
          rw [hrer.holders]
          exact hslot
        have hleB : exact = true → ∀ u ∈ waiters sB.toSemSys sem,
            sB.tasks.schedPriority u ≤ sB.basePriority rtcb := by
          intro he
          rw [hbaseB]
          exact hg.waiters_le h hrer hkept (hexact he)
        have hpostB : sB.inPost rtcb = none := by rw [hrer.inPost, hpost₁]
        dsimp only at hrun
        split at hrun
        · refine hB.finishPost_direct hpostB hzeroB hbase' (fun hnot => ?_) hleB hrun
          exact absurd (by rw [PiSys.holderTcbs, hrer.holders]; exact hmem₁) hnot
        · cases hrun
          have hheldB : sB.held rtcb = [sem] := by
            have hmemB : rtcb ∈ sB.holderTcbs sem := by
              rw [PiSys.holderTcbs, hrer.holders]
              exact hmem₁
            rcases hB.holder_of_mem hmemB with hk | ⟨b, hk⟩
            · exact hk
            · simp [hpostB] at hk
          have hgiven := hB.giveAway hheldB hzeroB hbase' hleB
          simpa [hheldB] using hgiven
    · next hmem =>
      have hmem₁ : rtcb ∉ s₁.holderTcbs sem := htcbsA ▸ hmem
      have hall : ∀ t ∈ s₁.holderTcbs sem, t ∈ (s₁.holderTcbs sem).filter (· ≠ rtcb) := by
        intro t ht
        refine mem_filter.mpr ⟨ht, ?_⟩
        simpa using fun heq : t = rtcb => hmem₁ (heq ▸ ht)
      have hkept : ∀ t ∉ s₁.holderTcbs sem, rankA t = s₁.rank t := fun t ht =>
        hkeptA t fun hin => ht (mem_filter.mp hin).1
      have hA := h.grant hg hrerA hkept fun t ht => hlowA t (hall t ht)
      refine hA.finishPost_direct (by rw [hrerA.inPost, hpost₁])
        (by rw [hrerA.holders]; exact hslot) (.inl rfl) (fun _ => rfl) (fun he => ?_) hrun
      have hbaseA : sA.basePriority rtcb = s.basePriority rtcb :=
        (congrArg Rank.base hrtcbA).trans (congrArg Rank.base hown)
      rw [hbaseA]
      exact hg.waiters_le h hrerA hkept (hexact he)

section

variable (h : PiInv exact s)
include h

theorem piPost_inv (hfree : s.free = true) (hexact : exact = true → Restores s (.post sem))
    (hrun : piPost s sem = some s') : PiInv exact s' := by
  unfold piPost at hrun
  split at hrun
  · cases hrun
  · next rtcb hthis =>
    have hpost : s.inPost rtcb = none := by
      have : s.inWait rtcb = none ∧ s.inPost rtcb = none := by
        simpa [PiSys.free, hthis] using hfree
      exact this.2
    split at hrun
    · cases hrun
    · next hmax =>
      have h₀ : PiInv exact ((semReleaseholder s rtcb sem).schedule (schedLock s.tasks)) :=
        (h.releaseholder).lock
      have hzero₀ : ∀ holder ∈ (semReleaseholder s rtcb sem).holders sem,
          holder.htcb = rtcb → holder.counts = 0 := fun _ hh heq => h.counts_releaseholder hh heq
      have hwaiters₀ : waiters ((semReleaseholder s rtcb sem).schedule
          (schedLock s.tasks)).toSemSys sem = waiters s.toSemSys sem := by
        simp [waiters, semReleaseholder]
      dsimp only at hrun
      split at hrun
      · cases hrun
      · next s₁ hgrant =>
        rcases grantFirst_some h₀ hmax hgrant with ⟨-, hempty, rfl, hsem⟩ | ⟨w, hw, -⟩
        · refine (h₀.setCount hsem).finishPost_direct hpost hzero₀ (.inl rfl) (fun _ => rfl)
            (fun _ u hu => ?_) hrun
          have hu : u ∈ waiters ((semReleaseholder s rtcb sem).schedule
              (schedLock s.tasks)).toSemSys sem := hu
          rw [hempty] at hu
          cases hu
        · cases hw
      · next s₁ stcb hgrant =>
        rcases grantFirst_some h₀ hmax hgrant with ⟨hnone, -⟩ | ⟨w, hw, hg⟩
        · cases hnone
        · obtain rfl : stcb = w := by simpa using hw
          have hrw : rtcb ≠ stcb := by
            rintro rfl
            have hnone := h.sem.waitsem_running hthis
            have hsome : s.waitsem rtcb = some sem := hg.waits
            simp [hnone] at hsome
          refine h₀.postGranted hg hrw hpost hzero₀ (fun he => ?_) hrun
          rw [hwaiters₀]
          simpa [semReleaseholder] using (hexact he rtcb hthis).2

theorem piWaitirq_inv {errcode : Errno} {irq : Bool} (hok : EndsQuietly s w)
    (hrun : piWaitirq s w errcode irq = some s') : PiInv exact s' := by
  unfold piWaitirq at hrun
  split at hrun
  · next hstate =>
    split at hrun
    · cases hrun
    · next sem hsem =>
      have hwaits : s.waitsem w ≠ none := by simp [hsem]
      split at hrun
      · cases hrun
      · next s₁ hrestore =>
        split at hrun
        · cases hrun
        · obtain ⟨tasks, hun, rfl⟩ := map_eq_some_iff.mp hrun
          obtain ⟨rank, hrer, hkept, hlow⟩ := semRestoreholderprioall_some h.sem.sched
            (h.nodup sem) (fun t ht => h.holder_not_waitSem ht) (fun t _ => h.sound t)
            (fun t _ => h.priority_le t) (h.waiter w hwaits).2.2 hrestore
          have hsem₁ : SemInv (s.toSemSys.setTasks s₁.tasks) := by
            refine (h.sem.setTasks hrer.sched hrer.waiting (fun t ht => ?_)
              (by rw [hrer.pids])).1
            have hw : s.waitsem t ≠ none :=
              (h.sem.waits t).mp ((mem_waitSem h.sem.sched.lists).mp ht)
            have hsame := hrer.rank t
            rw [hkept t (h.waiter_not_holder hw)] at hsame
            exact congrArg Rank.priority hsame
          obtain ⟨hneg, -⟩ := h.sem.count_neg hsem
          have hbound := SemInv.length_waiters_le h.sem.sched sem
          have hwrap : wrap16 (s.semcount sem + 1) = s.semcount sem + 1 := by
            unfold wrap16
            omega
          have hcore : s₁.toSemSys = s.toSemSys.setTasks s₁.tasks := hrer.core
          have hs' : ((((s₁.setSem (s₁.setCount sem (wrap16 (s₁.semcount sem + 1)))).setSem
              (((s₁.setSem (s₁.setCount sem (wrap16 (s₁.semcount sem + 1)))).setWaitsem w
                none).setErrno w errcode))).schedule tasks).toSemSys =
              (((((s.toSemSys.setTasks s₁.tasks).setCount sem (s.semcount sem + 1)).setWaitsem w
                none).setErrno w errcode).setTasks tasks) := by
            have hcount : s₁.semcount sem = s.semcount sem := by
              rw [hcore]
              rfl
            simp only [schedule_toSemSys, setSem_toSemSys, hcount, hwrap]
            conv_lhs => rw [hcore]
          obtain ⟨hsem', hwaiters, -⟩ := hsem₁.release hsem hun hs'
          obtain ⟨l, -, hcall, -⟩ := upUnblockTask_call hsem₁.sched.lists hun
          have hlist : ∀ k, waiters (s.toSemSys.setTasks s₁.tasks) k = waiters s.toSemSys k := by
            intro k
            simp [waiters, hrer.waiting]
          have hrank : ∀ t, (((s₁.setSem (s₁.setCount sem (wrap16 (s₁.semcount sem + 1)))).setSem
              (((s₁.setSem (s₁.setCount sem (wrap16 (s₁.semcount sem + 1)))).setWaitsem w
                none).setErrno w errcode)).schedule tasks).rank t = rank t := by
            intro t
            rw [← hrer.rank]
            ext : 1
            · exact hcall.frame.priority t
            · rfl
            · rfl
          refine h.released hsem hsem' (hcall.frame.pids.trans hrer.pids)
            (fun k => (hwaiters k).trans (by rw [hlist])) (by rw [hs']; rfl)
            (fun t ht => (hrank t).trans (hkept t ht)) (fun t ht => ?_)
            (hok sem hsem) hrer.holders hrer.inPost hrer.held
          rw [hrank]
          exact hlow t ht
  · cases hrun
    exact h

theorem piWaitReturn_inv (hrun : piWaitReturn s = some s') : PiInv exact s' := by
  unfold piWaitReturn at hrun
  split at hrun
  · cases hrun
  · next c hreturn =>
    obtain ⟨tasks, hunlock, rfl⟩ := map_eq_some_iff.mp hrun
    have hc := (semWaitReturn_inv h.sem hreturn).1
    have hsame : c.tasks = s.tasks ∧ c.waitsem = s.waitsem := by
      unfold semWaitReturn at hreturn
      split at hreturn
      · cases hreturn
      · split at hreturn
        · cases hreturn
        · split at hreturn <;> cases hreturn <;> exact ⟨rfl, rfl⟩
    have hquiet : PiInv exact (s.setSem c) := by
      refine h.quiet hc ?_ ?_ hsame.2 (fun t => ?_) rfl rfl rfl
      · rw [setSem_toSemSys, hsame.1]
      · rw [setSem_toSemSys, hsame.1]
      · simp [PiSys.rank, hsame.1]
    exact hquiet.unlock hunlock

theorem piTrywait_inv (hfree : s.free = true) (hok : s.semcount sem ≤ 0)
    (hrun : piTrywait s sem = some s') : PiInv exact s' := by
  unfold piTrywait at hrun
  split at hrun
  · next rtcb c hthis htry =>
    rw [if_neg (not_lt.mpr hok)] at hrun
    cases hrun
    have hcalls : s.toSemSys.calls = true := by
      have : s.inWait rtcb = none ∧ s.inPost rtcb = none := by
        simpa [PiSys.free, hthis] using hfree
      simp [SemSys.calls, hthis, this.1]
    have hc := (semTrywait_inv h.sem hcalls htry).1
    simp only [semTrywait, hthis, if_neg (not_lt.mpr hok)] at htry
    cases htry
    exact h.quiet hc rfl rfl rfl (fun _ => rfl) rfl rfl rfl
  · cases hrun

theorem piPostReturn_inv (hrun : piPostReturn s = some s') : PiInv exact s' := by
  unfold piPostReturn at hrun
  split at hrun
  · cases hrun
  · split at hrun
    · cases hrun
    · next sem base hpost => exact h.finishPost hpost hrun

/-- A new task has its priority for its base priority, and no pending ones. -/
theorem PiInv.setup (hnew : t ∉ s.tasks.pids) (hsem : SemInv s'.toSemSys)
    (hpids : s'.tasks.pids = t :: s.tasks.pids)
    (hlist : s'.tasks.list .waitingforsemaphore = s.tasks.list .waitingforsemaphore)
    (hwaitsem : s'.waitsem = s.waitsem) (hothers : ∀ u, u ≠ t → s'.rank u = s.rank u)
    (hown : s'.rank t = ⟨p, p, []⟩) (hp : p ≤ schedPriorityMax) (hholders : s'.holders = s.holders)
    (hpost : s'.inPost = s.inPost) (hheld : s'.held = s.held) : PiInv exact s' := by
  obtain ⟨hfree, hout⟩ := h.known t hnew
  have hnot : ∀ k, t ∉ s.holderTcbs k := fun k => h.not_holder hfree hout
  have hclear : s.waitsem t = none := by
    by_contra hwaits
    have hst := (h.sem.waits t).mpr hwaits
    exact hnew ((h.sem.sched.registered t).mpr (by simp [hst]))
  have htcbs : ∀ k, s'.holderTcbs k = s.holderTcbs k := fun k => by
    rw [PiSys.holderTcbs, hholders]
    rfl
  have hprio : ∀ u, u ≠ t → s'.tasks.schedPriority u = s.tasks.schedPriority u := fun u hu =>
    congrArg Rank.priority (hothers u hu)
  have hbase : ∀ u, u ≠ t → s'.basePriority u = s.basePriority u := fun u hu =>
    congrArg Rank.base (hothers u hu)
  have hwaiting : ∀ k, waiting s' k = waiting s k := by
    intro k
    refine waiting_congr (by rw [waiters, hlist, hwaitsem]; rfl) fun u hu => hprio u ?_
    rintro rfl
    simp [(mem_waiters h.sem).mp hu] at hclear
  refine ⟨hsem, fun u => ?_, fun k => (htcbs k).symm ▸ h.nodup k, ?_, ?_, fun u k base hu => ?_,
    fun u hu => ?_, fun u hu => ?_, fun hexact k u hu => ?_, fun u hu => ?_,
    fun u k hu => ?_⟩
  · by_cases hu : u = t
    · subst hu
      exact (congrArg Rank.priority hown).trans_le hp
    · exact (hprio u hu).trans_le (h.priority_le u)
  · rw [hholders, hheld, hpost]
    exact h.holder
  · simp only [hheld, htcbs]
    exact h.held
  · rw [hpost] at hu
    have hne : u ≠ t := fun heq => by simp [heq, hout] at hu
    rw [hheld, hbase u hne]
    exact h.posting u k base hu
  · rw [hwaitsem] at hu
    have hne : u ≠ t := fun heq => hu (heq ▸ hclear)
    rw [hheld, hpost, hprio u hne, hbase u hne]
    exact h.waiter u hu
  · rw [hpids, mem_cons, not_or] at hu
    rw [hheld, hpost]
    exact h.known u hu.2
  · rw [htcbs] at hu
    have hne : u ≠ t := fun heq => hnot k (heq ▸ hu)
    rw [hbase u hne]
    exact h.ranked hexact k u hu
  · rw [hheld] at hu
    by_cases hut : u = t
    · subst hut
      rw [hown]
      exact ⟨⟨le_rfl, by simp⟩, Multiset.zero_le _, fun _ => by simp [above, Rank.recorded]⟩
    · rw [hothers u hut]
      exact h.unclaimed u hu
  · rw [hheld] at hu
    have hne : u ≠ t := fun heq => by simp [heq, hfree] at hu
    rw [hothers u hne, hwaiting]
    exact h.claimed u k hu

theorem piSched_inv {a : SchedAct} (hrun : piSched s a = some s') : PiInv exact s' := by
  have hkeep : ∀ {l : Option TaskList} {tasks : Tasks}, Call l s.tasks tasks →
      some TaskList.waitingforsemaphore ≠ l →
      SemInv (s.toSemSys.setTasks tasks) → PiInv exact (s.schedule tasks) := by
    intro l tasks hcall hl hsem
    refine h.quiet hsem hcall.frame.pids (hcall.frame.list _ (by decide) (by decide) hl) rfl
      (fun t => ?_) rfl rfl rfl
    ext : 1
    · exact hcall.frame.priority t
    · rfl
    · rfl
  cases a with
  | setup pid q =>
    obtain ⟨c, hsetup, rfl⟩ := map_eq_some_iff.mp hrun
    have hc := (semSetup_inv h.sem hsetup).1
    obtain ⟨tasks, htasks, rfl⟩ := map_eq_some_iff.mp hsetup
    obtain ⟨hinv, hnew, hpids, hlist, hprio, hothers⟩ := threadSchedsetup_frame h.sem.sched htasks
    have hclear : s.waitsem pid = none := by
      by_contra hwaits
      have hst := (h.sem.waits pid).mpr hwaits
      exact hnew ((h.sem.sched.registered pid).mpr (by simp [hst]))
    refine h.setup (p := tasks.schedPriority pid) hnew hc hpids hlist ?_
      (fun u hu => ?_) ?_ ?_ rfl ?_ rfl
    · exact update_eq_self_iff.mpr hclear.symm
    · simp [PiSys.rank, hu, hothers u hu]
    · simp [PiSys.rank]
    · unfold schedPriorityMax
      omega
    · exact update_eq_self_iff.mpr (h.known pid hnew).2.symm
  | block wait =>
    simp only [piSched] at hrun
    split at hrun
    · obtain ⟨c, hblock, rfl⟩ := map_eq_some_iff.mp hrun
      have hc := (semSched_inv h.sem hblock).1
      simp only [semSched] at hblock
      split at hblock
      · next hok =>
        obtain ⟨tasks, hstep, rfl⟩ := map_eq_some_iff.mp hblock
        simp only [Tasks.step, h.sem.sched.context] at hstep
        obtain ⟨l, hl, hcall, -⟩ :=
          upBlockTask_call h.sem.sched.lists h.sem.sched.context wait.2 hstep
        exact hkeep hcall (hl ▸ tasklist_ne_waitSem hok.2) hc
      · cases hblock
    · cases hrun
  | unblock tcb =>
    obtain ⟨c, hunblock, rfl⟩ := map_eq_some_iff.mp hrun
    have hc := (semSched_inv h.sem hunblock).1
    simp only [semSched] at hunblock
    split at hunblock
    · next hok =>
      obtain ⟨tasks, hstep, rfl⟩ := map_eq_some_iff.mp hunblock
      obtain ⟨l, hl, hcall, -⟩ := upUnblockTask_call h.sem.sched.lists hstep
      exact hkeep hcall (hl ▸ tasklist_ne_waitSem hok) hc
    · cases hunblock
  | setpriority tcb q => cases hrun
  | reprioritize tcb q =>
    simp only [piSched] at hrun
    split at hrun
    · next hq =>
      obtain ⟨c, hrepr, rfl⟩ := map_eq_some_iff.mp hrun
      have hc := (semSched_inv h.sem hrepr).1
      obtain ⟨tasks, hstep, rfl⟩ := map_eq_some_iff.mp hrepr
      obtain ⟨hcall, -⟩ := upReprioritizeRtr_call h.sem.sched.lists hstep
      have hsame : s.tasks.setPriority tcb q = s.tasks := by
        simp [Tasks.setPriority, hq]
      rw [hsame] at hcall
      exact hkeep hcall (by simp) hc
    · cases hrun
  | lock =>
    simp only [piSched] at hrun
    cases hrun
    exact h.lock
  | unlock =>
    obtain ⟨c, hunlock, rfl⟩ := map_eq_some_iff.mp hrun
    obtain ⟨tasks, hstep, rfl⟩ := map_eq_some_iff.mp hunlock
    exact h.unlock hstep
  | terminate tcb => cases hrun

/-- Every step that respects the conditions keeps the invariant. -/
theorem pi_step {a : PiAct} (hok : Orderly s a) (hexact : exact = true → Restores s a)
    (hstep : s.step a = some s') : PiInv exact s' := by
  cases a with
  | wait sem =>
    simp only [PiSys.step] at hstep
    split at hstep
    · next hfree => exact piWait_inv h hfree hok hexact hstep
    · cases hstep
  | waitReturn => exact piWaitReturn_inv h hstep
  | trywait sem =>
    simp only [PiSys.step] at hstep
    split at hstep
    · next hfree => exact piTrywait_inv h hfree hok hstep
    · cases hstep
  | post sem =>
    simp only [PiSys.step] at hstep
    split at hstep
    · next hfree => exact piPost_inv h hfree hexact hstep
    · cases hstep
  | postReturn => exact piPostReturn_inv h hstep
  | postIrq sem => exact piPostIrq_inv h hstep
  | interrupted tcb errcode => exact piWaitirq_inv h hok hstep
  | signalled tcb =>
    simp only [PiSys.step] at hstep
    split at hstep
    · exact piWaitirq_inv h hok.1 hstep
    · cases hstep
  | sched a => exact piSched_inv h hstep

end

theorem piStart_inv {init : Nat → Nat} (hinit : ∀ sem, init sem ≤ 0x7fff) :
    PiInv exact (piStart init) where
  sem := semStart_inv hinit
  priority_le t := by simp [piStart, semStart, osStart]
  nodup k := by simp [piStart, PiSys.holderTcbs]
  holder k h hh := by simp [piStart] at hh
  held t := .inl rfl
  posting t k base ht := by simp [piStart] at ht
  waiter t ht := by simp [piStart, semStart] at ht
  known t ht := ⟨rfl, rfl⟩
  ranked hexact k t ht := by simp [piStart, PiSys.holderTcbs] at ht
  unclaimed t ht := ⟨⟨le_rfl, by simp [piStart]⟩, Multiset.zero_le _,
    fun _ => by simp [above, Rank.recorded, piStart, semStart, osStart]⟩
  claimed t k ht := by simp [piStart] at ht

end NbLot.Source.Sem
