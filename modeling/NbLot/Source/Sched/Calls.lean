import NbLot.Source.Sched.Ops

/-!
# What a call of the scheduler leaves

`Call` is what every function that returns guarantees to its caller, from any state of
the task lists: the lists hold what they should, nothing but the lists of ready-to-run
tasks (and one waiting list) has changed, no task is lost, the CPU runs the head of the
ready-to-run list if it did before, and the IDLE task stays at its end.
-/
namespace NbLot.Source.Sched
open List

/-- The guarantee of a function that moves tasks between the ready-to-run lists and the
waiting list `l`. -/
structure Call (l : Option TaskList) (s s' : Tasks) : Prop where
  lists : TaskLists s'
  frame : Frame l s s'
  valid : ∀ u, s'.taskState u = .invalid ↔ s.taskState u = .invalid
  context : s.thisTask = some s.context → s'.thisTask = some s'.context
  idle : IdleLast s → IdleLast s'

variable {s s' s₁ : Tasks} {t rtcb p : Nat} {b : Bool} {st : TState}

/-- The blocked states have lists of their own. -/
theorem tasklist_of_isBlocked (h : st.isBlocked = true) :
    ∃ l, st.tasklist = some l ∧ l ≠ .readytorun ∧ l ≠ .pendingtasks := by
  cases st <;> simp [TState.isBlocked, TState.tasklist] at h ⊢

theorem thisTask_take_of_ne {l : TaskList} (hl : l ≠ .readytorun) :
    (s.take t l).thisTask = s.thisTask := by
  simp [Tasks.thisTask, Tasks.take, Ne.symm hl]

theorem TaskLists.thisTask_unready (h : TaskLists s) (hne : s.thisTask ≠ some t) :
    (s.unready t).thisTask = s.thisTask := by
  cases hlist : s.list .readytorun with
  | nil => exact absurd hlist h.occupied
  | cons r rest =>
    have hr : r ≠ t := fun heq => hne (by simp [Tasks.thisTask, hlist, heq])
    cases rest with
    | nil => simp [Tasks.unready, Tasks.take, Tasks.thisTask, hlist, hr]
    | cons nxttcb rest => simp [Tasks.unready, Tasks.take, Tasks.thisTask, hlist, hr]

theorem context_unready : (s.unready t).context = s.context := by
  unfold Tasks.unready
  split
  · split <;> rfl
  · rfl

theorem context_enlist : (s.enlist rtcb t).context = s.context := by
  unfold Tasks.enlist Tasks.makeReady
  split
  · rfl
  · split <;> rfl

theorem thisTask_enlist (hthis : s.thisTask = some rtcb) :
    (s.enlist rtcb t).thisTask =
      some (if s.Outranks t rtcb ∧ ¬ 0 < s.lockcount rtcb then t else rtcb) := by
  unfold Tasks.enlist
  split
  · next hlock =>
    rw [if_neg (by simp [hlock.1]), ← hthis]
    exact thisTask_enqueue_of_ne (t := t) (l := .pendingtasks) (by decide)
  · next hlock =>
    have hiff : s.Outranks t rtcb ∧ ¬ 0 < s.lockcount rtcb ↔ s.Outranks t rtcb :=
      ⟨fun h => h.1, fun h => ⟨h, fun hpos => hlock ⟨hpos, h⟩⟩⟩
    have hhead := thisTask_enqueue (t := t) hthis
    simp only [hiff]
    unfold Tasks.makeReady
    split
    · next hout => simpa [Tasks.thisTask, hout] using hhead
    · next hout => simpa [Tasks.thisTask, hout] using hhead

theorem IdleLast.switchcontext (h : IdleLast s) : IdleLast (s.switchcontext b) :=
  ⟨h.last, h.lowest, h.ranked⟩

theorem thisTask_switchcontext (hthis : s'.thisTask = some rtcb)
    (hkept : b = false → rtcb = s'.context) :
    (s'.switchcontext b).thisTask = some (s'.switchcontext b).context := by
  change s'.thisTask = _
  cases b with
  | true => simp [hthis]
  | false => simp [hthis, hkept rfl]

theorem schedMergepending_call (h : TaskLists s) (hrun : schedMergepending s = some (s', b)) :
    TaskLists s' ∧ Frame none s s' ∧ (∀ u, s'.taskState u = .invalid ↔ s.taskState u = .invalid) ∧
      s'.context = s.context ∧ (b = false → s'.thisTask = s.thisTask) ∧
      (IdleLast s → IdleLast s') := by
  obtain ⟨rfl, hret⟩ := schedMergepending_some h hrun
  refine ⟨h.readyAll rfl, frame_readyAll, fun u => h.invalid_readyAll rfl, ?_, hret,
    fun hidle => hidle.readyAll h rfl⟩
  have hctx : ∀ (pending : List Nat) (s : Tasks), (s.readyAll pending).context = s.context := by
    intro pending
    induction pending with
    | nil => exact fun _ => rfl
    | cons ptcb pending ih =>
      intro s
      unfold Tasks.readyAll
      split
      · rfl
      · rw [ih]
        unfold Tasks.makeReady
        split <;> rfl
  exact hctx _ s

theorem upReleasePending_call (h : TaskLists s) (hrun : upReleasePending s = some s') :
    Call none s s' := by
  unfold upReleasePending at hrun
  split at hrun
  · cases hrun
  · next s₁ merged hmerge =>
    cases hrun
    obtain ⟨hlists, hframe, hvalid, hctx, hthis, hidle⟩ := schedMergepending_call h hmerge
    refine ⟨hlists.switchcontext, hframe.trans frame_switchcontext, hvalid, fun hold => ?_,
      fun hlast => (hidle hlast).switchcontext⟩
    obtain ⟨r, hr⟩ := hlists.thisTask_some
    refine thisTask_switchcontext hr fun hb => ?_
    rw [hthis hb, hold, Option.some.injEq] at hr
    rw [hctx, hr]

/-- The pending tasks are merged if there are any, and the context is switched if the
head may have changed. -/
theorem settle_call {l : Option TaskList} (h : TaskLists s₁) (hframe : Frame l s s₁)
    (hvalid : ∀ u, s₁.taskState u = .invalid ↔ s.taskState u = .invalid)
    (hctx : s₁.context = s.context) (hkept : b = false → s₁.thisTask = s.thisTask)
    (hidle : IdleLast s → IdleLast s₁)
    (hrun : (if s₁.list .pendingtasks = [] then some (s₁.switchcontext b) else match schedMergepending s₁ with | none => none | some (s, merged) => some (s.switchcontext (b || merged))) = some s') :
    Call l s s' ∧ Frame none s₁ s' := by
  split at hrun
  · cases hrun
    refine ⟨⟨h.switchcontext, hframe.trans frame_switchcontext, hvalid, fun hold => ?_,
      fun hlast => (hidle hlast).switchcontext⟩, frame_switchcontext⟩
    obtain ⟨r, hr⟩ := h.thisTask_some
    refine thisTask_switchcontext hr fun hb => ?_
    rw [hkept hb, hold, Option.some.injEq] at hr
    rw [hctx, hr]
  · split at hrun
    · cases hrun
    · next s₂ merged hmerge =>
      cases hrun
      obtain ⟨h₂, hframe₂, hvalid₂, hctx₂, hthis₂, hidle₂⟩ := schedMergepending_call h hmerge
      refine ⟨⟨h₂.switchcontext, (hframe.trans hframe₂.weaken).trans frame_switchcontext,
        fun u => (hvalid₂ u).trans (hvalid u), fun hold => ?_,
        fun hlast => (hidle₂ (hidle hlast)).switchcontext⟩, hframe₂.trans frame_switchcontext⟩
      obtain ⟨r, hr⟩ := h₂.thisTask_some
      refine thisTask_switchcontext hr fun hb => ?_
      rw [Bool.or_eq_false_iff] at hb
      rw [hthis₂ hb.2, hkept hb.1, hold, Option.some.injEq] at hr
      rw [hctx₂, hctx, hr]

theorem schedAddblocked_some (h : TaskLists s) (hoff : s.taskState t = .invalid)
    (hst : st.isWait = true) (hrun : schedAddblocked s t st = some s') :
    ∃ l, st.tasklist = some l ∧ l ≠ .readytorun ∧ l ≠ .pendingtasks ∧ TaskLists s' ∧
      Frame (some l) s s' ∧ (∀ u, s'.taskState u = .invalid ↔ u ≠ t ∧ s.taskState u = .invalid) ∧
      s'.context = s.context ∧ s'.thisTask = s.thisTask ∧ (IdleLast s → IdleLast s') ∧
      (l.prioritized = true → schedPriorityMin ≤ s.schedPriority t) ∧
      s'.list l = if l.prioritized then (s.list l).orderedInsert s.Outranks t
        else s.list l ++ [t] := by
  unfold schedAddblocked at hrun
  have hnone := tasklist_eq_none.mpr hoff
  split at hrun
  · cases hrun
  · next l hl =>
    have hblocked : st.isBlocked = true := by cases st <;> simp [TState.isWait] at hst ⊢ <;> rfl
    obtain ⟨k, hk, hready, hpending⟩ := tasklist_of_isBlocked hblocked
    obtain rfl : l = k := by simpa [hl] using hk
    have hrunning : st ≠ .running := fun heq => by simp [heq, TState.isBlocked] at hblocked
    have hvalid : st ≠ .invalid := fun heq => by simp [heq, TState.isBlocked] at hblocked
    refine ⟨l, hl, hready, hpending, ?_⟩
    split at hrun
    · next hprior =>
      split at hrun
      · cases hrun
      · next s₁ c hadd =>
        obtain ⟨hmin, rfl, -⟩ := schedAddprioritized_some hadd
        cases hrun
        have hthis := thisTask_enqueue_of_ne (s := s) (t := t) hready
        refine ⟨h.enqueue hnone hl hprior hrunning hthis, frame_enqueue,
          fun u => invalid_enqueue hvalid, rfl, hthis,
          fun hlast => (hlast.enqueue hmin).setState, fun _ => hmin, ?_⟩
        simp [Tasks.enqueue, hprior]
    · next hprior =>
      have hprior : l.prioritized = false := by simpa using hprior
      cases hrun
      refine ⟨h.append hnone hl hprior (perm_append_singleton t _), ?_, ?_, rfl, ?_, ?_,
        by simp [hprior], ?_⟩
      · refine ⟨fun _ => rfl, fun _ => rfl, rfl, fun k _ _ hk => ?_⟩
        have : k ≠ l := fun heq => hk (congrArg some heq)
        simp [this]
      · intro u
        by_cases hu : u = t <;> simp [hu, hvalid]
      · simp [Tasks.thisTask, Ne.symm hready]
      · refine fun hlast => ⟨?_, hlast.lowest, fun u hu => hlast.ranked u ?_⟩
        · simpa [Ne.symm hready] using hlast.last
        · simpa [Ne.symm hpending] using hu
      · simp [hprior]

/-- `up_block_task`: the running task goes to the waiting list of its new state. -/
theorem upBlockTask_call (h : TaskLists s) (hthis : s.thisTask = some t) (hst : st.isWait = true)
    (hrun : upBlockTask s t st = some s') :
    ∃ l, st.tasklist = some l ∧ Call (some l) s s' ∧
      (l.prioritized = true → schedPriorityMin ≤ s.schedPriority t) ∧
      s'.list l = if l.prioritized then (s.list l).orderedInsert s.Outranks t
        else s.list l ++ [t] := by
  unfold upBlockTask at hrun
  split at hrun
  · cases hrun
  · next hready =>
    have hready : (s.taskState t).isReady = true := by simpa using hready
    split at hrun
    · cases hrun
    · next s₁ removed hremove =>
      obtain ⟨rfl, hrem, hnext⟩ := schedRemovereadytorun_some hremove
      have h₁ := h.unready hready hnext
      have hoff : (s.unready t).taskState t = .invalid := h.invalid_unready.mpr (.inl rfl)
      have hctx₁ := context_unready (s := s) (t := t)
      have hvalid : s.taskState t ≠ .invalid := fun heq => by simp [heq, TState.isReady] at hready
      split at hrun
      · cases hrun
      · next s₂ hadd =>
        obtain ⟨l, hl, hlr, hlp, h₂, hframe₂, hvalid₂, hctx₂, -, hidle₂, hmin₂, hlist₂⟩ :=
          schedAddblocked_some h₁ hoff hst hadd
        have hframe := (frame_unready).weaken.trans hframe₂
        have hinvalid : ∀ u, s₂.taskState u = .invalid ↔ s.taskState u = .invalid := by
          intro u
          rw [hvalid₂, h.invalid_unready]
          exact relisted_iff hvalid
        have hlist : s₂.list l = if l.prioritized then (s.list l).orderedInsert s.Outranks t
            else s.list l ++ [t] := by
          have hfr := frame_unready (s := s) (t := t)
          have hout : (s.unready t).Outranks = s.Outranks := by
            funext a b
            simp only [Tasks.Outranks, hfr.priority]
          rw [hlist₂, hfr.list l hlr hlp (by simp)]
          simp only [hout]
        have hidle : IdleLast s → IdleLast s₂ := by
          -- the IDLE task has no task behind it, so it was not the one to block
          intro hlast
          obtain ⟨nxttcb, rest, hlist⟩ := hnext hthis
          refine hidle₂ (hlast.unready fun heq => ?_)
          have hnodup := h.nodup .readytorun
          have hend := hlast.last
          rw [hlist] at hend
          rw [hlist, nodup_cons, heq] at hnodup
          exact hnodup.1 (mem_of_getLast? hend)
        obtain ⟨hcall, hmerged⟩ := settle_call h₂ hframe hinvalid (hctx₂.trans hctx₁)
          (fun hb => by simp [hrem.mpr hthis] at hb) hidle hrun
        have hmin : l.prioritized = true → schedPriorityMin ≤ s.schedPriority t := fun hl =>
          (hmin₂ hl).trans_eq (frame_unready.priority t)
        exact ⟨l, hl, hcall, hmin, (hmerged.list l hlr hlp (by simp)).trans hlist⟩

theorem upUnblockTask_some (hrun : upUnblockTask s t = some s') :
    ∃ l rtcb added, (s.taskState t).isBlocked = true ∧ (s.taskState t).tasklist = some l ∧
      l ≠ .readytorun ∧ l ≠ .pendingtasks ∧ s.thisTask = some rtcb ∧
      schedPriorityMin ≤ s.schedPriority t ∧
      s' = ((s.take t l).enlist rtcb t).switchcontext added ∧
      (added = true ↔ s.Outranks t rtcb ∧ ¬ 0 < s.lockcount rtcb) := by
  unfold upUnblockTask at hrun
  split at hrun
  · cases hrun
  · next hcheck =>
    have hblocked : (s.taskState t).isBlocked = true := by simpa using hcheck
    obtain ⟨l, hl, hlr, hlp⟩ := tasklist_of_isBlocked hblocked
    simp only [schedRemoveblocked, hl] at hrun
    split at hrun
    · cases hrun
    · next s₁ added hadd =>
      cases hrun
      obtain ⟨rtcb, hthis, hmin, rfl, hadded⟩ := schedAddreadytorun_some (s := s.take t l) hadd
      rw [thisTask_take_of_ne hlr] at hthis
      exact ⟨l, rtcb, added, hblocked, hl, hlr, hlp, hthis, hmin, rfl, hadded⟩

/-- `up_unblock_task` returns for a blocked task whose priority is a valid one. -/
theorem upUnblockTask_returns (h : TaskLists s) (hblocked : (s.taskState t).isBlocked = true)
    (hmin : schedPriorityMin ≤ s.schedPriority t) : ∃ s', upUnblockTask s t = some s' := by
  obtain ⟨l, hl, hlr, -⟩ := tasklist_of_isBlocked hblocked
  obtain ⟨rtcb, hthis⟩ := h.thisTask_some
  have hthis₁ : (s.take t l).thisTask = some rtcb := (thisTask_take_of_ne hlr).trans hthis
  have hadd : ∀ k, ∃ r, schedAddprioritized (s.take t l) t k = some r := by
    intro k
    have hcheck : ¬ (s.take t l).schedPriority t < schedPriorityMin := not_lt.mpr hmin
    exact ⟨_, if_neg hcheck⟩
  have hready : ∃ r, schedAddreadytorun (s.take t l) t = some r := by
    obtain ⟨⟨s₁, b₁⟩, hpending⟩ := hadd .pendingtasks
    obtain ⟨⟨s₂, b₂⟩, hreadytorun⟩ := hadd .readytorun
    simp only [schedAddreadytorun, hthis₁, hpending, hreadytorun]
    split
    · exact ⟨_, rfl⟩
    · cases b₂ <;> exact ⟨_, rfl⟩
  obtain ⟨⟨s₁, b₁⟩, hready⟩ := hready
  change schedAddreadytorun ((s.setList l ((s.list l).erase t)).setState t .invalid) t =
    some (s₁, b₁) at hready
  refine ⟨s₁.switchcontext b₁, ?_⟩
  simp [upUnblockTask, schedRemoveblocked, hblocked, hl, hready]

/-- `up_unblock_task`: a blocked task becomes ready to run. -/
theorem upUnblockTask_call (h : TaskLists s) (hrun : upUnblockTask s t = some s') :
    ∃ l, (s.taskState t).tasklist = some l ∧ Call (some l) s s' ∧
      s'.list l = (s.list l).erase t := by
  obtain ⟨l, rtcb, added, hblocked, hl, hlr, hlp, hthis, hmin, rfl, hadded⟩ :=
    upUnblockTask_some hrun
  have hvalid : s.taskState t ≠ .invalid := fun heq => by simp [heq, TState.isBlocked] at hblocked
  have hnot : s.taskState t ≠ .running := fun heq => by simp [heq, TState.isBlocked] at hblocked
  have h₁ := h.take hl hnot
  have hthis₁ : (s.take t l).thisTask = some rtcb := (thisTask_take_of_ne hlr).trans hthis
  have hoff : (s.take t l).taskState t = .invalid := by simp [Tasks.take]
  have h₂ := h₁.enlist (tasklist_eq_none.mpr hoff) hthis₁
  have hfr : Frame none (s.take t l) ((s.take t l).enlist rtcb t) := frame_enlist
  refine ⟨l, hl, ⟨h₂.switchcontext, ?_, fun u => ?_, fun hold => ?_, fun hlast => ?_⟩, ?_⟩
  · exact (frame_take.trans hfr.weaken).trans frame_switchcontext
  · change (Tasks.enlist _ _ _).taskState u = _ ↔ _
    rw [h₁.invalid_enlist hthis₁, invalid_take]
    exact relisted_iff hvalid
  · refine thisTask_switchcontext (thisTask_enlist hthis₁) fun hb => ?_
    rw [hold, Option.some.injEq] at hthis
    rw [if_neg (fun hc => by simp [hadded.mpr hc] at hb), context_enlist, ← hthis]
    rfl
  · have hne : t ≠ idle := by
      rintro rfl
      have hmem := (h.mem_list idle .readytorun).mp hlast.mem
      exact hlr (by simpa [hl] using hmem)
    exact ((hlast.take hne).enlist hmin).switchcontext
  · change (Tasks.enlist _ _ _).list l = _
    rw [hfr.list l hlr hlp (by simp)]
    simp [Tasks.take]

theorem unready_setPriority : (s.setPriority t p).unready t = (s.unready t).setPriority t p := by
  unfold Tasks.unready
  simp only [Tasks.setPriority_list]
  split
  · split <;> rfl
  · rfl

section

variable (h : TaskLists s)
include h

theorem relist_call {removed added : Bool} (hready : (s.taskState t).isReady = true)
    (hremove : schedRemovereadytorun s t = some (s₁, removed))
    (hadd : schedAddreadytorun (s₁.setPriority t p) t = some (s', added)) :
    TaskLists s' ∧ Frame none (s.setPriority t p) s' ∧
      (∀ u, s'.taskState u = .invalid ↔ s.taskState u = .invalid) ∧
      s'.context = s.context ∧ (xor removed added = false → s'.thisTask = s.thisTask) ∧
      (IdleLast (s.setPriority t p) → IdleLast s') := by
  obtain ⟨rfl, hrem, hnext⟩ := schedRemovereadytorun_some hremove
  obtain ⟨rtcb, hthis, hmin, rfl, hadded⟩ := schedAddreadytorun_some hadd
  have hvalid : s.taskState t ≠ .invalid := fun heq => by simp [heq, TState.isReady] at hready
  have h₁ := h.unready hready hnext
  have hoff : (s.unready t).taskState t = .invalid := h.invalid_unready.mpr (.inl rfl)
  have hnone := tasklist_eq_none.mpr hoff
  have h₂ : TaskLists ((s.unready t).setPriority t p) :=
    h₁.setPriority_off fun l hl => absurd hl (h₁.not_mem hnone)
  have hfr : Frame none (s.setPriority t p) ((s.unready t).setPriority t p) := by
    rw [← unready_setPriority]
    exact frame_unready
  refine ⟨h₂.enlist hnone hthis, hfr.trans frame_enlist, fun u => ?_, ?_, fun hxor => ?_,
    fun hlast => ?_⟩
  · rw [h₂.invalid_enlist hthis]
    change u ≠ t ∧ (s.unready t).taskState u = _ ↔ _
    rw [h.invalid_unready]
    exact relisted_iff hvalid
  · rw [context_enlist]
    exact context_unready
  · rw [thisTask_enlist hthis]
    cases removed with
    | true =>
      -- the running task is the head again
      have hin : added = true := by simpa using hxor
      rw [if_pos (hadded.mp hin), hrem.mp rfl]
    | false =>
      have hout : added = false := by simpa using hxor
      rw [if_neg (fun hc => by simp [hadded.mpr hc] at hout), ← hthis]
      exact h.thisTask_unready (by simpa using hrem.mpr)
  · -- the task has a priority the IDLE task does not have
    have hp : schedPriorityMin ≤ p := by simpa using hmin
    have hne : t ≠ idle := by
      rintro rfl
      have hlow : p = 0 := by simpa using hlast.lowest
      rw [hlow] at hp
      cases hp
    have hun := hlast.unready hne
    rw [unready_setPriority] at hun
    exact hun.enlist hmin

/-- `up_reprioritize_rtr`: a ready-to-run task gets another priority. -/
theorem upReprioritizeRtr_call (hrun : upReprioritizeRtr s t p = some s') :
    Call none (s.setPriority t p) s' ∧ schedPriorityMin ≤ p ∧ (s.taskState t).isReady = true := by
  unfold upReprioritizeRtr at hrun
  split at hrun
  · cases hrun
  · next hcheck =>
    simp only [Bool.or_eq_true, Bool.not_eq_true', decide_eq_true_eq, not_or,
      Bool.not_eq_false, not_lt] at hcheck
    refine ⟨?_, hcheck.2, hcheck.1⟩
    split at hrun
    · cases hrun
    · next s₁ removed hremove =>
      split at hrun
      · cases hrun
      · next s₂ added hadd =>
        obtain ⟨h₂, hframe, hvalid, hctx, hthis, hidle⟩ := relist_call h hcheck.1 hremove hadd
        split at hrun
        · refine (settle_call (b := true) h₂ hframe hvalid hctx (by simp) hidle ?_).1
          exact hrun
        · next hxor =>
          cases hrun
          refine ⟨h₂, hframe, hvalid, fun hold => ?_, hidle⟩
          rw [hthis (by simpa using hxor), hctx]
          exact hold

theorem schedRunningSetpriority_call (hstate : s.taskState t = .running)
    (hrun : schedRunningSetpriority s t p = some s') : Call none (s.setPriority t p) s' := by
  unfold schedRunningSetpriority at hrun
  split at hrun
  · cases hrun
  · next nxttcb hnext =>
    split at hrun
    · exact (upReprioritizeRtr_call h hrun).1
    · next hp =>
      cases hrun
      obtain ⟨rest, hlist⟩ := head?_eq_some_iff.mp ((h.running t).mp hstate)
      rw [hlist] at hnext
      obtain ⟨rest, rfl⟩ := head?_eq_some_iff.mp hnext
      exact ⟨h.setPriority_running hlist (by omega),
        ⟨fun _ => rfl, fun _ => rfl, rfl, fun _ _ _ _ => rfl⟩, fun _ => Iff.rfl, id, id⟩

theorem schedReadytorunSetpriority_call (hstate : s.taskState t = .readytorun)
    (hrun : schedReadytorunSetpriority s t p = some s') : Call none (s.setPriority t p) s' := by
  unfold schedReadytorunSetpriority at hrun
  split at hrun
  · cases hrun
  · split at hrun
    · exact (upReprioritizeRtr_call h hrun).1
    · split at hrun
      · next s₁ hremove =>
        split at hrun
        · next s₂ hadd =>
          cases hrun
          obtain ⟨h₂, hframe, hvalid, hctx, hthis, hidle⟩ :=
            relist_call h (by simp [hstate, TState.isReady]) hremove hadd
          refine ⟨h₂, hframe, hvalid, fun hold => ?_, hidle⟩
          rw [hthis rfl, hctx]
          exact hold
        · cases hrun
      · cases hrun

/-- A blocked or pending task is put on its list again with the new priority. -/
theorem schedBlockedSetpriority_call (hstate : (s.taskState t).isReady = false)
    (hrun : schedBlockedSetpriority s t p = some s') :
    Call (s.taskState t).tasklist (s.setPriority t p) s' ∧
      s'.thisTask = s.thisTask ∧ (∀ u, s'.taskState u = s.taskState u) ∧
      ∀ l, (s.taskState t).tasklist = some l → l.prioritized = true →
        s'.list l = ((s.list l).erase t).orderedInsert (s.setPriority t p).Outranks t := by
  unfold schedBlockedSetpriority at hrun
  split at hrun
  · next hnone =>
    cases hrun
    refine ⟨⟨h.setPriority_off fun l hl => absurd hl (h.not_mem hnone),
      ⟨fun _ => rfl, fun _ => rfl, rfl, fun _ _ _ _ => rfl⟩, fun _ => Iff.rfl, id, id⟩, rfl,
      fun _ => rfl, ?_⟩
    simp [hnone]
  · next l hl =>
    have hready : l ≠ .readytorun := by
      rintro rfl
      cases hst : s.taskState t <;> simp [hst, TState.isReady, TState.tasklist] at hstate hl
    have hnot : s.taskState t ≠ .running := fun heq => by simp [heq, TState.isReady] at hstate
    split at hrun
    · next hprior =>
      split at hrun
      · cases hrun
      · next s₁ c hadd =>
        cases hrun
        obtain ⟨hmin, rfl, -⟩ := schedAddprioritized_some hadd
        have h₁ := h.take hl hnot
        have hoff : ((s.take t l).taskState t).tasklist = none := by
          simp [Tasks.take, TState.tasklist]
        have h₂ : TaskLists ((s.take t l).setPriority t p) :=
          h₁.setPriority_off fun k hk => absurd hk (h₁.not_mem hoff)
        have hthis : (((s.setList l ((s.list l).erase t)).setPriority t p).enqueue t l).thisTask
            = s.thisTask := by
          rw [thisTask_enqueue_of_ne hready]
          simp [Tasks.thisTask, Ne.symm hready]
        have h₃ := h₂.enqueue hoff hl hprior hnot ((thisTask_enqueue_of_ne hready).trans rfl)
        -- its state has not changed meanwhile
        have heq : ((s.setList l ((s.list l).erase t)).setPriority t p).enqueue t l =
            (((s.take t l).setPriority t p).enqueue t l).setState t (s.taskState t) := by
          refine Tasks.ext rfl rfl (funext fun u => ?_) rfl rfl rfl rfl rfl
          by_cases hu : u = t <;> simp [Tasks.enqueue, Tasks.take, hu]
        refine ⟨⟨heq ▸ h₃, ⟨fun _ => rfl, fun _ => rfl, rfl, fun k _ _ hk => ?_⟩,
          fun _ => Iff.rfl, hthis.trans, fun hlast => ?_⟩, hthis,
          fun _ => rfl, ?_⟩
        · have : k ≠ l := fun heq => hk (by rw [heq, hl])
          simp [Tasks.enqueue, this]
        · have hne : t ≠ idle := by
            rintro rfl
            have hmem := (h.mem_list idle .readytorun).mp hlast.mem
            exact hready (by simpa [hl] using hmem)
          rw [heq]
          exact (IdleLast.enqueue (hlast.take hne) hmin).setState
        · intro k hk _
          obtain rfl : l = k := by simpa [hl] using hk
          simp only [Tasks.enqueue, Tasks.arrive_list, Tasks.setList_list,
            Tasks.setPriority_list, Function.update_self]
          rfl
    · next hprior =>
      cases hrun
      refine ⟨⟨h.setPriority_off fun k hk => ?_,
        ⟨fun _ => rfl, fun _ => rfl, rfl, fun _ _ _ _ => rfl⟩, fun _ => Iff.rfl, id, id⟩, rfl,
        fun _ => rfl, ?_⟩
      · rw [h.mem_list, hl, Option.some.injEq] at hk
        simpa [← hk] using hprior
      · intro k hk hp
        obtain rfl : l = k := by simpa [hl] using hk
        exact absurd hp hprior

/-- `sched_setpriority`: the priority is out of range and nothing changed, or it is the
task's priority now. -/
theorem schedSetpriority_call {p : Int} (hrun : schedSetpriority s t p = some (s', b)) :
    (b = false ∧ s' = s) ∨ (b = true ∧ schedPriorityMin ≤ p ∧ p ≤ schedPriorityMax ∧
        Call (s.taskState t).tasklist (s.setPriority t p.toNat) s') := by
  unfold schedSetpriority at hrun
  split at hrun
  · cases hrun
    exact .inl ⟨rfl, rfl⟩
  · next hrange =>
    rw [not_or, not_lt, not_lt] at hrange
    obtain ⟨s₁, hset, heq⟩ := Option.map_eq_some_iff.mp hrun
    obtain ⟨rfl, rfl⟩ : s₁ = s' ∧ true = b := by simpa using heq
    refine .inr ⟨rfl, hrange.1, hrange.2, ?_⟩
    have hother : (s.taskState t).isReady = false →
        schedBlockedSetpriority s t p.toNat = some s₁ →
        Call (s.taskState t).tasklist (s.setPriority t p.toNat) s₁ :=
      fun hst hrun => (schedBlockedSetpriority_call h hst hrun).1
    split at hset
    · next hst =>
      have hcall := schedRunningSetpriority_call h hst hset
      exact ⟨hcall.lists, hcall.frame.weaken, hcall.valid, hcall.context, hcall.idle⟩
    · next hst =>
      have hcall := schedReadytorunSetpriority_call h hst hset
      exact ⟨hcall.lists, hcall.frame.weaken, hcall.valid, hcall.context, hcall.idle⟩
    · next hnr hnt =>
      refine hother ?_ hset
      cases hst : s.taskState t <;> simp_all [TState.isReady]

/-- A task that is not the running one, and gets no higher priority, does not become the
running one. -/
theorem schedSetpriority_thisTask {p : Int} (hthis : s.thisTask = some rtcb) (hne : t ≠ rtcb)
    (hp : p ≤ s.schedPriority rtcb) (hrun : schedSetpriority s t p = some (s', b)) :
    s'.thisTask = some rtcb := by
  unfold schedSetpriority at hrun
  split at hrun
  · cases hrun
    exact hthis
  · obtain ⟨s₁, hset, heq⟩ := Option.map_eq_some_iff.mp hrun
    obtain ⟨rfl, -⟩ : s₁ = s' ∧ true = b := by simpa using heq
    split at hset
    · next hst =>
      have := (h.running t).mp hst
      exact absurd (by simpa [hthis] using this.symm) hne
    · next hst =>
      have hle : ¬ s.schedPriority rtcb < p.toNat := by omega
      simp only [schedReadytorunSetpriority, hthis, if_neg hle] at hset
      split at hset
      · next s₂ hremove =>
        split at hset
        · next s₃ hadd =>
          cases hset
          obtain ⟨-, -, -, -, hkept, -⟩ :=
            relist_call h (by simp [hst, TState.isReady]) hremove hadd
          exact (hkept rfl).trans hthis
        · cases hset
      · cases hset
    · next hnr hnt =>
      have hst : (s.taskState t).isReady = false := by
        cases hst : s.taskState t <;> simp_all [TState.isReady]
      exact (schedBlockedSetpriority_call h hst hset).2.1.trans hthis

end

end NbLot.Source.Sched
