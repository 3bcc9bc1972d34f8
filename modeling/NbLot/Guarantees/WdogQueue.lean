import NbLot.Guarantees.WdogTiming

/-!
# The watchdog queue in every reachable state

Between any two steps of a run, also inside `wd_expiration`, the ACTIVE flags and the
queue agree, the lags are non-negative and their sums fit into an `int`, and
`wd_gettime` is the number of ticks after which the watchdog is called if it is left
alone from then on.
-/
namespace NbLot.Guarantees.WdogQueue
open Source.Wdog Lib DeltaList Lib.Transition Guarantees.WdogTiming List

/-- The queue as the source describes it. The sums are the values `now` takes in wd_start
and `delay` in wd_gettime. -/
structure Consistent (s : WdSys) : Prop where
  flag : ∀ w, (s.wd.wdog w).isActive = true ↔ w ∈ s.wd.activelist
  once : s.wd.activelist.Nodup
  lags : ∀ w ∈ s.wd.activelist, 0 ≤ s.wd.lag w
  head : s.expiring = false → ∀ w ∈ s.wd.activelist.head?, 1 ≤ s.wd.lag w
  sums : ∀ front back, s.wd.activelist = front ++ back → (front.map s.wd.lag).sum ≤ 2 ^ 31 - 1
  gettime : ∀ w ∈ s.wd.activelist, ∀ acts, StepsMeet WdSys.step WdSys.Legal s acts →
    ∃ t later, run WdSys.step s acts = some t ∧ t.log = later ++ s.log ∧
      (Undisturbed w later →
        OnTime t w (s.wd.call w) (s.ticks + wdGettime s.wd w) later)

theorem gettimeLoop_mem (lag : Nat → Int) {w : Nat} (start : Int) {l : List Nat} (hw : w ∈ l) :
    (w, gettimeLoop lag w start l) ∈ times start (l.map fun x => (x, lag x)) := by
  induction l generalizing start with
  | nil => cases hw
  | cons c rest ih =>
    simp only [gettimeLoop]
    by_cases hc : c = w
    · rw [if_pos hc, hc]
      exact mem_cons_self
    · rw [if_neg hc]
      exact mem_cons_of_mem _ (ih _ ((mem_cons.mp hw).resolve_left (Ne.symm hc)))

theorem total_entries (lag : Nat → Int) (l : List Nat) :
    total (l.map fun x => (x, lag x)) = (l.map lag).sum := by
  induction l with
  | nil => rfl
  | cons c rest ih => simp only [map_cons, total, sum_cons, ih]

theorem sum_front_le {wd : WdState} (q : Queue wd) (front back : List Nat)
    (h : wd.activelist = front ++ back) : (front.map wd.lag).sum ≤ int32Max := by
  have hbound := q.bound
  have hlags := q.lags
  unfold WdState.entries at hbound
  rw [h] at hlags
  rw [total_entries, h, map_append, sum_append] at hbound
  have hback : 0 ≤ (back.map wd.lag).sum := by
    rw [← total_entries]
    apply total_nonneg
    intro e he
    obtain ⟨w, hw, hwe⟩ := mem_map.mp he
    rw [← hwe]
    exact hlags w (mem_append_right front hw)
  omega

theorem wdGettime_armed {s : WdSys} (inv : WdInv s) (w : Nat) (hw : w ∈ s.wd.activelist) :
    ∃ st, armed s.log w = some st ∧ st.due = s.ticks + wdGettime s.wd w ∧
      s.wd.call w = st.call := by
  have hnull : w ≠ 0 := fun heq => inv.queue.null (heq ▸ hw)
  have hloop := gettimeLoop_mem s.wd.lag s.ticks hw
  have hshift : ∀ (start : Int) (l : List Nat), w ∈ l →
      gettimeLoop s.wd.lag w (s.ticks + start) l = s.ticks + gettimeLoop s.wd.lag w start l := by
    intro start l hl
    induction l generalizing start with
    | nil => cases hl
    | cons c rest ih =>
      simp only [gettimeLoop]
      split
      · omega
      · rename_i hc
        rw [Int.add_assoc]
        exact ih _ ((mem_cons.mp hl).resolve_left (Ne.symm hc))
  obtain ⟨st, hst, hdue, hcall⟩ := inv.timetable.agenda _ hloop
  refine ⟨st, hst, ?_, hcall⟩
  have h0 := hshift 0 s.wd.activelist hw
  unfold wdGettime
  rw [if_pos ⟨hnull, (inv.queue.flag w).mpr hw⟩, ← h0]
  exact hdue.symm

theorem consistent_of_inv {s : WdSys} (inv : WdInv s) : Consistent s := by
  refine ⟨inv.queue.flag, inv.queue.nodup, inv.queue.lags, ?_, ?_, ?_⟩
  · intro hexp w hw
    apply inv.head hexp (w, s.wd.lag w)
    unfold WdState.entries
    rw [head?_map, hw]
    rfl
  · intro front back h
    exact sum_front_le inv.queue front back h
  · intro w hw acts hlegal
    obtain ⟨st, hst, hdue, hcall⟩ := wdGettime_armed inv w hw
    obtain ⟨t, hrun, inv'⟩ := progress_run (fun s a inv h => wd_step inv a h) s acts inv hlegal
    obtain ⟨later, hlater⟩ := run_log s t acts hrun
    refine ⟨t, later, hrun, hlater, ?_⟩
    intro hleft
    rw [hcall, ← hdue]
    exact on_time inv' st hlater hst hleft

/-- Every run of legal calls, ticks and passes of wd_expiration goes through and ends in a
state with a consistent queue. -/
theorem watchdog_queue_consistent (acts : List WdAct)
    (hlegal : StepsMeet WdSys.step WdSys.Legal wdBoot acts) :
    ∃ s, run WdSys.step wdBoot acts = some s ∧ Consistent s := by
  obtain ⟨s, hrun, inv⟩ := progress_run (fun s a inv h => wd_step inv a h) wdBoot acts wdBoot_inv
    hlegal
  exact ⟨s, hrun, consistent_of_inv inv⟩

/-- A run that stops inside wd_expiration, after a deletion by a watchdog function. -/
def deletedByCallback : List WdAct :=
  [.wdStatic 100, .wdCreate false 0, .wdStart 100 (2 ^ 31 - 1) 7 [], .wdStart 1 0 8 [],
    .tick, .expire, .wdDelete 1, .wdStart 100 3 7 [1, 2]]

theorem watchdog_queue_consistent_callback :
    StepsMeet WdSys.step WdSys.Legal wdBoot deletedByCallback ∧
      ∃ s, run WdSys.step wdBoot deletedByCallback = some s ∧ Consistent s := by
  have hlegal : StepsMeet WdSys.step WdSys.Legal wdBoot deletedByCallback := by
    decide +kernel
  exact ⟨hlegal, watchdog_queue_consistent deletedByCallback hlegal⟩

end NbLot.Guarantees.WdogQueue
