import NbLot.Source.Wdog.Effects

/-!
# Watchdogs run once, in time and in order

The log of a run has the starts, the stops (cancellations and deletions) and the calls
of the watchdog functions, the latest first. A start that is not followed by another
start or a stop of its watchdog is followed by exactly one call, made by the tick it is
due at; calls due at one tick are made in the order of the starts. The same holds
from any reached state on, with `wd_gettime` for the ticks that are left.
-/
namespace NbLot.Guarantees.WdogTiming
open Source.Wdog Lib DeltaList Lib.Transition List

/-- No event in the list restarts, cancels or deletes `w`. -/
def Undisturbed (w : Nat) (events : List WdEvent) : Prop :=
  ∀ e ∈ events, e.wdog = w → ∃ call, e.what = .ran call

/-- The events of one watchdog. -/
def eventsOf (w : Nat) (events : List WdEvent) : List WdEvent :=
  events.filter fun e => e.wdog = w

theorem Undisturbed.tail {w : Nat} {e : WdEvent} {events : List WdEvent}
    (h : Undisturbed w (e :: events)) : Undisturbed w events :=
  fun x hx => h x (mem_cons_of_mem e hx)

theorem History.tail (later earlier : List WdEvent) (h : History (later ++ earlier)) :
    History earlier := by
  induction later with
  | nil => exact h
  | cons e later ih => exact ih h.2

/-- An armed watchdog that is left alone is called at most once, when it is due. -/
theorem called_once {base : List WdEvent} {w : Nat} {st : Start} (hst : armed base w = some st)
    (later : List WdEvent) (hhist : History (later ++ base)) (hleft : Undisturbed w later) :
    (eventsOf w later = [] ∧ armed (later ++ base) w = some st) ∨
      (∃ r, eventsOf w later = [r] ∧ (r.tick : Int) = st.due ∧ r.what = .ran st.call) ∧
        armed (later ++ base) w = none := by
  induction later with
  | nil => exact .inl ⟨rfl, hst⟩
  | cons e later ih =>
    rw [cons_append] at hhist
    have hrest := ih hhist.2 hleft.tail
    by_cases he : e.wdog = w
    · obtain ⟨call, hcall⟩ := hleft e mem_cons_self he
      have hran := hhist.1
      rw [hcall, he] at hran
      obtain ⟨st', hst', hdue, hcall', _⟩ := hran
      have hself : armed (e :: later ++ base) w = none := by
        simp only [cons_append, armed, he, hcall, if_true]
      -- the call needs an armed watchdog, so it is the first
      cases hrest with
      | inl h =>
        rw [h.2] at hst'
        cases hst'
        refine .inr ⟨⟨e, ?_, hdue, by rw [hcall, hcall']⟩, hself⟩
        have hempty : later.filter (fun e => e.wdog = w) = [] := h.1
        simp only [eventsOf, filter_cons, he, decide_true, if_true, hempty]
      | inr h =>
        rw [h.2] at hst'
        cases hst'
    · have hevents : eventsOf w (e :: later) = eventsOf w later := by
        simp only [eventsOf, filter_cons, he, decide_false, Bool.false_eq_true, if_false]
      have harmed : armed (e :: later ++ base) w = armed (later ++ base) w :=
        armed_other e (later ++ base) (Ne.symm he)
      rw [hevents, harmed]
      exact hrest

/-- Of two watchdogs due at one tick the one started first is called first. -/
theorem called_in_order {earlier mid older : List WdEvent} (newer : List WdEvent) {e e' r' : WdEvent}
    {delay delay' : Int} (call call' : Nat × List Nat) (hwhat : e.what = .started delay call)
    (hwhat' : e'.what = .started delay' call') (hne : e.wdog ≠ e'.wdog)
    (hdue : (e.tick : Int) + delayTicks delay = e'.tick + delayTicks delay')
    (hhist : History (newer ++ r' :: older ++ e' :: mid ++ e :: earlier))
    (hr' : r'.wdog = e'.wdog) (hleft' : Undisturbed e'.wdog (newer ++ r' :: older))
    (hleft : Undisturbed e.wdog (newer ++ r' :: older ++ e' :: mid)) :
    ∃ r ∈ older ++ mid, r.wdog = e.wdog ∧ r.what = .ran call := by
  have hstart : armed (e :: earlier) e.wdog = some ⟨earlier.length, e.tick, delay, call⟩ := by
    simp only [armed, hwhat, if_true]
  have hstart' : armed (e' :: mid ++ e :: earlier) e'.wdog =
      some ⟨(mid ++ e :: earlier).length, e'.tick, delay', call'⟩ := by
    simp only [cons_append, armed, hwhat', if_true]
  have hcut : History (r' :: (older ++ e' :: mid ++ e :: earlier)) := by
    apply History.tail newer
    simpa [append_assoc] using hhist
  obtain ⟨call₁, hcall₁⟩ := hleft' r' (by simp) hr'
  have hran := hcut.1
  rw [hcall₁, hr'] at hran
  obtain ⟨st', hst', _, _, hfirst⟩ := hran
  -- the later start is the one in effect when its watchdog is called
  have hlater := called_once hstart' older
    (by simpa [append_assoc] using hcut.2)
    (fun x hx => hleft' x (mem_append_right _ (mem_cons_of_mem _ hx)))
  have hold : older ++ (e' :: mid ++ e :: earlier) = older ++ e' :: mid ++ e :: earlier := by simp
  rw [hold, hst'] at hlater
  have heq : st' = ⟨(mid ++ e :: earlier).length, e'.tick, delay', call'⟩ := by
    cases hlater with
    | inl h => exact Option.some.inj h.2
    | inr h => cases h.2
  have hfirstStart := called_once hstart (older ++ e' :: mid) hcut.2 (by
    intro x hx
    apply hleft x
    simp only [mem_append] at hx ⊢
    tauto)
  cases hfirstStart with
  | inl h =>
    have hindex := hfirst e.wdog _ hne h.2 (by rw [heq]; exact hdue)
    rw [heq] at hindex
    simp only [length_append, length_cons] at hindex
    omega
  | inr h =>
    obtain ⟨⟨r, hevents, _, hwhatr⟩, _⟩ := h
    have hmem : r ∈ eventsOf e.wdog (older ++ e' :: mid) := by
      rw [hevents]
      exact mem_singleton.mpr rfl
    simp only [eventsOf, mem_filter, mem_append, mem_cons, decide_eq_true_eq] at hmem
    refine ⟨r, ?_, hmem.2, hwhatr⟩
    rcases hmem.1 with h | h | h
    · exact mem_append_left _ h
    · rw [h] at hmem
      exact absurd hmem.2.symm hne
    · exact mem_append_right _ h

/-- Until the next tick no call adds a due watchdog, and each pass of wd_expiration
takes one out; so the passes are bounded by the watchdogs that were due. -/
theorem passes_bounded (s : WdSys) (inv : WdInv s) (acts : List WdAct)
    (hlegal : StepsMeet WdSys.step WdSys.Legal s acts) (htick : .tick ∉ acts) :
    acts.count .expire ≤ dueCount s.wd.entries := by
  induction acts generalizing s with
  | nil => exact Nat.zero_le _
  | cons a acts ih =>
    obtain ⟨ha, hrest⟩ := hlegal
    simp only [mem_cons, not_or] at htick
    by_cases hexpire : a = .expire
    · rw [hexpire] at ha hrest ⊢
      obtain ⟨t, hstep, hinv, hdue⟩ := step_expire inv ha
      rw [hstep] at hrest
      have hle := ih t hinv hrest htick.2
      rw [count_cons_self]
      omega
    · obtain ⟨t, hstep, hinv, hdue⟩ := step_call inv a ha (Ne.symm htick.1) hexpire
      rw [hstep] at hrest
      have hle := ih t hinv hrest htick.2
      rw [count_cons_of_ne hexpire]
      omega

theorem step_log (s t : WdSys) (a : WdAct) (h : s.step a = some t) :
    ∃ later, t.log = later ++ s.log := by
  cases a with
  | wdStatic w =>
    cases h
    exact ⟨[], rfl⟩
  | wdCreate irq heap =>
    simp only [WdSys.step] at h
    split at h <;> cases h <;> exact ⟨[], rfl⟩
  | wdStart w delay func parms =>
    simp only [WdSys.step] at h
    split at h <;> cases h
    · exact ⟨[], rfl⟩
    · exact ⟨[_], rfl⟩
  | wdCancel w =>
    simp only [WdSys.step] at h
    split at h <;> cases h
    · exact ⟨[], rfl⟩
    · exact ⟨[_], rfl⟩
  | wdDelete w =>
    simp only [WdSys.step] at h
    split at h <;> cases h
    exact ⟨[_], rfl⟩
  | tick =>
    simp only [WdSys.step] at h
    split at h
    · cases h
    · split at h <;> cases h <;> exact ⟨[], rfl⟩
  | expire =>
    simp only [WdSys.step] at h
    split at h <;> cases h
    exact ⟨[_], rfl⟩
  | leave =>
    simp only [WdSys.step] at h
    split at h <;> cases h
    exact ⟨[], rfl⟩

theorem run_log (s t : WdSys) (acts : List WdAct) (h : run WdSys.step s acts = some t) :
    ∃ later, t.log = later ++ s.log := by
  induction acts generalizing s with
  | nil =>
    cases h
    exact ⟨[], rfl⟩
  | cons a acts ih =>
    simp only [run] at h
    cases hstep : s.step a with
    | none =>
      rw [hstep] at h
      cases h
    | some u =>
      rw [hstep] at h
      obtain ⟨first, hfirst⟩ := step_log s u a hstep
      obtain ⟨later, hlater⟩ := ih u h
      exact ⟨later ++ first, by rw [hlater, hfirst, append_assoc]⟩

/-- The tick at which a watchdog started with this delay is due. -/
def dueTick (tick : Nat) (delay : Int) : Int := tick + max 1 (min (delay + 1) (2 ^ 31 - 1))

/-- The events of `w` say that it has been called once, at the tick `due`, or that it has
not been called and that tick is not over. -/
def OnTime (s : WdSys) (w : Nat) (call : Nat × List Nat) (due : Int) (events : List WdEvent) :
    Prop :=
  (eventsOf w events = [] ∧ (s.ticks : Int) ≤ due ∧ (s.expiring = false → (s.ticks : Int) < due)) ∨
    ∃ r, eventsOf w events = [r] ∧ (r.tick : Int) = due ∧ r.what = .ran call

theorem on_time {s : WdSys} (inv : WdInv s) {later base : List WdEvent} {w : Nat} (st : Start)
    (hlog : s.log = later ++ base) (hst : armed base w = some st) (hleft : Undisturbed w later) :
    OnTime s w st.call st.due later := by
  have hhist := inv.timetable.history
  rw [hlog] at hhist
  cases called_once hst later hhist hleft with
  | inl h =>
    rw [← hlog] at h
    exact .inl ⟨h.1, inv.not_overdue h.2⟩
  | inr h => exact .inr h.1

/-- What a run shows of the watchdogs started in it. -/
structure Timely (s : WdSys) : Prop where
  once : ∀ later earlier tick w delay call,
    s.log = later ++ ⟨tick, w, .started delay call⟩ :: earlier → Undisturbed w later →
      OnTime s w call (dueTick tick delay) later
  inOrder : ∀ newer older mid earlier tick tick' w w' delay delay' call call' r',
    s.log = newer ++ r' :: older ++ ⟨tick', w', .started delay' call'⟩ :: mid ++
      ⟨tick, w, .started delay call⟩ :: earlier →
    w ≠ w' → dueTick tick delay = dueTick tick' delay' → r'.wdog = w' →
    Undisturbed w' (newer ++ r' :: older) →
    Undisturbed w (newer ++ r' :: older ++ ⟨tick', w', .started delay' call'⟩ :: mid) →
      ∃ r ∈ older ++ mid, r.wdog = w ∧ r.what = .ran call
  ends : ∀ acts, StepsMeet WdSys.step WdSys.Legal s acts → .tick ∉ acts →
    acts.count .expire ≤ s.wd.activelist.length

theorem History.delay (later earlier : List WdEvent) (e : WdEvent) (delay : Int)
    (call : Nat × List Nat) (h : History (later ++ e :: earlier))
    (he : e.what = .started delay call) : 0 ≤ delay ∧ delay ≤ int32Max := by
  have hcut := (History.tail later (e :: earlier) h).1
  rw [he] at hcut
  exact hcut

theorem dueTick_eq (tick : Nat) {delay : Int} (h0 : 0 ≤ delay) (hmax : delay ≤ int32Max) :
    dueTick tick delay = tick + delayTicks delay := by
  have hticks := delayTicks_eq h0 hmax
  unfold dueTick
  unfold int32Max at hticks hmax
  omega

theorem timely_of_inv {s : WdSys} (inv : WdInv s) : Timely s := by
  have hhist := inv.timetable.history
  refine ⟨?_, ?_, ?_⟩
  · intro later earlier tick w delay call hlog hleft
    rw [hlog] at hhist
    obtain ⟨h0, hmax⟩ := History.delay later earlier _ delay call hhist rfl
    rw [dueTick_eq tick h0 hmax]
    apply on_time inv ⟨earlier.length, tick, delay, call⟩ hlog _ hleft
    simp only [armed, if_true]
  · intro newer older mid earlier tick tick' w w' delay delay' call call' r' hlog hne hdue hr'
      hleft' hleft
    rw [hlog] at hhist
    obtain ⟨h0, hmax⟩ := History.delay _ earlier _ delay call hhist rfl
    have hhist' := hhist
    rw [append_assoc] at hhist'
    obtain ⟨h0', hmax'⟩ := History.delay _ _ _ delay' call' hhist' rfl
    rw [dueTick_eq tick h0 hmax, dueTick_eq tick' h0' hmax'] at hdue
    exact called_in_order newer call call' rfl rfl hne hdue hhist hr'
      hleft' hleft
  · intro acts hlegal htick
    have hlength : s.wd.entries.length = s.wd.activelist.length := length_map _
    rw [← hlength]
    exact Nat.le_trans (passes_bounded s inv acts hlegal htick) dueCount_le_length

/-- Every run of legal calls, ticks and passes of wd_expiration goes through, and the
watchdogs started in it are called once, when they are due, in the order of their starts. -/
theorem watchdogs_run_on_time (acts : List WdAct)
    (hlegal : StepsMeet WdSys.step WdSys.Legal wdBoot acts) :
    ∃ s, run WdSys.step wdBoot acts = some s ∧ Timely s := by
  obtain ⟨s, hrun, inv⟩ := progress_run (fun s a inv h => wd_step inv a h) wdBoot acts wdBoot_inv
    hlegal
  exact ⟨s, hrun, timely_of_inv inv⟩

/-- Three watchdogs, two of them due at the same tick; the function of the first starts
it again and cancels the third. -/
def sharedTick : List WdAct :=
  [.wdStatic 100, .wdCreate false 0, .wdCreate true 0, .wdStart 100 1 7 [], .tick, .leave,
    .wdStart 1 0 8 [5], .wdStart 2 4 9 [], .tick, .expire, .wdStart 100 2 7 [], .wdCancel 2,
    .expire, .leave, .tick, .leave, .wdDelete 1]

theorem watchdogs_run_on_time_shared :
    StepsMeet WdSys.step WdSys.Legal wdBoot sharedTick ∧
      ∃ s, run WdSys.step wdBoot sharedTick = some s ∧ Timely s := by
  have hlegal : StepsMeet WdSys.step WdSys.Legal wdBoot sharedTick := by
    decide +kernel
  exact ⟨hlegal, watchdogs_run_on_time sharedTick hlegal⟩

end NbLot.Guarantees.WdogTiming
