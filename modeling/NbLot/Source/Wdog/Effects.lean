import NbLot.Source.Wdog.System

/-!
# What a step means for the owner of a watchdog

A component that owns a watchdog shares the queue with all others. A step that does not
name its watchdog leaves the start in effect alone, and a watchdog function is called
when the start in effect is due, with the parameters given there.
-/
namespace NbLot.Source.Wdog
open Lib DeltaList Function

/-- The call is made with this watchdog. -/
def WdAct.Names (w : Nat) : WdAct → Prop
  | .wdStatic x => x = w
  | .wdStart x _ _ _ => x = w
  | .wdCancel x => x = w
  | .wdDelete x => x = w
  | _ => False

instance (w : Nat) : ∀ a : WdAct, Decidable (a.Names w)
  | .wdStatic x => inferInstanceAs (Decidable (x = w))
  | .wdStart x _ _ _ => inferInstanceAs (Decidable (x = w))
  | .wdCancel x => inferInstanceAs (Decidable (x = w))
  | .wdDelete x => inferInstanceAs (Decidable (x = w))
  | .wdCreate _ _ => .isFalse not_false
  | .tick => .isFalse not_false
  | .expire => .isFalse not_false
  | .leave => .isFalse not_false

variable {s t : WdSys} {w func : Nat} {a : WdAct} {parms : List Nat} {delay : Int} {st : Start}

/-- A watchdog that is not named stays as it was started, and stays live. -/
theorem step_other (h : s.step a = some t) (hnames : ¬a.Names w) (hexpire : a ≠ .expire) :
    armed t.log w = armed s.log w ∧ (s.live w = true → t.live w = true) := by
  cases a with
  | wdStatic x =>
    cases h
    exact ⟨rfl, (update_of_ne (Ne.symm hnames) ..).trans⟩
  | wdCreate irq heap =>
    simp only [WdSys.step] at h
    split at h <;> cases h
    · exact ⟨rfl, id⟩
    · refine ⟨rfl, fun hlive => ?_⟩
      simp only [update_apply]
      split
      · rfl
      · exact hlive
  | wdStart x delay func parms =>
    simp only [WdSys.step] at h
    split at h <;> cases h
    · exact ⟨rfl, id⟩
    · exact ⟨armed_other _ _ (Ne.symm hnames), id⟩
  | wdCancel x =>
    simp only [WdSys.step] at h
    split at h <;> cases h
    · exact ⟨rfl, id⟩
    · exact ⟨armed_other _ _ (Ne.symm hnames), id⟩
  | wdDelete x =>
    simp only [WdSys.step] at h
    split at h <;> cases h
    exact ⟨armed_other _ _ (Ne.symm hnames),
      ((update_of_ne (Ne.symm hnames) ..).trans)⟩
  | tick =>
    simp only [WdSys.step] at h
    split at h
    · cases h
    · split at h <;> cases h <;> exact ⟨rfl, id⟩
  | expire => exact absurd rfl hexpire
  | leave =>
    simp only [WdSys.step] at h
    split at h <;> cases h
    exact ⟨rfl, id⟩

theorem step_ticks (h : s.step a = some t) :
    t.ticks = if a = .tick then s.ticks + 1 else s.ticks := by
  cases a with
  | wdStatic x => cases h; rfl
  | tick =>
    simp only [WdSys.step] at h
    split at h
    · cases h
    · split at h <;> cases h <;> rfl
  | _ =>
    simp only [WdSys.step] at h
    split at h <;> cases h <;> rfl

/-- The watchdog whose function is called is due, and called as it was started. -/
theorem expire_ran (inv : WdInv s) (h : s.step .expire = some t) :
    ∃ st, armed s.log (expireHead s.wd).2 = some st ∧ (s.ticks : Int) = st.due ∧
      s.wd.call (expireHead s.wd).2 = st.call ∧ t.live = s.live ∧
      t.log = ⟨s.ticks, (expireHead s.wd).2, .ran st.call⟩ :: s.log := by
  by_cases hready : s.expiring = true ∧ headExpired s.wd = true
  · obtain ⟨t', hstep, inv', -⟩ := step_expire inv hready
    simp only [WdSys.step, if_pos hready] at h hstep
    cases h
    cases hstep
    obtain ⟨st, hst, hdue, hcall, -⟩ := inv'.timetable.history.1
    exact ⟨st, hst, hdue, hcall, rfl, by rw [← hcall]; rfl⟩
  · rw [WdSys.step, if_neg hready] at h
    cases h

/-- A start that is not refused is in effect. -/
theorem start_armed (h : s.step (.wdStart w delay func parms) = some t) (hw : w ≠ 0)
    (hparms : parms.length ≤ maxWdogParms) (h0 : 0 ≤ delay) :
    armed t.log w = some ⟨s.log.length, s.ticks, delay, (func, parms)⟩ ∧ t.live = s.live := by
  have haccepted : ¬(w = 0 ∨ maxWdogParms < parms.length ∨ delay < 0) := by omega
  simp only [WdSys.step, wdStart, if_neg haccepted] at h
  split at h
  · cases h
  · next heq =>
    split at heq <;> cases heq
  · cases h
    simp [armed, WdSys.event]

theorem delete_armed (h : s.step (.wdDelete w) = some t) : armed t.log w = none := by
  simp only [WdSys.step] at h
  split at h <;> cases h
  simp [armed, WdSys.event]

/-- Only `wd_start` of a watchdog makes it armed. -/
theorem armed_before (h : s.step a = some t) (hexpire : a ≠ .expire)
    (hcall : ∀ delay, a ≠ .wdStart w delay st.call.1 st.call.2) (harmed : armed t.log w = some st) :
    armed s.log w = some st := by
  by_cases hnames : a.Names w
  · cases a with
    | wdStatic x =>
      cases h
      exact harmed
    | wdStart x delay func parms =>
      obtain rfl : x = w := hnames
      simp only [WdSys.step] at h
      split at h <;> cases h
      · exact harmed
      · simp only [armed, WdSys.event] at harmed
        cases harmed
        exact absurd rfl (hcall delay)
    | wdCancel x =>
      obtain rfl : x = w := hnames
      simp only [WdSys.step] at h
      split at h <;> cases h
      · exact harmed
      · simp [armed, WdSys.event] at harmed
    | wdDelete x =>
      obtain rfl : x = w := hnames
      rw [delete_armed h] at harmed
      cases harmed
    | _ => cases hnames
  · rw [← (step_other h hnames hexpire).1, harmed]

section

variable (inv : WdInv s)
include inv

theorem create_live {irq : Bool} {heap : Nat} (hlegal : s.Legal (.wdCreate irq heap))
    (h : s.step (.wdCreate irq heap) = some t) (hmade : (wdCreate s.wd irq heap).2 ≠ 0) :
    s.live (wdCreate s.wd irq heap).2 = false ∧ t.live (wdCreate s.wd irq heap).2 = true ∧
      t.log = s.log := by
  simp only [WdSys.step, if_neg hmade] at h
  cases h
  refine ⟨?_, update_self .., rfl⟩
  simp only [wdCreate] at hmade ⊢
  split
  · cases hfree : s.wd.freelist with
    | nil => simp_all
    | cons x rest => exact (inv.handles.free x (by simp [hfree])).1
  · split
    · simp_all
    · next hheap => exact (hlegal hheap).1

theorem WdInv.call (h : s.step a = some t) (hlegal : s.Legal a) : WdInv t := by
  obtain ⟨t', hstep, inv'⟩ := wd_step inv a hlegal
  rw [h, Option.some.injEq] at hstep
  exact hstep ▸ inv'

/-- The steps of the timer interrupt are legal where they are possible. -/
theorem WdInv.timer (ha : a = .tick ∨ a = .expire ∨ a = .leave) (h : s.step a = some t) :
    WdInv t := by
  refine inv.call h ?_
  rcases ha with rfl | rfl | rfl
  · by_contra hnot
    rw [WdSys.step, if_pos ((Bool.not_eq_false _).mp hnot)] at h
    cases h
  · simp only [WdSys.step] at h
    split at h
    · assumption
    · cases h
  · simp only [WdSys.step] at h
    split at h
    · assumption
    · cases h

theorem WdInv.live_of_armed (h : armed s.log w = some st) : s.live w = true :=
  inv.handles.live w ((inv.timetable.armed w).mpr (by rw [h]; rfl))

/-- An armed watchdog is not overdue, and outside wd_expiration it is not yet due. -/
theorem WdInv.not_overdue (hst : armed s.log w = some st) :
    (s.ticks : Int) ≤ st.due ∧ (s.expiring = false → (s.ticks : Int) < st.due) := by
  have hmem : w ∈ s.wd.activelist := by
    rw [inv.timetable.armed, hst]
    rfl
  rw [← map_fst_entries, ← map_fst_times s.ticks] at hmem
  obtain ⟨e, he, hew⟩ := List.mem_map.mp hmem
  obtain ⟨st', hst', hdue, _⟩ := inv.timetable.agenda e he
  rw [hew, hst] at hst'
  cases hst'
  rw [← hdue]
  refine ⟨le_time _ inv.queue.lags_entries e he, ?_⟩
  intro hexp
  have hhead := inv.head hexp
  have hlags := inv.queue.lags_entries
  cases hentries : s.wd.entries with
  | nil =>
    rw [hentries] at he
    cases he
  | cons d rest =>
    rw [hentries] at he hlags hhead
    have hfirst : 1 ≤ d.2 := hhead d rfl
    simp only [times, List.mem_cons] at he
    cases he with
    | inl he =>
      rw [he]
      omega
    | inr he =>
      have := le_time _ (fun x hx => hlags x (List.mem_cons_of_mem _ hx)) e he
      omega

end

/-- The steps from one state to the other name this watchdog alone. -/
structure OnlyAt (w : Nat) (s t : WdSys) : Prop where
  ticks : t.ticks = s.ticks
  live : ∀ x, x ≠ w → s.live x = true → t.live x = true
  armed : ∀ x, x ≠ w → armed t.log x = armed s.log x

theorem OnlyAt.trans {u : WdSys} (h : OnlyAt w s t) (h' : OnlyAt w t u) : OnlyAt w s u where
  ticks := h'.ticks.trans h.ticks
  live := fun x hx hlive => h'.live x hx (h.live x hx hlive)
  armed := fun x hx => (h'.armed x hx).trans (h.armed x hx)

theorem step_onlyAt (h : s.step a = some t) (hnames : ∀ x, a.Names x → w = x) (htick : a ≠ .tick)
    (hexpire : a ≠ .expire) : OnlyAt w s t where
  ticks := (step_ticks h).trans (if_neg htick)
  live := fun x hx => (step_other h (fun hn => hx (hnames x hn).symm) hexpire).2
  armed := fun x hx => (step_other h (fun hn => hx (hnames x hn).symm) hexpire).1

theorem expire_onlyAt (inv : WdInv s) (h : s.step .expire = some t) :
    OnlyAt (expireHead s.wd).2 s t := by
  obtain ⟨st, -, -, -, hlive, hlog⟩ := expire_ran inv h
  refine ⟨step_ticks h, fun x _ hx => hlive ▸ hx, fun x hx => ?_⟩
  rw [hlog]
  exact armed_other _ _ hx

theorem cancel_armed (inv : WdInv s) (h : s.step (.wdCancel w) = some t) :
    armed t.log w = none ∧ t.live = s.live := by
  by_cases hw : w ∈ s.wd.activelist
  · obtain ⟨wd, hcancel, -⟩ := wdCancel_active inv.queue hw
    simp only [WdSys.step, hcancel] at h
    cases h
    simp [Wdog.armed, WdSys.event]
  · simp only [WdSys.step, wdCancel_inactive inv.queue hw] at h
    cases h
    rw [inv.timetable.armed] at hw
    exact ⟨by simpa using hw, rfl⟩

end NbLot.Source.Wdog
