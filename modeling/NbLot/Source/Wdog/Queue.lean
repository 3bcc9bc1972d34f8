import NbLot.Lib.DeltaList
import NbLot.Source.Wdog.Model

/-!
# The active queue as a delta list

Source: nuttx/sched/wdog/wd_start.c:271-380, wd_cancel.c:84-150, wd_delete.c:77-135.

`entries s` are the watchdogs on `g_wdactivelist` with their lags. Each call is described
by what it does to them: `wd_start` is the insertion of a delta list, `wd_cancel` its
removal. `Queue` is what holds of the list and of the ACTIVE flags between two calls.
-/
namespace NbLot.Source.Wdog
open Lib DeltaList List WdState

namespace WdState

def entries (s : WdState) : List (Nat × Int) := s.activelist.map fun w => (w, s.lag w)

/-- The function and parameters wd_expiration would call. -/
def call (s : WdState) (w : Nat) : Nat × List Nat := ((s.wdog w).func, (s.wdog w).parm)

variable (s : WdState) (w x : Nat) (v : Int) (b : Bool)

@[simp] theorem setLag_lag : (s.setLag w v).lag x = if x = w then v else s.lag x := by
  unfold lag setLag set
  by_cases h : x = w
  · simp [h]
  · simp [h]

@[simp] theorem setActive_lag : (s.setActive w b).lag x = s.lag x := by
  unfold lag setActive set
  by_cases h : x = w
  · simp [h]
  · simp [h]

@[simp] theorem setLag_isActive : ((s.setLag w v).wdog x).isActive = (s.wdog x).isActive := by
  unfold setLag set
  by_cases h : x = w
  · simp [h]
  · simp [h]

@[simp] theorem setActive_isActive :
    ((s.setActive w b).wdog x).isActive = if x = w then b else (s.wdog x).isActive := by
  unfold setActive set
  by_cases h : x = w
  · simp [h]
  · simp [h]

@[simp] theorem setLag_call : (s.setLag w v).call x = s.call x := by
  unfold call setLag set
  by_cases h : x = w
  · simp [h]
  · simp [h]

@[simp] theorem setActive_call : (s.setActive w b).call x = s.call x := by
  unfold call setActive set
  by_cases h : x = w
  · simp [h]
  · simp [h]

variable (func : Nat) (parms : List Nat)

@[simp] theorem setCall_lag : (s.setCall w func parms).lag x = s.lag x := by
  unfold lag setCall set
  by_cases h : x = w
  · simp [h]
  · simp [h]

@[simp] theorem setCall_isActive :
    ((s.setCall w func parms).wdog x).isActive = (s.wdog x).isActive := by
  unfold setCall set
  by_cases h : x = w
  · simp [h]
  · simp [h]

@[simp] theorem setCall_call :
    (s.setCall w func parms).call x = if x = w then (func, parms) else s.call x := by
  unfold call setCall set
  by_cases h : x = w
  · simp [h]
  · simp [h]

@[simp] theorem setActive_entries : (s.setActive w b).entries = s.entries := by
  unfold entries
  simp only [setActive_lag]
  rfl

@[simp] theorem setCall_entries : (s.setCall w func parms).entries = s.entries := by
  unfold entries
  simp only [setCall_lag]
  rfl

@[simp] theorem setLag_activelist : (s.setLag w v).activelist = s.activelist := rfl

@[simp] theorem setActive_activelist : (s.setActive w b).activelist = s.activelist := rfl

@[simp] theorem setLag_freelist : (s.setLag w v).freelist = s.freelist := rfl

@[simp] theorem setActive_freelist : (s.setActive w b).freelist = s.freelist := rfl

variable (l : List Nat) (next : Option Nat)

@[simp] theorem setActivelist_lag : (s.setActivelist l).lag x = s.lag x := rfl

@[simp] theorem setActivelist_isActive :
    ((s.setActivelist l).wdog x).isActive = (s.wdog x).isActive := rfl

@[simp] theorem setActivelist_call : (s.setActivelist l).call x = s.call x := rfl

@[simp] theorem setActivelist_activelist : (s.setActivelist l).activelist = l := rfl

@[simp] theorem setActivelist_freelist : (s.setActivelist l).freelist = s.freelist := rfl

@[simp] theorem inherit_lag :
    (s.inherit next v).lag x = if next = some x then s.lag x + v else s.lag x := by
  cases next with
  | none => simp [inherit]
  | some n =>
    simp only [inherit]
    by_cases h : x = n
    · simp [h]
    · simp [h, Ne.symm h]

@[simp] theorem inherit_isActive : ((s.inherit next v).wdog x).isActive = (s.wdog x).isActive := by
  cases next with
  | none => rfl
  | some n => exact setLag_isActive s n x _

@[simp] theorem inherit_call : (s.inherit next v).call x = s.call x := by
  cases next with
  | none => rfl
  | some n => exact setLag_call s n x _

@[simp] theorem inherit_activelist : (s.inherit next v).activelist = s.activelist := by
  cases next with
  | none => rfl
  | some n => rfl

@[simp] theorem inherit_freelist : (s.inherit next v).freelist = s.freelist := by
  cases next with
  | none => rfl
  | some n => rfl

end WdState

theorem nextOf_mem (w : Nat) (l : List Nat) (x : Nat) (h : nextOf w l = some x) : x ∈ l := by
  induction l with
  | nil => cases h
  | cons c rest ih =>
    simp only [nextOf] at h
    split at h
    · exact mem_cons_of_mem c (mem_of_mem_head? h)
    · exact mem_cons_of_mem c (ih h)

theorem entries_removed (lag : Nat → Int) {w : Nat} {l : List Nat} (hnodup : l.Nodup) (hw : w ∈ l) :
    ((l.erase w).map fun x => (x, if nextOf w l = some x then lag x + lag w else lag x)) =
      removeLag w (l.map fun x => (x, lag x)) := by
  induction l with
  | nil => cases hw
  | cons c rest ih =>
    rw [nodup_cons] at hnodup
    by_cases hc : c = w
    · cases hc
      simp only [erase_cons_head, nextOf, map_cons, removeLag]
      cases rest with
      | nil => rfl
      | cons n rest =>
        simp only [head?_cons, Option.some.injEq, map_cons, if_true, push,
          List.cons.injEq, true_and]
        apply map_congr_left
        intro x hx
        have hne : n ≠ x := by
          intro heq
          rw [heq] at hnodup
          exact (nodup_cons.mp hnodup.2).1 hx
        rw [if_neg hne]
    · have hmem : w ∈ rest := (mem_cons.mp hw).resolve_left (Ne.symm hc)
      have hfirst : nextOf w rest ≠ some c := fun h => hnodup.1 (nextOf_mem w rest c h)
      rw [erase_cons_tail (by simpa using hc)]
      simp only [map_cons, nextOf, hc, if_false, hfirst, removeLag, ih hnodup.2 hmem]

/-- The loop past the shorter delays stops where a delta list inserts. -/
theorem advancePastShorter_spec (lag : Nat → Int) (delay : Int) (before : List Nat) (curr : Nat)
    (now : Int) (rest : List Nat) (c : Cursor)
    (hc : c = advancePastShorter lag delay before curr now rest) :
    ∃ mid, c.before = before ++ mid ∧ curr :: rest = mid ++ c.curr :: c.after ∧
      (delay < c.now → ∀ w : Nat,
        insertLag w (delay - (now - lag curr)) ((curr :: rest).map fun x => (x, lag x)) =
          (mid.map fun x => (x, lag x)) ++ (w, delay - (c.now - lag c.curr)) ::
            (c.curr, lag c.curr - (delay - (c.now - lag c.curr))) ::
              c.after.map fun x => (x, lag x)) ∧
      (¬ delay < c.now → c.after = [] ∧ ∀ w : Nat,
        insertLag w (delay - (now - lag curr)) ((curr :: rest).map fun x => (x, lag x)) =
          (mid.map fun x => (x, lag x)) ++ [(c.curr, lag c.curr), (w, delay - c.now)]) := by
  induction rest generalizing before curr now with
  | nil =>
    rw [hc]
    refine ⟨[], by simp [advancePastShorter], rfl, ?_, ?_⟩
    · intro hlt w
      simp only [advancePastShorter] at hlt
      simp only [advancePastShorter, map_cons, map_nil, insertLag, nil_append]
      rw [if_pos (by omega)]
    · intro hge
      simp only [advancePastShorter] at hge
      refine ⟨rfl, ?_⟩
      intro w
      have hlag : delay - (now - lag curr) - lag curr = delay - now := by omega
      simp only [advancePastShorter, map_cons, map_nil, insertLag, nil_append]
      rw [if_neg (by omega), hlag]
  | cons next rest ih =>
    by_cases hle : now ≤ delay
    · simp only [advancePastShorter, hle] at hc
      obtain ⟨mid, hbefore, hlist, hlt, hge⟩ := ih (before ++ [curr]) next (now + lag next) hc
      have hnot : ¬ delay - (now - lag curr) < lag curr := by omega
      have hlag : delay - (now - lag curr) - lag curr = delay - (now + lag next - lag next) := by
        omega
      refine ⟨curr :: mid, by rw [hbefore, append_assoc]; rfl, by rw [hlist]; rfl, ?_, ?_⟩
      · intro h w
        rw [map_cons, insertLag, if_neg hnot, hlag, hlt h w]
        rfl
      · intro h
        refine ⟨(hge h).1, ?_⟩
        intro w
        rw [map_cons, insertLag, if_neg hnot, hlag, (hge h).2 w]
        rfl
    · simp only [advancePastShorter, hle, if_false] at hc
      rw [hc]
      refine ⟨[], by simp, rfl, ?_, ?_⟩
      · intro hlt w
        simp only [map_cons, insertLag, map_nil, nil_append]
        rw [if_pos (by omega)]
      · intro hge
        simp only at hge
        omega

/-- With no negative lag at the head, the first loop of wd_start stops there. -/
theorem advanceToPositive_head (lag : Nat → Int) (head : Nat) (rest : List Nat)
    (h : 0 ≤ lag head) : advanceToPositive lag [] head 0 rest = ⟨[], head, rest, lag head⟩ := by
  cases rest with
  | nil => simp [advanceToPositive]
  | cons next rest =>
    have hnot : ¬ lag head < 0 := by omega
    simp [advanceToPositive, hnot]

section

variable (s : WdState)
include s

theorem enqueue_entries (w : Nat) (delay : Int) (hnodup : s.activelist.Nodup)
    (hw : w ∉ s.activelist) (hlag : ∀ x ∈ s.activelist, 0 ≤ s.lag x) :
    (enqueue s w delay).entries = insertLag w delay s.entries := by
  unfold enqueue WdState.entries
  cases hlist : s.activelist with
  | nil => simp [insertLag]
  | cons head rest =>
    rw [hlist] at hnodup hw hlag
    simp only [advanceToPositive_head s.lag head rest (hlag head mem_cons_self)]
    generalize hc : advancePastShorter s.lag delay [] head (s.lag head) rest = c
    obtain ⟨mid, hbefore, hsplit, hlt, hge⟩ :=
      advancePastShorter_spec s.lag delay [] head (s.lag head) rest c hc.symm
    rw [nil_append] at hbefore
    rw [Int.sub_self, Int.sub_zero] at hlt hge
    rw [hsplit] at hnodup hw
    simp only [nodup_append, nodup_cons, mem_cons, mem_append, not_or] at hnodup hw
    -- the lags of the other watchdogs are read unchanged
    have hother : ∀ (l : List Nat), (∀ x ∈ l, x ≠ w ∧ x ≠ c.curr) → ∀ u v : Int,
        (l.map fun x => (x, if x = w then u else if x = c.curr then v else s.lag x)) =
          l.map fun x => (x, s.lag x) := by
      intro l hl u v
      apply map_congr_left
      intro x hx
      rw [if_neg (hl x hx).1, if_neg (hl x hx).2]
    have hmid : ∀ x ∈ mid, x ≠ w ∧ x ≠ c.curr := by
      intro x hx
      refine ⟨?_, hnodup.2.2 x hx c.curr (.inl rfl)⟩
      intro heq
      rw [heq] at hx
      exact hw.1 hx
    by_cases h : delay < c.now
    · have hafter : ∀ x ∈ c.after, x ≠ w ∧ x ≠ c.curr := by
        intro x hx
        constructor
        · intro heq
          rw [heq] at hx
          exact hw.2.2 hx
        · intro heq
          rw [heq] at hx
          exact hnodup.2.1.1 hx
      rw [if_pos h, hlt h w]
      simp only [setLag_activelist, setLag_lag, setActivelist_activelist,
        setActivelist_lag, map_append, map_cons, hbefore, if_true,
        hother mid hmid, hother c.after hafter, if_neg (Ne.symm hw.2.1)]
    · obtain ⟨hnil, hins⟩ := hge h
      rw [if_neg h, hins w]
      simp only [hnil, setLag_activelist, setLag_lag,
        setActivelist_activelist, setActivelist_lag, map_append,
        map_cons, hbefore, if_neg (Ne.symm hw.2.1)]
      congr 1
      apply map_congr_left
      intro x hx
      rw [if_neg (hmid x hx).1]

theorem enqueue_isActive (w x : Nat) (delay : Int) :
    ((enqueue s w delay).wdog x).isActive = (s.wdog x).isActive := by
  unfold enqueue
  split
  · simp
  · simp only
    split
    · simp
    · split
      · simp
      · simp

theorem enqueue_call (w x : Nat) (delay : Int) : (enqueue s w delay).call x = s.call x := by
  unfold enqueue
  split
  · simp
  · simp only
    split
    · simp
    · split
      · simp
      · simp

theorem enqueue_freelist (w : Nat) (delay : Int) : (enqueue s w delay).freelist = s.freelist := by
  unfold enqueue
  split
  · rfl
  · simp only
    split
    · rfl
    · split
      · rfl
      · rfl

/-- What holds between two calls, and inside wd_expiration. -/
structure Queue (s : WdState) : Prop where
  nodup : s.activelist.Nodup
  flag : ∀ w, (s.wdog w).isActive = true ↔ w ∈ s.activelist
  null : 0 ∉ s.activelist
  lags : ∀ w ∈ s.activelist, 0 ≤ s.lag w
  bound : total s.entries ≤ int32Max

/-- `w` has been taken out of the queue, if it was there. -/
structure Stopped (s : WdState) (w : Nat) (s' : WdState) : Prop where
  entries : s'.entries = removeLag w s.entries
  isActive : ∀ x, (s'.wdog x).isActive = if x = w then false else (s.wdog x).isActive
  call : ∀ x, s'.call x = s.call x
  freelist : s'.freelist = s.freelist

/-- `w` has been taken out of the queue, if it was there, and put in with a new delay. -/
structure Started (s : WdState) (w : Nat) (delay : Int) (call : Nat × List Nat)
    (s' : WdState) : Prop where
  entries : s'.entries = insertLag w delay (removeLag w s.entries)
  isActive : ∀ x, (s'.wdog x).isActive = if x = w then true else (s.wdog x).isActive
  call : ∀ x, s'.call x = if x = w then call else s.call x
  freelist : s'.freelist = s.freelist

@[simp] theorem map_fst_entries : s.entries.map Prod.fst = s.activelist := by
  unfold WdState.entries
  rw [map_map]
  exact map_id _

end

variable {s s' : WdState} {w : Nat} {call : Nat × List Nat} {delay : Int}

theorem Queue.lags_entries (q : Queue s) : ∀ e ∈ s.entries, 0 ≤ e.2 := by
  intro e he
  obtain ⟨x, hx, hex⟩ := mem_map.mp he
  rw [← hex]
  exact q.lags x hx

theorem Queue.of_entries (hnodup : (s.entries.map Prod.fst).Nodup)
    (hflag : ∀ w, (s.wdog w).isActive = true ↔ w ∈ s.entries.map Prod.fst)
    (hnull : 0 ∉ s.entries.map Prod.fst) (hlags : ∀ e ∈ s.entries, 0 ≤ e.2)
    (hbound : total s.entries ≤ int32Max) : Queue s := by
  rw [map_fst_entries] at hnodup hnull
  refine ⟨hnodup, ?_, hnull, ?_, hbound⟩
  · intro w
    rw [hflag w, map_fst_entries]
  · intro w hw
    exact hlags (w, s.lag w) (mem_map.mpr ⟨w, hw, rfl⟩)

section

variable (q : Queue s)
include q

theorem Queue.stopped (h : Stopped s w s') : Queue s' := by
  have hkeys : s'.entries.map Prod.fst = s.activelist.erase w := by
    rw [h.entries, map_fst_removeLag, map_fst_entries]
  apply Queue.of_entries
  · rw [hkeys]
    exact q.nodup.erase w
  · intro x
    rw [hkeys, q.nodup.mem_erase_iff, h.isActive x, ← q.flag x]
    by_cases hx : x = w
    · simp [hx]
    · simp [hx]
  · rw [hkeys]
    exact fun hmem => q.null (mem_of_mem_erase hmem)
  · rw [h.entries]
    exact lag_removeLag w q.lags_entries
  · rw [h.entries]
    exact Int.le_trans (total_removeLag_le w q.lags_entries) q.bound

theorem Queue.started (h : Started s w delay call s') (hw : w ≠ 0) (h0 : 0 ≤ delay)
    (hmax : delay ≤ int32Max) : Queue s' := by
  have hkeys : (removeLag w s.entries).map Prod.fst = s.activelist.erase w := by
    rw [map_fst_removeLag, map_fst_entries]
  have hmem : ∀ x, x ∈ s'.entries.map Prod.fst ↔ x = w ∨ x ∈ s.activelist := by
    intro x
    rw [h.entries, mem_insertLag, hkeys]
    by_cases hx : x = w
    · simp [hx]
    · simp [hx]
  apply Queue.of_entries
  · rw [h.entries]
    apply nodup_insertLag
    · rw [hkeys]
      exact q.nodup.not_mem_erase
    · rw [hkeys]
      exact q.nodup.erase w
  · intro x
    rw [hmem, h.isActive x, ← q.flag x]
    by_cases hx : x = w
    · simp [hx]
    · simp [hx]
  · rw [hmem]
    exact fun hzero => hzero.elim (Ne.symm hw) q.null
  · rw [h.entries]
    exact lag_insertLag w delay h0 (lag_removeLag w q.lags_entries)
  · rw [h.entries]
    exact total_insertLag_le int32Max delay w hmax
      (Int.le_trans (total_removeLag_le w q.lags_entries) q.bound)

theorem wdCancel_active (hw : w ∈ s.activelist) :
    ∃ s', wdCancel s w = some (s', true) ∧ Stopped s w s' := by
  have hnull : w ≠ 0 := by
    intro heq
    rw [heq] at hw
    exact q.null hw
  unfold wdCancel
  rw [if_pos ⟨hnull, (q.flag w).mpr hw⟩, if_pos hw]
  refine ⟨_, rfl, ?_, ?_, ?_, ?_⟩
  · unfold WdState.entries
    simp only [setActive_activelist,
      setActive_lag, setActivelist_lag, inherit_lag]
    exact entries_removed s.lag q.nodup hw
  · intro x
    simp
  · intro x
    simp
  · simp

theorem wdCancel_inactive (hw : w ∉ s.activelist) : wdCancel s w = some (s, false) := by
  unfold wdCancel
  rw [if_neg]
  intro h
  exact hw ((q.flag w).mp h.2)

theorem Stopped.refl (hw : w ∉ s.activelist) : Stopped s w s := by
  refine ⟨?_, ?_, fun _ => rfl, rfl⟩
  · rw [removeLag_of_not_mem]
    rwa [map_fst_entries]
  · intro x
    split
    · rename_i hx
      rw [hx, Bool.eq_false_iff]
      exact fun h => hw ((q.flag w).mp h)
    · rfl

/-- wd_start and wd_delete stop the watchdog first if it is active. -/
theorem stop_if_active (w : Nat) :
    ∃ s', (if (s.wdog w).isActive = true then (wdCancel s w).map Prod.fst else some s) = some s' ∧
      Stopped s w s' := by
  by_cases hw : w ∈ s.activelist
  · obtain ⟨s', hcancel, hstop⟩ := wdCancel_active q hw
    refine ⟨s', ?_, hstop⟩
    rw [if_pos ((q.flag w).mpr hw), hcancel]
    rfl
  · refine ⟨s, ?_, Stopped.refl q hw⟩
    rw [if_neg (fun h => hw ((q.flag w).mp h))]

theorem Stopped.not_mem (h : Stopped s w s') : w ∉ s'.activelist := by
  rw [← map_fst_entries, h.entries, map_fst_removeLag, map_fst_entries]
  exact q.nodup.not_mem_erase

theorem wdStart_spec (delay : Int) (func : Nat) (parms : List Nat) (hw : w ≠ 0)
    (hparms : parms.length ≤ maxWdogParms) (hdelay : 0 ≤ delay) :
    ∃ s', wdStart s w delay func parms = some (s', true) ∧
      Started s w (delayTicks delay) (func, parms) s' := by
  obtain ⟨t, hstop, ht⟩ := stop_if_active q w
  have qt := q.stopped ht
  have hnot := ht.not_mem q
  unfold wdStart
  rw [if_neg (by omega)]
  simp only [hstop]
  refine ⟨_, rfl, ?_, ?_, ?_, ?_⟩
  · rw [setActive_entries, enqueue_entries, setCall_entries, ht.entries]
    · exact qt.nodup
    · exact hnot
    · intro x hx
      rw [setCall_lag]
      exact qt.lags x hx
  · intro x
    rw [setActive_isActive, enqueue_isActive, setCall_isActive, ht.isActive x]
    by_cases hx : x = w
    · simp [hx]
    · simp [hx]
  · intro x
    rw [setActive_call, enqueue_call, setCall_call, ht.call x]
  · rw [setActive_freelist, enqueue_freelist]
    exact ht.freelist

end

theorem wdStart_refused (s : WdState) {w : Nat} {delay : Int} (func : Nat) (parms : List Nat)
    (h : w = 0 ∨ maxWdogParms < parms.length ∨ delay < 0) :
    wdStart s w delay func parms = some (s, false) := by
  unfold wdStart
  rw [if_pos h]

theorem wdDelete_spec (q : Queue s) (w : Nat) :
    ∃ t s', wdDelete s w = some s' ∧ Stopped s w t ∧ s'.wdog = t.wdog ∧
      s'.activelist = t.activelist ∧ (s'.freelist = t.freelist ∨ s'.freelist = t.freelist ++ [w]) := by
  obtain ⟨t, hstop, ht⟩ := stop_if_active q w
  unfold wdDelete
  simp only [hstop]
  split
  · exact ⟨t, t, rfl, ht, rfl, rfl, .inl rfl⟩
  · split
    · exact ⟨t, t, rfl, ht, rfl, rfl, .inl rfl⟩
    · exact ⟨t, _, rfl, ht, rfl, rfl, .inr rfl⟩

theorem expireHead_spec (q : Queue s) {head : Nat} {rest : List Nat}
    (hlist : s.activelist = head :: rest) :
    (expireHead s).2 = head ∧ Stopped s head (expireHead s).1 := by
  have hnodup := q.nodup
  rw [hlist] at hnodup
  unfold expireHead
  rw [hlist]
  refine ⟨rfl, ?_, ?_, ?_, ?_⟩
  · have hremoved := entries_removed s.lag hnodup mem_cons_self
    simp only [erase_cons_head, nextOf] at hremoved
    unfold WdState.entries
    simp only [setActive_activelist, inherit_activelist, setActive_lag, inherit_lag, hlist]
    exact hremoved
  · intro x
    simp
  · intro x
    simp
  · simp

theorem Stopped.dueCount_le (h : Stopped s w s') (q : Queue s) :
    dueCount s'.entries ≤ dueCount s.entries := by
  rw [h.entries]
  exact dueCount_removeLag_le w q.lags_entries

theorem Started.dueCount_le (h : Started s w delay call s') (q : Queue s) (hdelay : 1 ≤ delay) :
    dueCount s'.entries ≤ dueCount s.entries := by
  rw [h.entries]
  exact Nat.le_trans (dueCount_insertLag_le w delay hdelay (lag_removeLag w q.lags_entries))
    (dueCount_removeLag_le w q.lags_entries)

/-- The first watchdog has no time left: its lag is zero. -/
theorem headExpired_entries (q : Queue s) (h : headExpired s = true) :
    ∃ head rest, s.activelist = head :: rest ∧ s.lag head = 0 ∧
      s.entries = (head, 0) :: rest.map fun x => (x, s.lag x) := by
  unfold headExpired at h
  cases hlist : s.activelist with
  | nil =>
    rw [hlist] at h
    cases h
  | cons head rest =>
    rw [hlist] at h
    have h0 := q.lags head (by rw [hlist]; exact mem_cons_self)
    have h1 : s.lag head ≤ 0 := of_decide_eq_true h
    have hzero : s.lag head = 0 := by omega
    refine ⟨head, rest, rfl, hzero, ?_⟩
    unfold WdState.entries
    rw [hlist, map_cons, hzero]

theorem headExpired_false (h : headExpired s = false) : ∀ e ∈ s.entries.head?, 1 ≤ e.2 := by
  intro e he
  unfold headExpired at h
  unfold WdState.entries at he
  cases hlist : s.activelist with
  | nil =>
    rw [hlist] at he
    cases he
  | cons head rest =>
    rw [hlist] at h he
    cases he
    have : ¬ s.lag head ≤ 0 := of_decide_eq_false h
    simp only
    omega

/-- Each pass of wd_expiration leaves one due watchdog less. -/
theorem dueCount_expired (q : Queue s) (h : headExpired s = true) :
    dueCount (expireHead s).1.entries + 1 ≤ dueCount s.entries := by
  obtain ⟨head, rest, hlist, _, hentries⟩ := headExpired_entries q h
  have hstop := (expireHead_spec q hlist).2
  have hle := dueCount_push_le 0 (rest.map fun x => (x, s.lag x)) (Int.le_refl 0)
  rw [hstop.entries, hentries]
  simp only [removeLag, if_true, dueCount]
  rw [if_pos (Int.le_refl 0)]
  omega

theorem delayTicks_eq {delay : Int} (h0 : 0 ≤ delay) (hmax : delay ≤ int32Max) :
    delayTicks delay = min (delay + 1) int32Max := by
  unfold delayTicks wrap32
  unfold int32Max at hmax ⊢
  split
  · omega
  · split
    · omega
    · omega

end NbLot.Source.Wdog
