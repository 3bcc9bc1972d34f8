import NbLot.Source.Wdog.System

/-!
# The two versions of wd_timer

Source: nuttx/sched/wdog/wd_start.c:110-183 (`wd_expiration`), 420-486 (`wd_timer` with
CONFIG_SCHED_TICKLESS), 487-522 (without).

Here the timer interrupt is a function of the watchdog functions it calls. A watchdog
function is given its parameters, reads and changes a memory of its own, reads the
watchdogs, and calls `wd_start` and `wd_cancel`. The interval timer that the tickless
version reprograms is left out, as is `DEBUGASSERT(ticks <= wdog->lag)`, which is not
compiled here and is not part of the version with CONFIG_SCHED_TICKLESS_ALARM.
-/
namespace NbLot.Source.Wdog
open Lib DeltaList

/-- A call of a watchdog function; the delay is an `int32_t`. -/
inductive WdCall where
  | start (w : Nat) (delay : { d : Int // d ≤ int32Max }) (func : Nat) (parms : List Nat)
  | cancel (w : Nat)

def WdCall.make (s : WdState) : WdCall → Option WdState
  | .start w delay func parms => (wdStart s w delay func parms).map Prod.fst
  | .cancel w => (wdCancel s w).map Prod.fst

def makeCalls (s : WdState) : List WdCall → Option WdState
  | [] => some s
  | c :: rest =>
    match c.make s with
    | none => none
    | some s => makeCalls s rest

/-- The watchdog functions: the calls each makes, and the memory it leaves. -/
abbrev Functions (μ : Type) := μ → Nat × List Nat → WdState → μ × List WdCall

/-- What a timer interrupt works on, with the calls it has made. -/
structure Timer (μ : Type) where
  mem : μ
  wd : WdState
  ran : List (Nat × Nat × List Nat)

variable {μ : Type} (fs : Functions μ) {s : WdState}

/-- The loop of wd_expiration. -/
def expirationLoop (fs : Functions μ) : Nat → Timer μ → Option (Timer μ)
  | 0, t => if headExpired t.wd = true then none else some t
  | fuel + 1, t =>
    if headExpired t.wd = true then
      let gone := expireHead t.wd
      let call := t.wd.call gone.2
      let made := fs t.mem call gone.1
      match makeCalls gone.1 made.2 with
      | none => none
      | some wd => expirationLoop fs fuel ⟨made.1, wd, t.ran ++ [(gone.2, call)]⟩
    else some t

def wdExpiration (fs : Functions μ) (t : Timer μ) : Option (Timer μ) :=
  expirationLoop fs t.wd.activelist.length t

/-- wd_timer without CONFIG_SCHED_TICKLESS. -/
def wdTimer (fs : Functions μ) (t : Timer μ) : Option (Timer μ) :=
  match t.wd.activelist with
  | [] => some t
  | _ :: _ => wdExpiration fs { t with wd := decrementHead t.wd 1 }

/-- `n` calls of it. -/
def wdTimers (fs : Functions μ) : Nat → Timer μ → Option (Timer μ)
  | 0, t => some t
  | n + 1, t =>
    match wdTimer fs t with
    | none => none
    | some t => wdTimers fs n t

/-- The loop of wd_timer with CONFIG_SCHED_TICKLESS. -/
def ticklessLoop (fs : Functions μ) : Nat → Int → Timer μ → Option (Timer μ)
  | 0, ticks, t => if t.wd.activelist ≠ [] ∧ 0 < ticks then none else some t
  | fuel + 1, ticks, t =>
    match t.wd.activelist with
    | [] => some t
    | head :: _ =>
      if 0 < ticks then
        let decr := min (t.wd.lag head) ticks
        match wdExpiration fs { t with wd := decrementHead t.wd decr } with
        | none => none
        | some t => ticklessLoop fs fuel (ticks - decr) t
      else some t

/-- The lag of the head of the queue, or zero. -/
def nextDelay (s : WdState) : Int :=
  match s.activelist with
  | [] => 0
  | head :: _ => s.lag head

/-- wd_timer with CONFIG_SCHED_TICKLESS, and what it returns. -/
def wdTimerTickless (fs : Functions μ) (ticks : Nat) (t : Timer μ) : Option (Timer μ × Int) :=
  match ticklessLoop fs ticks ticks t with
  | none => none
  | some t => some (t, nextDelay t.wd)

/-- The queue between two timer interrupts. -/
structure Settled (s : WdState) : Prop where
  queue : Queue s
  head : ∀ e ∈ s.entries.head?, 1 ≤ e.2

theorem WdCall.make_spec (q : Queue s) (c : WdCall) :
    ∃ s', c.make s = some s' ∧ Queue s' ∧ dueCount s'.entries ≤ dueCount s.entries := by
  cases c with
  | start w delay func parms =>
    obtain ⟨delay, hmax⟩ := delay
    simp only [WdCall.make]
    by_cases hrefused : w = 0 ∨ maxWdogParms < parms.length ∨ delay < 0
    · rw [wdStart_refused s func parms hrefused]
      exact ⟨s, rfl, q, le_rfl⟩
    · have hw : w ≠ 0 := fun heq => hrefused (.inl heq)
      have h0 : 0 ≤ delay := by omega
      have hint : (1 : Int) ≤ int32Max := by decide
      have hticks := delayTicks_eq h0 hmax
      obtain ⟨s', hstart, hstarted⟩ := wdStart_spec q delay func parms hw (by omega) h0
      rw [hstart]
      exact ⟨s', rfl, q.started hstarted hw (by omega) (by omega),
        hstarted.dueCount_le q (by omega)⟩
  | cancel w =>
    simp only [WdCall.make]
    by_cases hw : w ∈ s.activelist
    · obtain ⟨s', hcancel, hstop⟩ := wdCancel_active q hw
      rw [hcancel]
      exact ⟨s', rfl, q.stopped hstop, hstop.dueCount_le q⟩
    · rw [wdCancel_inactive q hw]
      exact ⟨s, rfl, q, le_rfl⟩

theorem makeCalls_spec (q : Queue s) (calls : List WdCall) :
    ∃ s', makeCalls s calls = some s' ∧ Queue s' ∧ dueCount s'.entries ≤ dueCount s.entries := by
  induction calls generalizing s with
  | nil => exact ⟨s, rfl, q, le_rfl⟩
  | cons c rest ih =>
    obtain ⟨s₁, hmake, q₁, hdue₁⟩ := c.make_spec q
    obtain ⟨s₂, hrest, q₂, hdue₂⟩ := ih q₁
    refine ⟨s₂, ?_, q₂, Nat.le_trans hdue₂ hdue₁⟩
    simp only [makeCalls, hmake, hrest]

/-- The loop of wd_expiration ends: each pass leaves one due watchdog less, and the
watchdog functions add none. -/
theorem expirationLoop_spec (fuel : Nat) (t : Timer μ) (q : Queue t.wd)
    (hfuel : dueCount t.wd.entries ≤ fuel) :
    ∃ t', expirationLoop fs fuel t = some t' ∧ Settled t'.wd := by
  induction fuel generalizing t with
  | zero =>
    have hnot : headExpired t.wd = false := by
      rw [Bool.eq_false_iff]
      intro h
      have := dueCount_expired q h
      omega
    refine ⟨t, ?_, q, headExpired_false hnot⟩
    simp only [expirationLoop, hnot, Bool.false_eq_true, if_false]
  | succ fuel ih =>
    by_cases h : headExpired t.wd = true
    · have hdue := dueCount_expired q h
      obtain ⟨head, rest, hlist, _, _⟩ := headExpired_entries q h
      have q₁ := q.stopped (expireHead_spec q hlist).2
      simp only [expirationLoop, h]
      generalize fs t.mem (t.wd.call (expireHead t.wd).2) (expireHead t.wd).1 = made
      obtain ⟨wd, hcalls, q₂, hdue₂⟩ := makeCalls_spec q₁ made.2
      simp only [hcalls]
      exact ih _ q₂ (by simp only; omega)
    · rw [Bool.not_eq_true] at h
      refine ⟨t, ?_, q, headExpired_false h⟩
      simp only [expirationLoop, h, Bool.false_eq_true, if_false]

theorem wdExpiration_spec (t : Timer μ) (q : Queue t.wd) :
    ∃ t', wdExpiration fs t = some t' ∧ Settled t'.wd := by
  apply expirationLoop_spec fs _ t q
  have hlength : t.wd.entries.length = t.wd.activelist.length := List.length_map _
  rw [← hlength]
  exact dueCount_le_length

theorem wdExpiration_idle (t : Timer μ) (h : headExpired t.wd = false) :
    wdExpiration fs t = some t := by
  unfold wdExpiration
  cases t.wd.activelist.length with
  | zero => simp only [expirationLoop, h, Bool.false_eq_true, if_false]
  | succ n => simp only [expirationLoop, h, Bool.false_eq_true, if_false]

theorem decrementHead_cons (s : WdState) {head : Nat} {rest : List Nat} (decr : Int)
    (hlist : s.activelist = head :: rest) :
    decrementHead s decr = s.setLag head (s.lag head - decr) := by
  unfold decrementHead
  rw [hlist]

theorem decrementHead_twice (s : WdState) (head : Nat) (rest : List Nat) (a b : Int)
    (hlist : s.activelist = head :: rest) :
    decrementHead (decrementHead s a) b = decrementHead s (a + b) := by
  have hmid : (decrementHead s a).activelist = head :: rest := by
    rw [decrementHead_cons s a hlist]
    exact hlist
  rw [decrementHead_cons _ b hmid, decrementHead_cons s a hlist,
    decrementHead_cons s (a + b) hlist, WdState.setLag_lag, if_pos rfl]
  have hsum : s.lag head - a - b = s.lag head - (a + b) := by omega
  rw [hsum]
  unfold WdState.setLag WdState.set
  simp only [Function.update_self, Function.update_idem]

theorem wdTimers_empty (n : Nat) (t : Timer μ) (h : t.wd.activelist = []) :
    wdTimers fs n t = some t := by
  induction n with
  | zero => rfl
  | succ n ih => simp only [wdTimers, wdTimer, h, ih]

theorem wdTimers_add (m n : Nat) (t t₁ : Timer μ) (h : wdTimers fs m t = some t₁) :
    wdTimers fs (m + n) t = wdTimers fs n t₁ := by
  induction m generalizing t with
  | zero =>
    cases h
    rw [Nat.zero_add]
  | succ m ih =>
    rw [Nat.add_right_comm]
    simp only [wdTimers] at h ⊢
    cases hnext : wdTimer fs t with
    | none =>
      rw [hnext] at h
      cases h
    | some u =>
      rw [hnext] at h
      exact ih u h

/-- Ticks up to the lag of the head: only the last can expire anything. -/
theorem wdTimers_to_head (n : Nat) (t : Timer μ) (head : Nat) (rest : List Nat)
    (hlist : t.wd.activelist = head :: rest) (hn : (n + 1 : Int) ≤ t.wd.lag head) :
    wdTimers fs (n + 1) t = wdExpiration fs { t with wd := decrementHead t.wd (n + 1) } := by
  induction n generalizing t with
  | zero =>
    have hone : ((0 : Nat) : Int) + 1 = 1 := rfl
    simp only [wdTimers, wdTimer, hlist, hone]
    cases wdExpiration fs { t with wd := decrementHead t.wd 1 } with
    | none => rfl
    | some u => rfl
  | succ n ih =>
    have hdecr := decrementHead_cons t.wd 1 hlist
    have hlag : (decrementHead t.wd 1).lag head = t.wd.lag head - 1 := by
      rw [hdecr, WdState.setLag_lag, if_pos rfl]
    have hlist₁ : (decrementHead t.wd 1).activelist = head :: rest := by
      rw [hdecr]
      exact hlist
    have hidle : headExpired (decrementHead t.wd 1) = false := by
      unfold headExpired
      rw [hlist₁]
      simp only [decide_eq_false_iff_not]
      omega
    have hfirst : wdTimer fs t = some { t with wd := decrementHead t.wd 1 } := by
      simp only [wdTimer, hlist]
      exact wdExpiration_idle fs _ hidle
    have hrest := ih { t with wd := decrementHead t.wd 1 } hlist₁ (by simp only [hlag]; omega)
    rw [wdTimers, hfirst]
    simp only [hrest, decrementHead_twice t.wd head rest 1 _ hlist]
    have hsum : (1 : Int) + (n + 1) = ((n + 1 : Nat) : Int) + 1 := by omega
    rw [hsum]

end NbLot.Source.Wdog
