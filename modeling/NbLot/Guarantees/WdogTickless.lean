import NbLot.Source.Wdog.Tickless

/-!
# Tickless and ticked timers agree

One call of the tickless `wd_timer` with `n` ticks and `n` calls of the ticked one make
the same calls of watchdog functions in the same order and leave the same watchdogs,
whatever those functions start and cancel.
-/
namespace NbLot.Guarantees.WdogTickless
open Source.Wdog Lib DeltaList

variable {μ : Type}

theorem settled_head {s : WdState} (hs : Settled s) (head : Nat) (rest : List Nat)
    (hlist : s.activelist = head :: rest) : 1 ≤ s.lag head := by
  apply hs.head (head, s.lag head)
  unfold WdState.entries
  rw [hlist]
  rfl

/-- Each pass of the tickless loop does the ticks up to the next expiration at once. -/
theorem ticklessLoop_eq (fs : Functions μ) (fuel n : Nat) (t : Timer μ) (ht : Settled t.wd)
    (hfuel : n ≤ fuel) : ∃ t', wdTimers fs n t = some t' ∧ ticklessLoop fs fuel n t = some t' := by
  induction fuel generalizing n t with
  | zero =>
    have hzero : n = 0 := by omega
    rw [hzero]
    exact ⟨t, rfl, by simp [ticklessLoop]⟩
  | succ fuel ih =>
    cases hlist : t.wd.activelist with
    | nil =>
      refine ⟨t, wdTimers_empty fs n t hlist, ?_⟩
      simp only [ticklessLoop, hlist]
    | cons head rest =>
      cases n with
      | zero => exact ⟨t, rfl, by simp [ticklessLoop, hlist]⟩
      | succ n =>
        have hlag := settled_head ht head rest hlist
        -- `k + 1` ticks are taken from the head in this pass
        obtain ⟨k, hk⟩ : ∃ k : Nat, min (t.wd.lag head) (n + 1 : Nat) = (k : Int) + 1 :=
          ⟨(min (t.wd.lag head) (n + 1 : Nat) - 1).toNat, by omega⟩
        have hhead : (k + 1 : Int) ≤ t.wd.lag head := by omega
        obtain ⟨q, _⟩ := ht.queue.decrementHead head rest (k + 1) hlist (by omega) hhead
        obtain ⟨u, hexp, hu⟩ := wdExpiration_spec fs { t with wd := decrementHead t.wd (k + 1) } q
        have hfirst : wdTimers fs (k + 1) t = some u := by
          rw [wdTimers_to_head fs k t head rest hlist hhead, hexp]
        obtain ⟨t', hticked, htickless⟩ := ih (n - k) u hu (by omega)
        refine ⟨t', ?_, ?_⟩
        · have hsplit : n + 1 = k + 1 + (n - k) := by omega
          rw [hsplit, wdTimers_add fs (k + 1) (n - k) t u hfirst, hticked]
        · have hpos : (0 : Int) < (n + 1 : Nat) := by omega
          have hleft : ((n + 1 : Nat) : Int) - (k + 1) = ((n - k : Nat) : Int) := by omega
          simp only [ticklessLoop, hlist, hpos, if_true, hk, hexp, hleft, htickless]

/-- For every queue between two interrupts, all watchdog functions and every number of
ticks: same calls, same memory, same watchdogs, and the delay that is returned is the
lag of the new head or zero. -/
theorem tickless_agrees (fs : Functions μ) (n : Nat) (t : Timer μ) (ht : Settled t.wd) :
    ∃ t', wdTimers fs n t = some t' ∧ wdTimerTickless fs n t = some (t', nextDelay t'.wd) := by
  obtain ⟨t', hticked, htickless⟩ := ticklessLoop_eq fs n n t ht le_rfl
  refine ⟨t', hticked, ?_⟩
  simp only [wdTimerTickless, htickless]

/-- Two watchdogs, of which the first starts itself again and the second cancels the first
once it has been called twice. -/
def pingPong : Functions Nat := fun calls call _ =>
  if call.1 = 7 then (calls + 1, [.start 1 ⟨2, by decide⟩ 7 []])
  else (calls + 1, if calls < 2 then [] else [.cancel 1])

def pingPongTimer : Timer Nat where
  mem := 0
  wd :=
    { wdInitialize with
      wdog := fun w => ⟨if w = 1 then 7 else 8, [], if w = 1 then 2 else 4, w = 1 ∨ w = 2, false,
        false⟩
      activelist := [1, 2] }
  ran := []

theorem tickless_agrees_pingPong :
    Settled pingPongTimer.wd ∧
      ∃ t', wdTimers pingPong 9 pingPongTimer = some t' ∧
        wdTimerTickless pingPong 9 pingPongTimer = some (t', nextDelay t'.wd) := by
  have hsettled : Settled pingPongTimer.wd := by
    refine ⟨⟨by decide, ?_, by decide, by decide, by decide⟩, by decide⟩
    intro w
    simp [pingPongTimer]
  exact ⟨hsettled, tickless_agrees pingPong 9 pingPongTimer hsettled⟩

end NbLot.Guarantees.WdogTickless
