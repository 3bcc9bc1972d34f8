import NbLot.Source.Iob.Pool

/-!
# The counts of the I/O buffer pool

`iob_free` gives a buffer to the committed list whenever `g_iob_sem` is negative, and posts both
semaphores. A task that waits on one of them has taken one count where `iob_tryalloc` takes two, so

* an unthrottled task that is served from the committed list leaves `g_throttle_sem` one too high;
* a throttled task that is woken while `g_iob_sem` is not negative finds the committed list empty.

`pool_counts` shows the counts and the committed list right in every run in which no buffer is freed
while a task is in the waiting loop of `iob_allocwait`; `counts_when_idle` shows the counts right in
the larger set of runs in which no unthrottled task is served.
-/
namespace NbLot.Guarantees.IobCounts

open Lib.Counting (total total_eq_zero)
open Lib.Transition Function Source.Iob

variable {τ : Type} [DecidableEq τ] [Fintype τ] {throttle : Nat} {s s' : Pool τ}
  {sem throttled : Bool}

/-- In the loop of `iob_allocwait`, and not yet granted a count. -/
def Waits (s : Pool τ) (t : τ) : Prop := ∃ sem, s.pc t = .waiting sem ∨ s.pc t = .interrupted sem

instance (s : Pool τ) (t : τ) : Decidable (Waits s t) :=
  inferInstanceAs (Decidable (∃ _, _))

/-- No task waits for a buffer when one is freed. -/
def Quiet (s : Pool τ) : Act τ → Prop
  | .iobFree .. => ∀ t, ¬Waits s t
  | _ => True

instance (s : Pool τ) (a : Act τ) : Decidable (Quiet s a) :=
  match a with
  | .iobFree .. => inferInstanceAs (Decidable (∀ t, ¬Waits s t))
  | .iobAlloc .. | .iobTryalloc .. | .attempt .. | .signal .. | .waitAgain .. | .takeCommitted ..
  | .postThrottle .. => .isTrue trivial

/-- The free buffers that are kept from an allocation. -/
def reserve (throttle : Nat) (sem : Bool) : Nat := if sem then throttle else 0

/-- No task has been woken, and a task waits only while all free buffers are kept from it. -/
structure Unserved (throttle : Nat) (s : Pool τ) : Prop where
  accounts : Accounts throttle (fun _ => 0) s
  holding : ∀ t sem, s.pc t ≠ .holding sem
  freeing : ∀ t, s.pc t ≠ .freeing
  short : ∀ t sem, s.pc t = .waiting sem ∨ s.pc t = .interrupted sem →
    s.freelist.length ≤ reserve throttle sem

namespace Unserved

section

variable (h : Unserved throttle s)
include h

omit [DecidableEq τ] in
theorem semcount (sem : Bool) :
    s.semcount sem + total (owed sem) s.pc + reserve throttle sem = s.freelist.length := by
  have hcount := h.accounts.semcount sem
  cases sem <;> simpa [reserve] using hcount

omit [DecidableEq τ] in
/-- Only the tasks that wait have taken from a count. -/
theorem waiting_of_owed {t : τ} (ht : owed sem (s.pc t) ≠ 0) : s.pc t = .waiting sem := by
  cases hpc : s.pc t with
  | waiting throttled =>
    by_cases hsem : throttled = sem
    · rw [hsem]
    · simp [hpc, owed, hsem] at ht
  | holding throttled => exact absurd hpc (h.holding t throttled)
  | freeing => exact absurd hpc (h.freeing t)
  | idle => simp [hpc, owed] at ht
  | trying throttled => simp [hpc, owed] at ht
  | interrupted throttled => simp [hpc, owed] at ht

omit [DecidableEq τ] in
theorem semcount_of_none (hnone : ∀ t sem, s.pc t ≠ .waiting sem) (sem : Bool) :
    s.semcount sem + reserve throttle sem = s.freelist.length := by
  have hzero : total (owed sem) s.pc = 0 :=
    total_eq_zero.mpr fun t => by_contra fun ht => hnone t sem (h.waiting_of_owed ht)
  have hcount := h.semcount sem
  omega

omit [DecidableEq τ] in
/-- An allocation that fails finds all free buffers kept from it. -/
theorem short_of_fail (hfail : iobTryalloc s throttled = none) :
    s.freelist.length ≤ reserve throttle throttled := by
  by_cases hempty : s.freelist = []
  · simp [hempty]
  have hcount : s.semcount throttled ≤ 0 := by
    by_contra hpos
    rw [iobTryalloc, if_pos (Int.not_le.mp hpos)] at hfail
    cases hlist : s.freelist with
    | nil => exact hempty hlist
    | cons iob freelist =>
      rw [hlist] at hfail
      cases hfail
  by_cases hnone : total (owed throttled) s.pc = 0
  · have := h.semcount throttled
    omega
  · -- somebody else waits already
    rw [total_eq_zero] at hnone
    push Not at hnone
    obtain ⟨t, ht⟩ := hnone
    exact h.short t throttled (.inl (h.waiting_of_owed ht))

/-- A task goes to a place at which it holds no count. -/
theorem setPc (t : τ) (pc : Pc) {s' : Pool τ} (haccounts : Accounts throttle (fun _ => 0) s')
    (hpc : s'.pc = update s.pc t pc) (hle : s'.freelist.length ≤ s.freelist.length)
    (hholding : ∀ sem, pc ≠ .holding sem) (hfreeing : pc ≠ .freeing)
    (hshort : ∀ sem, pc = .waiting sem ∨ pc = .interrupted sem → s.freelist.length ≤ reserve throttle sem) :
    Unserved throttle s' := by
  refine ⟨haccounts, fun u => ?_, fun u => ?_, fun u => ?_⟩ <;> rw [hpc, update_apply]
  · split_ifs
    · exact hholding
    · exact h.holding u
  · split_ifs
    · exact hfreeing
    · exact h.freeing u
  · split_ifs
    · exact fun sem hu => Nat.le_trans hle (hshort sem hu)
    · exact fun sem hu => Nat.le_trans hle (h.short u sem hu)

/-- A task that finds all free buffers kept from it blocks. -/
theorem semWait {t : τ} (hpc : ∀ sem, owed sem (s.pc t) = 0)
    (hshort : s.freelist.length ≤ reserve throttle sem) : Unserved throttle (semWait s t sem) := by
  have hcount := h.semcount sem
  have hblocks : ¬0 < s.semcount sem := by omega
  refine h.setPc t (.waiting sem) (h.accounts.semWait hpc) ?_ le_rfl nofun nofun ?_
  · simp [Source.Iob.semWait, hblocks]
  · rintro sem' (heq | heq) <;> cases heq
    exact hshort

end

end Unserved

omit [DecidableEq τ] [Fintype τ] in
theorem tryalloc_freelist (h : iobTryalloc s throttled = some s') :
    s'.freelist.length ≤ s.freelist.length := by
  unfold iobTryalloc at h
  split_ifs at h
  split at h
  · cases h
  · next hlist =>
    cases h
    simp [hlist]

theorem semPost_of_none (hnone : ∀ t, s.pc t ≠ .waiting sem) (w : τ) :
    semPost s sem w = some (s.addCount sem 1, false) := by
  unfold semPost
  rw [if_neg]
  rintro ⟨-, t, ht⟩
  exact hnone t ht

omit [DecidableEq τ] in
theorem noneServed (h : Unserved throttle s) {a : Act τ} (hok : Quiet s a) : NoneServed s a := by
  cases a with
  | iobFree t iob w w' =>
    have hcount := h.semcount_of_none (fun u sem hu => hok u ⟨sem, .inl hu⟩) false
    show 0 ≤ s.semcount false
    rw [show reserve throttle false = 0 from rfl] at hcount
    omega
  | _ => trivial

theorem unserved_step (s : Pool τ) (a : Act τ) (s' : Pool τ) (h : Unserved throttle s)
    (hok : Quiet s a) (hstep : step s a = some s') : Unserved throttle s' := by
  have haccounts := accounts_step s a s' h.accounts (noneServed h hok) hstep
  cases a with
  | iobAlloc t throttled =>
    simp only [step] at hstep
    split_ifs at hstep with hidle
    cases hstep
    refine h.setPc _ _ haccounts rfl le_rfl ?_ ?_ ?_ <;> simp
  | iobTryalloc throttled =>
    cases hstep
    cases htry : iobTryalloc s throttled with
    | none => exact h
    | some s' =>
      have hsame := (h.accounts.tryalloc htry).2
      have hle := tryalloc_freelist htry
      rw [htry] at haccounts
      refine ⟨haccounts, ?_, ?_, fun t sem ht => ?_⟩
      · simpa [hsame] using h.holding
      · simpa [hsame] using h.freeing
      · rw [Option.getD_some, hsame] at ht
        exact Nat.le_trans hle (h.short t sem ht)
  | attempt t =>
    simp only [step] at hstep
    split at hstep
    · next throttled hpc =>
      split at hstep
      · next s₁ htry =>
        cases hstep
        have hsame : (s₁.setPc t .idle).pc = update s.pc t .idle := by
          rw [Pool.setPc_pc, (h.accounts.tryalloc htry).2]
        have hle : (s₁.setPc t .idle).freelist.length ≤ s.freelist.length := by
          rw [Pool.setPc_freelist]
          exact tryalloc_freelist htry
        refine h.setPc _ _ haccounts hsame hle ?_ ?_ ?_ <;> simp
      · next hfail =>
        cases hstep
        exact h.semWait (fun sem => by rw [hpc]; rfl) (h.short_of_fail hfail)
    · cases hstep
  | signal t =>
    simp only [step] at hstep
    split at hstep
    · next sem hpc =>
      cases hstep
      refine h.setPc _ _ haccounts rfl le_rfl (by simp) (by simp) ?_
      rintro sem' (heq | heq) <;> cases heq
      exact h.short t sem (.inl hpc)
    · cases hstep
  | waitAgain t =>
    simp only [step] at hstep
    split at hstep
    · next sem hpc =>
      cases hstep
      exact h.semWait (fun sem => by rw [hpc]; rfl) (h.short t sem (.inr hpc))
    · cases hstep
  | takeCommitted t w =>
    simp only [step] at hstep
    split at hstep
    · next sem hpc => exact absurd hpc (h.holding t sem)
    · cases hstep
  | iobFree t iob w w' =>
    simp only [step] at hstep
    split_ifs at hstep with hidle
    have hpc : (putBack s iob).pc = s.pc := by
      unfold putBack
      simp only
      split_ifs <;> rfl
    have hnone : ∀ u sem, s.pc u ≠ .waiting sem := fun u sem hu => hok u ⟨sem, .inl hu⟩
    rw [semPost_of_none (fun u => by rw [hpc]; exact hnone u false)] at hstep
    simp only at hstep
    rw [semPost_of_none (fun u => by rw [Pool.addCount_pc, hpc]; exact hnone u true)] at hstep
    cases hstep
    refine ⟨haccounts, ?_, ?_, fun u sem hu => absurd ⟨sem, ?_⟩ (hok u)⟩
    · simpa [hpc] using h.holding
    · simpa [hpc] using h.freeing
    · simpa [hpc] using hu
  | postThrottle t w =>
    simp only [step] at hstep
    split_ifs at hstep with hpc
    exact absurd hpc (h.freeing t)

/-- The number of free buffers is what the semaphores count, and a woken task finds a buffer, as long
as no buffer is freed while a task waits for one. -/
theorem pool_counts (nbuffers throttle : Nat) (acts : List (Act τ)) (s : Pool τ)
    (hquiet : StepsMeet step Quiet (iobInitialize τ nbuffers throttle) acts)
    (hrun : run step (iobInitialize τ nbuffers throttle) acts = some s) :
    ((∀ t sem, s.pc t ≠ .waiting sem) →
      s.semcount false = s.freelist.length ∧ s.semcount true = s.freelist.length - throttle) ∧
    ∀ t sem, s.pc t = .holding sem → s.committed ≠ [] := by
  have hinit : Unserved throttle (iobInitialize τ nbuffers throttle) :=
    ⟨accounts_init nbuffers throttle, nofun, nofun, nofun⟩
  have h : Unserved throttle s := invariant_run unserved_step hinit hquiet hrun
  refine ⟨fun hwaiting => ?_, fun t sem ht => absurd ht (h.holding t sem)⟩
  have hiob := h.semcount_of_none hwaiting false
  have hthrottle := h.semcount_of_none hwaiting true
  rw [show reserve throttle false = 0 from rfl] at hiob
  rw [show reserve throttle true = throttle from rfl] at hthrottle
  omega

/-- A buffer is allocated and freed, and a throttled task waits until a signal. -/
theorem pool_counts_signalled :
    ∃ s, run step (iobInitialize (Fin 2) 1 1)
        [.iobTryalloc false, .iobFree 1 0 0 0, .iobAlloc 0 true, .attempt 0, .signal 0] = some s ∧
      s.semcount false = s.freelist.length ∧ s.semcount true = s.freelist.length - (1 : Nat) :=
  ⟨_, rfl, (pool_counts 1 1
    [.iobTryalloc false, .iobFree 1 0 0 0, .iobAlloc 0 true, .attempt 0, .signal 0] _
    (by decide) rfl).1 (by decide)⟩

/-- A throttled task is woken and finds nothing on the committed list; and after an unthrottled one
has been served, no buffer is free and `g_throttle_sem` is 0 and not -1. -/
theorem pool_miscounts :
    (∃ s, run step (iobInitialize (Fin 2) 2 1)
        [.iobTryalloc false, .iobAlloc 1 true, .attempt 1, .iobFree 0 0 0 1] = some s ∧
      s.pc 1 = .holding true ∧ s.committed = []) ∧
    ∃ s, run step (iobInitialize (Fin 2) 1 1)
        [.iobTryalloc false, .iobAlloc 1 false, .attempt 1, .iobFree 0 0 1 0, .takeCommitted 1 0,
          .postThrottle 0 0] = some s ∧
      (∀ t, s.pc t = .idle) ∧ s.freelist = [] ∧ s.semcount true = 0 := by
  refine ⟨⟨_, rfl, ?_, ?_⟩, _, rfl, ?_, ?_, ?_⟩ <;> decide

/-- The counts are right whenever no call is under way, as long as no unthrottled task is served. -/
theorem counts_when_idle (nbuffers throttle : Nat) (acts : List (Act τ)) (s : Pool τ)
    (hserved : StepsMeet step NoneServed (iobInitialize τ nbuffers throttle) acts)
    (hrun : run step (iobInitialize τ nbuffers throttle) acts = some s) (hidle : ∀ t, s.pc t = .idle) :
    s.semcount false = s.freelist.length ∧ s.semcount true = s.freelist.length - throttle := by
  have h : Accounts throttle (fun _ => 0) s :=
    invariant_run accounts_step (accounts_init nbuffers throttle) hserved hrun
  have hnone : ∀ sem, total (owed sem) s.pc = 0 := fun sem =>
    total_eq_zero.mpr fun t => by rw [hidle t]; rfl
  have hiob := h.semcount false
  have hthrottle := h.semcount true
  rw [hnone] at hiob hthrottle
  simp only [if_true, Bool.false_eq_true, if_false] at hiob hthrottle
  omega

instance (s : Pool τ) (a : Act τ) : Decidable (NoneServed s a) := by
  cases a <;> unfold NoneServed <;> infer_instance

/-- A throttled task waits while a buffer is freed, finds none committed and takes a free one. -/
theorem counts_when_idle_freed :
    ∃ s, run step (iobInitialize (Fin 2) 2 1) [.iobTryalloc false, .iobAlloc 1 true, .attempt 1,
        .iobFree 0 0 0 1, .takeCommitted 1 0, .attempt 1] = some s ∧
      s.semcount false = s.freelist.length ∧ s.semcount true = s.freelist.length - (1 : Nat) :=
  ⟨_, rfl, counts_when_idle 2 1 [.iobTryalloc false, .iobAlloc 1 true, .attempt 1,
    .iobFree 0 0 0 1, .takeCommitted 1 0, .attempt 1] _ (by decide) rfl (by decide)⟩

end NbLot.Guarantees.IobCounts
