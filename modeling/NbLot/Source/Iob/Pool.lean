import NbLot.Lib.Counting
import NbLot.Lib.Transition

/-!
# The pool of I/O buffers

Source: nuttx/mm/iob/iob_alloc.c:66-313, iob_free.c:104-144, iob_initialize.c:112-142, with
CONFIG_IOB_THROTTLE; nuttx/sched/semaphore/sem_wait.c, sem_post.c, sem_waitirq.c.

The tasks are the elements of a finite type; an interrupt handler is one that only calls
`iob_tryalloc` and `iob_free`. A step is what happens in a critical section up to the next point at
which another task can run: where a task blocks, and behind a `sem_post` that has woken one. Which
of the waiting tasks `sem_post` wakes is left to the label of the step. What `iob_free` moves to the
next buffer of a chain is left out.
-/
namespace NbLot.Source.Iob

open Lib.Counting (total total_update total_eq_zero)
open Lib.Transition

/-- Where a task is. The flag is `throttled`, and with it the semaphore. -/
inductive Pc where
  | idle
  /-- in front of `iob_tryalloc` in `iob_allocwait` -/
  | trying (throttled : Bool)
  /-- blocked in `sem_wait` -/
  | waiting (throttled : Bool)
  /-- the wait was interrupted by a signal; in front of the next `sem_wait` -/
  | interrupted (throttled : Bool)
  /-- `sem_wait` has returned OK; in front of `iob_alloc_committed` -/
  | holding (throttled : Bool)
  /-- in `iob_free`, in front of the post of `g_throttle_sem` -/
  | freeing
  deriving DecidableEq, Repr

/-- The lists, the counts of `g_iob_sem` (`false`) and of `g_throttle_sem` (`true`), the buffers that
have been allocated, and the tasks. -/
structure Pool (τ : Type) where
  freelist : List Nat
  committed : List Nat
  semcount : Bool → Int
  held : List Nat
  pc : τ → Pc

variable {τ : Type} [DecidableEq τ]

namespace Pool

@[simps -fullyApplied]
def setPc (s : Pool τ) (t : τ) (pc : Pc) : Pool τ := { s with pc := Function.update s.pc t pc }

@[simps -fullyApplied]
def addCount (s : Pool τ) (sem : Bool) (d : Int) : Pool τ :=
  { s with semcount := Function.update s.semcount sem (s.semcount sem + d) }

end Pool

/-- `iob_initialize` with CONFIG_IOB_NBUFFERS and CONFIG_IOB_THROTTLE. -/
def iobInitialize (τ : Type) (nbuffers throttle : Nat) : Pool τ where
  freelist := List.range nbuffers
  committed := []
  semcount := fun sem => if sem then (nbuffers : Int) - throttle else nbuffers
  held := []
  pc := fun _ => .idle

/-- `iob_tryalloc`. -/
def iobTryalloc (s : Pool τ) (throttled : Bool) : Option (Pool τ) :=
  if 0 < s.semcount throttled then
    match s.freelist with
    | [] => none
    | iob :: freelist =>
      some { (s.addCount false (-1)).addCount true (-1) with
        freelist := freelist, held := iob :: s.held }
  else none

/-- `sem_wait`. -/
def semWait (s : Pool τ) (t : τ) (sem : Bool) : Pool τ :=
  (s.addCount sem (-1)).setPc t (if 0 < s.semcount sem then .holding sem else .waiting sem)

variable [Fintype τ]

/-- `sem_post`, with the task that is woken if there is one, and whether there is. -/
def semPost (s : Pool τ) (sem : Bool) (w : τ) : Option (Pool τ × Bool) :=
  let s := s.addCount sem 1
  if s.semcount sem ≤ 0 ∧ ∃ t, s.pc t = .waiting sem then
    if s.pc w = .waiting sem then some (s.setPc w (.holding sem), true) else none
  else some (s, false)

inductive Act (τ : Type) where
  | iobAlloc (t : τ) (throttled : Bool)
  | iobTryalloc (throttled : Bool)
  | attempt (t : τ)
  | signal (t : τ)
  | waitAgain (t : τ)
  | takeCommitted (t w : τ)
  | iobFree (t : τ) (iob : Nat) (w w' : τ)
  | postThrottle (t w : τ)
  deriving DecidableEq, Repr

/-- The first half of `iob_free`: the buffer goes to one of the lists. -/
def putBack (s : Pool τ) (iob : Nat) : Pool τ :=
  let s := { s with held := s.held.erase iob }
  if s.semcount false < 0 then { s with committed := iob :: s.committed }
  else { s with freelist := iob :: s.freelist }

def step (s : Pool τ) : Act τ → Option (Pool τ)
  | .iobAlloc t throttled => if s.pc t = .idle then some (s.setPc t (.trying throttled)) else none
  | .iobTryalloc throttled => some ((iobTryalloc s throttled).getD s)
  | .attempt t =>
    match s.pc t with
    | .trying throttled =>
      match iobTryalloc s throttled with
      | some s => some (s.setPc t .idle)
      | none => some (semWait s t throttled)
    | _ => none
  | .signal t =>
    match s.pc t with
    | .waiting sem => some ((s.addCount sem 1).setPc t (.interrupted sem))
    | _ => none
  | .waitAgain t =>
    match s.pc t with
    | .interrupted sem => some (semWait s t sem)
    | _ => none
  | .takeCommitted t w =>
    match s.pc t with
    | .holding sem =>
      match s.committed with
      | iob :: committed =>
        some ({ s with committed := committed, held := iob :: s.held }.setPc t .idle)
      | [] => (semPost (s.setPc t (.trying sem)) sem w).map Prod.fst
    | _ => none
  | .iobFree t iob w w' =>
    if s.pc t = .idle ∧ iob ∈ s.held then
      match semPost (putBack s iob) false w with
      | none => none
      -- the task that was woken may run before the second post
      | some (s, true) => some (s.setPc t .freeing)
      | some (s, false) => (semPost s true w').map Prod.fst
    else none
  | .postThrottle t w =>
    if s.pc t = .freeing then (semPost (s.setPc t .idle) true w).map Prod.fst else none

/-- By how much a task takes a count below the number of free buffers. -/
def owed (sem : Bool) : Pc → Nat
  | .waiting throttled => if throttled = sem then 1 else 0
  | .holding throttled => if throttled = sem then 1 else 0
  | .freeing => if sem then 1 else 0
  | _ => 0

/-- The counts follow the free list, with posts that are still due: `g_throttle_sem` is below it by
CONFIG_IOB_THROTTLE, and each by the tasks that have taken from it. -/
structure Accounts (throttle : Nat) (due : Bool → Nat) (s : Pool τ) : Prop where
  committed : s.committed = []
  semcount : ∀ sem, s.semcount sem + total (owed sem) s.pc + (if sem then (throttle : Int) else 0) +
    due sem = s.freelist.length

variable {throttle : Nat} {due : Bool → Nat} {s s' : Pool τ} {t w : τ}

omit [DecidableEq τ] in
theorem accounts_init (nbuffers throttle : Nat) :
    Accounts throttle (fun _ => 0) (iobInitialize τ nbuffers throttle) := by
  refine ⟨rfl, fun sem => ?_⟩
  have hnone : total (owed sem) (iobInitialize τ nbuffers throttle).pc = 0 :=
    total_eq_zero.mpr fun _ => rfl
  rw [hnone]
  cases sem <;> simp [iobInitialize]

namespace Accounts

section

variable (h : Accounts throttle due s) {due' : Bool → Nat} {sem : Bool}
include h

/-- A task goes from one place to another, with what it takes or gives back. -/
theorem move {pc : Pc} {count : Bool → Int}
    (hcount : ∀ sem, count sem + owed sem pc + due' sem = s.semcount sem + owed sem (s.pc t) + due sem) :
    Accounts throttle due' { s with semcount := count, pc := Function.update s.pc t pc } := by
  refine ⟨h.committed, fun sem => ?_⟩
  have hmove := total_update (owed sem) s.pc t pc
  have hold := h.semcount sem
  have hnew := hcount sem
  simp only
  omega

theorem setPc {pc : Pc} (hpc : ∀ sem, owed sem pc = owed sem (s.pc t)) :
    Accounts throttle due (s.setPc t pc) :=
  h.move fun sem => by rw [hpc]

theorem semWait (hpc : ∀ sem, owed sem (s.pc t) = 0) : Accounts throttle due (semWait s t sem) := by
  refine h.move fun sem' => ?_
  rw [hpc]
  by_cases hsem : sem' = sem
  · subst hsem
    split_ifs <;> simp [owed]
  · split_ifs <;> simp [owed, hsem, Ne.symm hsem]

omit [DecidableEq τ] in
theorem tryalloc {throttled : Bool} (htry : iobTryalloc s throttled = some s') :
    Accounts throttle due s' ∧ s'.pc = s.pc := by
  unfold iobTryalloc at htry
  split_ifs at htry
  split at htry
  · cases htry
  · next iob freelist hfree =>
    cases htry
    refine ⟨⟨h.committed, fun sem => ?_⟩, rfl⟩
    have hold := h.semcount sem
    rw [hfree] at hold
    cases sem
    · simp at hold ⊢
      omega
    · simp at hold ⊢
      omega

/-- A post that is due. What it gives back goes to the task that is woken. -/
theorem semPost {woken : Bool} (hdue : ∀ sem', due sem' = due' sem' + if sem' = sem then 1 else 0)
    (hpost : semPost s sem w = some (s', woken)) : Accounts throttle due' s' := by
  have hgiven : Accounts throttle due' (s.addCount sem 1) := by
    refine ⟨h.committed, fun sem' => ?_⟩
    have hold := h.semcount sem'
    have hone := hdue sem'
    by_cases hsem : sem' = sem
    · subst hsem
      simp at hold hone ⊢
      omega
    · simp [hsem] at hold hone ⊢
      omega
  unfold Iob.semPost at hpost
  simp only at hpost
  split_ifs at hpost with hwait hw
  · cases hpost
    refine hgiven.setPc fun sem' => ?_
    rw [hw]
    rfl
  · cases hpost
    exact hgiven

end

end Accounts

/-- No post of `g_iob_sem` finds a task waiting. -/
theorem semPost_nonneg (hcount : 0 ≤ s.semcount false) (w : τ) :
    semPost s false w = some (s.addCount false 1, false) := by
  unfold semPost
  simp
  omega

/-- An unthrottled allocation never waits when a buffer is freed. -/
def NoneServed (s : Pool τ) : Act τ → Prop
  | .iobFree .. => 0 ≤ s.semcount false
  | _ => True

/-- As long as no unthrottled allocation is served by `iob_free`, the counts follow the free list. -/
theorem accounts_step (s : Pool τ) (a : Act τ) (s' : Pool τ) (h : Accounts throttle (fun _ => 0) s)
    (hok : NoneServed s a) (hstep : step s a = some s') : Accounts throttle (fun _ => 0) s' := by
  cases a with
  | iobAlloc t throttled =>
    simp only [step] at hstep
    split_ifs at hstep with hidle
    cases hstep
    exact h.setPc fun sem => by rw [hidle]; rfl
  | iobTryalloc throttled =>
    cases hstep
    cases htry : iobTryalloc s throttled with
    | none => exact h
    | some s' => exact (h.tryalloc htry).1
  | attempt t =>
    simp only [step] at hstep
    split at hstep
    · next throttled hpc =>
      split at hstep
      · next s₁ htry =>
        cases hstep
        obtain ⟨hgot, hsame⟩ := h.tryalloc htry
        exact hgot.setPc fun sem => by rw [hsame, hpc]; rfl
      · cases hstep
        exact h.semWait fun sem => by rw [hpc]; rfl
    · cases hstep
  | signal t =>
    simp only [step] at hstep
    split at hstep
    · next sem hpc =>
      cases hstep
      refine h.move fun sem' => ?_
      rw [hpc]
      by_cases hsem : sem' = sem
      · subst hsem
        simp [owed]
      · simp [owed, hsem, Ne.symm hsem]
    · cases hstep
  | waitAgain t =>
    simp only [step] at hstep
    split at hstep
    · next sem hpc =>
      cases hstep
      exact h.semWait fun sem => by rw [hpc]; rfl
    · cases hstep
  | takeCommitted t w =>
    simp only [step] at hstep
    split at hstep
    · next sem hpc =>
      rw [h.committed] at hstep
      obtain ⟨⟨s₁, woken⟩, hpost, rfl⟩ := Option.map_eq_some_iff.mp hstep
      have hleft : Accounts throttle (fun sem' => if sem' = sem then 1 else 0)
          (s.setPc t (.trying sem)) := by
        refine h.move fun sem' => ?_
        rw [hpc]
        by_cases hsem : sem' = sem
        · subst hsem
          simp [owed]
        · simp [owed, hsem, Ne.symm hsem]
      exact hleft.semPost (fun sem' => by simp) hpost
    · cases hstep
  | iobFree t iob w w' =>
    simp only [step] at hstep
    split_ifs at hstep with hidle
    have hback : putBack s iob = { s with held := s.held.erase iob, freelist := iob :: s.freelist } := by
      unfold putBack
      rw [if_neg (Int.not_lt.mpr hok)]
    have hput : Accounts throttle (fun _ => 1) (putBack s iob) := by
      rw [hback]
      refine ⟨h.committed, fun sem => ?_⟩
      have hold := h.semcount sem
      simp only [List.length_cons]
      omega
    have hfirst : semPost (putBack s iob) false w = some ((putBack s iob).addCount false 1, false) := by
      refine semPost_nonneg ?_ w
      rw [hback]
      exact hok
    rw [hfirst] at hstep
    obtain ⟨⟨s₁, woken⟩, hpost, rfl⟩ := Option.map_eq_some_iff.mp hstep
    have hone : Accounts throttle (fun sem => if sem then 1 else 0) _ := hput.semPost (by decide) hfirst
    exact hone.semPost (by decide) hpost
  | postThrottle t w =>
    simp only [step] at hstep
    split_ifs at hstep with hpc
    obtain ⟨⟨s₁, woken⟩, hpost, rfl⟩ := Option.map_eq_some_iff.mp hstep
    have hleft : Accounts throttle (fun sem => if sem then 1 else 0) (s.setPc t .idle) := by
      refine h.move fun sem' => ?_
      rw [hpc]
      cases sem' <;> simp [owed]
    exact hleft.semPost (by decide) hpost

end NbLot.Source.Iob
