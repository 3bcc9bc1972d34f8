import Mathlib.Data.List.Basic
import Mathlib.Tactic.Linarith

/-!
# Delta lists

A list of keys with times in which each entry stores only the difference to the entry
before it. `times start` gives the times back, counted from `start`. Insertion,
removal and the passing of time on the differences are shown to be the insertion into
the list of times (`insertTime`), the removal from it, and no change of it.
-/
namespace NbLot.Lib.DeltaList
open List

variable {α : Type} (x : α) {l : List (α × Int)}

/-- The entries with their times in place of their differences. -/
def times (start : Int) : List (α × Int) → List (α × Int)
  | [] => []
  | (x, lag) :: rest => (x, start + lag) :: times (start + lag) rest

def total : List (α × Int) → Int
  | [] => 0
  | (_, lag) :: rest => lag + total rest

/-- Puts `x` behind every entry that is not later than `delay`. -/
def insertLag (x : α) (delay : Int) : List (α × Int) → List (α × Int)
  | [] => [(x, delay)]
  | (y, lag) :: rest =>
    if delay < lag then (x, delay) :: (y, lag - delay) :: rest
    else (y, lag) :: insertLag x (delay - lag) rest

/-- The same insertion into a list of times. -/
def insertTime (x : α) (time : Int) : List (α × Int) → List (α × Int)
  | [] => [(x, time)]
  | (y, due) :: rest =>
    if time < due then (x, time) :: (y, due) :: rest else (y, due) :: insertTime x time rest

/-- The first entry inherits a difference. -/
def push (lag : Int) : List (α × Int) → List (α × Int)
  | [] => []
  | (y, own) :: rest => (y, own + lag) :: rest

/-- Takes `x` out; the entry behind it inherits its difference. -/
def removeLag [DecidableEq α] (x : α) : List (α × Int) → List (α × Int)
  | [] => []
  | (y, lag) :: rest => if y = x then push lag rest else (y, lag) :: removeLag x rest

theorem times_insertLag (start delay : Int) (x : α) :
    times start (insertLag x delay l) = insertTime x (start + delay) (times start l) := by
  induction l generalizing start delay with
  | nil => rfl
  | cons e rest ih =>
    obtain ⟨y, lag⟩ := e
    simp only [insertLag, times, insertTime]
    by_cases h : delay < lag
    · have htime : start + delay < start + lag := by omega
      have hlag : start + delay + (lag - delay) = start + lag := by omega
      simp only [h, htime, if_true, times, hlag]
    · have htime : ¬ start + delay < start + lag := by omega
      have hdelay : start + lag + (delay - lag) = start + delay := by omega
      simp only [h, htime, if_false, times, ih, hdelay]

theorem times_push (start lag : Int) :
    times start (push lag l) = times (start + lag) l := by
  cases l with
  | nil => rfl
  | cons e rest =>
    obtain ⟨y, own⟩ := e
    have hsum : start + (own + lag) = start + lag + own := by omega
    simp only [push, times, hsum]

theorem times_removeLag [DecidableEq α] (start : Int) (x : α) :
    times start (removeLag x l) = (times start l).eraseP fun e => e.1 = x := by
  induction l generalizing start with
  | nil => rfl
  | cons e rest ih =>
    obtain ⟨y, lag⟩ := e
    simp only [removeLag, times, eraseP_cons]
    by_cases h : y = x
    · simp only [h, if_true, decide_true, times_push, cond_true]
    · simp only [h, if_false, decide_false, times, ih, cond_false]

theorem map_fst_times (start : Int) :
    (times start l).map Prod.fst = l.map Prod.fst := by
  induction l generalizing start with
  | nil => rfl
  | cons e rest ih =>
    simp only [times, map_cons, ih]

theorem map_fst_push (lag : Int) :
    (push lag l).map Prod.fst = l.map Prod.fst := by
  cases l with
  | nil => rfl
  | cons e rest => rfl

theorem total_nonneg (hlag : ∀ e ∈ l, 0 ≤ e.2) : 0 ≤ total l := by
  induction l with
  | nil => exact Int.le_refl 0
  | cons d rest ih =>
    obtain ⟨hfirst, hrest⟩ := forall_mem_cons.mp hlag
    have := ih hrest
    simp only [total]
    omega

theorem le_time (start : Int) (hlag : ∀ e ∈ l, 0 ≤ e.2)
    (e : α × Int) (he : e ∈ times start l) : start ≤ e.2 := by
  induction l generalizing start with
  | nil => cases he
  | cons d rest ih =>
    obtain ⟨y, lag⟩ := d
    obtain ⟨hfirst, hrest⟩ := forall_mem_cons.mp hlag
    simp only [times, mem_cons] at he
    cases he with
    | inl he =>
      rw [he]
      omega
    | inr he =>
      have := ih (start + lag) hrest he
      omega

theorem total_insertLag_le (bound delay : Int) (x : α) (hdelay : delay ≤ bound)
    (hl : total l ≤ bound) : total (insertLag x delay l) ≤ bound := by
  induction l generalizing bound delay with
  | nil =>
    simp only [insertLag, total]
    omega
  | cons e rest ih =>
    obtain ⟨y, lag⟩ := e
    simp only [insertLag]
    simp only [total] at hl
    split
    · simp only [total]
      omega
    · have := ih (bound - lag) (delay - lag) (by omega) (by omega)
      simp only [total]
      omega

theorem mem_insertLag (delay : Int) (y : α) :
    y ∈ (insertLag x delay l).map Prod.fst ↔ y = x ∨ y ∈ l.map Prod.fst := by
  induction l generalizing delay with
  | nil => simp [insertLag]
  | cons e rest ih =>
    simp only [insertLag]
    split
    · simp only [map_cons, mem_cons]
    · simp only [map_cons, mem_cons, ih]
      exact or_left_comm

theorem map_fst_removeLag [DecidableEq α] :
    (removeLag x l).map Prod.fst = (l.map Prod.fst).erase x := by
  induction l with
  | nil => rfl
  | cons e rest ih =>
    obtain ⟨y, lag⟩ := e
    simp only [removeLag, map_cons]
    by_cases h : y = x
    · simp only [h, if_true, map_fst_push, erase_cons_head]
    · rw [if_neg h, erase_cons_tail (by simpa using h), map_cons, ih]

theorem removeLag_of_not_mem [DecidableEq α] (h : x ∉ l.map Prod.fst) :
    removeLag x l = l := by
  induction l with
  | nil => rfl
  | cons e rest ih =>
    simp only [map_cons, mem_cons, not_or] at h
    rw [removeLag, if_neg (Ne.symm h.1), ih h.2]

theorem nodup_insertLag (delay : Int) (hx : x ∉ l.map Prod.fst)
    (hl : (l.map Prod.fst).Nodup) : ((insertLag x delay l).map Prod.fst).Nodup := by
  induction l generalizing delay with
  | nil => simp [insertLag]
  | cons e rest ih =>
    simp only [map_cons, mem_cons, not_or, nodup_cons] at hx hl
    simp only [insertLag]
    split
    · simp only [map_cons, nodup_cons, mem_cons, not_or]
      exact ⟨hx, hl⟩
    · simp only [map_cons, nodup_cons, mem_insertLag, not_or]
      exact ⟨⟨Ne.symm hx.1, hl.1⟩, ih (delay - _) hx.2 hl.2⟩

theorem lag_insertLag (delay : Int) (hdelay : 0 ≤ delay)
    (hlag : ∀ e ∈ l, 0 ≤ e.2) : ∀ e ∈ insertLag x delay l, 0 ≤ e.2 := by
  induction l generalizing delay with
  | nil => exact forall_mem_singleton.mpr hdelay
  | cons d rest ih =>
    obtain ⟨y, lag⟩ := d
    obtain ⟨hfirst, hrest⟩ := forall_mem_cons.mp hlag
    simp only [insertLag]
    split
    · simp only [forall_mem_cons]
      exact ⟨hdelay, by omega, hrest⟩
    · exact forall_mem_cons.mpr ⟨hfirst, ih (delay - lag) (by omega) hrest⟩

theorem lag_push (lag : Int) (h0 : 0 ≤ lag) (hlag : ∀ e ∈ l, 0 ≤ e.2) :
    ∀ e ∈ push lag l, 0 ≤ e.2 := by
  cases l with
  | nil => exact nofun
  | cons d rest =>
    obtain ⟨hfirst, hrest⟩ := forall_mem_cons.mp hlag
    exact forall_mem_cons.mpr ⟨by simp only; omega, hrest⟩

theorem lag_removeLag [DecidableEq α] (hlag : ∀ e ∈ l, 0 ≤ e.2) :
    ∀ e ∈ removeLag x l, 0 ≤ e.2 := by
  induction l with
  | nil => exact nofun
  | cons d rest ih =>
    obtain ⟨y, lag⟩ := d
    obtain ⟨hfirst, hrest⟩ := forall_mem_cons.mp hlag
    simp only [removeLag]
    split
    · exact lag_push lag hfirst hrest
    · exact forall_mem_cons.mpr ⟨hfirst, ih hrest⟩

theorem total_push_le (lag : Int) (h0 : 0 ≤ lag) :
    total (push lag l) ≤ lag + total l := by
  cases l with
  | nil =>
    simp only [push]
    omega
  | cons e rest =>
    simp only [push, total]
    omega

theorem total_removeLag_le [DecidableEq α] (hlag : ∀ e ∈ l, 0 ≤ e.2) :
    total (removeLag x l) ≤ total l := by
  induction l with
  | nil => exact le_rfl
  | cons d rest ih =>
    obtain ⟨y, lag⟩ := d
    obtain ⟨hfirst, hrest⟩ := forall_mem_cons.mp hlag
    have := ih hrest
    simp only [removeLag]
    split
    · exact total_push_le lag hfirst
    · simp only [total]
      omega

theorem times_sorted (start : Int) (hlag : ∀ e ∈ l, 0 ≤ e.2) :
    (times start l).Pairwise fun a b => a.2 ≤ b.2 := by
  induction l generalizing start with
  | nil => exact List.Pairwise.nil
  | cons d rest ih =>
    have hrest := (forall_mem_cons.mp hlag).2
    exact List.Pairwise.cons (le_time _ hrest) (ih _ hrest)

/-- A positive first difference stays positive when an entry is put in or taken out. -/
theorem head_insertLag (delay : Int) (hdelay : 1 ≤ delay)
    (hl : ∀ e ∈ l.head?, 1 ≤ e.2) : ∀ e ∈ (insertLag x delay l).head?, 1 ≤ e.2 := by
  cases l with
  | nil =>
    intro e he
    cases he
    exact hdelay
  | cons d rest =>
    simp only [insertLag]
    split
    · intro e he
      cases he
      exact hdelay
    · intro e he
      cases he
      exact hl d rfl

theorem head_removeLag [DecidableEq α] (hlag : ∀ e ∈ l, 0 ≤ e.2)
    (hl : ∀ e ∈ l.head?, 1 ≤ e.2) : ∀ e ∈ (removeLag x l).head?, 1 ≤ e.2 := by
  cases l with
  | nil => exact nofun
  | cons d rest =>
    have hfirst := hl d rfl
    simp only [removeLag]
    split
    · cases rest with
      | nil => exact nofun
      | cons n rest =>
        intro e he
        cases he
        have := hlag n (by simp)
        omega
    · intro e he
      cases he
      exact hfirst

/-- The entries at the front with no time left. -/
def dueCount : List (α × Int) → Nat
  | [] => 0
  | (_, lag) :: rest => if lag ≤ 0 then dueCount rest + 1 else 0

theorem dueCount_le_length : dueCount l ≤ l.length := by
  induction l with
  | nil => exact Nat.le_refl 0
  | cons e rest ih =>
    simp only [dueCount, length_cons]
    split
    · omega
    · omega

/-- An entry with time left is not put among those with none. -/
theorem dueCount_insertLag_le (delay : Int) (hdelay : 1 ≤ delay)
    (hlag : ∀ e ∈ l, 0 ≤ e.2) : dueCount (insertLag x delay l) ≤ dueCount l := by
  induction l generalizing delay with
  | nil =>
    simp only [insertLag, dueCount]
    rw [if_neg (by omega)]
  | cons e rest ih =>
    obtain ⟨y, lag⟩ := e
    obtain ⟨hfirst, hrest⟩ := forall_mem_cons.mp hlag
    simp only [insertLag]
    split
    · simp only [dueCount]
      rw [if_neg (by omega)]
      exact Nat.zero_le _
    · simp only [dueCount]
      split
      · have := ih (delay - lag) (by omega) hrest
        omega
      · exact Nat.le_refl 0

theorem dueCount_push_le (lag : Int) (l : List (α × Int)) (h0 : 0 ≤ lag) :
    dueCount (push lag l) ≤ dueCount l := by
  cases l with
  | nil => exact Nat.le_refl 0
  | cons e rest =>
    simp only [push, dueCount]
    split
    · rw [if_pos (by omega)]
    · exact Nat.zero_le _

theorem dueCount_removeLag_le [DecidableEq α] (hlag : ∀ e ∈ l, 0 ≤ e.2) :
    dueCount (removeLag x l) ≤ dueCount l := by
  induction l with
  | nil => exact Nat.le_refl 0
  | cons e rest ih =>
    obtain ⟨y, lag⟩ := e
    obtain ⟨hfirst, hrest⟩ := forall_mem_cons.mp hlag
    simp only [removeLag]
    split
    · by_cases hzero : lag ≤ 0
      · have := dueCount_push_le lag rest hfirst
        simp only [dueCount, hzero, if_true]
        omega
      · -- the time left goes to the next entry
        cases rest with
        | nil => exact Nat.zero_le _
        | cons n rest =>
          have hnext := hrest n mem_cons_self
          simp only [push, dueCount]
          rw [if_neg (by omega)]
          exact Nat.zero_le _
    · simp only [dueCount]
      split
      · have := ih hrest
        omega
      · exact Nat.le_refl 0

/-- Where a time goes in a list of times: the entries before it are not later, the
entries behind it are later. -/
theorem insertTime_split (time : Int)
    (hsort : l.Pairwise fun a b => a.2 ≤ b.2) :
    ∃ before after, l = before ++ after ∧ insertTime x time l = before ++ (x, time) :: after ∧
      (∀ e ∈ before, e.2 ≤ time) ∧ ∀ e ∈ after, time < e.2 := by
  induction l with
  | nil => exact ⟨[], [], rfl, rfl, nofun, nofun⟩
  | cons e rest ih =>
    obtain ⟨y, due⟩ := e
    rw [pairwise_cons] at hsort
    simp only [insertTime]
    by_cases h : time < due
    · refine ⟨[], (y, due) :: rest, rfl, by simp only [h, if_true, nil_append], nofun, ?_⟩
      exact forall_mem_cons.mpr ⟨h, fun e he => Int.lt_of_lt_of_le h (hsort.1 e he)⟩
    · obtain ⟨before, after, hl, hins, hbefore, hafter⟩ := ih hsort.2
      refine ⟨(y, due) :: before, after, by rw [hl]; rfl, ?_, ?_, hafter⟩
      · simp only [h, if_false, hins, cons_append]
      · exact forall_mem_cons.mpr ⟨Int.not_lt.mp h, hbefore⟩

end NbLot.Lib.DeltaList
