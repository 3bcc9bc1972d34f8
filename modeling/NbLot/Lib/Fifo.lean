import NbLot.Lib.Transition
import Mathlib.Data.List.Basic

/-!
# Queues as sequences of events

The queue from which elements are taken in the order in which they were put, and which may be
emptied. A list of events is possible for the queue when `run step [] events` is `some`; without a
flush the elements put are those taken and, behind them, those in the queue.
-/
namespace NbLot.Lib.Fifo

open Transition

variable {α : Type}

inductive Event (α : Type) where
  | put (a : α)
  | take (a : α)
  | flush
  deriving DecidableEq, Repr

variable [DecidableEq α]

/-- What an event makes of the elements that wait; only the first of them can be taken. -/
def step (queue : List α) : Event α → Option (List α)
  | .put a => some (queue ++ [a])
  | .take a =>
    match queue with
    | [] => none
    | b :: queue => if a = b then some queue else none
  | .flush => some []

def puts (events : List (Event α)) : List α :=
  events.filterMap fun
    | .put a => some a
    | _ => none

def takes (events : List (Event α)) : List α :=
  events.filterMap fun
    | .take a => some a
    | _ => none

section Events

variable {events : List (Event α)} {queue : List α}

theorem run_puts (h : run step [] events = some queue) (l : List α) :
    run step [] (events ++ l.map .put) = some (queue ++ l) := by
  rw [run_append, h]
  show run step queue (l.map .put) = _
  clear h
  induction l generalizing queue with
  | nil => simp [run]
  | cons a l ih => simpa [run, step] using @ih (queue ++ [a])

theorem run_take {a : α} (h : run step [] events = some (a :: queue)) :
    run step [] (events ++ [.take a]) = some queue := by
  rw [run_append, h]
  simp [run, step]

theorem run_takes {l : List α} (h : run step [] events = some (l ++ queue)) :
    run step [] (events ++ l.map .take) = some queue := by
  induction l generalizing events with
  | nil => simpa using h
  | cons a l ih => simpa using ih (run_take h)

theorem run_flush (h : run step [] events = some queue) :
    run step [] (events ++ [.flush]) = some [] := by
  rw [run_append, h]
  rfl

end Events

theorem puts_eq {events : List (Event α)} {queue queue' : List α} (hflush : .flush ∉ events)
    (h : run step queue events = some queue') : queue ++ puts events = takes events ++ queue' := by
  induction events generalizing queue with
  | nil =>
    cases h
    simp [puts, takes]
  | cons e events ih =>
    rw [List.mem_cons, not_or] at hflush
    cases e with
    | put a =>
      have := ih hflush.2 h
      simpa [puts, takes] using this
    | take a =>
      cases queue with
      | nil => cases h
      | cons b queue =>
        by_cases hab : a = b
        · have hrest : run step queue events = some queue' := by
            simpa [run, step, hab] using h
          have := ih hflush.2 hrest
          simpa [puts, takes, hab] using this
        · simp [run, step, hab] at h
    | flush => exact absurd rfl hflush.1

end NbLot.Lib.Fifo
