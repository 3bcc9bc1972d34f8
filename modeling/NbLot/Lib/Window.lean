import Mathlib.Data.List.Chain

/-!
# Replacing a window of a chained list

A list between two fixed ends `first` and `last` is chained by a relation. Cut into
`left ++ win ++ right`, it is chained exactly when the three parts are, where the part
in the middle includes the element before and the element behind the window.
-/
namespace NbLot.Lib
open List

variable {α : Type} {R : α → α → Prop}

/-- The element before the window. -/
def pred (first : α) (left : List α) : α := left.getLastD first

/-- The element behind the window. -/
def succ (right : List α) (last : α) : α := right.headD last

theorem pred_mem (first : α) (left : List α) : pred first left ∈ first :: left := by
  unfold pred
  cases left with
  | nil => exact mem_cons_self
  | cons a left =>
    rw [getLastD_cons, ← getLast_eq_getLastD]
    · exact mem_cons_of_mem _ (getLast_mem _)
    · exact cons_ne_nil a left

theorem succ_mem (right : List α) (last : α) : succ right last ∈ right ++ [last] := by
  cases right with
  | nil => exact mem_cons_self
  | cons a right => exact mem_cons_self

theorem exists_pred (first : α) (left : List α) :
    ∃ init, first :: left = init ++ [pred first left] := by
  have hsplit := (dropLast_append_getLast (cons_ne_nil first left)).symm
  rw [getLast_eq_getLastD] at hsplit
  exact ⟨_, hsplit⟩

theorem exists_succ (right : List α) (last : α) :
    ∃ rest, right ++ [last] = succ right last :: rest := by
  cases right with
  | nil => exact ⟨[], rfl⟩
  | cons a right => exact ⟨right ++ [last], rfl⟩

theorem isChain_window (first last : α) (left win right : List α) :
    List.IsChain R (first :: (left ++ win ++ right ++ [last])) ↔
      List.IsChain R (first :: left) ∧
      List.IsChain R (pred first left :: (win ++ [succ right last])) ∧
      List.IsChain R (right ++ [last]) := by
  obtain ⟨init, hinit⟩ := exists_pred first left
  obtain ⟨rest, hrest⟩ := exists_succ right last
  have hlist : first :: (left ++ win ++ right ++ [last]) =
      init ++ pred first left :: (win ++ succ right last :: rest) := by
    rw [append_assoc, append_assoc, hrest, ← cons_append, hinit, append_assoc]
    rfl
  rw [hlist, isChain_split, isChain_cons_split, hinit, hrest]

end NbLot.Lib
