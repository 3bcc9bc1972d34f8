import Mathlib.Algebra.BigOperators.Fin
import Mathlib.Algebra.Order.BigOperators.Group.Finset

/-!
# Counting the elements that meet a condition

How a count over a list changes when one element leaves the list or changes sides, and how the
sum of the weights of the values of a function (`total`) changes when one of them changes.
-/
namespace NbLot.Lib.Counting
open Function Finset

variable {α : Type} {t : α} {l : List α} {p q : α → Bool}

theorem countP_erase_add [BEq α] [LawfulBEq α] (ht : t ∈ l) :
    (l.erase t).countP p + (if p t then 1 else 0) = l.countP p := by
  rw [(List.perm_cons_erase ht).countP_eq p, List.countP_cons]

/-- Two conditions that agree on all elements but one. -/
theorem countP_agree_off [DecidableEq α] (hnodup : l.Nodup) (ht : t ∈ l)
    (h : ∀ u ∈ l, u ≠ t → (p u ↔ q u)) :
    l.countP p + (if q t then 1 else 0) = l.countP q + (if p t then 1 else 0) := by
  have hrest : (l.erase t).countP p = (l.erase t).countP q := by
    refine List.countP_congr fun u hu => ?_
    rw [hnodup.mem_erase_iff] at hu
    exact h u hu.2 hu.1
  rw [← countP_erase_add ht, ← countP_erase_add ht]
  omega

section Total

variable {τ κ : Type} [Fintype τ]

/-- The sum of the weights of the values of a function. -/
def total (weight : κ → Nat) (f : τ → κ) : Nat := ∑ t, weight (f t)

theorem total_eq_zero {weight : κ → Nat} {f : τ → κ} :
    total weight f = 0 ↔ ∀ t, weight (f t) = 0 := by
  simp [total]

theorem total_update [DecidableEq τ] (weight : κ → Nat) (f : τ → κ) (t : τ) (y : κ) :
    total weight (update f t y) + weight (f t) = total weight f + weight y := by
  -- the other arguments keep their weights
  have hsplit : ∀ g : τ → κ, total weight g =
      weight (g t) + ∑ u ∈ univ.erase t, weight (g u) := fun g =>
    (add_sum_erase univ (fun u => weight (g u)) (mem_univ t)).symm
  have hrest : ∑ u ∈ univ.erase t, weight (update f t y u) =
      ∑ u ∈ univ.erase t, weight (f u) := by
    refine sum_congr rfl fun u hu => ?_
    rw [update_of_ne (ne_of_mem_erase hu)]
  rw [hsplit (update f t y), hsplit f, update_self]
  omega

end Total

end NbLot.Lib.Counting
