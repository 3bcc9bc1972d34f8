import Mathlib.Data.List.Sort

/-!
# Insertion in front of the first smaller element

Facts about `List.orderedInsert r a`, which puts `a` in front of the first element
`b` with `r a b`, for a test `r` that need not be the order the list is kept in: the
list may be kept in a finer order, in which elements that `r` does not separate have
an order of their own.
-/
namespace NbLot.Lib.OrderedInsert
open List

variable {α : Type} {r : α → α → Prop} [DecidableRel r] {a z : α} {l front : List α}

theorem orderedInsert_append (h : ∀ b ∈ front, ¬ r a b) :
    (front ++ l).orderedInsert r a = front ++ l.orderedInsert r a := by
  induction front with
  | nil => rfl
  | cons b front ih =>
    rw [forall_mem_cons] at h
    simp [h.1, ih h.2]

/-- Insertion splits the list at the first element that `a` goes in front of. -/
theorem orderedInsert_split :
    l.orderedInsert r a =
      l.takeWhile (fun b => !decide (r a b)) ++ a :: l.dropWhile (fun b => !decide (r a b)) := by
  rw [orderedInsert_eq_take_drop]
  simp

/-- The new element is the head if it goes in front of the old one, and otherwise
the head stays. -/
theorem head?_orderedInsert :
    (l.orderedInsert r a).head? = if ∀ b ∈ l.head?, r a b then some a else l.head? := by
  cases l with
  | nil => simp
  | cons b l =>
    by_cases h : r a b <;> simp [h]

/-- A last element that `a` goes in front of stays the last. -/
theorem getLast?_orderedInsert (hlast : l.getLast? = some z) (h : r a z) :
    (l.orderedInsert r a).getLast? = some z := by
  obtain ⟨front, rfl⟩ := getLast?_eq_some_iff.mp hlast
  induction front with
  | nil => simp [h]
  | cons b front ih =>
    by_cases hb : r a b
    · simp [hb, getLast?_cons]
    · simp [hb, getLast?_cons, ih]

theorem map_orderedInsert {β : Type} {p : β → β → Prop} [DecidableRel p] {f : α → β}
    (h : ∀ b ∈ l, r a b ↔ p (f a) (f b)) :
    (l.orderedInsert r a).map f = (l.map f).orderedInsert p (f a) := by
  induction l with
  | nil => rfl
  | cons b l ih =>
    rw [forall_mem_cons] at h
    by_cases hb : r a b
    · simp [hb, h.1.mp hb]
    · simp [hb, mt h.1.mpr hb, ih h.2]

/-- A list kept in an order `R` stays in it when the test `r a` is upward closed along
`R` and agrees with `R` about where `a` belongs. -/
theorem pairwise_orderedInsert {R : α → α → Prop} (hl : l.Pairwise R)
    (hclosed : ∀ b c, R b c → r a b → r a c) (hbelow : ∀ b ∈ l, r a b → R a b)
    (habove : ∀ b ∈ l, ¬ r a b → R b a) : (l.orderedInsert r a).Pairwise R := by
  induction l with
  | nil => simp
  | cons b l ih =>
    rw [pairwise_cons] at hl
    rw [forall_mem_cons] at hbelow habove
    by_cases hb : r a b
    · -- everything behind `b` is below `a` as well
      rw [orderedInsert_cons, if_pos hb, pairwise_cons]
      refine ⟨forall_mem_cons.mpr ⟨hbelow.1 hb, ?_⟩, pairwise_cons.mpr hl⟩
      exact fun c hc => hbelow.2 c hc (hclosed b c (hl.1 c hc) hb)
    · rw [orderedInsert_cons, if_neg hb, pairwise_cons]
      refine ⟨fun c hc => ?_, ih hl.2 hbelow.2 habove.2⟩
      rcases mem_orderedInsert r |>.mp hc with rfl | hc
      · exact habove.1 hb
      · exact hl.1 c hc

end NbLot.Lib.OrderedInsert
