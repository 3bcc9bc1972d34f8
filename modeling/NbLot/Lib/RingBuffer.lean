import Mathlib.Data.List.Basic

/-!
# Ring buffers

A ring of `size` slots with the index of the next slot to fill (`head`) and of the next to empty
(`tail`). One slot stays free: the ring is empty when the indices are equal, and full when the head
would reach the tail.
-/
namespace NbLot.Lib
open List Function

structure RingBuffer (α : Type) where
  size : Nat
  head : Nat
  tail : Nat
  slot : Nat → α

namespace RingBuffer

variable {α : Type} {r : RingBuffer α} {a : α}

/-- The index behind an index. -/
def next (r : RingBuffer α) (i : Nat) : Nat := if i + 1 ≥ r.size then 0 else i + 1

def push (r : RingBuffer α) (a : α) : RingBuffer α :=
  { r with slot := Function.update r.slot r.head a, head := r.next r.head }

def pop (r : RingBuffer α) : RingBuffer α := { r with tail := r.next r.tail }

structure Valid (r : RingBuffer α) : Prop where
  head : r.head < r.size
  tail : r.tail < r.size

/-- The number of elements. -/
def length (r : RingBuffer α) : Nat :=
  if r.tail ≤ r.head then r.head - r.tail else r.size - r.tail + r.head

/-- The slot of the `k`-th element. -/
def place (r : RingBuffer α) (k : Nat) : Nat :=
  if r.tail + k < r.size then r.tail + k else r.tail + k - r.size

/-- The elements from the tail to the head. -/
def contents (r : RingBuffer α) : List α := (List.range r.length).map fun k => r.slot (r.place k)

@[simp]
theorem length_contents (r : RingBuffer α) : r.contents.length = r.length := by
  simp [contents]

section

variable (h : r.Valid)
include h

theorem Valid.next (i : Nat) : r.next i < r.size := by
  have := h.head
  unfold RingBuffer.next
  split_ifs <;> omega

theorem Valid.push : (r.push a).Valid := ⟨h.next r.head, h.tail⟩

theorem Valid.pop : r.pop.Valid := ⟨h.head, h.next r.tail⟩

theorem Valid.length_lt : r.length < r.size := by
  have := h.head
  unfold length
  split_ifs <;> omega

theorem contents_eq_nil : r.contents = [] ↔ r.head = r.tail := by
  have := h.tail
  rw [← length_eq_zero_iff, length_contents, length]
  split_ifs <;> omega

/-- The head reaches the tail when all slots but one are taken. -/
theorem next_head_eq_tail : r.next r.head = r.tail ↔ r.length + 1 = r.size := by
  have := h.head
  have := h.tail
  unfold next length
  split_ifs <;> omega

theorem place_ne_head {k : Nat} (hk : k < r.length) : r.place k ≠ r.head := by
  have := h.tail
  unfold length at hk
  unfold place
  split_ifs at hk ⊢ <;> omega

theorem contents_update_head (a : α) :
    contents { r with slot := update r.slot r.head a } = r.contents :=
  map_congr_left fun _ hk =>
    update_of_ne (place_ne_head h (mem_range.mp hk)) a r.slot

theorem contents_push (hroom : r.next r.head ≠ r.tail) :
    (r.push a).contents = r.contents ++ [a] := by
  have hhead := h.head
  have htail := h.tail
  have hlength : (r.push a).length = r.length + 1 := by
    unfold next at hroom
    simp only [push, length, next]
    split_ifs at hroom ⊢ <;> omega
  have hlast : r.place r.length = r.head := by
    unfold place length
    split_ifs <;> omega
  rw [← contents_update_head h a]
  simp only [contents]
  rw [hlength, range_succ, map_append]
  congr 1
  show [update r.slot r.head a (r.place r.length)] = [a]
  rw [hlast, update_self]

theorem contents_pop (hsome : r.head ≠ r.tail) : r.contents = r.slot r.tail :: r.pop.contents := by
  have hhead := h.head
  have htail := h.tail
  have hlength : r.length = r.pop.length + 1 := by
    simp only [pop, length, next]
    split_ifs <;> omega
  have hfirst : r.place 0 = r.tail := if_pos htail
  have hother : ∀ k < r.pop.length, r.place (k + 1) = r.pop.place k := by
    intro k hk
    simp only [pop, length, next] at hk
    simp only [pop, place, next]
    split_ifs at hk ⊢ <;> omega
  simp only [contents]
  rw [hlength, range_succ_eq_map, map_cons, map_map, hfirst]
  congr 1
  refine map_congr_left fun k hk => ?_
  exact congrArg r.slot (hother k (mem_range.mp hk))

end

end RingBuffer

end NbLot.Lib
