import Mathlib.Data.Multiset.Filter

/-!
# Priority inheritance with a list of recorded priorities

A task that others wait for runs at the highest of their priorities and keeps the other
priorities, as far as they are above its own base priority, in a list. `raise` is what a
new waiter of priority `p` does to it, `lower` what the end of its wait does. `Records`
relates the result to the priorities of the tasks that are still waiting: all of those
above the base are recorded, and in the exact form nothing else is.
-/
namespace NbLot.Lib.Inheritance
open Multiset

/-- The highest value of a list. -/
def highest : List Nat → Nat
  | [] => 0
  | p :: pend => max p (highest pend)

/-- The first entry with the value is removed and the last one takes its place. -/
def swapRemove (pend : List Nat) (p : Nat) : List Nat :=
  match pend.idxOf? p, pend.getLast? with
  | some j, some last => (pend.set j last).dropLast
  | _, _ => pend

variable {pend : List Nat} {base p : Nat}

theorem le_highest : ∀ q ∈ pend, q ≤ highest pend := by
  induction pend with
  | nil => simp
  | cons p pend ih =>
    intro q hq
    rcases List.mem_cons.mp hq with rfl | hq
    · exact le_max_left _ _
    · exact (ih q hq).trans (le_max_right _ _)

theorem highest_mem (h : pend ≠ []) : highest pend ∈ pend := by
  induction pend with
  | nil => exact absurd rfl h
  | cons p pend ih =>
    cases pend with
    | nil => simp [highest]
    | cons q rest =>
      have hrest := ih (by simp)
      rcases le_total (highest (q :: rest)) p with hmax | hmax
      · rw [highest, Nat.max_eq_left hmax]
        exact List.mem_cons_self
      · rw [highest, Nat.max_eq_right hmax]
        exact List.mem_cons_of_mem p hrest

theorem idxOf?_append_cons {front back : List Nat} (h : p ∉ front) :
    (front ++ p :: back).idxOf? p = some front.length := by
  induction front with
  | nil => simp [List.idxOf?_cons]
  | cons q front ih =>
    rw [List.mem_cons, not_or] at h
    simp [List.idxOf?_cons, Ne.symm h.1, ih h.2]

theorem coe_swapRemove (pend : List Nat) (p : Nat) :
    (swapRemove pend p : Multiset Nat) = (pend : Multiset Nat).erase p := by
  by_cases hp : p ∈ pend
  · obtain ⟨front, back, rfl, hfront⟩ := List.eq_append_cons_of_mem hp
    have herase : ((front ++ p :: back : List Nat) : Multiset Nat).erase p =
        (front ++ back : List Nat) := by
      rw [coe_erase, List.erase_append_right _ hfront, List.erase_cons_head]
    rw [herase]
    unfold swapRemove
    rw [idxOf?_append_cons hfront]
    rcases List.eq_nil_or_concat back with rfl | ⟨rest, last, rfl⟩
    · simp
    · simp only [List.concat_eq_append, ← List.cons_append, ← List.append_assoc,
        List.getLast?_concat]
      rw [List.append_assoc, List.set_append_right _ _ le_rfl, Nat.sub_self, List.cons_append,
        List.set_cons_zero, ← List.cons_append, ← List.append_assoc, List.dropLast_concat]
      simpa using ((List.perm_append_singleton last rest).symm).append_left front
  · have hnone := List.idxOf?_eq_none_iff.mpr hp
    rw [erase_of_notMem hp]
    simp [swapRemove, hnone]

theorem coe_concat (pend : List Nat) (p : Nat) :
    ((pend ++ [p] : List Nat) : Multiset Nat) = p ::ₘ (pend : Multiset Nat) :=
  coe_eq_coe.mpr (List.perm_append_singleton p pend)

/-- What a task runs at. -/
@[ext]
structure Rank where
  priority : Nat
  base : Nat
  pend : List Nat

/-- The waiting tasks' priorities that matter to a task with the base priority. -/
def above (base : Nat) (W : Multiset Nat) : Multiset Nat :=
  W.filter (base < ·)

theorem above_cons_of_lt (W : Multiset Nat) (h : base < p) :
    above base (p ::ₘ W) = p ::ₘ above base W :=
  filter_cons_of_pos W h

theorem above_cons_of_le (W : Multiset Nat) (h : p ≤ base) : above base (p ::ₘ W) = above base W :=
  filter_cons_of_neg W (not_lt.mpr h)

theorem above_eq_zero {W : Multiset Nat} : above base W = 0 ↔ ∀ p ∈ W, p ≤ base := by
  simp [above]

namespace Rank

/-- A task of priority `p` starts to wait. -/
def raise (x : Rank) (p : Nat) : Rank :=
  if x.base < p then
    if x.priority < p then
      ⟨p, x.base, if x.base < x.priority then x.pend ++ [x.priority] else x.pend⟩
    else ⟨x.priority, x.base, x.pend ++ [p]⟩
  else x

/-- A task of priority `p` waits no longer. -/
def lower (x : Rank) (p : Nat) : Rank :=
  if x.priority ≠ x.base then
    if x.pend = [] then ⟨x.base, x.base, []⟩
    else if x.priority ≤ p then
      ⟨highest x.pend, x.base, swapRemove x.pend (highest x.pend)⟩
    else ⟨x.priority, x.base, swapRemove x.pend p⟩
  else x

/-- The priorities that the task has inherited, the one it runs at among them. -/
def recorded (x : Rank) : Multiset Nat :=
  if x.base < x.priority then x.priority ::ₘ (x.pend : Multiset Nat) else 0

/-- The recorded priorities lie between the base and the one the task runs at. -/
structure Sound (x : Rank) : Prop where
  base_le : x.base ≤ x.priority
  pend_mem : ∀ q ∈ x.pend, x.base < q ∧ q ≤ x.priority

variable {x : Rank} {p : Nat}

theorem base_raise : (x.raise p).base = x.base := by
  unfold raise
  split
  · split <;> rfl
  · rfl

theorem base_lower : (x.lower p).base = x.base := by
  unfold lower
  split
  · split
    · rfl
    · split <;> rfl
  · rfl

theorem Sound.pend_nil (h : Sound x) (heq : x.priority = x.base) : x.pend = [] := by
  refine List.eq_nil_iff_forall_not_mem.mpr fun q hq => ?_
  have := h.pend_mem q hq
  omega

theorem Sound.raise (h : Sound x) : Sound (x.raise p) := by
  have hbase := h.base_le
  unfold Rank.raise
  split
  · split
    · refine ⟨by simp only; omega, fun q hq => ?_⟩
      have hq : q ∈ x.pend ∨ x.base < x.priority ∧ q = x.priority := by
        by_cases hinherits : x.base < x.priority <;> simpa [hinherits] using hq
      rcases hq with hq | ⟨hlt, rfl⟩
      · have := h.pend_mem q hq
        exact ⟨this.1, by simp only; omega⟩
      · exact ⟨hlt, by simp only; omega⟩
    · refine ⟨hbase, fun q hq => ?_⟩
      rcases List.mem_append.mp hq with hq | hq
      · exact h.pend_mem q hq
      · rw [List.mem_singleton] at hq
        exact ⟨by simp only; omega, by simp only; omega⟩
  · exact h

theorem mem_swapRemove {q : Nat} (hq : q ∈ swapRemove pend p) : q ∈ pend := by
  have hq : q ∈ (swapRemove pend p : Multiset Nat) := hq
  rw [coe_swapRemove] at hq
  exact mem_of_mem_erase hq

theorem Sound.lower (h : Sound x) : Sound (x.lower p) := by
  unfold Rank.lower
  split
  · split
    · exact ⟨le_rfl, by simp⟩
    · next hpend =>
      split
      · refine ⟨(h.pend_mem _ (highest_mem hpend)).1.le, fun q hq => ?_⟩
        exact ⟨(h.pend_mem q (mem_swapRemove hq)).1, le_highest q (mem_swapRemove hq)⟩
      · exact ⟨h.base_le, fun q hq => h.pend_mem q (mem_swapRemove hq)⟩
  · exact h

theorem Sound.priority_lower_le (h : Sound x) : (x.lower p).priority ≤ x.priority := by
  unfold Rank.lower
  split
  · split
    · exact h.base_le
    · next hpend =>
      split
      · exact (h.pend_mem _ (highest_mem hpend)).2
      · exact le_rfl
  · exact le_rfl

theorem priority_raise_le : (x.raise p).priority ≤ max x.priority p := by
  unfold raise
  split
  · split
    · exact le_max_right _ _
    · exact le_max_left _ _
  · exact le_max_left _ _

/-- A waiter above the base is recorded. -/
theorem Sound.recorded_raise (h : Sound x) (hp : x.base < p) :
    (x.raise p).recorded = p ::ₘ x.recorded := by
  by_cases hlt : x.priority < p
  · by_cases hinherits : x.base < x.priority
    · simp only [Rank.raise, recorded, if_pos hp, if_pos hlt, if_pos hinherits, coe_concat]
    · have hnil := h.pend_nil (by have := h.base_le; omega)
      simp [Rank.raise, recorded, hp, hlt, hinherits, hnil]
  · have hinherits : x.base < x.priority := by omega
    simp only [Rank.raise, recorded, if_pos hp, if_neg hlt, if_pos hinherits, coe_concat]
    exact cons_swap _ _ _

/-- The end of a wait that was recorded takes it off the record. -/
theorem Sound.recorded_lower (h : Sound x) (hp : p ∈ x.recorded) :
    (x.lower p).recorded = x.recorded.erase p := by
  by_cases hinherits : x.base < x.priority
  · have hrec : x.recorded = x.priority ::ₘ (x.pend : Multiset Nat) := if_pos hinherits
    rw [hrec, mem_cons] at hp
    rw [hrec]
    have hne : x.priority ≠ x.base := by omega
    by_cases hpend : x.pend = []
    · have hp : p = x.priority := by simpa [hpend] using hp
      simp [Rank.lower, recorded, hne, hpend, hp]
    · by_cases htop : x.priority ≤ p
      · have hp : p = x.priority := by
          rcases hp with hp | hp
          · exact hp
          · exact le_antisymm (h.pend_mem p hp).2 htop
        have hmem := highest_mem hpend
        have hbase := (h.pend_mem _ hmem).1
        subst hp
        simp only [Rank.lower, recorded, if_pos hne, if_neg hpend, le_refl, if_true, if_pos hbase,
          coe_swapRemove, erase_cons_head]
        exact cons_erase hmem
      · simp only [Rank.lower, recorded, if_pos hne, if_neg hpend, if_neg htop,
          if_pos hinherits, coe_swapRemove]
        rw [erase_cons_tail _ (by omega)]
  · simp [recorded, hinherits] at hp

end Rank

/-- The priorities `W` of the waiting tasks, as far as they are above the base, are
recorded; in the exact form nothing else is. -/
structure Records (exact : Bool) (W : Multiset Nat) (x : Rank) : Prop where
  sound : x.Sound
  covers : above x.base W ≤ x.recorded
  only : exact = true → above x.base W = x.recorded

namespace Records

variable {exact : Bool} {W : Multiset Nat} {x : Rank} {p : Nat}

theorem le_priority (h : Records exact W x) (hp : p ∈ W) : p ≤ x.priority := by
  by_cases hbase : p ≤ x.base
  · exact hbase.trans h.sound.base_le
  · have hmem : p ∈ x.recorded := mem_of_le h.covers (mem_filter.mpr ⟨hp, not_le.mp hbase⟩)
    unfold Rank.recorded at hmem
    split at hmem
    · rcases mem_cons.mp hmem with rfl | hmem
      · exact le_rfl
      · exact (h.sound.pend_mem p hmem).2
    · simp at hmem

/-- In the exact form a task that no one above its base waits for has inherited nothing. -/
theorem restored (h : Records true W x) (hW : above x.base W = 0) :
    x.priority = x.base ∧ x.pend = [] := by
  have hrec := (h.only rfl).symm.trans hW
  have hle := h.sound.base_le
  unfold Rank.recorded at hrec
  split at hrec
  · simp at hrec
  · have heq : x.priority = x.base := by omega
    exact ⟨heq, h.sound.pend_nil heq⟩

theorem raise (h : Records exact W x) : Records exact (p ::ₘ W) (x.raise p) := by
  by_cases hp : x.base < p
  · have hrec := h.sound.recorded_raise hp
    refine ⟨h.sound.raise, ?_, fun hexact => ?_⟩
    · rw [Rank.base_raise, above_cons_of_lt W hp, hrec, cons_le_cons_iff]
      exact h.covers
    · rw [Rank.base_raise, above_cons_of_lt W hp, hrec, h.only hexact]
  · have hsame : x.raise p = x := if_neg hp
    have habove := above_cons_of_le W (not_lt.mp hp)
    rw [hsame]
    exact ⟨h.sound, habove ▸ h.covers, fun hexact => habove ▸ h.only hexact⟩

/-- The end of a wait, if it was above the base or no one above the base is left. -/
theorem lower (h : Records exact (p ::ₘ W) x) (hp : x.base < p ∨ above x.base W = 0) :
    Records exact W (x.lower p) := by
  by_cases hlt : x.base < p
  · have hcovers := h.covers
    rw [above_cons_of_lt W hlt] at hcovers
    have hmem : p ∈ x.recorded := mem_of_le hcovers (mem_cons_self p _)
    have hrec := h.sound.recorded_lower hmem
    refine ⟨h.sound.lower, ?_, fun hexact => ?_⟩
    · rw [Rank.base_lower, hrec]
      simpa using erase_le_erase p hcovers
    · rw [Rank.base_lower, hrec, ← h.only hexact, above_cons_of_lt W hlt, erase_cons_head]
  · have hW := hp.resolve_left hlt
    refine ⟨h.sound.lower, ?_, fun hexact => ?_⟩
    · rw [Rank.base_lower, hW]
      exact Multiset.zero_le _
    · subst hexact
      have heq := (h.restored ((above_cons_of_le W (not_lt.mp hlt)).trans hW)).1
      have hsame : x.lower p = x := if_neg (not_not.mpr heq)
      rw [hsame, hW, Rank.recorded, if_neg (by omega)]

/-- The task is no longer responsible for those who wait. -/
theorem forget (h : Records exact W x) (hW : exact = true → above x.base W = 0) :
    Records exact 0 x where
  sound := h.sound
  covers := Multiset.zero_le _
  only hexact := by rw [← h.only hexact, hW hexact]; rfl

section

variable (h : Records exact 0 x)
include h

/-- The task becomes responsible for waiters that are not above its base. -/
theorem adopt (hW : above x.base W = 0) : Records exact W x where
  sound := h.sound
  covers := by rw [hW]; exact Multiset.zero_le _
  only hexact := by rw [hW, ← h.only hexact]; rfl

theorem raise_free (hp : exact = true → p ≤ x.base) : Records exact 0 (x.raise p) := by
  refine (h.raise).forget fun hexact => ?_
  rw [Rank.base_raise, above_cons_of_le 0 (hp hexact)]
  rfl

theorem lower_free : Records exact 0 (x.lower p) := by
  refine ⟨h.sound.lower, Multiset.zero_le _, fun hexact => ?_⟩
  subst hexact
  have hsame : x.lower p = x := if_neg (not_not.mpr (h.restored rfl).1)
  rw [hsame]
  exact h.only rfl

/-- The list of a task that no one waits for is emptied. -/
theorem clear : Records exact 0 ⟨x.priority, x.base, []⟩ := by
  refine ⟨⟨h.sound.base_le, by simp⟩, Multiset.zero_le _, fun hexact => ?_⟩
  subst hexact
  have heq := (h.restored rfl).1
  simp [above, Rank.recorded, heq]

end

/-- Without exactness a wait may also end unnoticed. -/
theorem drop (h : Records false (p ::ₘ W) x) : Records false W x where
  sound := h.sound
  covers := (filter_le_filter _ (le_cons_self W p)).trans h.covers
  only := by simp

end Records

end NbLot.Lib.Inheritance
