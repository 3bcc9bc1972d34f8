import Mathlib.Data.List.Basic

/-!
# Doubly linked lists

A list is given by two link functions `next` and `prev`. `Linked next prev nodes last`
says that the nodes are linked in this order and that the last one points to `last`.
`Linked.congr` moves a list to links that agree on its nodes; `Linked.remove` and
`Linked.insert` are the two edits.
-/
namespace NbLot.Lib
open List

variable {α : Type}

def Linked (next prev : α → α) : List α → α → Prop
  | [], _ => True
  | [x], last => next x = last
  | x :: y :: rest, last => next x = y ∧ prev y = x ∧ Linked next prev (y :: rest) last

variable {next prev next' prev' : α → α} {last : α} {rest : List α}

theorem Linked.congr {nodes : List α} (h : Linked next prev nodes last)
    (hnext : ∀ x ∈ nodes, next' x = next x) (hprev : ∀ x ∈ nodes.tail, prev' x = prev x) :
    Linked next' prev' nodes last := by
  induction nodes with
  | nil => trivial
  | cons x rest ih =>
    obtain ⟨hx, hnext⟩ := forall_mem_cons.mp hnext
    cases rest with
    | nil => exact hx.trans h
    | cons y rest =>
      obtain ⟨hxy, hyx, hrest⟩ := h
      obtain ⟨hy, hprev⟩ := forall_mem_cons.mp hprev
      exact ⟨hx.trans hxy, hy.trans hyx, ih hrest hnext hprev⟩

theorem linked_append (before after : List α) (x last : α) :
    Linked next prev (before ++ x :: after) last ↔
      Linked next prev before x ∧ (∀ y ∈ before.getLast?, prev x = y) ∧
        Linked next prev (x :: after) last := by
  induction before with
  | nil => simp [Linked]
  | cons u before ih =>
    cases before with
    | nil => simp [Linked]
    | cons v before =>
      simp only [cons_append, Linked] at ih ⊢
      rw [ih]
      constructor
      · intro h
        exact ⟨⟨h.1, h.2.1, h.2.2.1⟩, h.2.2.2⟩
      · intro h
        exact ⟨h.1.1, h.1.2.1, h.1.2.2, h.2⟩

/-- The node behind `x` on the list. -/
def behind (rest : List α) (last : α) : α := rest.head?.getD last

@[simp] theorem behind_nil (last : α) : behind [] last = last := rfl

@[simp] theorem behind_cons (y last : α) (rest : List α) : behind (y :: rest) last = y := rfl

theorem Linked.next_eq {x : α} (h : Linked next prev (x :: rest) last) :
    next x = behind rest last := by
  cases rest with
  | nil => exact h
  | cons y rest => exact h.1

theorem Linked.tail {x : α} (h : Linked next prev (x :: rest) last) :
    Linked next prev rest last := by
  cases rest with
  | nil => trivial
  | cons y rest => exact h.2.2

/-- The links from `p` on are others, those before it stay. -/
theorem Linked.replace {before after after' : List α} {p : α}
    (h : Linked next prev (before ++ p :: after) last) (hnext : ∀ y ∈ before, next' y = next y)
    (hprev : ∀ y ∈ before, prev' y = prev y) (hp : prev' p = prev p)
    (hnew : Linked next' prev' (p :: after') last) :
    Linked next' prev' (before ++ p :: after') last := by
  rw [linked_append] at h ⊢
  exact ⟨h.1.congr hnext fun y hy => hprev y (mem_of_mem_tail hy), hp ▸ h.2.1, hnew⟩

theorem Linked.remove (before after : List α) (p x last : α)
    (h : Linked next prev (before ++ p :: x :: after) last) (hp : next' p = next x)
    (hnext : ∀ y ∈ before ++ after, next' y = next y) (hbehind : ∀ y ∈ after.head?, prev' y = p)
    (hprev : ∀ y ∈ before ++ p :: after.tail, prev' y = prev y) :
    Linked next' prev' (before ++ p :: after) last := by
  rw [forall_mem_append] at hnext
  simp only [forall_mem_append, forall_mem_cons] at hprev
  refine h.replace hnext.1 hprev.1 hprev.2.1 ?_
  obtain ⟨_, _, _, _, hafter⟩ := (linked_append before _ _ _).mp h
  cases after with
  | nil => exact hp.trans hafter
  | cons y after => exact ⟨hp.trans hafter.1, hbehind y rfl, hafter.2.2.congr hnext.2 hprev.2.2⟩

theorem Linked.insert (before after : List α) (p x last : α)
    (h : Linked next prev (before ++ p :: after) last)
    (hp : next' p = x) (hxp : prev' x = p) (hx : next' x = behind after last)
    (hnext : ∀ y ∈ before ++ after, next' y = next y) (hbehind : ∀ y ∈ after.head?, prev' y = x)
    (hprev : ∀ y ∈ before ++ p :: after.tail, prev' y = prev y) :
    Linked next' prev' (before ++ p :: x :: after) last := by
  rw [forall_mem_append] at hnext
  simp only [forall_mem_append, forall_mem_cons] at hprev
  refine h.replace hnext.1 hprev.1 hprev.2.1 ⟨hp, hxp, ?_⟩
  obtain ⟨_, _, hafter⟩ := (linked_append before _ _ _).mp h
  cases after with
  | nil => exact hx
  | cons y after => exact ⟨hx, hbehind y rfl, hafter.2.2.congr hnext.2 hprev.2.2⟩

end NbLot.Lib
