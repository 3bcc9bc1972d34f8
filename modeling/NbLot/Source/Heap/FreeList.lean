import Mathlib.Data.List.Pairwise
import Mathlib.Data.List.Perm.Subperm
import Mathlib.Data.Nat.Log
import NbLot.Lib.LinkedList
import NbLot.Source.Heap.Model

/-!
# The free list of the heap

Source: nuttx/mm/mm_heap/mm_addfreechunk.c:57-84, mm_malloc.c:93-137, the removals in
mm_malloc.c, mm_free.c, mm_shrinkchunk.c and mm_realloc.c.

`mm_nodelist[0]` starts one list in which the entries of `mm_nodelist` separate the
buckets: `nodes nodelist seg` is this list when bucket `i` holds the chunks `seg i`.
Removal, insertion and search are described here without regard to the chunks
themselves: a removal or an insertion writes link words of nodes only.
-/
namespace NbLot.Source.Heap
open Lib List Function Words

/-- The entries `i` to `i + n - 1` of `mm_nodelist`, each with its bucket behind it. -/
def nodesFrom (nodelist : Nat) (seg : Nat → List Nat) (i n : Nat) : List Nat :=
  (List.range' i n).flatMap fun j => (nodelist + 16 * j) :: seg j

def nodes (nodelist : Nat) (seg : Nat → List Nat) : List Nat := nodesFrom nodelist seg 0 mmNnodes

/-- The chunk is in some bucket. -/
def Listed (seg : Nat → List Nat) (x : Nat) : Prop := ∃ i < mmNnodes, x ∈ seg i

/-- Two nodes of sixteen bytes do not overlap. -/
def Apart (x y : Nat) : Prop := x + 16 ≤ y ∨ y + 16 ≤ x

structure FreeList (nodelist : Nat) (m : Words) (seg : Nat → List Nat) : Prop where
  linked : Linked (fun x => m (x + 8)) (fun x => m (x + 12)) (nodes nodelist seg) 0
  heads : ∀ i < mmNnodes, m (nodelist + 16 * i) = 0
  bucket : ∀ i < mmNnodes, ∀ x ∈ seg i, mmSize2ndx (m x) = i
  sorted : ∀ i < mmNnodes, (seg i).Pairwise fun x y => m x ≤ m y
  occupied : ∀ x, Listed seg x → x ≠ 0 ∧ m x ≠ 0
  apart : (nodes nodelist seg).Pairwise Apart
  below : ∀ x ∈ nodes nodelist seg, x < addresses

/-- The address is no link word of a node on the list. -/
def OffLinks (nodelist : Nat) (seg : Nat → List Nat) (a : Nat) : Prop :=
  ∀ y ∈ nodes nodelist seg, a ≠ y + 8 ∧ a ≠ y + 12

/-- The nodes are linked by their words at 8 and 12. -/
abbrev Chained (m : Words) (l : List Nat) : Prop :=
  Linked (fun x => m (x + 8)) (fun x => m (x + 12)) l 0

variable {nodelist y i x size : Nat} {m m' : Words} {seg : Nat → List Nat}

theorem mem_nodes :
    y ∈ nodes nodelist seg ↔ (∃ i < mmNnodes, y = nodelist + 16 * i) ∨ Listed seg y := by
  simp only [nodes, nodesFrom, mem_flatMap, mem_range'_1, mem_cons, Listed,
    Nat.zero_le, Nat.zero_add, true_and, and_or_left, exists_or]

theorem nodesFrom_update (i n j : Nat) (bucket : List Nat) (h : j < i ∨ i + n ≤ j) :
    nodesFrom nodelist (update seg j bucket) i n = nodesFrom nodelist seg i n := by
  apply flatMap_congr
  intro k hk
  rw [mem_range'_1] at hk
  rw [update_of_ne (by omega)]

theorem nodes_update (i : Nat) (hi : i < mmNnodes) (bucket : List Nat) :
    nodes nodelist (update seg i bucket) =
      nodesFrom nodelist seg 0 i ++ (nodelist + 16 * i) ::
        (bucket ++ nodesFrom nodelist seg (i + 1) (mmNnodes - 1 - i)) := by
  have hcount : mmNnodes = i + (mmNnodes - 1 - i + 1) := by omega
  have hrange : List.range' 0 mmNnodes =
      List.range' 0 i ++ i :: List.range' (i + 1) (mmNnodes - 1 - i) := by
    have happend := @range'_append_1 0 i (mmNnodes - 1 - i + 1)
    rw [Nat.zero_add, ← hcount] at happend
    exact happend.symm
  rw [← nodesFrom_update 0 i i bucket (by omega),
    ← nodesFrom_update (i + 1) (mmNnodes - 1 - i) i bucket (by omega), nodes, nodesFrom, hrange,
    flatMap_append, flatMap_cons, update_self]
  rfl

theorem nodes_split (hi : i < mmNnodes) :
    nodes nodelist seg = nodesFrom nodelist seg 0 i ++ (nodelist + 16 * i) ::
      (seg i ++ nodesFrom nodelist seg (i + 1) (mmNnodes - 1 - i)) := by
  rw [← nodes_update i hi (seg i), update_eq_self]

theorem listed_update (i x : Nat) (hi : i < mmNnodes) (bucket : List Nat) :
    Listed (update seg i bucket) x ↔
      x ∈ bucket ∨ ∃ j < mmNnodes, j ≠ i ∧ x ∈ seg j := by
  constructor
  · rintro ⟨j, hj, hx⟩
    by_cases heq : j = i
    · rw [heq, update_self] at hx
      exact .inl hx
    · rw [update_of_ne heq] at hx
      exact .inr ⟨j, hj, heq, hx⟩
  · rintro (hx | ⟨j, hj, heq, hx⟩)
    · exact ⟨i, hi, by rwa [update_self]⟩
    · exact ⟨j, hj, by rwa [update_of_ne heq]⟩

section

variable (ok : FreeList nodelist m seg)
include ok

/-- A list with other links and buckets, when the nodes keep their sizes. -/
theorem FreeList.relink {seg' : Nat → List Nat} (hlink : Chained m' (nodes nodelist seg'))
    (hsize : ∀ y ∈ nodes nodelist seg', m' y = m y)
    (hbucket : ∀ i < mmNnodes, ∀ x ∈ seg' i, mmSize2ndx (m x) = i)
    (hsorted : ∀ i < mmNnodes, (seg' i).Pairwise fun x y => m x ≤ m y)
    (hoccupied : ∀ x, Listed seg' x → x ≠ 0 ∧ m x ≠ 0)
    (hapart : (nodes nodelist seg').Pairwise Apart)
    (hbelow : ∀ x ∈ nodes nodelist seg', x < addresses) : FreeList nodelist m' seg' := by
  have hlisted : ∀ {x}, Listed seg' x → m' x = m x := fun hx => hsize _ (mem_nodes.mpr (.inr hx))
  refine ⟨hlink, fun i hi => ?_, fun i hi x hx => ?_, fun i hi => ?_, fun x hx => ?_, hapart, hbelow⟩
  · rw [hsize _ (mem_nodes.mpr (.inl ⟨i, hi, rfl⟩))]
    exact ok.heads i hi
  · rw [hlisted ⟨i, hi, hx⟩]
    exact hbucket i hi x hx
  · apply (hsorted i hi).imp_of_mem
    intro x y hx hy hle
    rwa [hlisted ⟨i, hi, hx⟩, hlisted ⟨i, hi, hy⟩]
  · rw [hlisted hx]
    exact hoccupied x hx

theorem FreeList.congr
    (h : ∀ y ∈ nodes nodelist seg, m' y = m y ∧ m' (y + 8) = m (y + 8) ∧ m' (y + 12) = m (y + 12)) :
    FreeList nodelist m' seg := by
  refine ok.relink ?_ (fun y hy => (h y hy).1) ok.bucket ok.sorted ok.occupied ok.apart ok.below
  exact ok.linked.congr (fun x hx => (h x hx).2.1) fun x hx => (h x (mem_of_mem_tail hx)).2.2

theorem FreeList.set (a v : Nat) (hoff : OffLinks nodelist seg a) (hsize : a ∉ nodes nodelist seg) :
    FreeList nodelist (m.set a v) seg := by
  apply ok.congr
  intro y hy
  refine ⟨set_of_ne ?_, set_of_ne (hoff y hy).1.symm, set_of_ne (hoff y hy).2.symm⟩
  rintro rfl
  exact hsize hy

end

theorem nodup_of_apart (l : List Nat) (h : l.Pairwise Apart) : l.Nodup := by
  apply h.imp
  intro x y hapart heq
  unfold Apart at hapart
  omega

theorem FreeList.length_le (ok : FreeList nodelist m seg) :
    (nodes nodelist seg).length ≤ addresses := by
  have hnodup := nodup_of_apart _ ok.apart
  have hsub : nodes nodelist seg ⊆ List.range addresses := by
    intro x hx
    exact mem_range.mpr (ok.below x hx)
  have hle := (subperm_of_subset hnodup hsub).length_le
  rwa [length_range] at hle

instance : Std.Symm Apart := ⟨fun _ _ h => h.symm⟩

theorem eq_or_apart {l : List Nat} (h : l.Pairwise Apart) (hx : x ∈ l) (hy : y ∈ l) :
    x = y ∨ x + 16 ≤ y ∨ y + 16 ≤ x :=
  or_iff_not_imp_left.mpr (h.forall hx hy)

theorem forward_ne_backward (l : List Nat) (h : l.Pairwise Apart) (x y : Nat) (hx : x ∈ l)
    (hy : y ∈ l) : x + 8 ≠ y + 12 := by
  have := eq_or_apart h hx hy
  omega

theorem FreeList.offLinks_node (ok : FreeList nodelist m seg) (x : Nat)
    (hx : x ∈ nodes nodelist seg) : OffLinks nodelist seg x := by
  intro y hy
  have := eq_or_apart ok.apart hx hy
  omega

section Unlink
variable {before after : List Nat} {p x : Nat} (hlink : Chained m (before ++ p :: x :: after))
  (hap : (before ++ p :: x :: after).Pairwise Apart)
include hlink hap

/-- The two writes of a removal, for a node with a predecessor. -/
theorem unlink_eq :
    mmUnlink m x =
      if behind after 0 ≠ 0 then (m.set (p + 8) (behind after 0)).set (behind after 0 + 12) p
      else m.set (p + 8) (behind after 0) := by
  obtain ⟨_, _, _, hback, hrest⟩ := (linked_append _ _ _ _).mp hlink
  have hback : m (x + 12) = p := hback
  have hnext : m (x + 8) = behind after 0 := hrest.next_eq
  have hapart : Apart p x := rel_of_pairwise_cons (pairwise_append.mp hap).2.1 mem_cons_self
  unfold Apart at hapart
  have hkeep8 : m.set (p + 8) (behind after 0) (x + 8) = behind after 0 := by
    rw [set_of_ne (by omega), hnext]
  have hkeep12 : m.set (p + 8) (behind after 0) (x + 12) = p := by
    rw [set_of_ne (by omega), hback]
  simp only [mmUnlink, hback, hnext, hkeep8, hkeep12]

theorem unlink_off {a : Nat} (hp : a ≠ p + 8) (hbehind : ∀ y ∈ after.head?, a ≠ y + 12) :
    mmUnlink m x a = m a := by
  rw [unlink_eq hlink hap]
  cases after with
  | nil => exact set_of_ne hp
  | cons y after =>
    split
    · exact (set_of_ne (hbehind y rfl)).trans (set_of_ne hp)
    · exact set_of_ne hp

theorem unlink_linked (hne : ∀ y ∈ after, y ≠ 0) :
    Chained (mmUnlink m x) (before ++ p :: after) := by
  have hwords := forward_ne_backward _ hap
  have hnodup := nodup_of_apart _ hap
  have hp : p ∈ before ++ p :: x :: after := mem_append_right _ mem_cons_self
  have hoff := @unlink_off m before after p x hlink hap
  have heq := unlink_eq hlink hap
  have hnext : m (x + 8) = behind after 0 := ((linked_append _ _ _ _).mp hlink).2.2.2.2.next_eq
  -- the nodes whose forward, and those whose backward link stays
  have hkept : ∀ y ∈ before ++ after, y ∈ before ++ p :: x :: after ∧ y ≠ p := by
    grind
  have hkeptBack : ∀ y ∈ before ++ p :: after.tail, ∀ z ∈ after.head?,
      y ∈ before ++ p :: x :: after ∧ y ≠ z := by
    cases after with
    | nil => simp
    | cons w after =>
      grind
  apply Linked.remove before after p x 0 hlink
  · rw [hnext, heq]
    cases after with
    | nil => simp
    | cons y after =>
      have hy : y ≠ 0 := hne y mem_cons_self
      rw [behind_cons, if_pos hy, set_of_ne, set_same]
      exact hwords p y hp (hkept y (by simp)).1
  · intro y hy
    apply hoff
    · have := (hkept y hy).2
      omega
    · intro z hz
      have hmem := mem_append_right before (mem_of_mem_head? hz)
      exact hwords y z (hkept y hy).1 (hkept z hmem).1
  · intro y hy
    cases after with
    | nil => cases hy
    | cons w after =>
      cases hy
      have hw : y ≠ 0 := hne y mem_cons_self
      rw [heq, behind_cons, if_pos hw, set_same]
  · intro y hy
    apply hoff
    · have hy' : y ∈ before ++ p :: x :: after := by
        simp only [mem_append, mem_cons] at hy ⊢
        exact hy.imp_right fun h => h.imp_right fun h => .inr (mem_of_mem_tail h)
      exact (hwords p y hp hy').symm
    · intro z hz
      have := (hkeptBack y hy z hz).2
      omega

end Unlink

theorem insertLinks_off (p x next a : Nat) (hp : a ≠ p + 8) (hx8 : a ≠ x + 8)
    (hx12 : a ≠ x + 12) (hnext : next ≠ 0 → a ≠ next + 12) : insertLinks m p x next a = m a := by
  simp only [insertLinks]
  split
  · rw [set_of_ne (hnext ‹_›), set_of_ne hx8, set_of_ne hx12, set_of_ne hp]
  · rw [set_of_ne hx8, set_of_ne hx12, set_of_ne hp]

theorem insertLinks_values (p x next : Nat) (hp : Apart x p) (hnext : next ≠ 0 → Apart x next)
    (hback : next ≠ 0 → p + 8 ≠ next + 12) :
    insertLinks m p x next (p + 8) = x ∧ insertLinks m p x next (x + 12) = p ∧
      insertLinks m p x next (x + 8) = next ∧
      (next ≠ 0 → insertLinks m p x next (next + 12) = x) := by
  unfold Apart at hp hnext
  simp only [insertLinks]
  split
  · rename_i hne
    refine ⟨?_, ?_, ?_, fun _ => set_same⟩
    · rw [set_of_ne (hback hne), set_of_ne (by omega), set_of_ne (by omega), set_same]
    · rw [set_of_ne (by omega), set_of_ne (by omega), set_same]
    · rw [set_of_ne (by omega), set_same]
  · rename_i hnull
    refine ⟨?_, ?_, set_same, fun hne => absurd hne hnull⟩
    · rw [set_of_ne (by omega), set_of_ne (by omega), set_same]
    · rw [set_of_ne (by omega), set_same]

theorem insertLinks_linked (before after : List Nat) (p x : Nat)
    (hlink : Chained m (before ++ p :: after)) (hap : (before ++ p :: after).Pairwise Apart)
    (hx : ∀ y ∈ before ++ p :: after, Apart x y) (hne : ∀ y ∈ after, y ≠ 0) :
    Chained (insertLinks m p x (behind after 0)) (before ++ p :: x :: after) := by
  have hwords := forward_ne_backward _ hap
  have hnodup := nodup_of_apart _ hap
  have hp : p ∈ before ++ p :: after := mem_append_right _ mem_cons_self
  have hxp := hx p hp
  have hoff := fun a => @insertLinks_off m p x (behind after 0) a
  -- the node behind, when there is one
  have hbehind : behind after 0 ≠ 0 → behind after 0 ∈ before ++ p :: after := by
    cases after with
    | nil => simp
    | cons w after => simp
  have hkept : ∀ y ∈ before ++ after, y ∈ before ++ p :: after ∧ y ≠ p := by
    grind
  have hkeptBack : ∀ y ∈ before ++ p :: after.tail,
      y ∈ before ++ p :: after ∧ (behind after 0 ≠ 0 → y ≠ behind after 0) := by
    cases after with
    | nil => simp
    | cons w after =>
      simp only [behind_cons] at hnodup ⊢
      grind
  obtain ⟨hpv, hxv, hxn, hnv⟩ := @insertLinks_values m p x (behind after 0) hxp
    (fun hs => hx _ (hbehind hs)) (fun hs => hwords p _ hp (hbehind hs))
  unfold Apart at hx
  apply Linked.insert before after p x 0 hlink hpv hxv hxn
  · intro y hy
    have hmem := (hkept y hy).1
    have := (hkept y hy).2
    have := hx y hmem
    apply hoff
    · omega
    · omega
    · omega
    · intro hs
      exact hwords y _ hmem (hbehind hs)
  · intro y hy
    cases after with
    | nil => cases hy
    | cons w after =>
      cases hy
      exact hnv (hne y mem_cons_self)
  · intro y hy
    obtain ⟨hmem, hs⟩ := hkeptBack y hy
    have := hx y hmem
    apply hoff
    · exact (hwords p y hp hmem).symm
    · omega
    · omega
    · omega

/-- The list cut behind the chunks `front` of bucket `i`. -/
theorem nodes_around (i : Nat) (hi : i < mmNnodes) (front back : List Nat) :
    ∃ before, ∀ middle : List Nat,
      nodes nodelist (update seg i (front ++ middle ++ back)) =
        before ++ front.getLastD (nodelist + 16 * i) ::
          (middle ++ (back ++ nodesFrom nodelist seg (i + 1) (mmNnodes - 1 - i))) := by
  have hsplit := (dropLast_append_getLast (cons_ne_nil (nodelist + 16 * i) front)).symm
  rw [getLast_eq_getLastD] at hsplit
  generalize ((nodelist + 16 * i) :: front).dropLast = passed at hsplit
  refine ⟨nodesFrom nodelist seg 0 i ++ passed, ?_⟩
  intro middle
  rw [nodes_update i hi, append_assoc, append_assoc, ← cons_append, hsplit]
  simp only [append_assoc, cons_append, nil_append]

/-- The separators and chunks behind a chunk of the list are not NULL. -/
theorem FreeList.ne_zero (ok : FreeList nodelist m seg) (hi : i < mmNnodes) (y : Nat)
    (hy : y ∈ seg i ++ nodesFrom nodelist seg (i + 1) (mmNnodes - 1 - i)) : y ≠ 0 := by
  cases mem_append.mp hy with
  | inl hseg => exact (ok.occupied y ⟨i, hi, hseg⟩).1
  | inr hrest =>
    simp only [nodesFrom, mem_flatMap, mem_range'_1, mem_cons] at hrest
    obtain ⟨j, hj, hy⟩ := hrest
    cases hy with
    | inl hhead => omega
    | inr hseg => exact (ok.occupied y ⟨j, by omega, hseg⟩).1

theorem FreeList.unlink (ok : FreeList nodelist m seg) (x : Nat) (hx : Listed seg x) :
    ∃ seg', FreeList nodelist (mmUnlink m x) seg' ∧ (∀ y, Listed seg' y ↔ Listed seg y ∧ y ≠ x) ∧
      ∀ a, OffLinks nodelist seg' a → mmUnlink m x a = m a := by
  obtain ⟨i, hi, hmem⟩ := hx
  obtain ⟨front, back, hbucket⟩ := append_of_mem hmem
  obtain ⟨before, haround⟩ := @nodes_around nodelist seg i hi front back
  have hold : nodes nodelist seg = before ++ front.getLastD (nodelist + 16 * i) :: x ::
      (back ++ nodesFrom nodelist seg (i + 1) (mmNnodes - 1 - i)) := by
    have h := haround [x]
    rw [append_assoc, singleton_append, ← hbucket, update_eq_self] at h
    exact h
  have hnew := haround []
  rw [append_nil, nil_append] at hnew
  have hlink := ok.linked
  have hap := ok.apart
  rw [hold] at hlink hap
  have hsub : ∀ j, (update seg i (front ++ back) j).Sublist (seg j) := by
    intro j
    by_cases heq : j = i
    · rw [heq, hbucket]
      simp
    · rw [update_of_ne heq]
  have hback : ∀ y, Listed (update seg i (front ++ back)) y → Listed seg y := by
    intro y hy
    obtain ⟨j, hj, hy⟩ := hy
    exact ⟨j, hj, (hsub j).subset hy⟩
  have hnewMem : ∀ y ∈ nodes nodelist (update seg i (front ++ back)),
      y ∈ nodes nodelist seg ∧ y ≠ x := by
    have hnodup := nodup_of_apart _ hap
    rw [hold, hnew]
    simp only [mem_cons, mem_append] at hnodup ⊢
    grind
  have hoff : ∀ a, OffLinks nodelist (update seg i (front ++ back)) a →
      mmUnlink m x a = m a := by
    intro a ha
    unfold OffLinks at ha
    rw [hnew] at ha
    apply unlink_off hlink hap
    · exact (ha _ (mem_append_right _ mem_cons_self)).1
    · intro y hy
      have := mem_of_mem_head? hy
      exact (ha y (by simpa using .inr (.inr (mem_append.mp this)))).2
  have hlisted : ∀ y, Listed (update seg i (front ++ back)) y ↔ Listed seg y ∧ y ≠ x := by
    intro y
    constructor
    · intro hy
      exact ⟨hback y hy, (hnewMem y (mem_nodes.mpr (.inr hy))).2⟩
    · intro hy
      obtain ⟨⟨j, hj, hy⟩, hne⟩ := hy
      rw [listed_update i y hi]
      by_cases heq : j = i
      · rw [heq, hbucket] at hy
        simp only [mem_append, mem_cons] at hy ⊢
        tauto
      · exact .inr ⟨j, hj, heq, hy⟩
  refine ⟨update seg i (front ++ back), ok.relink ?_
    (fun y hy => hoff y fun z hz => ok.offLinks_node y (hnewMem y hy).1 z (hnewMem z hz).1)
    (fun j hj y hy => ok.bucket j hj y ((hsub j).subset hy))
    (fun j hj => (ok.sorted j hj).sublist (hsub j)) (fun y hy => ok.occupied y (hback y hy)) ?_
    (fun y hy => ok.below y (hnewMem y hy).1), hlisted, hoff⟩
  · rw [hnew]
    apply unlink_linked hlink hap
    intro y hy
    apply ok.ne_zero hi y
    rw [hbucket]
    simp only [mem_append] at hy ⊢
    tauto
  · rw [hnew]
    refine List.Pairwise.sublist ?_ hap
    simp

theorem size2ndxLoop_eq (passes ndx size : Nat) (h : size < 2 ^ passes) :
    size2ndxLoop passes ndx size = ndx + size.log2 := by
  induction passes generalizing ndx size with
  | zero =>
    obtain rfl : size = 0 := by omega
    rfl
  | succ passes ih =>
    unfold size2ndxLoop
    rw [Nat.log2_def]
    split_ifs
    · rw [Nat.shiftRight_eq_div_pow, Nat.pow_one, ih _ _ (by omega)]
      omega
    · omega
    · omega
    · rfl

theorem mmSize2ndx_small (h : ¬ size ≥ mmMaxChunk) : mmSize2ndx size = (size / 16).log2 := by
  have hlt : size < 2 ^ 22 := Nat.lt_of_not_le h
  have hshift : size >>> mmMinShift = size / 16 := Nat.shiftRight_eq_div_pow size 4
  rw [mmSize2ndx, if_neg h, hshift, size2ndxLoop_eq _ _ _ (by omega), Nat.zero_add]

theorem mmSize2ndx_lt (size : Nat) : mmSize2ndx size < mmNnodes := by
  by_cases hlarge : size ≥ mmMaxChunk
  · rw [mmSize2ndx, if_pos hlarge]
    decide
  · have hlt : size < 2 ^ 22 := Nat.lt_of_not_le hlarge
    rw [mmSize2ndx_small hlarge]
    by_cases hzero : size / 16 = 0
    · rw [hzero]
      decide
    · exact Nat.lt_succ_of_lt ((Nat.log2_lt hzero).mpr (show size / 16 < 2 ^ 18 by omega))

theorem mmSize2ndx_mono {size' : Nat} (h : size ≤ size') : mmSize2ndx size ≤ mmSize2ndx size' := by
  by_cases hlarge : size' ≥ mmMaxChunk
  · have hlt := mmSize2ndx_lt size
    rw [show mmSize2ndx size' = mmNnodes - 1 from if_pos hlarge]
    omega
  · rw [mmSize2ndx_small hlarge, mmSize2ndx_small (by omega), Nat.log2_eq_log_two, Nat.log2_eq_log_two]
    exact Nat.log_mono_right (Nat.div_le_div_right h)

/-- The list is in the order of the sizes, except for the separators. -/
theorem FreeList.ordered (ok : FreeList nodelist m seg) :
    (nodes nodelist seg).Pairwise fun x y => m y ≠ 0 → m x ≤ m y := by
  rw [nodes, nodesFrom, pairwise_flatMap]
  have hlt : ∀ j ∈ List.range' 0 mmNnodes, j < mmNnodes := by
    intro j hj
    rw [mem_range'_1] at hj
    omega
  refine ⟨fun j hj => pairwise_cons.mpr ⟨fun y _ _ => ?_, ?_⟩, ?_⟩
  · rw [ok.heads j (hlt j hj)]
    exact Nat.zero_le _
  · apply (ok.sorted j (hlt j hj)).imp
    intro x y hle _
    exact hle
  · apply List.Pairwise.imp_of_mem _ pairwise_lt_range'
    intro j k hj hk hjk x hx y hy hne
    rcases mem_cons.mp hx with rfl | hx
    · rw [ok.heads j (hlt j hj)]
      exact Nat.zero_le _
    · rcases mem_cons.mp hy with rfl | hy
      · exact absurd (ok.heads k (hlt k hk)) hne
      · -- the buckets are those of the sizes
        by_contra hgt
        have hmono := mmSize2ndx_mono (Nat.le_of_not_le hgt)
        rw [ok.bucket j (hlt j hj) x hx, ok.bucket k (hlt k hk) y hy] at hmono
        omega

/-- The search walks past the smaller chunks of a bucket and stops at the next
separator at the latest. -/
theorem insertSearch_spec (size passes prev : Nat) (bucket rest : List Nat)
    (hlink : Chained m (prev :: (bucket ++ rest)))
    (hbucket : ∀ y ∈ bucket, y ≠ 0 ∧ m y ≠ 0) (hrest : ∀ y ∈ rest.head?, m y = 0)
    (hpasses : bucket.length < passes) :
    ∃ front back, bucket = front ++ back ∧
      insertSearch m size passes prev (behind (bucket ++ rest) 0) =
        some (front.getLastD prev, behind (back ++ rest) 0) ∧
      (∀ y ∈ front, m y < size) ∧ ∀ y ∈ back.head?, size ≤ m y := by
  induction bucket generalizing prev passes with
  | nil =>
    refine ⟨[], [], rfl, ?_, nofun, nofun⟩
    cases passes with
    | zero => cases hpasses
    | succ passes =>
      unfold insertSearch
      rw [if_neg]
      · rfl
      · cases rest with
        | nil => simp
        | cons z rest => simp [hrest z rfl]
  | cons y bucket ih =>
    cases passes with
    | zero => cases hpasses
    | succ passes =>
      unfold insertSearch
      rw [cons_append, behind_cons]
      have hy := hbucket y mem_cons_self
      have htail := hlink.tail
      by_cases hlt : m y < size
      · rw [if_pos ⟨hy.1, hy.2, hlt⟩]
        have hnext : m (y + 8) = behind (bucket ++ rest) 0 := htail.next_eq
        rw [hnext]
        obtain ⟨front, back, heq, hfound, hfront, hback⟩ := ih passes y htail
          (fun z hz => hbucket z (mem_cons_of_mem y hz)) (Nat.lt_of_succ_lt_succ hpasses)
        refine ⟨y :: front, back, by rw [heq]; rfl, ?_, ?_, hback⟩
        · rw [hfound, getLastD_cons]
        · exact forall_mem_cons.mpr ⟨hlt, hfront⟩
      · rw [if_neg (fun h => hlt h.2.2)]
        refine ⟨[], y :: bucket, rfl, rfl, nofun, ?_⟩
        intro z hz
        cases hz
        omega

theorem sorted_insert (size : Nat → Nat) (front back : List Nat) (x : Nat)
    (h : (front ++ back).Pairwise fun y z => size y ≤ size z) (hfront : ∀ y ∈ front, size y < size x)
    (hback : ∀ y ∈ back.head?, size x ≤ size y) :
    (front ++ [x] ++ back).Pairwise fun y z => size y ≤ size z := by
  rw [pairwise_append] at h
  obtain ⟨hf, hb, hcross⟩ := h
  have hlarge : ∀ y ∈ back, size x ≤ size y := by
    cases back with
    | nil => exact nofun
    | cons z back =>
      have hz := hback z rfl
      refine forall_mem_cons.mpr ⟨hz, fun y hy => ?_⟩
      exact Nat.le_trans hz ((pairwise_cons.mp hb).1 y hy)
  rw [append_assoc, pairwise_append]
  exact ⟨hf, pairwise_cons.mpr ⟨hlarge, hb⟩, fun y hy =>
    forall_mem_cons.mpr ⟨Nat.le_of_lt (hfront y hy), hcross y hy⟩⟩

theorem listed_insert (hi : i < mmNnodes) {front back : List Nat}
    (hbucket : seg i = front ++ back) :
    Listed (update seg i (front ++ [x] ++ back)) y ↔ Listed seg y ∨ y = x := by
  have hiff := @listed_update seg i y hi (seg i)
  rw [update_eq_self] at hiff
  rw [listed_update i y hi, hiff, hbucket]
  simp only [mem_append, mem_singleton, or_assoc, or_comm]

theorem mem_nodes_insert (hi : i < mmNnodes) {front back : List Nat}
    (hbucket : seg i = front ++ back) :
    y ∈ nodes nodelist (update seg i (front ++ [x] ++ back)) ↔
      y ∈ nodes nodelist seg ∨ y = x := by
  rw [mem_nodes, listed_insert hi hbucket, ← or_assoc, ← mem_nodes]

/-- A node put between the smaller and the larger chunks of its bucket. -/
theorem FreeList.insert (ok : FreeList nodelist m seg) (x i : Nat) (hi : i < mmNnodes)
    (front back : List Nat) (hbucket : seg i = front ++ back) (hndx : mmSize2ndx (m x) = i)
    (hfront : ∀ y ∈ front, m y < m x) (hback : ∀ y ∈ back.head?, m x ≤ m y)
    (hx0 : x ≠ 0) (hsize : m x ≠ 0) (hbelow : x < addresses)
    (hx : ∀ y ∈ nodes nodelist seg, Apart x y) (m' : Words)
    (hm' : m' = insertLinks m (front.getLastD (nodelist + 16 * i)) x
      (behind (back ++ nodesFrom nodelist seg (i + 1) (mmNnodes - 1 - i)) 0)) :
    FreeList nodelist m' (update seg i (front ++ [x] ++ back)) ∧
      ∀ a, OffLinks nodelist seg a → a ≠ x + 8 → a ≠ x + 12 → m' a = m a := by
  have hnull := ok.ne_zero hi
  obtain ⟨before, haround⟩ := @nodes_around nodelist seg i hi front back
  have hold := haround []
  rw [append_nil, ← hbucket, update_eq_self] at hold
  have hnew := haround [x]
  generalize front.getLastD (nodelist + 16 * i) = p at hm' hold hnew
  generalize hrest : back ++ nodesFrom nodelist seg (i + 1) (mmNnodes - 1 - i) = after
    at hm' hold hnew
  have hafter : ∀ y ∈ after, y ≠ 0 := by
    intro y hy
    apply hnull y
    rw [hbucket, append_assoc, hrest]
    exact mem_append_right _ hy
  have hp : p ∈ nodes nodelist seg := by
    rw [hold]
    exact mem_append_right _ mem_cons_self
  have hbehind : behind after 0 ≠ 0 → behind after 0 ∈ nodes nodelist seg := by
    rw [hold]
    cases after with
    | nil => simp
    | cons w after => simp
  have hoff : ∀ a, OffLinks nodelist seg a → a ≠ x + 8 → a ≠ x + 12 → m' a = m a := by
    intro a ha h8 h12
    rw [hm']
    exact insertLinks_off p x _ a (ha p hp).1 h8 h12 (fun hs => (ha _ (hbehind hs)).2)
  have hsame : ∀ y ∈ nodes nodelist (update seg i (front ++ [x] ++ back)), m' y = m y := by
    intro y hy
    rcases (mem_nodes_insert hi hbucket).mp hy with hy | rfl
    · have := hx y hy
      unfold Apart at this
      exact hoff y (ok.offLinks_node y hy) (by omega) (by omega)
    · refine hoff y (fun z hz => ?_) (by omega) (by omega)
      have := hx z hz
      unfold Apart at this
      omega
  refine ⟨ok.relink ?_ hsame ?_ ?_ ?_ ?_ ?_, hoff⟩
  · have hlink := ok.linked
    have hap := ok.apart
    rw [hold] at hlink hap hx
    rw [hnew, hm']
    exact insertLinks_linked before after p x hlink hap hx hafter
  · intro j hj y hy
    by_cases heq : j = i
    · rw [heq, update_self, append_assoc, mem_append, singleton_append, mem_cons] at hy
      rw [heq]
      have hbucketOk := ok.bucket i hi y
      rw [hbucket, mem_append] at hbucketOk
      rcases hy with hy | hy | hy
      · exact hbucketOk (.inl hy)
      · rw [hy, hndx]
      · exact hbucketOk (.inr hy)
    · rw [update_of_ne heq] at hy
      exact ok.bucket j hj y hy
  · intro j hj
    by_cases heq : j = i
    · rw [heq, update_self]
      have hsorted := ok.sorted i hi
      rw [hbucket] at hsorted
      exact sorted_insert m front back x hsorted hfront hback
    · rw [update_of_ne heq]
      exact ok.sorted j hj
  · intro y hy
    rcases (listed_insert hi hbucket).mp hy with hy | rfl
    · exact ok.occupied y hy
    · exact ⟨hx0, hsize⟩
  · have hap := ok.apart
    rw [hold] at hap hx
    rw [hnew]
    have hperm : (x :: (before ++ p :: after)).Perm (before ++ p :: x :: after) := by
      have h := @perm_middle _ x (before ++ [p]) after
      simp only [append_assoc] at h
      exact h.symm
    exact hperm.pairwise (pairwise_cons.mpr ⟨hx, hap⟩) fun h => h.symm
  · intro y hy
    rcases (mem_nodes_insert hi hbucket).mp hy with hy | rfl
    · exact ok.below y hy
    · exact hbelow

theorem FreeList.addfreechunk (ok : FreeList nodelist m seg) (x : Nat) (hx0 : x ≠ 0)
    (hsize : m x ≠ 0) (hbelow : x < addresses) (hx : ∀ y ∈ nodes nodelist seg, Apart x y) :
    ∃ m' seg', mmAddfreechunk nodelist m x = some m' ∧ FreeList nodelist m' seg' ∧
      (∀ y, Listed seg' y ↔ Listed seg y ∨ y = x) ∧
      ∀ a, OffLinks nodelist seg' a → m' a = m a := by
  have hi := mmSize2ndx_lt (m x)
  generalize hndx : mmSize2ndx (m x) = i at hi
  -- the search starts at the separator of the bucket
  have hlink := ok.linked
  rw [nodes_split hi, linked_append] at hlink
  have hnext : m (nodelist + 16 * i + 8) = behind
      (seg i ++ nodesFrom nodelist seg (i + 1) (mmNnodes - 1 - i)) 0 := hlink.2.2.next_eq
  have hrest : ∀ y ∈ (nodesFrom nodelist seg (i + 1) (mmNnodes - 1 - i)).head?, m y = 0 := by
    cases hcount : mmNnodes - 1 - i with
    | zero => exact nofun
    | succ count =>
      intro y hy
      cases hy
      exact ok.heads (i + 1) (by omega)
  have hpasses : (seg i).length < addresses := by
    have hle := ok.length_le
    rw [nodes_split hi] at hle
    simp only [length_append, length_cons] at hle
    omega
  obtain ⟨front, back, hbucket, hfound, hfront, hback⟩ := insertSearch_spec (m x) addresses
    (nodelist + 16 * i) (seg i) _ hlink.2.2 (fun y hy => ok.occupied y ⟨i, hi, hy⟩) hrest hpasses
  obtain ⟨hok, hoff⟩ := ok.insert x i hi front back hbucket hndx hfront hback hx0 hsize hbelow hx
    _ rfl
  refine ⟨_, _, ?_, hok, fun y => listed_insert hi hbucket, ?_⟩
  · simp only [mmAddfreechunk, hndx, hnext, hfound]
  · intro a ha
    have hxlinks := ha x ((mem_nodes_insert hi hbucket).mpr (.inr rfl))
    exact hoff a (fun y hy => ha y ((mem_nodes_insert hi hbucket).mpr (.inl hy))) hxlinks.1 hxlinks.2

/-- The search of mm_malloc finds the first node of the list that is large enough. -/
theorem mallocSearch_spec (size passes start : Nat) (list : List Nat)
    (hlink : Chained m (start :: list))
    (hlist : ∀ y ∈ list, y ≠ 0) (hpasses : list.length < passes) :
    ∃ front rest, list = front ++ rest ∧
      mallocSearch m size passes (behind list 0) = some (behind rest 0) ∧
      (∀ y ∈ front, m y < size) ∧ ∀ y ∈ rest.head?, size ≤ m y := by
  induction list generalizing start passes with
  | nil =>
    refine ⟨[], [], rfl, ?_, nofun, nofun⟩
    cases passes with
    | zero => cases hpasses
    | succ passes => simp [mallocSearch]
  | cons y list ih =>
    cases passes with
    | zero => cases hpasses
    | succ passes =>
      unfold mallocSearch
      rw [behind_cons]
      have hy := hlist y mem_cons_self
      have htail := hlink.tail
      by_cases hlt : m y < size
      · rw [if_pos ⟨hy, hlt⟩]
        have hnext : m (y + 8) = behind list 0 := htail.next_eq
        rw [hnext]
        obtain ⟨front, rest, heq, hfound, hfront, hrest⟩ := ih passes y htail
          (fun z hz => hlist z (mem_cons_of_mem y hz)) (Nat.lt_of_succ_lt_succ hpasses)
        refine ⟨y :: front, rest, by rw [heq]; rfl, hfound, ?_, hrest⟩
        exact forall_mem_cons.mpr ⟨hlt, hfront⟩
      · rw [if_neg (fun h => hlt h.2)]
        refine ⟨[], y :: list, rfl, rfl, nofun, ?_⟩
        intro z hz
        cases hz
        omega

/-- A request of at least one byte finds the smallest chunk of the list that is large enough, or NULL. -/
theorem FreeList.search (ok : FreeList nodelist m seg) (size : Nat) (hsize : 0 < size) :
    ∃ node, mallocSearch m size addresses (m (nodelist + 16 * mmSize2ndx size + 8)) = some node ∧
      (node = 0 ∧ (∀ x, Listed seg x → m x < size) ∨
        Listed seg node ∧ size ≤ m node ∧ ∀ x, Listed seg x → size ≤ m x → m node ≤ m x) := by
  have hi := mmSize2ndx_lt size
  generalize hndx : mmSize2ndx size = i at hi
  have hlink := ok.linked
  have hordered := ok.ordered
  rw [nodes_split hi] at hordered
  rw [nodes_split hi, linked_append] at hlink
  have hnext : m (nodelist + 16 * i + 8) = behind
      (seg i ++ nodesFrom nodelist seg (i + 1) (mmNnodes - 1 - i)) 0 := hlink.2.2.next_eq
  have hpasses : (seg i ++ nodesFrom nodelist seg (i + 1) (mmNnodes - 1 - i)).length < addresses := by
    have hle := ok.length_le
    rw [nodes_split hi, length_append, length_cons] at hle
    omega
  -- a chunk that is large enough is in the bucket or behind it
  have hlarge : ∀ x, Listed seg x → size ≤ m x →
      x ∈ seg i ++ nodesFrom nodelist seg (i + 1) (mmNnodes - 1 - i) := by
    intro x hx hle
    obtain ⟨j, hj, hmem⟩ := hx
    have hmono := mmSize2ndx_mono hle
    rw [hndx, ok.bucket j hj x hmem] at hmono
    rcases Nat.eq_or_lt_of_le hmono with rfl | hlt
    · exact mem_append_left _ hmem
    · refine mem_append_right _ (mem_flatMap.mpr ⟨j, ?_, mem_cons_of_mem _ hmem⟩)
      rw [mem_range'_1]
      omega
  obtain ⟨front, rest, heq, hfound, hfront, hrest⟩ := mallocSearch_spec size addresses
    (nodelist + 16 * i) _ hlink.2.2 (ok.ne_zero hi) hpasses
  refine ⟨behind rest 0, by rw [hnext, hfound], ?_⟩
  rw [heq] at hlarge hordered
  cases rest with
  | nil =>
    refine .inl ⟨rfl, fun x hx => ?_⟩
    by_contra hge
    have hmem := hlarge x hx (Nat.le_of_not_lt hge)
    rw [append_nil] at hmem
    exact hge (hfront x hmem)
  | cons y rest =>
    have hfit : size ≤ m y := hrest y rfl
    refine .inr ⟨?_, hfit, fun x hx hle => ?_⟩
    · -- a separator has size zero and is never large enough
      have hy : y ∈ nodes nodelist seg := by
        rw [nodes_split hi, heq]
        simp
      refine (mem_nodes.mp hy).resolve_left fun hhead => ?_
      obtain ⟨j, hj, rfl⟩ := hhead
      have hzero := ok.heads j hj
      omega
    · simp only [pairwise_append, pairwise_cons] at hordered
      rcases mem_append.mp (hlarge x hx hle) with hmem | hmem
      · exact absurd (hfront x hmem) (Nat.not_lt.mpr hle)
      · rcases mem_cons.mp hmem with rfl | hmem
        · exact le_rfl
        · exact hordered.2.1.2.2.1.1 x hmem (by omega)

end NbLot.Source.Heap
