import Mathlib.Data.List.Nodup
import Mathlib.Data.List.Perm.Basic

/-!
# Lists that share no element

A family of lists in which every element has one place: no list has an element twice,
and no two lists have one in common. Things that are handed from one place to another
keep such a family.
-/
namespace NbLot.Lib.Places
open List Function

variable {π α : Type}

/-- Every element of the lists has one place. -/
structure Apart (contents : π → List α) : Prop where
  nodup : ∀ p, (contents p).Nodup
  disjoint : ∀ p q a, a ∈ contents p → a ∈ contents q → p = q

variable {contents contents' : π → List α} {p q : π} {a : α}

theorem Apart.add (h : Apart contents) (hnew : ∀ r, a ∉ contents r)
    (hother : ∀ r, r ≠ p → contents' r = contents r)
    (hplace : (contents' p).Perm (a :: contents p)) : Apart contents' := by
  have hmem : ∀ r b, b ∈ contents' r → (r = p ∧ b = a) ∨ b ∈ contents r := by
    intro r b hb
    by_cases hr : r = p
    · subst hr
      rcases mem_cons.mp (hplace.mem_iff.mp hb) with rfl | hb
      · exact .inl ⟨rfl, rfl⟩
      · exact .inr hb
    · exact .inr (hother r hr ▸ hb)
  refine ⟨fun r => ?_, fun r r' b hb hb' => ?_⟩
  · by_cases hr : r = p
    · subst hr
      exact hplace.nodup_iff.mpr (nodup_cons.mpr ⟨hnew r, h.nodup r⟩)
    · exact hother r hr ▸ h.nodup r
  · rcases hmem r b hb with ⟨rfl, rfl⟩ | hold
    · rcases hmem r' b hb' with ⟨rfl, -⟩ | hold'
      · rfl
      · exact absurd hold' (hnew r')
    · rcases hmem r' b hb' with ⟨-, rfl⟩ | hold'
      · exact absurd hold (hnew r)
      · exact h.disjoint r r' b hold hold'

theorem Apart.drop (h : Apart contents) (hother : ∀ r, r ≠ p → contents' r = contents r)
    (hplace : (contents p).Perm (a :: contents' p)) : Apart contents' ∧ ∀ r, a ∉ contents' r := by
  have hin : a ∈ contents p := hplace.mem_iff.mpr (by simp)
  have hnodup := hplace.nodup_iff.mp (h.nodup p)
  rw [nodup_cons] at hnodup
  have hsub : ∀ r b, b ∈ contents' r → b ∈ contents r := by
    intro r b hb
    by_cases hr : r = p
    · subst hr
      exact hplace.mem_iff.mpr (mem_cons_of_mem a hb)
    · exact hother r hr ▸ hb
  refine ⟨⟨fun r => ?_, fun r r' b hb hb' => ?_⟩, fun r hr => ?_⟩
  · by_cases hr : r = p
    · subst hr
      exact hnodup.2
    · exact hother r hr ▸ h.nodup r
  · exact h.disjoint r r' b (hsub r b hb) (hsub r' b hb')
  · obtain rfl : r = p := h.disjoint r p a (hsub r a hr) hin
    exact hnodup.1 hr

/-- An element is handed from one place to another. -/
structure Handed (contents contents' : π → List α) (p q : π) (a : α) : Prop where
  ne : p ≠ q
  other : ∀ r, r ≠ p → r ≠ q → contents' r = contents r
  source : (contents p).Perm (a :: contents' p)
  target : (contents' q).Perm (a :: contents q)

section

variable (hm : Handed contents contents' p q a)
include hm

theorem Handed.apart (h : Apart contents) : Apart contents' := by
  classical
  -- in between it is nowhere
  let between := update contents p (contents' p)
  have hp : between p = contents' p := update_self _ _ _
  have hrest : ∀ r, r ≠ p → between r = contents r := fun r hr => update_of_ne hr _ _
  obtain ⟨hdrop, hnew⟩ := h.drop hrest (hp ▸ hm.source)
  refine hdrop.add hnew (fun r hr => ?_) ((hrest q hm.ne.symm).symm ▸ hm.target)
  by_cases hrp : r = p
  · rw [hrp, hp]
  · rw [hrest r hrp, hm.other r hrp hr]

/-- Nothing else comes to any place. -/
theorem Handed.mem {r : π} {b : α} (hb : b ∈ contents' r) : b ∈ contents r ∨ (r = q ∧ b = a) := by
  by_cases hq : r = q
  · subst hq
    rcases mem_cons.mp (hm.target.mem_iff.mp hb) with rfl | hb
    · exact .inr ⟨rfl, rfl⟩
    · exact .inl hb
  · by_cases hp : r = p
    · subst hp
      exact .inl (hm.source.mem_iff.mpr (mem_cons_of_mem a hb))
    · exact .inl (hm.other r hp hq ▸ hb)

theorem Handed.placed_iff {b : α} : (∃ r, b ∈ contents' r) ↔ ∃ r, b ∈ contents r := by
  refine ⟨fun ⟨r, hr⟩ => ?_, fun ⟨r, hr⟩ => ?_⟩
  · rcases hm.mem hr with hr | ⟨-, rfl⟩
    · exact ⟨r, hr⟩
    · exact ⟨p, hm.source.mem_iff.mpr (by simp)⟩
  · by_cases hp : r = p
    · subst hp
      rcases mem_cons.mp (hm.source.mem_iff.mp hr) with rfl | hr
      · exact ⟨q, hm.target.mem_iff.mpr (by simp)⟩
      · exact ⟨r, hr⟩
    · by_cases hq : r = q
      · subst hq
        exact ⟨r, hm.target.mem_iff.mpr (mem_cons_of_mem a hr)⟩
      · exact ⟨r, (hm.other r hp hq).symm ▸ hr⟩

end

end NbLot.Lib.Places
