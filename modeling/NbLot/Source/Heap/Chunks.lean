import NbLot.Lib.Window
import NbLot.Source.Heap.Model

/-!
# The chunks of a region

Source: nuttx/include/nuttx/mm/mm.h:135-165 (headers), nuttx/mm/mm_heap/mm_initialize.c.

A region is the list of its chunks between the two guard nodes. `RegionOk` relates the
list to memory: the chunks tile the region, each header holds the size of its chunk and
of the one before, and of two neighbours one is allocated. The header words outside a
window of the list do not depend on what happens inside it.
-/
namespace NbLot.Source.Heap
open Lib List

structure Chunk where
  addr : Nat
  size : Nat
  alloc : Bool
  deriving DecidableEq, Repr

/-- The allocation bit of a `preceding` word. -/
def tag (alloc : Bool) : Nat := if alloc then mmAllocBit else 0

theorem mmAllocBit_eq : mmAllocBit = 2 ^ 31 := rfl

theorem tag_false : tag false = 0 := rfl

theorem tag_true : tag true = 2 ^ 31 := rfl

variable {p : Nat} {alloc : Bool}

/-- A new size goes into a `preceding` word whose allocation bit stays. -/
theorem retag {s : Nat} (hs : s < 2 ^ 31) (hp : p < 2 ^ 31) :
    s ||| ((p + tag alloc) &&& mmAllocBit) = s + tag alloc := by
  cases alloc with
  | false =>
    rw [tag_false, mmAllocBit_eq, Nat.add_zero, Nat.add_zero, and_top_of_lt p hp, Nat.or_zero]
  | true => rw [tag_true, mmAllocBit_eq, add_top_and_top p hp, or_top s hs]

theorem set_alloc (hp : p < 2 ^ 31) : p ||| mmAllocBit = p + tag true := by
  rw [tag_true, mmAllocBit_eq, or_top p hp]

theorem clear_alloc (hp : p < 2 ^ 31) : clear32 (p + tag alloc) mmAllocBit = p := by
  rw [mmAllocBit_eq, clear32_top]
  cases alloc with
  | false =>
    exact Nat.mod_eq_of_lt hp
  | true =>
    rw [tag_true]
    omega

theorem alloc_bit_clear_iff (hp : p < 2 ^ 31) :
    (p + tag alloc) &&& mmAllocBit = 0 ↔ alloc = false := by
  cases alloc with
  | false =>
    rw [tag_false, mmAllocBit_eq, Nat.add_zero, and_top_of_lt p hp]
    simp
  | true =>
    rw [tag_true, mmAllocBit_eq, add_top_and_top p hp]
    simp

/-- `c` is the chunk behind `p`. -/
structure Follows (m : Words) (p c : Chunk) : Prop where
  addr : c.addr = p.addr + p.size
  preceding : m (c.addr + 4) = p.size + tag c.alloc
  notBothFree : p.alloc = true ∨ c.alloc = true

/-- The chunks of a region between its guards at `start` and `stop`. -/
structure Region where
  start : Nat
  inner : List Chunk
  stop : Nat

def Region.first (r : Region) : Chunk := ⟨r.start, sizeofMmAllocnode, true⟩

def Region.last (r : Region) : Chunk := ⟨r.stop, sizeofMmAllocnode, true⟩

def Region.chunks (r : Region) : List Chunk := r.first :: (r.inner ++ [r.last])

/-- `granule` divides the size of every chunk between the guards. -/
structure RegionOk (granule : Nat) (m : Words) (r : Region) : Prop where
  chain : r.chunks.IsChain (Follows m)
  sizes : ∀ c ∈ r.chunks, m c.addr = c.size
  first : m (r.start + 4) = mmAllocBit
  inner : ∀ c ∈ r.inner, 16 ≤ c.size ∧ granule ∣ c.size
  aligned : r.start % 8 = 0
  span : r.stop + 8 < r.start + 2 ^ 31
  top : r.stop + 8 ≤ 2 ^ 32

variable {g : Nat} {m m' : Words} {r : Region} {c d : Chunk}

theorem mem_chunks (r : Region) (c : Chunk) :
    c ∈ r.chunks ↔ c = r.first ∨ c ∈ r.inner ∨ c = r.last := by
  simp [Region.chunks]

theorem RegionOk.size_ge (ok : RegionOk g m r) (hc : c ∈ r.chunks) : 8 ≤ c.size := by
  rcases (mem_chunks r c).mp hc with h | h | h
  · rw [h]
    exact Nat.le_refl 8
  · exact Nat.le_trans (by decide) (ok.inner c h).1
  · rw [h]
    exact Nat.le_refl 8

/-- One chunk ends where or before the other begins. -/
def Before (p c : Chunk) : Prop := p.addr + p.size ≤ c.addr

instance : Trans Before Before Before where
  trans {p c d} hpc hcd := by
    unfold Before at hpc hcd ⊢
    omega

theorem pairwise_before (l : List Chunk) (h : l.IsChain (Follows m)) : l.Pairwise Before := by
  rw [← isChain_iff_pairwise]
  apply h.imp
  intro p c hpc
  exact Nat.le_of_eq hpc.addr.symm

theorem RegionOk.bounds (ok : RegionOk g m r) (hc : c ∈ r.chunks) :
    r.start ≤ c.addr ∧ c.addr + c.size ≤ r.stop + 8 := by
  have hpair := pairwise_before _ ok.chain
  unfold Region.chunks at hpair
  rw [pairwise_cons, pairwise_append] at hpair
  obtain ⟨hfirst, _, _, hlast⟩ := hpair
  have hguards : r.start + 8 ≤ r.stop := hfirst r.last (by simp)
  rcases (mem_chunks r c).mp hc with h | h | h
  · rw [h]
    exact ⟨le_rfl, by simp only [Region.first, sizeofMmAllocnode]; omega⟩
  · have hlow : r.start + 8 ≤ c.addr := hfirst c (by simp [h])
    have hhigh : c.addr + c.size ≤ r.stop := hlast c h r.last (by simp)
    exact ⟨by omega, by omega⟩
  · rw [h]
    exact ⟨by simp only [Region.last]; omega, le_rfl⟩

theorem RegionOk.size_lt (ok : RegionOk g m r) (hc : c ∈ r.chunks) :
    c.size < 2 ^ 31 := by
  have hbounds := ok.bounds hc
  have hspan := ok.span
  omega

theorem aligned_of_chain (l : List Chunk) (p : Chunk) (h : (p :: l).IsChain (Follows m))
    (hp : p.addr % 8 = 0) (hsizes : ∀ c ∈ p :: l, c.size % 8 = 0) :
    ∀ c ∈ p :: l, c.addr % 8 = 0 := by
  induction l generalizing p with
  | nil =>
    intro c hc
    rw [mem_singleton.mp hc]
    exact hp
  | cons d l ih =>
    rw [isChain_cons_cons] at h
    have hd : d.addr % 8 = 0 := by
      have := h.1.addr
      have := hsizes p mem_cons_self
      omega
    intro c hc
    cases mem_cons.mp hc with
    | inl heq =>
      rw [heq]
      exact hp
    | inr hmem => exact ih d h.2 hd (fun e he => hsizes e (mem_cons_of_mem _ he)) c hmem

section

variable (ok : RegionOk g m r)
include ok

theorem RegionOk.addr_aligned (hg : 8 ∣ g) (hc : c ∈ r.chunks) : c.addr % 8 = 0 := by
  apply aligned_of_chain _ _ ok.chain ok.aligned _ c hc
  intro d hd
  rcases (mem_chunks r d).mp hd with h | h | h
  · simp [h, Region.first, sizeofMmAllocnode]
  · exact Nat.mod_eq_zero_of_dvd (hg.trans (ok.inner d h).2)
  · simp [h, Region.last, sizeofMmAllocnode]

/-- A `preceding` word holds a size and the allocation bit. -/
theorem RegionOk.tag_word (hc : c ∈ r.chunks) :
    ∃ p, p < 2 ^ 31 ∧ m (c.addr + 4) = p + tag c.alloc := by
  cases mem_cons.mp hc with
  | inl hfirst =>
    refine ⟨0, by decide, ?_⟩
    rw [hfirst, Nat.zero_add]
    exact ok.first
  | inr htail =>
    obtain ⟨front, rest, hsplit⟩ := append_of_mem htail
    obtain ⟨init, hinit⟩ := exists_pred r.first front
    have hchunks : r.chunks = init ++ pred r.first front :: c :: rest := by
      rw [Region.chunks, hsplit, ← cons_append, hinit, append_assoc]
      rfl
    have hchain := ok.chain
    rw [hchunks, isChain_append_cons_cons] at hchain
    refine ⟨_, ok.size_lt (c := pred r.first front) ?_, hchain.2.1.preceding⟩
    rw [hchunks]
    simp

theorem RegionOk.disjoint (hc : c ∈ r.chunks) (hd : d ∈ r.chunks) (hne : c ≠ d) :
    Before c d ∨ Before d c := by
  have hpair := (pairwise_before _ ok.chain).imp fun {a b} h => (Or.inl h : Before a b ∨ Before b a)
  have : Std.Symm fun a b => Before a b ∨ Before b a := ⟨fun _ _ h => h.symm⟩
  exact hpair.forall hc hd hne

theorem RegionOk.nodup : r.chunks.Nodup := by
  apply (pairwise_before _ ok.chain).imp_of_mem
  intro c d hc _ hbefore heq
  have hsize := ok.size_ge hc
  rw [← heq, Before] at hbefore
  omega

/-- Only the header words of the chunks matter to a region. -/
theorem RegionOk.congr
    (h : ∀ c ∈ r.chunks, m' c.addr = m c.addr ∧ m' (c.addr + 4) = m (c.addr + 4)) :
    RegionOk g m' r := by
  refine ⟨?_, ?_, ?_, ok.inner, ok.aligned, ok.span, ok.top⟩
  · apply ok.chain.imp_of_mem_imp
    intro p c _ hc hpc
    refine ⟨hpc.addr, ?_, hpc.notBothFree⟩
    rw [(h c hc).2]
    exact hpc.preceding
  · intro c hc
    rw [(h c hc).1]
    exact ok.sizes c hc
  · exact (h r.first mem_cons_self).2.trans ok.first

end

theorem ends_before_pred {first : Chunk} {left : List Chunk}
    (h : (first :: left).IsChain (Follows m)) {c : Chunk} (hc : c ∈ first :: left) :
    c.addr + c.size ≤ (pred first left).addr + (pred first left).size := by
  obtain ⟨init, hinit⟩ := exists_pred first left
  have hpair := pairwise_before _ h
  rw [hinit, pairwise_append] at hpair
  rw [hinit] at hc
  cases mem_append.mp hc with
  | inl hmem =>
    have hbefore : Before c (pred first left) := hpair.2.2 c hmem _ mem_cons_self
    unfold Before at hbefore
    omega
  | inr hmem => rw [mem_singleton.mp hmem]

theorem starts_behind_succ (right : List Chunk) (last : Chunk)
    (h : (right ++ [last]).IsChain (Follows m)) (c : Chunk) (hc : c ∈ right ++ [last]) :
    c = succ right last ∨ Before (succ right last) c := by
  obtain ⟨rest, hrest⟩ := exists_succ right last
  have hpair := pairwise_before _ h
  rw [hrest, pairwise_cons] at hpair
  rw [hrest] at hc
  exact (mem_cons.mp hc).imp_right (hpair.1 c)

theorem chunks_window {r : Region} {left win right : List Chunk}
    (h : r.inner = left ++ win ++ right) :
    r.chunks = r.first :: (left ++ win ++ right ++ [r.last]) := by
  rw [Region.chunks, h]

section Window

variable {left win right : List Chunk}

theorem RegionOk.window (ok : RegionOk g m r) (h : r.inner = left ++ win ++ right) :
    (pred r.first left :: (win ++ [succ right r.last])).IsChain (Follows m) := by
  have hchain := ok.chain
  rw [chunks_window h, isChain_window] at hchain
  exact hchain.2.1

theorem RegionOk.pred_mem (h : r.inner = left ++ win ++ right) : pred r.first left ∈ r.chunks := by
  have hmem := NbLot.Lib.pred_mem r.first left
  rw [chunks_window h]
  simp only [mem_cons, mem_append] at hmem ⊢
  tauto

theorem RegionOk.succ_mem (h : r.inner = left ++ win ++ right) : succ right r.last ∈ r.chunks := by
  have hmem := NbLot.Lib.succ_mem right r.last
  rw [chunks_window h]
  simp only [mem_cons, mem_append] at hmem ⊢
  tauto

/-- The window may be replaced by other chunks over the same addresses. Stores inside
the window and into the `preceding` word behind it reach no other header. -/
theorem RegionOk.replace (ok : RegionOk g m r) (h : r.inner = left ++ win ++ right)
    (win' : List Chunk) (hout : ∀ a, a < (pred r.first left).addr + (pred r.first left).size ∨
      (succ right r.last).addr + 8 ≤ a → m' a = m a)
    (hsucc : m' (succ right r.last).addr = m (succ right r.last).addr)
    (hchain : (pred r.first left :: (win' ++ [succ right r.last])).IsChain (Follows m'))
    (hsizes : ∀ c ∈ win', m' c.addr = c.size) (hinner : ∀ c ∈ win', 16 ≤ c.size ∧ g ∣ c.size) :
    RegionOk g m' { r with inner := left ++ win' ++ right } := by
  have hold := ok.chain
  have hwindow := chunks_window h
  rw [hwindow, isChain_window] at hold
  obtain ⟨hleft, _, hright⟩ := hold
  have hmemLeft : ∀ c ∈ r.first :: left, c ∈ r.chunks := by
    intro c hc
    rw [hwindow]
    simp only [mem_cons, mem_append] at hc ⊢
    tauto
  have hmemRight : ∀ c ∈ right ++ [r.last], c ∈ r.chunks := by
    intro c hc
    rw [hwindow]
    simp only [mem_cons, mem_append] at hc ⊢
    tauto
  -- the headers on the left end before the window, those on the right start behind it
  have hsameLeft : ∀ c ∈ r.first :: left, m' c.addr = m c.addr ∧ m' (c.addr + 4) = m (c.addr + 4) := by
    intro c hc
    have hsize := ok.size_ge (hmemLeft c hc)
    have hend := ends_before_pred hleft hc
    exact ⟨hout _ (by omega), hout _ (by omega)⟩
  obtain ⟨rest, hrest⟩ := exists_succ right r.last
  have hsameRight : ∀ c ∈ rest, m' c.addr = m c.addr ∧ m' (c.addr + 4) = m (c.addr + 4) := by
    intro c hc
    have hpair := pairwise_before _ hright
    rw [hrest, pairwise_cons] at hpair
    have hbehind : Before (succ right r.last) c := hpair.1 c hc
    have hsize := ok.size_ge (RegionOk.succ_mem h)
    unfold Before at hbehind
    exact ⟨hout _ (by omega), hout _ (by omega)⟩
  refine ⟨?_, ?_, ?_, ?_, ok.aligned, ok.span, ok.top⟩
  · rw [@chunks_window _ left win' right rfl, isChain_window]
    refine ⟨?_, hchain, ?_⟩
    · apply hleft.imp_of_mem_imp
      intro p c _ hc hpc
      exact ⟨hpc.addr, (hsameLeft c hc).2.trans hpc.preceding, hpc.notBothFree⟩
    · change (right ++ [r.last]).IsChain (Follows m')
      rw [hrest] at hright ⊢
      apply hright.imp_of_mem_tail_imp
      intro p c _ hc hpc
      exact ⟨hpc.addr, (hsameRight c hc).2.trans hpc.preceding, hpc.notBothFree⟩
  · intro c hc
    rw [@chunks_window _ left win' right rfl, ← cons_append, ← cons_append,
      ← cons_append, append_assoc, mem_append, mem_append] at hc
    rcases hc with (hc | hc) | hc
    · exact (hsameLeft c hc).1.trans (ok.sizes c (hmemLeft c hc))
    · exact hsizes c hc
    · have hsize := ok.sizes c (hmemRight c hc)
      change c ∈ right ++ [r.last] at hc
      rw [hrest, mem_cons] at hc
      cases hc with
      | inl hfirst =>
        rw [hfirst] at hsize ⊢
        exact hsucc.trans hsize
      | inr hlater => exact (hsameRight c hlater).1.trans hsize
  · exact (hsameLeft r.first mem_cons_self).2.trans ok.first
  · intro c hc
    have hkept : c ∈ left ++ right → 16 ≤ c.size ∧ g ∣ c.size := by
      intro hmem
      apply ok.inner c
      rw [h]
      simp only [mem_append] at hmem ⊢
      tauto
    simp only [mem_append] at hc hkept
    rcases hc with (hc | hc) | hc
    · exact hkept (.inl hc)
    · exact hinner c hc
    · exact hkept (.inr hc)

end Window

end NbLot.Source.Heap
