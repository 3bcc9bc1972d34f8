import NbLot.Source.Heap.Free

/-!
# mm_initialize, mm_addregion and mm_extend establish and keep the invariant

Source: nuttx/mm/mm_heap/mm_initialize.c:70-204, mm_extend.c:65-127.

mm_initialize leaves an empty list of nineteen separators. A region, or the memory an
existing region grows by, first appears as a region with one more allocated chunk; giving
that chunk to the list is then one more operation on a window.
-/
namespace NbLot.Source.Heap
open Lib List Words

variable {g nodelist : Nat} {m m' : Words} {sh : Shape}

theorem clear_words (base count a : Nat) :
    (List.range count).foldl (fun m k => m.set (base + 4 * k) 0) m a =
      if a % 4 = base % 4 ∧ base ≤ a ∧ a < base + 4 * count then 0 else m a := by
  induction count with
  | zero =>
    rw [range_zero, foldl_nil, if_neg (by omega)]
  | succ count ih =>
    rw [range_succ, foldl_append, foldl_cons, foldl_nil]
    by_cases heq : a = base + 4 * count
    · rw [heq, set_same, if_pos (by omega)]
    · rw [set_of_ne heq, ih]
      by_cases hin : a % 4 = base % 4 ∧ base ≤ a ∧ a < base + 4 * count
      · rw [if_pos hin, if_pos (by omega)]
      · rw [if_neg hin, if_neg (by omega)]

/-- The second loop links the entry `i` behind the entry `i - 1`. -/
def linkEntry (nodelist : Nat) (m : Words) (i : Nat) : Words :=
  (m.set (nodelist + 16 * (i - 1) + 8) (nodelist + 16 * i)).set (nodelist + 16 * i + 12)
    (nodelist + 16 * (i - 1))

/-- The words of entry `j` after the entries up to `count` have been linked. -/
theorem link_words (count : Nat) :
    (∀ j, (List.range' 1 count).foldl (linkEntry nodelist) m (nodelist + 16 * j) =
      m (nodelist + 16 * j)) ∧
    (∀ j, (List.range' 1 count).foldl (linkEntry nodelist) m (nodelist + 16 * j + 8) =
      if j < count then nodelist + 16 * (j + 1) else m (nodelist + 16 * j + 8)) ∧
    ∀ j, (List.range' 1 count).foldl (linkEntry nodelist) m (nodelist + 16 * j + 12) =
      if 0 < j ∧ j ≤ count then nodelist + 16 * (j - 1) else m (nodelist + 16 * j + 12) := by
  induction count with
  | zero => exact ⟨fun _ => rfl, fun j => by simp, fun j => by simp; omega⟩
  | succ count ih =>
    obtain ⟨hsize, hflink, hblink⟩ := ih
    rw [range'_1_concat, foldl_append, foldl_cons, foldl_nil]
    unfold linkEntry at hsize hflink hblink ⊢
    refine ⟨?_, ?_, ?_⟩
    · intro j
      rw [set_of_ne (by omega), set_of_ne (by omega), hsize]
    · intro j
      rw [set_of_ne (by omega)]
      by_cases heq : j = count
      · rw [heq, if_pos (by omega), Nat.add_sub_cancel_left, set_same, Nat.add_comm 1 count]
      · rw [set_of_ne (by omega), hflink]
        by_cases hlt : j < count
        · rw [if_pos hlt, if_pos (by omega)]
        · rw [if_neg hlt, if_neg (by omega)]
    · intro j
      by_cases heq : j = count + 1
      · rw [heq, if_pos (by omega), Nat.add_comm 1 count, set_same]
      · rw [set_of_ne (by omega), set_of_ne (by omega), hblink]
        by_cases hin : 0 < j ∧ j ≤ count
        · rw [if_pos hin, if_pos (by omega)]
        · rw [if_neg hin, if_neg (by omega)]

theorem initNodelist_words (i : Nat) (hi : i < mmNnodes) :
    initNodelist nodelist m (nodelist + 16 * i) = 0 ∧
      initNodelist nodelist m (nodelist + 16 * i + 8) =
        (if i < mmNnodes - 1 then nodelist + 16 * (i + 1) else 0) ∧
      (0 < i → initNodelist nodelist m (nodelist + 16 * i + 12) = nodelist + 16 * (i - 1)) := by
  have hzero : ∀ a, a % 4 = nodelist % 4 → nodelist ≤ a → a < nodelist + 4 * (4 * mmNnodes) →
      (List.range (4 * mmNnodes)).foldl (fun m k => Words.set m (nodelist + 4 * k) 0) m a = 0 := by
    intro a h₁ h₂ h₃
    rw [clear_words, if_pos ⟨h₁, h₂, h₃⟩]
  obtain ⟨hsize, hflink, hblink⟩ := @link_words nodelist
    ((List.range (4 * mmNnodes)).foldl (fun m k => Words.set m (nodelist + 4 * k) 0) m)
    (mmNnodes - 1)
  refine ⟨(hsize i).trans (hzero _ (by omega) (by omega) (by omega)), (hflink i).trans ?_, ?_⟩
  · rw [hzero _ (by omega) (by omega) (by omega)]
  · intro hpos
    exact (hblink i).trans (if_pos ⟨hpos, by omega⟩)

theorem nodes_empty : nodes nodelist (fun _ => []) =
    (List.range' 0 mmNnodes).map fun i => nodelist + 16 * i := by
  exact map_eq_flatMap.symm

/-- The separators from `i` on are linked in index order. -/
theorem initNodelist_linked (count i : Nat) (h : i + count = mmNnodes) :
    Linked (fun x => initNodelist nodelist m (x + 8)) (fun x => initNodelist nodelist m (x + 12))
      ((List.range' i count).map fun j => nodelist + 16 * j) 0 := by
  induction count generalizing i with
  | zero => exact trivial
  | succ count ih =>
    have hflink := (@initNodelist_words nodelist m i (by omega)).2.1
    cases count with
    | zero =>
      rw [if_neg (by omega)] at hflink
      exact hflink
    | succ count =>
      rw [if_pos (by omega)] at hflink
      have hblink := (@initNodelist_words nodelist m (i + 1) (by omega)).2.2 (by omega)
      exact ⟨hflink, hblink, ih (i + 1) (by omega)⟩

theorem initNodelist_list (htop : nodelist + 16 * mmNnodes ≤ 2 ^ 32) :
    FreeList nodelist (initNodelist nodelist m) (fun _ => []) := by
  refine ⟨?_, fun i hi => (initNodelist_words i hi).1, nofun, ?_, ?_, ?_, ?_⟩
  · exact initNodelist_linked mmNnodes 0 (Nat.zero_add _)
  · exact fun _ _ => List.Pairwise.nil
  · intro x hx
    obtain ⟨_, _, hmem⟩ := hx
    cases hmem
  · rw [nodes_empty, pairwise_map]
    apply List.Pairwise.imp _ pairwise_lt_range'
    intro i j hlt
    exact .inl (by omega)
  · intro x hx
    obtain ⟨i, hi, hxi⟩ | ⟨_, _, hmem⟩ := mem_nodes.mp hx
    · unfold addresses
      omega
    · cases hmem

theorem initNodelist_inv (htop : nodelist + 16 * mmNnodes ≤ 2 ^ 32) :
    Inv g nodelist (initNodelist nodelist m) ⟨[], fun _ => []⟩ := by
  refine ⟨⟨nofun, List.Pairwise.nil, nofun⟩, htop, initNodelist_list htop, ?_⟩
  intro x
  constructor
  · intro h
    obtain ⟨_, _, hmem⟩ := h
    cases hmem
  · intro h
    obtain ⟨c, ⟨r, hr, _⟩, _⟩ := h
    cases hr

section

variable (inv : Inv g nodelist m sh)
include inv

/-- The list and the free chunks stay while the regions and their headers change. -/
theorem Inv.regrow (regions : List Region) (hlayout : Layout g nodelist m' regions)
    (hnodes : ∀ y ∈ nodes nodelist sh.seg, m' y = m y ∧ m' (y + 8) = m (y + 8) ∧ m' (y + 12) = m (y + 12))
    (hfree : ∀ c, c.alloc = false → (Block regions c ↔ Block sh.regions c)) :
    Inv g nodelist m' ⟨regions, sh.seg⟩ := by
  refine ⟨hlayout, inv.top, inv.list.congr hnodes, ?_⟩
  intro x
  rw [inv.free]
  constructor
  · intro h
    obtain ⟨c, hc, halloc, hcx⟩ := h
    exact ⟨c, (hfree c halloc).mpr hc, halloc, hcx⟩
  · intro h
    obtain ⟨c, hc, halloc, hcx⟩ := h
    exact ⟨c, (hfree c halloc).mp hc, halloc, hcx⟩

/-- The addresses from `lo` to `hi` belong neither to a region nor to the node array. -/
def Unused (nodelist : Nat) (regions : List Region) (lo hi : Nat) : Prop :=
  (hi ≤ nodelist ∨ nodelist + 16 * mmNnodes ≤ lo) ∧
    ∀ r ∈ regions, r.stop + 8 ≤ lo ∨ hi ≤ r.start

theorem Inv.node_outside {lo hi : Nat} (hunused : Unused nodelist sh.regions lo hi) {y : Nat}
    (hy : y ∈ nodes nodelist sh.seg) : y + 16 ≤ lo ∨ hi ≤ y := by
  cases mem_nodes.mp hy with
  | inl hhead =>
    have := hunused.1
    omega
  | inr hlisted =>
    obtain ⟨q, ⟨r, hr, hq⟩, _, hqy⟩ := (inv.free y).mp hlisted
    have hbounds := (inv.layout.each r hr).bounds ((mem_chunks r q).mpr (.inr (.inl hq)))
    have hq16 := ((inv.layout.each r hr).inner q hq).1
    have := hunused.2 r hr
    omega

/-- A region joins the heap. Its chunks are allocated so far. -/
theorem Inv.add_region {r : Region} (hr : RegionOk g m' r)
    (hout : ∀ a, a < r.start ∨ r.stop + 8 ≤ a → m' a = m a)
    (hunused : Unused nodelist sh.regions r.start (r.stop + 8))
    (halloc : ∀ c ∈ r.inner, c.alloc = true) : Inv g nodelist m' ⟨sh.regions ++ [r], sh.seg⟩ := by
  apply inv.regrow
  · refine ⟨?_, ?_, ?_⟩
    · intro s hs
      rcases mem_append.mp hs with hold | hnew
      · apply (inv.layout.each s hold).congr
        intro c hc
        have hbounds := (inv.layout.each s hold).bounds hc
        have hsize := (inv.layout.each s hold).size_ge hc
        have := hunused.2 s hold
        exact ⟨hout _ (by omega), hout _ (by omega)⟩
      · rw [mem_singleton.mp hnew]
        exact hr
    · rw [pairwise_append]
      refine ⟨inv.layout.separate, pairwise_singleton _ _, ?_⟩
      intro s hs t ht
      rw [mem_singleton.mp ht]
      exact hunused.2 s hs
    · intro s hs
      rcases mem_append.mp hs with hold | hnew
      · exact inv.layout.table s hold
      · rw [mem_singleton.mp hnew]
        exact hunused.1
  · intro y hy
    have := inv.node_outside hunused hy
    exact ⟨hout _ (by omega), hout _ (by omega), hout _ (by omega)⟩
  · intro c hfree
    constructor
    · intro h
      obtain ⟨s, hs, hc⟩ := h
      rcases mem_append.mp hs with hold | hnew
      · exact ⟨s, hold, hc⟩
      · rw [mem_singleton.mp hnew] at hc
        rw [halloc c hc] at hfree
        cases hfree
    · intro h
      obtain ⟨s, hs, hc⟩ := h
      exact ⟨s, mem_append_left _ hs, hc⟩

end

/-- The headers mm_addregion stores between `base` and `fin`. -/
def regionWords (m : Words) (base fin : Nat) : Words :=
  let m := m.set base sizeofMmAllocnode
  let m := m.set (base + 4) mmAllocBit
  let m := m.set (base + 8) (fin - base - 16)
  let m := m.set (base + 12) sizeofMmAllocnode
  let m := m.set (fin - 8) sizeofMmAllocnode
  m.set (fin - 8 + 4) (fin - base - 16 + tag true)

section NewRegion

variable {base fin : Nat}

/-- The new region with its chunk marked as allocated. -/
theorem regionWords_ok (hg : g ∣ 16) (hbase : base % 16 = 0) (hfin : fin % 16 = 0)
    (hroom : base + 32 ≤ fin) (hspan : fin < base + 2 ^ 31) (htop : fin ≤ 2 ^ 32) :
    RegionOk g ((regionWords m base fin).set (base + 12) (8 + tag true))
      ⟨base, [⟨base + 8, fin - base - 16, true⟩], fin - 8⟩ := by
  have hgran : g ∣ fin - base - 16 := hg.trans (by omega)
  unfold regionWords sizeofMmAllocnode
  refine ⟨?_, ?_, ?_, ?_, by simp only; omega, by simp only; omega, by simp only; omega⟩
  · unfold Region.chunks
    rw [singleton_append, isChain_cons_cons, isChain_cons_cons]
    refine ⟨⟨rfl, ?_, .inl rfl⟩, ⟨?_, ?_, .inl rfl⟩, isChain_singleton _⟩
    · exact set_same
    · simp only [Region.last]
      omega
    · simp only [Region.last]
      simp (disch := omega) only [set_of_ne, set_same]
  · intro c hc
    rcases (mem_chunks _ c).mp hc with h | h | h
    · rw [h]
      simp only [Region.first]
      simp (disch := omega) only [set_of_ne, set_same]
      rfl
    · rw [mem_singleton.mp h]
      simp (disch := omega) only [set_of_ne, set_same]
    · rw [h]
      simp only [Region.last]
      simp (disch := omega) only [set_of_ne, set_same]
      rfl
  · simp (disch := omega) only [set_of_ne, set_same]
  · intro c hc
    rw [mem_singleton.mp hc]
    exact ⟨by simp only; omega, hgran⟩

theorem regionWords_out (hroom : base + 32 ≤ fin) (a : Nat) (ha : a < base ∨ fin ≤ a) :
    regionWords m base fin a = m a := by
  unfold regionWords
  simp (disch := omega) only [set_of_ne]

theorem Inv.new_region (inv : Inv g nodelist m sh) (hg : g ∣ 16) (hbase : base % 16 = 0)
    (hfin : fin % 16 = 0) (hroom : base + 32 ≤ fin) (hspan : fin < base + 2 ^ 31)
    (htop : fin ≤ 2 ^ 32) (hunused : Unused nodelist sh.regions base fin) :
    ∃ m' seg', mmAddfreechunk nodelist (regionWords m base fin) (base + 8) = some m' ∧
      Inv g nodelist m'
        ⟨sh.regions ++ [⟨base, [⟨base + 8, fin - base - 16, false⟩], fin - 8⟩], seg'⟩ := by
  have hstop : fin - 8 + 8 = fin := by omega
  have inv₁ := inv.add_region
    (regionWords_ok hg hbase hfin hroom hspan htop)
    (by
      intro a ha
      simp only [hstop] at ha
      rw [set_of_ne (by omega), regionWords_out hroom a ha])
    (by simpa only [hstop] using hunused) (by simp)
  obtain ⟨spot, hput, hprev, hnext⟩ : ∃ spot : Spot
      (sh.regions ++ [⟨base, [⟨base + 8, fin - base - 16, true⟩], fin - 8⟩])
      [⟨base + 8, fin - base - 16, true⟩],
      (∀ win, spot.put win = sh.regions ++ [⟨base, [] ++ win ++ [], fin - 8⟩]) ∧
      spot.prev = ⟨base, 8, true⟩ ∧ spot.next = ⟨fin - 8, 8, true⟩ :=
    ⟨⟨sh.regions, [], _, [], [], rfl, rfl⟩, fun _ => rfl, rfl, rfl⟩
  have hlo : spot.lo = base + 8 := by
    unfold Spot.lo
    rw [hprev]
  have hhi : spot.hi = fin - 8 := by
    unfold Spot.hi
    rw [hnext]
  have hc := spot.win_block _ mem_cons_self
  -- the stored word of the chunk says that it is free
  have st := (Stage.start inv₁ spot).set_tag inv₁ 8 hc.has nofun
    (by simp only; omega) (by simp only; omega) (by simp only; omega)
  rw [set_undo _ (base + 8 + 4) _ _ (by
    unfold regionWords
    simp (disch := omega) only [set_of_ne, set_same]
    rfl)] at st
  have hwords : regionWords m base fin (base + 8) = fin - base - 16 ∧
      regionWords m base fin (base + 8 + 4) = 8 ∧
      regionWords m base fin (fin - 8 + 4) = fin - base - 16 + tag true := by
    unfold regionWords
    simp (disch := omega) only [set_of_ne, set_same]
    exact ⟨trivial, rfl, trivial⟩
  obtain ⟨m', seg', hadd, st⟩ := st.add inv₁ (by simp) (base + 8) (by omega) (by omega) (by omega)
  refine ⟨m', seg', hadd, ?_⟩
  have hinv := st.finish_one inv₁ ⟨base + 8, fin - base - 16, false⟩ (by simp) (by simp)
    (by simp [eq_comm]) hlo.symm (by simp only; omega) (.inl (by rw [hprev])) (.inr (by rw [hnext]))
    hwords.1 (by rw [hprev]; exact hwords.2.1) (by rw [hnext]; exact hwords.2.2)
    ⟨by simp only; omega, hg.trans (by simp only; omega)⟩
  rw [hput] at hinv
  exact hinv

end NewRegion

/-- The headers mm_extend stores: the old guard becomes a chunk of `size` bytes, with a new
guard behind it. -/
def extendWords (m : Words) (stop size : Nat) : Words :=
  ((m.set stop size).set (stop + size) sizeofMmAllocnode).set (stop + size + 4) (size + tag true)

def Region.grow (r : Region) (size : Nat) : Region :=
  ⟨r.start, r.inner ++ [⟨r.stop, size, true⟩], r.stop + size⟩

theorem extendWords_of_ne {stop size a : Nat} (hstop : a ≠ stop)
    (hguard : a < stop + size ∨ stop + size + 8 ≤ a) : extendWords m stop size a = m a := by
  unfold extendWords
  simp (disch := omega) only [set_of_ne]

theorem RegionOk.grow {r : Region} (ok : RegionOk g m r) (size : Nat) (h16 : 16 ≤ size)
    (hgran : g ∣ size) (hspan : r.stop + size + 8 < r.start + 2 ^ 31)
    (htop : r.stop + size + 8 ≤ 2 ^ 32) : RegionOk g (extendWords m r.stop size) (r.grow size) := by
  obtain ⟨init, hinit⟩ := exists_pred r.first r.inner
  have hold : r.chunks = init ++ pred r.first r.inner :: r.last :: [] := by
    rw [Region.chunks, ← cons_append, hinit, append_assoc]
    rfl
  have hnew : (r.grow size).chunks =
      init ++ pred r.first r.inner :: ⟨r.stop, size, true⟩ :: [(r.grow size).last] := by
    change (r.first :: r.inner) ++ _ ++ _ = _
    rw [hinit, append_assoc, append_assoc]
    rfl
  have hmem : ∀ c ∈ r.first :: r.inner, c ∈ r.chunks := by
    intro c hc
    exact mem_append_left _ hc
  -- the headers before the old guard do not change
  have hfront : ∀ c ∈ r.first :: r.inner, extendWords m r.stop size c.addr = m c.addr ∧
      extendWords m r.stop size (c.addr + 4) = m (c.addr + 4) := by
    intro c hc
    have hsize := ok.size_ge (hmem c hc)
    have hpair := pairwise_before _ ok.chain
    rw [Region.chunks, ← cons_append, pairwise_append] at hpair
    have hbefore : Before c r.last := hpair.2.2 c hc _ mem_cons_self
    have hend : c.addr + c.size ≤ r.stop := hbefore
    exact ⟨extendWords_of_ne (by omega) (by omega), extendWords_of_ne (by omega) (by omega)⟩
  have hchain := ok.chain
  rw [hold, isChain_append_cons_cons] at hchain
  obtain ⟨hleft, hguard, _⟩ := hchain
  refine ⟨?_, ?_, ?_, ?_, ok.aligned, hspan, htop⟩
  · rw [hnew, isChain_append_cons_cons, isChain_cons_cons]
    refine ⟨?_, ⟨hguard.addr, ?_, .inr rfl⟩, ⟨rfl, ?_, .inr rfl⟩, isChain_singleton _⟩
    · apply hleft.imp_of_mem_imp
      intro p c _ hc hpc
      rw [← hinit] at hc
      exact ⟨hpc.addr, (hfront c hc).2.trans hpc.preceding, hpc.notBothFree⟩
    · exact (extendWords_of_ne (by simp only; omega) (by simp only; omega)).trans
        hguard.preceding
    · exact set_same
  · intro c hc
    have hcases : c ∈ r.first :: r.inner ∨ c = ⟨r.stop, size, true⟩ ∨ c = (r.grow size).last := by
      simpa [Region.chunks, Region.grow, Region.first, or_assoc] using hc
    rcases hcases with h | h | h
    · rw [(hfront c h).1]
      exact ok.sizes c (hmem c h)
    · rw [h]
      unfold extendWords
      simp (disch := omega) only [set_of_ne, set_same]
    · rw [h]
      simp only [Region.last, Region.grow]
      unfold extendWords
      simp (disch := omega) only [set_of_ne, set_same]
  · exact (hfront r.first mem_cons_self).2.trans ok.first
  · intro c hc
    rcases mem_append.mp hc with h | h
    · exact ok.inner c h
    · rw [mem_singleton.mp h]
      exact ⟨h16, hgran⟩

/-- A region grows by the memory behind its guard. -/
theorem Inv.grow_region (inv : Inv g nodelist m sh) (before after : List Region) (r : Region)
    (hregions : sh.regions = before ++ r :: after) (size : Nat) (h16 : 16 ≤ size)
    (hgran : g ∣ size) (hspan : r.stop + size + 8 < r.start + 2 ^ 31)
    (htop : r.stop + size + 8 ≤ 2 ^ 32)
    (hunused : Unused nodelist sh.regions (r.stop + 8) (r.stop + size + 8)) :
    Inv g nodelist (extendWords m r.stop size) ⟨before ++ r.grow size :: after, sh.seg⟩ := by
  have hr : r ∈ sh.regions := by
    rw [hregions]
    exact mem_append_right _ mem_cons_self
  have hok := inv.layout.each r hr
  have hlast : Has sh.regions r.last := ⟨r, hr, (mem_chunks r _).mpr (.inr (.inr rfl))⟩
  have hseparate := inv.layout.separate
  rw [hregions, pairwise_append, pairwise_cons] at hseparate
  obtain ⟨hbefore, ⟨hrafter, hafter⟩, hcross⟩ := hseparate
  have hbounds : ∀ s ∈ sh.regions, s.start + 8 ≤ s.stop := by
    intro s hs
    have hpair := pairwise_before _ (inv.layout.each s hs).chain
    exact (pairwise_cons.mp hpair).1 s.last (by simp)
  -- the others keep clear of the grown region
  have hclear : ∀ s ∈ sh.regions, Separate s r → Separate s (r.grow size) := by
    intro s hs hsep
    have := hunused.2 s hs
    have := hbounds s hs
    unfold Separate at hsep ⊢
    simp only [Region.grow]
    omega
  have hin : ∀ s, s ∈ before ∨ s ∈ after → s ∈ sh.regions ∧ Separate s r := by
    intro s hs
    rw [hregions]
    cases hs with
    | inl h => exact ⟨mem_append_left _ h, hcross s h r mem_cons_self⟩
    | inr h =>
      exact ⟨mem_append_right _ (mem_cons_of_mem _ h), (hrafter s h).symm⟩
  have hcases : ∀ s ∈ before ++ r.grow size :: after,
      s = r.grow size ∨ (s ∈ sh.regions ∧ Separate s r) := by
    intro s hs
    rw [mem_append, mem_cons] at hs
    rcases hs with h | h | h
    · exact .inr (hin s (.inl h))
    · exact .inl h
    · exact .inr (hin s (.inr h))
  apply inv.regrow
  · refine ⟨?_, ?_, ?_⟩
    · intro s hs
      rcases hcases s hs with heq | ⟨hold, hsep⟩
      · rw [heq]
        exact hok.grow size h16 hgran hspan htop
      · apply (inv.layout.each s hold).congr
        intro c hc
        have hcb := (inv.layout.each s hold).bounds hc
        have hrb := hbounds r hr
        have hfar := hclear s hold hsep
        simp only [Separate, Region.grow] at hfar
        exact ⟨extendWords_of_ne (by omega) (by omega), extendWords_of_ne (by omega) (by omega)⟩
    · rw [pairwise_append, pairwise_cons]
      refine ⟨hbefore, ⟨?_, hafter⟩, ?_⟩
      · intro s hs
        exact (hclear s (hin s (.inr hs)).1 (hin s (.inr hs)).2).symm
      · intro s hs t ht
        cases mem_cons.mp ht with
        | inl heq =>
          rw [heq]
          exact hclear s (hin s (.inl hs)).1 (hin s (.inl hs)).2
        | inr hmem => exact hcross s hs t (mem_cons_of_mem _ hmem)
    · intro s hs
      rcases hcases s hs with heq | ⟨hold, _⟩
      · have htable := inv.layout.table r hr
        have harea := hunused.1
        rw [heq]
        simp only [Region.grow]
        unfold mmNnodes mmMaxShift mmMinShift at *
        omega
      · exact inv.layout.table s hold
  · intro y hy
    have houtside := inv.node_outside hunused hy
    obtain ⟨hoff, hnode⟩ := inv.off_node hlast sh.seg (fun _ h => h)
      (inv.not_listed hlast rfl) r.stop le_rfl (by simp [Region.last, sizeofMmAllocnode])
    have hlinks := hoff y hy
    have hne : y ≠ r.stop := fun h => hnode (by rw [← h]; exact hy)
    exact ⟨extendWords_of_ne hne (by omega), extendWords_of_ne (by omega) (by omega),
      extendWords_of_ne (by omega) (by omega)⟩
  · intro c hfree
    have hiff : c ∈ (r.grow size).inner ↔ c ∈ r.inner := by
      simp only [Region.grow, mem_append, mem_singleton]
      constructor
      · intro h
        cases h with
        | inl h => exact h
        | inr h =>
          rw [h] at hfree
          cases hfree
      · exact .inl
    unfold Block
    rw [hregions]
    simp only [mem_append, mem_cons, or_and_right, exists_or, exists_eq_left, hiff]

end NbLot.Source.Heap
