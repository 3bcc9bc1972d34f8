import NbLot.Source.Heap.Stage

/-!
# mm_malloc keeps the invariant

Source: nuttx/mm/mm_heap/mm_malloc.c:70-198.

The chunk found leaves the free list and is given out whole, or cut in two when what is
left over can hold a free node.
-/
namespace NbLot.Source.Heap
open Lib List Words

variable {g nodelist : Nat} {m : Words} {sh sh' : Shape} {x c : Chunk}

/-- The free chunk `x` has become the allocated chunk `c`, and what is left of `x` a free
chunk behind it. -/
structure Carved (sh sh' : Shape) (x c : Chunk) : Prop where
  block : Block sh.regions x
  free : x.alloc = false
  addr : c.addr = x.addr
  alloc : c.alloc = true
  rewrites : ∃ rest, Rewrites sh sh' [x] (c :: rest)
  front : ∃ spot : Spot sh'.regions [c], spot.prev.alloc = true

theorem Carved.keeps (h : Carved sh sh' x c) : Keeps sh sh' [] := by
  obtain ⟨rest, hrewrites⟩ := h.rewrites
  exact hrewrites.keeps (by simp [h.free])

theorem Carved.new (h : Carved sh sh' x c) : Block sh'.regions c := by
  obtain ⟨rest, hrewrites⟩ := h.rewrites
  exact (hrewrites.block c).mpr (.inr mem_cons_self)

theorem Carved.fresh (h : Carved sh sh' x c) (ok : Layout g nodelist m sh.regions) (q : Chunk)
    (hq : Block sh.regions q) (halloc : q.alloc = true) : q.addr ≠ c.addr := by
  intro heq
  have hqx := ok.eq_of_addr hq.has h.block.has (heq.trans h.addr)
  rw [hqx, h.free] at halloc
  cases halloc

theorem Spot.first_put {win : List Chunk} {regions : List Region} (spot : Spot regions win)
    (c : Chunk) (rest : List Chunk) :
    ∃ first : Spot (spot.put (c :: rest)) [c], first.prev = spot.prev := by
  refine ⟨⟨spot.before, spot.after, _, spot.left, rest ++ spot.right, rfl, ?_⟩, rfl⟩
  simp

theorem Spot.carved (spot : Spot sh.regions [x]) (ok : Layout g nodelist m sh.regions)
    (hfree : x.alloc = false) (rest : List Chunk) (seg : Nat → List Nat) (haddr : c.addr = x.addr)
    (halloc : c.alloc = true) : Carved sh ⟨spot.put (c :: rest), seg⟩ x c := by
  obtain ⟨first, hfirst⟩ := spot.first_put c rest
  refine ⟨spot.win_block x mem_cons_self, hfree, haddr, halloc,
    ⟨rest, spot.rewrites ok _ seg⟩, first, ?_⟩
  rw [hfirst]
  exact (spot.around ok).1.notBothFree.resolve_right (by simp [hfree])

/-- The chunk found is larger than the request by a free node or more. -/
theorem mallocSplit_cut (inv : Inv g nodelist m sh) (spot : Spot sh.regions [x])
    (hfree : x.alloc = false) (size : Nat) (h16 : 16 ≤ size) (hgran : g ∣ size)
    (hle : size + 16 ≤ x.size) :
    ∃ m' sh', mallocSplit nodelist (mmUnlink m x.addr) x.addr size = some m' ∧
      Inv g nodelist (m'.set (x.addr + 4) (m' (x.addr + 4) ||| mmAllocBit)) sh' ∧
      Carved sh sh' x ⟨x.addr, size, true⟩ := by
  obtain ⟨hbefore, hbehind⟩ := spot.around inv.layout
  have hx := spot.win_block x mem_cons_self
  have hnextAlloc : spot.next.alloc = true := hbehind.notBothFree.resolve_left (by simp [hfree])
  have hlo : spot.lo = x.addr := hbefore.addr.symm
  have hnext : spot.next.addr = x.addr + x.size := hbehind.addr
  have hhi : spot.hi = x.addr + x.size := hbehind.addr
  have hlt := inv.layout.size_lt hx.has
  have hlisted := inv.listed x hx hfree
  have hread := ((inv.unlink_header _ hlisted hx.has).1).trans (inv.layout.size_eq hx.has)
  have hword := ((inv.unlink_header _ hlisted spot.next_has).2).trans hbehind.preceding
  obtain ⟨seg, st⟩ := (Stage.start inv spot).unlink x.addr hlisted (by omega) (by omega)
  have st := st.cut inv (by simp) size false (by omega)
  have hstores : cutWords (mmUnlink m x.addr) spot.lo size spot.hi false spot.next.alloc =
      ((((mmUnlink m x.addr).set (x.addr + size) (x.size - size)).set (x.addr + size + 4) size).set
        x.addr size).set (spot.next.addr + 4) (x.size - size + tag spot.next.alloc) := by
    have hrest : spot.hi - x.addr - size = x.size - size := by omega
    rw [set_comm (x.addr + size + 4) x.addr (by omega), set_comm (x.addr + size) x.addr (by omega)]
    unfold cutWords
    rw [hlo, hrest]
    rfl
  rw [hstores] at st
  obtain ⟨m', seg', hadd, st⟩ := st.add inv (by simp) (x.addr + size)
    (by
      simp (disch := omega) only [set_of_ne, set_same]
      omega) (by omega) (by omega)
  unfold cutWords at st
  rw [hlo] at st
  have htag : m' (x.addr + 4) = spot.prev.size := by
    rw [st.near _ (st.offLinks (inv.header_off x hx.has).2.1 (by simp; omega))]
    simp (disch := omega) only [set_of_ne]
    simpa [hfree, tag_false] using hbefore.preceding
  have st := st.set_tag inv (spot.prev.size + tag true) hx.has (by simp; omega) (by omega)
    (by omega) (by omega)
  refine ⟨m', ⟨spot.put [⟨x.addr, size, true⟩, ⟨x.addr + size, x.size - size, false⟩], seg'⟩,
    ?_, ?_, spot.carved inv.layout hfree _ seg' rfl rfl⟩
  · unfold mallocSplit
    simp only [hread]
    rw [sub32_of_le (by omega) (by omega), if_pos (by unfold sizeofMmFreenode; omega), ← hnext]
    simp (disch := omega) only [set_of_ne]
    rw [hword, retag (by omega) hlt]
    exact hadd
  · rw [htag, set_alloc (inv.layout.size_lt spot.prev_has)]
    apply st.finish_pair inv ⟨x.addr, size, true⟩ ⟨x.addr + size, x.size - size, false⟩
      (by simp) (by simp) (.inr ⟨rfl, rfl, rfl, hnextAlloc⟩) hlo.symm rfl (by simp only; omega)
    · simp (disch := omega) only [set_of_ne, set_same]
    · rw [set_same]
    · simp (disch := omega) only [set_of_ne, set_same]
      omega
    · simp (disch := omega) only [set_of_ne, set_same]
    · simp (disch := omega) only [set_of_ne]
      rw [show spot.next.addr + 4 = spot.hi + 4 from rfl, set_same]
      omega
    · exact ⟨h16, hgran⟩
    · exact ⟨by simp only; omega, Nat.dvd_sub (inv.layout.block_ge hx).2 hgran⟩

/-- What is left of the chunk found could not hold a free node. -/
theorem mallocSplit_whole (inv : Inv g nodelist m sh) (spot : Spot sh.regions [x])
    (hfree : x.alloc = false) (size : Nat) (hle : size ≤ x.size) (hlt : x.size < size + 16) :
    ∃ m' sh', mallocSplit nodelist (mmUnlink m x.addr) x.addr size = some m' ∧
      Inv g nodelist (m'.set (x.addr + 4) (m' (x.addr + 4) ||| mmAllocBit)) sh' ∧
      Carved sh sh' x ⟨x.addr, x.size, true⟩ := by
  obtain ⟨hbefore, hbehind⟩ := spot.around inv.layout
  have hx := spot.win_block x mem_cons_self
  have hlo : x.addr = spot.lo := hbefore.addr
  have hnext : spot.next.addr = x.addr + x.size := hbehind.addr
  have hhi : spot.hi = x.addr + x.size := hbehind.addr
  have hinner := inv.layout.block_ge hx
  have hsizeLt := inv.layout.size_lt hx.has
  obtain ⟨seg, st⟩ := (Stage.start inv spot).unlink x.addr (inv.listed x hx hfree) (by omega)
    (by omega)
  have hsize : mmUnlink m x.addr x.addr = x.size := by
    rw [st.size_eq inv x hx.has]
    simp (disch := omega) only [set_of_ne]
    exact inv.layout.size_eq hx.has
  have htag : mmUnlink m x.addr (x.addr + 4) = spot.prev.size := by
    rw [st.tag_eq inv hx.has]
    simp (disch := omega) only [set_of_ne]
    simpa [hfree, tag_false] using hbefore.preceding
  have st := st.set_tag inv (spot.prev.size + tag true) hx.has nofun (by omega) (by omega)
    (by omega)
  refine ⟨mmUnlink m x.addr, ⟨spot.put [⟨x.addr, x.size, true⟩], seg⟩, ?_, ?_,
    spot.carved inv.layout hfree _ seg rfl rfl⟩
  · unfold mallocSplit
    simp only [hsize]
    rw [sub32_of_le hle (by omega), if_neg (by unfold sizeofMmFreenode; omega)]
  · rw [htag, set_alloc (inv.layout.size_lt spot.prev_has)]
    apply st.finish_one inv ⟨x.addr, x.size, true⟩ (by simp) (by simp) (by simp) hlo hhi.symm
      (.inr rfl) (.inl rfl)
    · simp (disch := omega) only [set_of_ne]
      exact inv.layout.size_eq hx.has
    · simp only [set_same]
    · simp (disch := omega) only [set_of_ne]
      exact hbehind.preceding
    · exact hinner

theorem mmAlignUp_eq (a : Nat) (h : a + 15 < 2 ^ 32) : mmAlignUp a = 16 * ((a + 15) / 16) := by
  unfold mmAlignUp
  rw [@add32_of_lt a mmGranMask h]
  exact clear32_mask 4 h

/-- The chunk is a smallest free one of at least `size` bytes. -/
structure BestFit (regions : List Region) (size : Nat) (x : Chunk) : Prop where
  fits : size ≤ x.size
  least : ∀ y, Block regions y → y.alloc = false → size ≤ y.size → x.size ≤ y.size

/-- mm_malloc gives NULL and changes nothing, or carves the block out of the free chunk that fits best. -/
theorem mmMalloc_spec (inv : Inv g nodelist m sh) (hg : g ∣ 16) (size : Nat)
    (hsize : size + 23 < 2 ^ 32) :
    (mmMalloc nodelist m size = some (m, 0) ∧ (size = 0 ∨
      ∀ y, Block sh.regions y → y.alloc = false → y.size < mmAlignUp (size + 8))) ∨
      ∃ m' sh' x c, mmMalloc nodelist m size = some (m', c.addr + 8) ∧ Inv g nodelist m' sh' ∧
        Carved sh sh' x c ∧ mmAlignUp (size + 8) ≤ c.size ∧
        BestFit sh.regions (mmAlignUp (size + 8)) x := by
  unfold mmMalloc
  by_cases hsmall : size < 1
  · exact .inl ⟨if_pos hsmall, .inl (by omega)⟩
  rw [if_neg hsmall]
  have hadd : add32 size sizeofMmAllocnode = size + 8 := @add32_of_lt size 8 (by omega)
  have halign := mmAlignUp_eq (size + 8) (by omega)
  have hndx : (if mmAlignUp (size + 8) ≥ mmMaxChunk then mmNnodes - 1
      else mmSize2ndx (mmAlignUp (size + 8))) = mmSize2ndx (mmAlignUp (size + 8)) := by
    split
    · next hlarge => exact (if_pos hlarge).symm
    · rfl
  simp only [hadd, hndx]
  have hgran : g ∣ mmAlignUp (size + 8) := by
    rw [halign]
    exact hg.mul_right _
  -- the listed chunks are the free ones
  have hsized : ∀ y, Block sh.regions y → y.alloc = false → Listed sh.seg y.addr ∧ m y.addr = y.size :=
    fun y hy hfree => ⟨inv.listed y hy hfree, inv.layout.size_eq hy.has⟩
  obtain ⟨node, hsearch, hnode⟩ := inv.list.search (mmAlignUp (size + 8)) (by omega)
  rw [hsearch]
  rcases hnode with ⟨hnull, hnone⟩ | ⟨hlisted, hfit, hleast⟩
  · refine .inl ⟨by simp [hnull], .inr fun y hy hfree => ?_⟩
    obtain ⟨hmem, hy⟩ := hsized y hy hfree
    exact hy ▸ hnone _ hmem
  refine .inr ?_
  obtain ⟨x, hx, hfree, rfl⟩ := (inv.free node).mp hlisted
  obtain ⟨spot⟩ := Spot.of_block hx
  have hx0 := inv.layout.block_addr hx
  rw [inv.layout.size_eq hx.has] at hfit hleast
  have hbest : BestFit sh.regions (mmAlignUp (size + 8)) x := by
    refine ⟨hfit, fun y hy hfree hle => ?_⟩
    obtain ⟨hmem, hy⟩ := hsized y hy hfree
    exact hy ▸ hleast _ hmem (hy ▸ hle)
  by_cases hroom : mmAlignUp (size + 8) + 16 ≤ x.size
  · obtain ⟨m', sh', hsplit, hinv, hcarved⟩ :=
      mallocSplit_cut inv spot hfree _ (by omega) hgran hroom
    refine ⟨_, sh', x, _, ?_, hinv, hcarved, le_rfl, hbest⟩
    simp only [hsplit]
    rw [if_neg (by omega)]
    rfl
  · obtain ⟨m', sh', hsplit, hinv, hcarved⟩ := mallocSplit_whole inv spot hfree _ hfit (by omega)
    refine ⟨_, sh', x, _, ?_, hinv, hcarved, hfit, hbest⟩
    simp only [hsplit]
    rw [if_neg (by omega)]
    rfl

end NbLot.Source.Heap
