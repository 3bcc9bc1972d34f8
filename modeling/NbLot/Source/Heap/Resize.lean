import NbLot.Source.Heap.Stage

/-!
# A block shrinks, or grows into its neighbours

Source: nuttx/mm/mm_heap/mm_shrinkchunk.c:65-139, mm_realloc.c:216-328.

Each theorem is one way in which the boundary between a block and a neighbour moves.
The contents of a block may change as they like: `Inv.store` and `Inv.memcpy`.
-/
namespace NbLot.Source.Heap
open Lib Words

variable {g nodelist : Nat} {m : Words} {sh : Shape} {c p n : Chunk}

section

variable (inv : Inv g nodelist m sh)
include inv

theorem Inv.store (c : Chunk) (hc : Block sh.regions c) (halloc : c.alloc = true) (a v : Nat)
    (hlow : c.addr + 8 ≤ a) (hhigh : a < c.addr + c.size) : Inv g nodelist (m.set a v) sh := by
  obtain ⟨hoff, hnode⟩ := inv.off_node hc.has sh.seg (fun _ h => h)
    (inv.not_listed hc.has halloc) a (by omega) hhigh
  refine ⟨inv.layout.congr ?_, inv.top, inv.list.set a v hoff hnode, inv.free⟩
  intro d hd
  have hne : d.addr ≠ a ∧ d.addr + 4 ≠ a := by
    by_cases heq : d = c
    · rw [heq]
      omega
    · have hdisjoint := inv.layout.disjoint hd hc.has heq
      unfold Before at hdisjoint
      omega
  exact ⟨set_of_ne hne.1, set_of_ne hne.2⟩

theorem Inv.copyWords (c : Chunk) (hc : Block sh.regions c) (halloc : c.alloc = true)
    (dest src count : Nat) (hlow : c.addr + 8 ≤ dest) (hhigh : dest + 4 * count ≤ c.addr + c.size) :
    Inv g nodelist (copyWords m dest src count) sh := by
  induction count generalizing m dest src with
  | zero => exact inv
  | succ count ih =>
    unfold Heap.copyWords
    exact ih (inv.store c hc halloc dest _ hlow (by omega)) _ _ (by omega) (by omega)

theorem Inv.memcpy (c : Chunk) (hc : Block sh.regions c) (halloc : c.alloc = true)
    (dest src bytes : Nat) (hlow : c.addr + 8 ≤ dest) (hhigh : dest + bytes ≤ c.addr + c.size) :
    Inv g nodelist (memcpy m dest src bytes) sh :=
  inv.copyWords c hc halloc dest src _ hlow (by omega)

end

section

variable (inv : Inv g nodelist m sh)
include inv

theorem Spot.pair_bounds (spot : Spot sh.regions [c, n]) :
    Block sh.regions c ∧ Block sh.regions n ∧ c.addr = spot.lo ∧ n.addr = c.addr + c.size ∧
      spot.next.addr = n.addr + n.size ∧ spot.hi = n.addr + n.size ∧
      (16 ≤ c.size ∧ g ∣ c.size) ∧ 16 ≤ n.size ∧ g ∣ n.size := by
  obtain ⟨hbefore, hcn, hbehind⟩ := spot.around_pair inv.layout
  have hc := spot.win_block c (by simp)
  have hn := spot.win_block n (by simp)
  exact ⟨hc, hn, hbefore.addr, hcn.addr, hbehind.addr, hbehind.addr, inv.layout.block_ge hc,
    inv.layout.block_ge hn⟩

section Behind

variable (spot : Spot sh.regions [c, n]) (halloc : c.alloc = true) (hfree : n.alloc = false)
  (size : Nat) (h16 : 16 ≤ size) (hgran : g ∣ size)
include halloc hfree h16 hgran

/-- The block and the free chunk behind it are cut at another place. -/
theorem Spot.move_behind (hroom : size + 16 ≤ c.size + n.size) :
    ∃ m' seg', mmAddfreechunk nodelist
        (cutWords (mmUnlink m n.addr) c.addr size (n.addr + n.size) false spot.next.alloc)
        (c.addr + size) = some m' ∧
      Inv g nodelist m' ⟨spot.put [⟨c.addr, size, true⟩,
        ⟨c.addr + size, n.addr + n.size - c.addr - size, false⟩], seg'⟩ := by
  obtain ⟨hbefore, -, hbehind⟩ := spot.around_pair inv.layout
  obtain ⟨hc, hn, hlo, hmid, hnext, hhi, hinner, hinner'⟩ := spot.pair_bounds inv
  obtain ⟨seg, st⟩ := (Stage.start inv spot).unlink n.addr (inv.listed n hn hfree) (by omega)
    (by omega)
  obtain ⟨m', seg', hadd, hinv⟩ := st.cut_finish inv (by simp [halloc]) (by simp) false
    ⟨h16, hgran⟩ (by omega)
    (by
      have hlength : spot.hi - spot.lo = c.size + n.size := by omega
      rw [hlength]
      exact Nat.dvd_sub (Nat.dvd_add hinner.2 hinner'.2) hgran)
    (hbehind.notBothFree.resolve_left (by simp [hfree]))
    (by
      rw [← hlo]
      simp (disch := omega) only [set_of_ne]
      rw [hbefore.preceding, halloc]
      rfl)
  rw [← hlo, hhi] at hadd hinv
  exact ⟨m', seg', hadd, hinv⟩

/-- mm_shrinkchunk where the chunk behind is free. -/
theorem mmShrinkchunk_into (hle : size ≤ c.size) :
    ∃ m' seg', mmShrinkchunk nodelist m c.addr size = some m' ∧
      Inv g nodelist m' ⟨spot.put [⟨c.addr, size, true⟩,
        ⟨c.addr + size, n.addr + n.size - c.addr - size, false⟩], seg'⟩ := by
  obtain ⟨-, hcn, hbehind⟩ := spot.around_pair inv.layout
  obtain ⟨hc, hn, hlo, hmid, hnext, hhi, hinner, hinner'⟩ := spot.pair_bounds inv
  have hlength := spot.length_lt inv.layout
  obtain ⟨m', seg', hadd, hinv⟩ := spot.move_behind inv halloc hfree size h16 hgran (by omega)
  refine ⟨m', seg', ?_, hinv⟩
  have hsize := inv.layout.size_eq hc.has
  have hsize' := inv.layout.size_eq hn.has
  have hlisted := inv.listed n hn hfree
  have hread := ((inv.unlink_header _ hlisted hc.has).1).trans hsize
  have hread' := ((inv.unlink_header _ hlisted hn.has).1).trans hsize'
  have hword := ((inv.unlink_header _ hlisted spot.next_has).2).trans hbehind.preceding
  have hrem : sub32 (add32 n.size c.size) size = n.addr + n.size - c.addr - size := by
    rw [add32_of_lt (by omega), sub32_of_le (by omega) (by omega)]
    omega
  unfold mmShrinkchunk
  simp only [hsize]
  rw [← hmid, hcn.preceding, hfree,
    if_pos ((alloc_bit_clear_iff (inv.layout.size_lt hc.has)).mpr rfl), hsize', hread, hread',
    hrem]
  rw [hnext] at hword
  simp (disch := omega) only [set_of_ne, set_same]
  rw [hword, retag (by omega) (by omega), set_comm (c.addr + size + 4) _ (by omega),
    set_comm (c.addr + size) _ (by omega)]
  exact hadd

end Behind

/-- mm_shrinkchunk where the chunk behind is allocated and what is cut off can hold a free
node. -/
theorem mmShrinkchunk_cut (spot : Spot sh.regions [c]) (halloc : c.alloc = true)
    (hnext : spot.next.alloc = true) (size : Nat) (h16 : 16 ≤ size) (hgran : g ∣ size)
    (hroom : size + 16 ≤ c.size) :
    ∃ m' seg', mmShrinkchunk nodelist m c.addr size = some m' ∧
      Inv g nodelist m' ⟨spot.put [⟨c.addr, size, true⟩,
        ⟨c.addr + size, c.addr + c.size - c.addr - size, false⟩], seg'⟩ := by
  obtain ⟨hbefore, hbehind⟩ := spot.around inv.layout
  have hc := spot.win_block c (by simp)
  have hlt := inv.layout.size_lt hc.has
  have hlo : c.addr = spot.lo := hbefore.addr
  have haddr : spot.next.addr = c.addr + c.size := hbehind.addr
  have hhi : c.addr + c.size = spot.hi := hbehind.addr.symm
  have hsize := inv.layout.size_eq hc.has
  obtain ⟨m', seg', hadd, hinv⟩ := (Stage.start inv spot).cut_finish inv (by simp [halloc])
    (by simp) false ⟨h16, hgran⟩ (by omega)
    (by
      have hlength : spot.hi - spot.lo = c.size := by omega
      rw [hlength]
      exact Nat.dvd_sub (inv.layout.block_ge hc).2 hgran)
    hnext
    (by
      rw [← hlo, hbefore.preceding, halloc]
      rfl)
  rw [← hlo, ← hhi] at hadd hinv
  refine ⟨m', seg', ?_, hinv⟩
  have hrem : sub32 c.size size = c.addr + c.size - c.addr - size := by
    rw [sub32_of_le (by omega) (by omega)]
    omega
  have hword := hbehind.preceding
  rw [haddr] at hword
  unfold mmShrinkchunk
  simp only [hsize]
  rw [hword, hnext, if_neg (by rw [alloc_bit_clear_iff hlt]; simp),
    add32_of_lt (by unfold sizeofMmFreenode; omega),
    if_pos (by unfold sizeofMmFreenode; omega), hrem]
  simp (disch := omega) only [set_of_ne, set_same]
  rw [set_alloc (by omega), set_comm (c.addr + size + 4) _ (by omega),
    set_comm (c.addr + size) _ (by omega), ← hnext]
  exact hadd

end

/-- The block `c` is now the block `c'`; the other blocks stay. -/
structure Resized (sh sh' : Shape) (c c' : Chunk) : Prop where
  keeps : Keeps sh sh' [c.addr]
  block : Block sh'.regions c'
  alloc : c'.alloc = true

theorem Rewrites.resized {sh' : Shape} {win win' : List Chunk} (h : Rewrites sh sh' win win')
    (hwin : ∀ q ∈ win, q.alloc = true → q = c) (c' : Chunk) (hc' : c' ∈ win')
    (halloc : c'.alloc = true) : Resized sh sh' c c' := by
  refine ⟨h.keeps ?_, (h.block c').mpr (.inr hc'), halloc⟩
  intro q hq hqalloc
  rw [hwin q hq hqalloc]
  exact List.mem_cons_self

theorem mmShrinkchunk_spec (inv : Inv g nodelist m sh) {c : Chunk} (hc : Block sh.regions c)
    (halloc : c.alloc = true) {size : Nat} (h16 : 16 ≤ size) (hgran : g ∣ size)
    (hle : size ≤ c.size) :
    ∃ m' sh' c', mmShrinkchunk nodelist m c.addr size = some m' ∧ Inv g nodelist m' sh' ∧
      Resized sh sh' c c' ∧ c'.addr = c.addr ∧ size ≤ c'.size := by
  obtain ⟨spot⟩ := Spot.of_block hc
  cases hnext : spot.next.alloc with
  | false =>
    obtain ⟨wide, _⟩ := spot.widen_next hnext
    obtain ⟨m', seg', hshrink, hinv⟩ := mmShrinkchunk_into inv wide halloc hnext size h16 hgran hle
    refine ⟨m', _, ⟨c.addr, size, true⟩, hshrink, hinv,
      (wide.rewrites inv.layout _ _).resized ?_ _ (by simp) rfl, rfl, le_rfl⟩
    simp [hnext]
  | true =>
    by_cases hroom : size + 16 ≤ c.size
    · obtain ⟨m', seg', hshrink, hinv⟩ :=
        mmShrinkchunk_cut inv spot halloc hnext size h16 hgran hroom
      exact ⟨m', _, ⟨c.addr, size, true⟩, hshrink, hinv,
        (spot.rewrites inv.layout _ _).resized (by simp) _ (by simp) rfl, rfl, le_rfl⟩
    · refine ⟨m, sh, c, ?_, inv, ⟨⟨fun q hq _ _ => hq, rfl⟩, hc, halloc⟩, rfl, hle⟩
      have hlt := inv.layout.size_lt hc.has
      have hbehind := (spot.around inv.layout).2
      unfold mmShrinkchunk
      simp only [inv.layout.size_eq hc.has]
      rw [← hbehind.addr, hbehind.preceding, hnext, if_neg (by rw [alloc_bit_clear_iff hlt]; simp),
        add32_of_lt (by unfold sizeofMmFreenode; omega),
        if_neg (by unfold sizeofMmFreenode; omega)]

/-- mm_realloc takes the first `take` bytes of the free chunk behind the block: the whole
chunk, or so much that the rest can hold a free node. -/
theorem reallocNext_spec (inv : Inv g nodelist m sh) (spot : Spot sh.regions [c, n])
    (halloc : c.alloc = true) (hfree : n.alloc = false) (take : Nat) (hgran : g ∣ take)
    (htake : take = n.size ∨ take + 16 ≤ n.size) :
    ∃ m' sh', reallocNext nodelist m c.addr c.size n.addr n.size take = some m' ∧
      Inv g nodelist m' sh' ∧ Resized sh sh' c ⟨c.addr, c.size + take, true⟩ := by
  obtain ⟨hbefore, -, hbehind⟩ := spot.around_pair inv.layout
  obtain ⟨hc, hn, hlo, hmid, hnext, hhi, hinner, hinner'⟩ := spot.pair_bounds inv
  have hlength := spot.length_lt inv.layout
  have hlisted := inv.listed n hn hfree
  have hword := ((inv.unlink_header _ hlisted spot.next_has).2).trans hbehind.preceding
  rw [hnext] at hword
  have hsum : add32 c.size take = c.size + take := add32_of_lt (by omega)
  have hresized : ∀ win' seg', ⟨c.addr, c.size + take, true⟩ ∈ win' →
      Resized sh ⟨spot.put win', seg'⟩ c ⟨c.addr, c.size + take, true⟩ := fun win' seg' hmem =>
    (spot.rewrites inv.layout win' seg').resized (by simp [hfree]) _ hmem rfl
  unfold reallocNext
  simp only [hsum, set_same]
  cases htake with
  | inl hall =>
    obtain ⟨seg, st⟩ := (Stage.start inv spot).unlink n.addr hlisted (by omega) (by omega)
    have hinv := st.join_finish inv (by simp [halloc]) (by simp) (by omega)
      (by
        have hlen : spot.hi - spot.lo = c.size + n.size := by omega
        rw [hlen]
        exact Nat.dvd_add hinner.2 hinner'.2)
      (by
        rw [← hlo]
        simp (disch := omega) only [set_of_ne]
        rw [hbefore.preceding, halloc])
    have hlen : spot.hi - spot.lo = c.size + take := by omega
    refine ⟨_, _, ?_, hinv, hresized _ _ (by simp [hlo, hlen])⟩
    rw [if_neg (by omega)]
    simp (disch := omega) only [set_of_ne]
    rw [hword, retag (by omega) (by omega)]
    unfold joinWords
    rw [hlen, hhi, hlo]
  | inr hpart =>
    obtain ⟨m', seg', hadd, hinv⟩ := spot.move_behind inv halloc hfree (c.size + take) (by omega)
      (Nat.dvd_add hinner.2 hgran) (by omega)
    refine ⟨m', _, ?_, hinv, hresized _ _ (by simp)⟩
    have hrem : sub32 n.size take = n.addr + n.size - c.addr - (c.size + take) := by
      rw [sub32_of_le (by omega) (by omega)]
      omega
    rw [if_pos (by omega), hrem]
    simp (disch := omega) only [set_of_ne, set_same]
    rw [hword, retag (by omega) (by omega)]
    exact hadd

section

variable (inv : Inv g nodelist m sh) (spot : Spot sh.regions [p, c]) (hfree : p.alloc = false)
  (halloc : c.alloc = true) (take : Nat) (hgran : g ∣ take) (h8 : 8 ≤ take)
  (htake : take = p.size ∨ take + 16 ≤ p.size)
include inv hfree halloc hgran h8 htake

/-- The headers mm_realloc stores when it takes the last `take` bytes of the free chunk
before the block. -/
theorem reallocPrev_headers :
    ∃ m' sh' win', Inv g nodelist m' sh' ∧ Rewrites sh sh' [p, c] win' ∧
      ⟨c.addr - take, c.size + take, true⟩ ∈ win' ∧
      reallocPrev nodelist m c.addr c.size p.addr p.size spot.next.addr take =
        some (memcpy m' (c.addr - take + 8) (c.addr + 8) (sub32 (m' (c.addr - take)) 8),
          c.addr - take, m' (c.addr - take)) := by
  obtain ⟨hbefore, -, hbehind⟩ := spot.around_pair inv.layout
  obtain ⟨hp, hc, hlo, hmid, hnext, hhi, hinner, hinner'⟩ := spot.pair_bounds inv
  have hlength := spot.length_lt inv.layout
  have hlisted := inv.listed p hp hfree
  have hread := ((inv.unlink_header _ hlisted hp.has).1).trans (inv.layout.size_eq hp.has)
  have htag : mmUnlink m p.addr (p.addr + 4) = spot.prev.size := by
    rw [(inv.unlink_header _ hlisted hp.has).2, hbefore.preceding, hfree, tag_false, Nat.add_zero]
  have hword := ((inv.unlink_header _ hlisted spot.next_has).2).trans hbehind.preceding
  obtain ⟨seg, st⟩ := (Stage.start inv spot).unlink p.addr hlisted (by omega) (by omega)
  unfold reallocPrev
  cases htake with
  | inr hpart =>
    obtain ⟨m', seg', hadd, hinv⟩ := st.cut_finish inv (by simp [halloc]) (by simp)
      true ⟨by omega, Nat.dvd_sub hinner.2 hgran⟩ (by omega)
      (by
        have hlen : spot.hi - spot.lo - (p.size - take) = c.size + take := by omega
        rw [hlen]
        exact Nat.dvd_add hinner'.2 hgran)
      (hbefore.notBothFree.resolve_right (by simp [hfree]))
      (by
        rw [← hlo]
        simp (disch := omega) only [set_of_ne]
        rw [hbefore.preceding, hfree]
        rfl)
    have hnew : p.addr + (p.size - take) = c.addr - take := by omega
    have hlen : spot.hi - p.addr - (p.size - take) = c.size + take := by omega
    unfold cutWords at hadd
    rw [← hlo, hnew, hlen] at hadd
    rw [← hlo, hnew, hlen] at hinv
    refine ⟨m', _, _, hinv, spot.rewrites inv.layout _ _, by simp, ?_⟩
    simp only [hread]
    rw [if_pos (by omega), sub32_of_le (by omega) (by omega), add32_of_lt (by omega)]
    simp (disch := omega) only [set_of_ne, set_same]
    rw [hword, retag (by omega) (by omega), set_alloc (by omega)]
    change mmAddfreechunk nodelist (Words.set _ (spot.next.addr + 4) _) p.addr = _ at hadd
    rw [hadd]
    rfl
  | inl hall =>
    have hnew : c.addr - take = p.addr := by omega
    have hlen : spot.hi - spot.lo = p.size + c.size := by omega
    have st := st.set_tag inv (spot.prev.size + tag true) hp.has nofun (by omega) (by omega)
      (by omega)
    have hinv := st.join_finish inv (by simp [halloc]) (by simp) (by omega)
      (by
        rw [hlen]
        exact Nat.dvd_add hinner.2 hinner'.2)
      (by rw [← hlo, set_same])
    refine ⟨_, _, _, hinv, spot.rewrites inv.layout _ _, ?_, ?_⟩
    · rw [hlen, ← hlo, hnew, hall, Nat.add_comm]
      exact List.mem_cons_self
    · have hstores : joinWords ((mmUnlink m p.addr).set (p.addr + 4) (spot.prev.size + tag true))
          spot.lo spot.hi spot.next.alloc =
          (((mmUnlink m p.addr).set p.addr (p.size + c.size)).set (p.addr + 4)
            (spot.prev.size + tag true)).set (spot.next.addr + 4)
            (p.size + c.size + tag spot.next.alloc) := by
        unfold joinWords
        rw [hlen, ← hlo, set_comm (p.addr + 4) p.addr (by omega)]
        rfl
      rw [hstores]
      simp only [hnew, hread]
      rw [if_neg (by omega), add32_of_lt (by omega)]
      simp (disch := omega) only [set_of_ne, set_same]
      rw [htag, hword, retag (by omega) (by omega), set_alloc (inv.layout.size_lt spot.prev_has)]
      rfl

/-- mm_realloc takes the last `take` bytes of the free chunk before the block, and moves
the contents down. -/
theorem reallocPrev_spec :
    ∃ m' sh' win', reallocPrev nodelist m c.addr c.size p.addr p.size spot.next.addr take =
        some (m', c.addr - take, c.size + take) ∧ Inv g nodelist m' sh' ∧
      Rewrites sh sh' [p, c] win' ∧ ⟨c.addr - take, c.size + take, true⟩ ∈ win' := by
  obtain ⟨m', sh', win', hinv, hrewrites, hmem, hrealloc⟩ :=
    reallocPrev_headers inv spot hfree halloc take hgran h8 htake
  have hblock := (hrewrites.block _).mpr (.inr hmem)
  have hsize := hinv.layout.size_eq hblock.has
  have hlt := hinv.layout.size_lt hblock.has
  simp only at hsize hlt
  rw [hsize, sub32_of_le (by omega) (by omega)] at hrealloc
  exact ⟨_, sh', win', hrealloc,
    hinv.memcpy _ hblock rfl _ _ _ le_rfl (by simp only; omega), hrewrites, hmem⟩

end

end NbLot.Source.Heap
