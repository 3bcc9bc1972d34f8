import NbLot.Source.Heap.Realloc

/-!
# mm_memalign keeps the invariant with 8-byte granules

Source: nuttx/mm/mm_heap/mm_memalign.c:63-206.

mm_memalign takes a block that is large enough from mm_malloc, gives the front of it back
and shrinks what is left to the requested size and a header. The new sizes are multiples
of 8 and no longer of 16.
-/
namespace NbLot.Source.Heap
open Lib Words

variable {g nodelist : Nat} {m : Words} {sh sh' : Shape} {c : Chunk}

/-- The front of the block, `front` bytes up to the header before the aligned address,
becomes a free chunk. -/
theorem memalignFront_spec (inv : Inv g nodelist m sh) (spot : Spot sh.regions [c])
    (halloc : c.alloc = true) (hprev : spot.prev.alloc = true)
    (alignment : Nat) {aligned front : Nat} (hlow : c.addr + 8 ≤ aligned)
    (hbelow : aligned + alignment < 2 ^ 32) (hfront : c.addr + 8 + front =
      if aligned - 8 - c.addr < 16 then aligned + alignment else aligned)
    (h16 : 16 ≤ front) (hgran : g ∣ front) (hroom : front + 16 ≤ c.size) :
    ∃ m' sh', memalignFront nodelist m c.addr alignment aligned =
        some (m', c.addr + front, c.addr + 8 + front, c.size - front - 8) ∧
      Inv g nodelist m' sh' ∧ Resized sh sh' c ⟨c.addr + front, c.size - front, true⟩ := by
  obtain ⟨hbefore, hbehind⟩ := spot.around inv.layout
  have hc := spot.win_block c (by simp)
  have hlo : spot.lo = c.addr := hbefore.addr.symm
  have hnext : spot.next.addr = c.addr + c.size := hbehind.addr
  have hhi : spot.hi = c.addr + c.size := hbehind.addr
  have hlt := inv.layout.size_lt hc.has
  have hend := inv.layout.end_le spot.next_has
  have hnext8 := inv.layout.size_ge spot.next_has
  have hprevLt := inv.layout.size_lt spot.prev_has
  have hcsize := inv.layout.size_eq hc.has
  have st := (Stage.start inv spot).set_tag inv spot.prev.size hc.has nofun (by omega) (by omega)
    (by omega)
  obtain ⟨m', seg', hadd, hinv⟩ := st.cut_finish inv (by simp [halloc]) (by simp) true
    ⟨h16, hgran⟩ (by omega)
    (by
      have hlen : spot.hi - spot.lo - front = c.size - front := by omega
      rw [hlen]
      exact Nat.dvd_sub (inv.layout.block_ge hc).2 hgran)
    hprev
    (by
      rw [hlo, set_same]
      rfl)
  have hlen : spot.hi - c.addr - front = c.size - front := by omega
  rw [hlo, hlen] at hinv
  refine ⟨m', _, ?_, hinv, (spot.rewrites inv.layout _ _).resized (by simp) _ (by simp) rfl⟩
  have hclear : clear32 (m (c.addr + 4)) mmAllocBit = spot.prev.size := by
    rw [hbefore.preceding, clear_alloc hprevLt]
  have hgap : sub32 (aligned - 8) c.addr = aligned - 8 - c.addr := sub32_of_le (by omega) (by omega)
  have hchunk : (if aligned - 8 - c.addr < sizeofMmFreenode then add32 aligned alignment
      else aligned) = c.addr + 8 + front := by
    rw [hfront, add32_of_lt hbelow]
    rfl
  have hnode : c.addr + 8 + front - 8 = c.addr + front := by omega
  have hpre : sub32 (c.addr + front) c.addr = front := by
    rw [sub32_of_le (by omega) (by omega)]
    omega
  have hrest : sub32 (c.addr + c.size) (c.addr + front) = c.size - front := by
    rw [sub32_of_le (by omega) (by omega)]
    omega
  have hword := hbehind.preceding
  rw [hnext] at hword
  -- the stores of the source, in their order
  have hstores : cutWords (m.set (c.addr + 4) spot.prev.size) spot.lo front spot.hi true
      spot.next.alloc =
      ((((m.set (c.addr + front) (c.size - front)).set (c.addr + front + 4) (front + tag true)).set
        c.addr front).set (c.addr + 4) spot.prev.size).set (c.addr + c.size + 4)
        (c.size - front + tag spot.next.alloc) := by
    unfold cutWords
    rw [hlo, hlen, hhi, set_comm c.addr (c.addr + 4) (by omega),
      set_comm (c.addr + front + 4) (c.addr + 4) (by omega),
      set_comm (c.addr + front) (c.addr + 4) (by omega),
      set_comm (c.addr + front + 4) c.addr (by omega),
      set_comm (c.addr + front) c.addr (by omega)]
  rw [hstores, if_pos rfl, hlo] at hadd
  unfold memalignFront
  simp only [sizeofMmAllocnode, hcsize, hgap, hchunk, hnode, hpre, hrest]
  simp (disch := omega) only [set_of_ne, set_same, hclear]
  rw [hword, retag (by omega) hlt, set_alloc (by omega), hadd, sub32_of_le (by omega) (by omega)]
  rfl

/-- The block mm_malloc returned becomes the aligned block: the front goes back where
there is one, then the end. -/
theorem memalign_carve (inv : Inv 8 nodelist m sh) (spot : Spot sh.regions [c])
    (halloc : c.alloc = true) (hprev : spot.prev.alloc = true) (k size : Nat) (hk : 5 ≤ k)
    (h16 : 16 ≤ size) (hsize : 8 ∣ size) (hroom : size + 2 * 2 ^ k + 8 ≤ c.size) :
    ∃ m' sh' c', (match (if clear32 (add32 (c.addr + 8) (2 ^ k - 1)) (2 ^ k - 1) ≠ c.addr + 8 then
            memalignFront nodelist m c.addr (2 ^ k)
              (clear32 (add32 (c.addr + 8) (2 ^ k - 1)) (2 ^ k - 1))
          else some (m, c.addr, clear32 (add32 (c.addr + 8) (2 ^ k - 1)) (2 ^ k - 1),
            size + 2 * 2 ^ k)) with
        | none => none
        | some (m, node, aligned, allocsize) =>
          if allocsize > size then (mmShrinkchunk nodelist m node (size + 8)).map (·, aligned)
          else some (m, aligned)) = some (m', c'.addr + 8) ∧
      Inv 8 nodelist m' sh' ∧ Resized sh sh' c c' := by
  have hc := spot.win_block c (by simp)
  have hend := inv.layout.end_le hc.has
  obtain ⟨hlow, hhigh, hdvd⟩ := clear32_round_up (c.addr + 8) k (by omega)
  generalize clear32 (add32 (c.addr + 8) (2 ^ k - 1)) (2 ^ k - 1) = aligned at hlow hhigh hdvd ⊢
  have halign : 8 ∣ aligned := (Nat.pow_dvd_pow 2 (by omega : 3 ≤ k)).trans hdvd
  have haddr := inv.layout.addr_aligned (Nat.dvd_refl 8) hc.has
  by_cases heq : aligned = c.addr + 8
  · obtain ⟨m', sh', c', hshrink, hinv, hresized, hc', _⟩ := mmShrinkchunk_spec inv hc halloc
      (by omega) (Nat.dvd_add hsize (Nat.dvd_refl 8)) (by omega)
    refine ⟨m', sh', c', ?_, hinv, hresized⟩
    rw [if_neg (by simp [heq])]
    simp only
    rw [if_pos (by omega), hshrink, heq, hc']
    rfl
  · have h8pow : 8 ∣ 2 ^ k := Nat.pow_dvd_pow 2 (by omega : 3 ≤ k)
    obtain ⟨front, hfront⟩ : ∃ front, front =
      if aligned - 8 - c.addr < 16 then aligned - 8 - c.addr + 2 ^ k else aligned - 8 - c.addr :=
      ⟨_, rfl⟩
    have hbounds : 16 ≤ front ∧ front ≤ 2 ^ k + 8 ∧ 8 ∣ front := by
      split at hfront
      · exact ⟨by omega, by omega, by omega⟩
      · exact ⟨by omega, by omega, by omega⟩
    obtain ⟨m₁, sh₁, hgive, inv₁, hresized₁⟩ := memalignFront_spec inv spot halloc hprev (2 ^ k)
      hlow (by omega)
      (by
        split at hfront
        · rw [if_pos (by assumption)]
          omega
        · rw [if_neg (by assumption)]
          omega) hbounds.1 hbounds.2.2 (by omega)
    obtain ⟨m₂, sh₂, c', hshrink, inv₂, hresized₂, hc', _⟩ := mmShrinkchunk_spec inv₁ hresized₁.block
      rfl (by omega) (Nat.dvd_add hsize (Nat.dvd_refl 8)) (by simp only; omega)
    refine ⟨m₂, sh₂, c', ?_, inv₂, hresized₁.trans hresized₂ ?_⟩
    · rw [if_pos heq, hgive]
      simp only at hshrink ⊢
      rw [if_pos (by omega), hshrink, hc', Nat.add_right_comm]
      rfl
    · -- the new header lies inside the block
      intro q hq _ hne hqaddr
      have hqc : q ≠ c := fun h => hne (by rw [h])
      have hdisjoint := inv.layout.disjoint hq.has hc.has hqc
      simp only at hqaddr
      unfold Before at hdisjoint
      omega

/-- mm_memalign gives NULL and changes nothing, or allocates a new block and keeps the
others. -/
theorem mmMemalign_spec (inv : Inv 8 nodelist m sh) {k size : Nat} (hk : 5 ≤ k) (hpos : 1 ≤ size)
    (hsize : size < 2 ^ 31) (hfit : mmAlignUp size + 2 * 2 ^ k + 23 < 2 ^ 32) :
    mmMemalign nodelist m (2 ^ k) size = some (m, 0) ∨
      ∃ m' sh' c', mmMemalign nodelist m (2 ^ k) size = some (m', c'.addr + 8) ∧
        Inv 8 nodelist m' sh' ∧ Keeps sh sh' [] ∧ Block sh'.regions c' ∧ c'.alloc = true := by
  have hpow : 2 ^ 5 ≤ 2 ^ k := Nat.pow_le_pow_right (by decide) hk
  have halign := mmAlignUp_eq size (by omega)
  have hmask : sub32 (2 ^ k) 1 = 2 ^ k - 1 := sub32_of_le (by omega) (by omega)
  have htwice : add32 (2 ^ k) (2 ^ k) = 2 * 2 ^ k := by
    rw [add32_of_lt (by omega)]
    omega
  have hrequest : add32 (mmAlignUp size) (2 * 2 ^ k) = mmAlignUp size + 2 * 2 ^ k :=
    add32_of_lt (by omega)
  have hheader : add32 (mmAlignUp size) 8 = mmAlignUp size + 8 := add32_of_lt (by omega)
  unfold mmMemalign
  rw [if_neg (by unfold mmMinChunk mmMinShift; omega)]
  simp only [hmask, htwice, hrequest, sizeofMmAllocnode, hheader]
  rcases mmMalloc_spec inv (by decide) _ hfit with
    ⟨hnull, -⟩ | ⟨m₁, sh₁, x, c, hmalloc, inv₁, hcarved, hle, -⟩
  · rw [hnull]
    exact .inl rfl
  · have hround := mmAlignUp_eq (mmAlignUp size + 2 * 2 ^ k + 8) (by omega)
    obtain ⟨spot, hprev⟩ := hcarved.front
    obtain ⟨m₂, sh₂, c', hcarve, inv₂, hresized⟩ := memalign_carve inv₁ spot hcarved.alloc hprev k
      (mmAlignUp size) hk (by omega) (by omega) (by omega)
    refine .inr ⟨m₂, sh₂, c', ?_, inv₂, ?_, hresized.block, hresized.alloc⟩
    · simp only [hmalloc]
      exact hcarve
    · refine ⟨?_, hresized.keeps.extents.trans hcarved.keeps.extents⟩
      intro q hq hqalloc _
      apply hresized.keeps.block q (hcarved.keeps.block q hq hqalloc (by simp)) hqalloc
      simpa using hcarved.fresh inv.layout q hq hqalloc

end NbLot.Source.Heap
