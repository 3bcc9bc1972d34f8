import NbLot.Source.Heap.Malloc
import NbLot.Source.Heap.Free
import NbLot.Source.Heap.Resize

/-!
# mm_realloc keeps the invariant

Source: nuttx/mm/mm_heap/mm_realloc.c:76-352.

A growing request is served from the free neighbours where they are large enough, taking
exactly the bytes needed. Nothing in the code keeps the rest of a neighbour large enough
for a free node; `leavesSliver` is the case in which 8 bytes are left.
-/
namespace NbLot.Source.Heap
open Lib

variable {g nodelist : Nat} {m : Words} {sh sh' sh'' : Shape} {c c' c'' n : Chunk}

/-- How much a growing mm_realloc takes from its neighbours, or nothing if it does not
extend the block in place. -/
def growth (m : Words) (oldmem size : Nat) : Option (Nat × Nat × Nat × Nat) :=
  let newsize := mmAlignUp (add32 size sizeofMmAllocnode)
  let oldnode := oldmem - sizeofMmAllocnode
  let oldsize := m oldnode
  let nextsize := freeSize m (oldnode + oldsize)
  let prevsize := freeSize m (oldnode - clear32 (m (oldnode + 4)) mmAllocBit)
  if oldsize < newsize ∧ newsize ≤ add32 (add32 nextsize prevsize) oldsize then
    let (takeprev, takenext) := reallocTake (sub32 newsize oldsize) prevsize nextsize
    some (prevsize, takeprev, nextsize, takenext)
  else none

/-- mm_realloc leaves 8 bytes of a neighbour it takes from. -/
def leavesSliver (m : Words) (oldmem size : Nat) : Bool :=
  match growth m oldmem size with
  | none => false
  | some (prevsize, takeprev, nextsize, takenext) =>
    takeprev + 8 == prevsize || takenext + 8 == nextsize

theorem reallocTake_spec {needed prevsize nextsize : Nat} (hpos : 0 < needed)
    (hle : needed ≤ prevsize + nextsize) (hneed : g ∣ needed) (hprev : g ∣ prevsize)
    (hnext : g ∣ nextsize) (takeprev : Nat) {takenext : Nat}
    (h : reallocTake needed prevsize nextsize = (takeprev, takenext)) :
    takeprev + takenext = needed ∧ takeprev ≤ prevsize ∧ takenext ≤ nextsize ∧ g ∣ takeprev ∧
      g ∣ takenext := by
  unfold reallocTake at h
  split at h
  · split at h
    · cases h
      exact ⟨by omega, by omega, by omega, hprev, Nat.dvd_sub hneed hprev⟩
    · cases h
      exact ⟨by omega, by omega, by omega, hneed, Nat.dvd_zero g⟩
  · split at h
    · split at h
      · cases h
        exact ⟨by omega, by omega, by omega, Nat.dvd_sub hneed hnext, hnext⟩
      · cases h
        exact ⟨by omega, by omega, by omega, Nat.dvd_zero g, hneed⟩
    · omega

theorem Layout.freeSize_eq (ok : Layout g nodelist m sh.regions) {c : Chunk}
    (hc : Has sh.regions c) : freeSize m c.addr = if c.alloc then 0 else c.size := by
  obtain ⟨p, hp, hword⟩ := ok.tag_word hc
  unfold freeSize
  rw [hword, ok.size_eq hc]
  cases halloc : c.alloc with
  | true => rw [if_neg (by rw [alloc_bit_clear_iff hp]; simp), if_pos rfl]
  | false => rw [if_pos ((alloc_bit_clear_iff hp).mpr rfl), if_neg (by simp)]

/-- The free sizes mm_realloc compares are multiples of the granule. -/
theorem Inv.dvd_freeSize (inv : Inv g nodelist m sh) (c : Chunk) (hc : Has sh.regions c)
    (hblock : c.alloc = false → Block sh.regions c) : g ∣ freeSize m c.addr := by
  rw [inv.layout.freeSize_eq hc]
  cases halloc : c.alloc with
  | true => exact Nat.dvd_zero g
  | false => exact (inv.layout.block_ge (hblock halloc)).2

/-- Two chunks of which one ends where the other begins form a window. -/
theorem Spot.of_adjacent (ok : Layout g nodelist m sh.regions) (c n : Chunk)
    (hc : Block sh.regions c) (hn : Block sh.regions n) (hfree : n.alloc = false)
    (haddr : n.addr = c.addr + c.size) : Nonempty (Spot sh.regions [c, n]) := by
  obtain ⟨spot⟩ := Spot.of_block hc
  have hnext : spot.next = n := by
    apply ok.eq_of_addr spot.next_has hn.has
    rw [(spot.around ok).2.addr, haddr]
  rw [← hnext] at hfree
  obtain ⟨wide, _⟩ := spot.widen_next hfree
  rw [hnext] at wide
  exact ⟨wide⟩

theorem Resized.trans (h : Resized sh sh' c c') (h' : Resized sh' sh'' c' c'')
    (hfresh : ∀ q, Block sh.regions q → q.alloc = true → q.addr ≠ c.addr → q.addr ≠ c'.addr) :
    Resized sh sh'' c c'' := by
  refine ⟨⟨?_, h'.keeps.extents.trans h.keeps.extents⟩, h'.block, h'.alloc⟩
  intro q hq halloc hne
  have hqc : q.addr ≠ c.addr := fun heq => hne (by simp [heq])
  apply h'.keeps.block q (h.keeps.block q hq halloc hne) halloc
  simpa using hfresh q hq halloc hqc

/-- What is taken from a neighbour without leaving a sliver leaves nothing, or a free
node. -/
theorem take_cases (h8g : 8 ∣ g) {take whole : Nat} (htake : g ∣ take) (hwhole : g ∣ whole)
    (hle : take ≤ whole) (hne : take + 8 ≠ whole) : take = whole ∨ take + 16 ≤ whole := by
  have htake8 := h8g.trans htake
  have hwhole8 := h8g.trans hwhole
  omega

section

variable (inv : Inv g nodelist m sh)
include inv

/-- The first half of the extension: the block grows down. -/
theorem reallocExtend_down (h8g : 8 ∣ g) (spot : Spot sh.regions [c]) (halloc : c.alloc = true)
    (take : Nat) (hgran : g ∣ take) (hle : take ≤ freeSize m spot.prev.addr)
    (hne : take + 8 ≠ freeSize m spot.prev.addr) :
    ∃ m' sh', (if take ≠ 0 then reallocPrev nodelist m c.addr c.size spot.prev.addr
          (freeSize m spot.prev.addr) spot.next.addr take else some (m, c.addr, c.size)) =
        some (m', c.addr - take, c.size + take) ∧ Inv g nodelist m' sh' ∧
      Resized sh sh' c ⟨c.addr - take, c.size + take, true⟩ ∧
      (spot.next.alloc = false → Block sh'.regions spot.next) ∧
      ∀ q, Block sh.regions q → q.alloc = true → q.addr ≠ c.addr → q.addr ≠ c.addr - take := by
  have hc := spot.win_block c (by simp)
  obtain ⟨hbefore, hbehind⟩ := spot.around inv.layout
  have hc16 := (inv.layout.block_ge hc).1
  by_cases hzero : take = 0
  · have hsame : (⟨c.addr, c.size, true⟩ : Chunk) = c := by rw [← halloc]
    rw [hzero, Nat.sub_zero, Nat.add_zero, hsame]
    exact ⟨m, sh, rfl, inv, ⟨⟨fun q hq _ _ => hq, rfl⟩, hc, halloc⟩, spot.next_block,
      fun q _ _ h => h⟩
  rw [if_pos hzero]
  have hsize := inv.layout.freeSize_eq spot.prev_has
  have hfree : spot.prev.alloc = false := by
    cases hprev : spot.prev.alloc with
    | false => rfl
    | true =>
      rw [hprev, if_pos rfl] at hsize
      omega
  rw [hfree, if_neg (by simp)] at hsize
  rw [hsize] at hle hne ⊢
  have htake8 := h8g.trans hgran
  have hprev := inv.layout.block_ge (spot.prev_block hfree)
  obtain ⟨wide, hnext⟩ := spot.widen_prev hfree
  obtain ⟨m', sh', win', hrealloc, hinv, hrewrites, hmem⟩ :=
    reallocPrev_spec inv wide hfree halloc take hgran (by omega)
      (take_cases h8g hgran hprev.2 hle hne)
  rw [hnext] at hrealloc
  have haddr := hbefore.addr
  have haddr' := hbehind.addr
  refine ⟨m', sh', hrealloc, hinv, hrewrites.resized (by simp [hfree]) _ hmem rfl, ?_, ?_⟩
  · intro hnextFree
    refine (hrewrites.block _).mpr (.inl ⟨spot.next_block hnextFree, ?_⟩)
    simp only [List.mem_cons, List.not_mem_nil, or_false, not_or]
    refine ⟨?_, ?_⟩
    · intro heq
      rw [heq] at haddr'
      omega
    · intro heq
      rw [heq] at haddr'
      omega
  · -- the new address lies in the free chunk before the block
    intro q hq hqalloc hqne heq
    have hqp : q ≠ spot.prev := by
      intro h
      rw [h, hfree] at hqalloc
      cases hqalloc
    have hdisjoint := inv.layout.disjoint hq.has spot.prev_has hqp
    have hq16 := (inv.layout.block_ge hq).1
    unfold Before at hdisjoint
    omega

/-- The second half of the extension: the block grows up. -/
theorem reallocExtend_up (h8g : 8 ∣ g) (hc : Block sh.regions c) (halloc : c.alloc = true)
    (n : Chunk) (haddr : n.addr = c.addr + c.size) (hn : n.alloc = false → Block sh.regions n)
    {take nextsize : Nat} (hnextsize : nextsize = if n.alloc then 0 else n.size) (hgran : g ∣ take)
    (hle : take ≤ nextsize) (hne : take + 8 ≠ nextsize) (hpos : take ≠ 0) :
    ∃ m' sh', reallocNext nodelist m c.addr c.size n.addr nextsize take = some m' ∧
      Inv g nodelist m' sh' ∧ Resized sh sh' c ⟨c.addr, c.size + take, true⟩ := by
  have hfree : n.alloc = false := by
    cases hnext : n.alloc with
    | false => rfl
    | true =>
      rw [hnext, if_pos rfl] at hnextsize
      omega
  rw [hfree] at hnextsize
  rw [hnextsize] at hle hne ⊢
  obtain ⟨spot⟩ := Spot.of_adjacent inv.layout c n hc (hn hfree) hfree haddr
  exact reallocNext_spec inv spot halloc hfree take hgran
    (take_cases h8g hgran (inv.layout.block_ge (hn hfree)).2 hle hne)

theorem reallocExtend_spec (h8g : 8 ∣ g) (spot : Spot sh.regions [c]) (halloc : c.alloc = true)
    (newsize : Nat) (hgran : g ∣ newsize) (hgrow : c.size < newsize)
    (hfit : newsize ≤ c.size + freeSize m spot.prev.addr + freeSize m spot.next.addr)
    (takeprev takenext : Nat)
    (htake : reallocTake (newsize - c.size) (freeSize m spot.prev.addr) (freeSize m spot.next.addr) = (takeprev, takenext))
    (hprev : takeprev + 8 ≠ freeSize m spot.prev.addr)
    (hnext : takenext + 8 ≠ freeSize m spot.next.addr) :
    ∃ m' sh' c', reallocExtend nodelist m c.addr newsize spot.prev.addr (freeSize m spot.prev.addr)
        spot.next.addr (freeSize m spot.next.addr) = some (m', c'.addr + 8) ∧
      Inv g nodelist m' sh' ∧ Resized sh sh' c c' ∧ newsize ≤ c'.size := by
  have hc := spot.win_block c (by simp)
  obtain ⟨hbefore, hbehind⟩ := spot.around inv.layout
  have hprevSize := inv.layout.freeSize_eq spot.prev_has
  have hnextSize := inv.layout.freeSize_eq spot.next_has
  have hspan := spot.span_lt inv.layout
  have haddr := hbefore.addr
  have haddr' := hbehind.addr
  have hc16 := inv.layout.block_ge hc
  obtain ⟨hsum, hleprev, hlenext, hgprev, hgnext⟩ := reallocTake_spec
    (by omega) (by omega) (Nat.dvd_sub hgran hc16.2)
    (inv.dvd_freeSize _ spot.prev_has spot.prev_block)
    (inv.dvd_freeSize _ spot.next_has spot.next_block) _ htake
  have hsub : sub32 newsize c.size = newsize - c.size := by
    apply sub32_of_le (by omega)
    split at hprevSize <;> split at hnextSize <;> omega
  have hroom : takeprev ≤ c.addr := by
    split at hprevSize <;> omega
  obtain ⟨m₁, sh₁, hdown, inv₁, hresized, hkept, hfresh⟩ :=
    reallocExtend_down inv h8g spot halloc takeprev hgprev hleprev hprev
  unfold reallocExtend
  simp only [inv.layout.size_eq hc.has, hsub, htake, hdown]
  by_cases hzero : takenext = 0
  · rw [if_neg (by simp [hzero])]
    exact ⟨m₁, sh₁, _, rfl, inv₁, hresized, by simp only; omega⟩
  · rw [if_pos hzero]
    obtain ⟨m₂, sh₂, hup, inv₂, hresized'⟩ := reallocExtend_up inv₁ h8g hresized.block rfl spot.next
      (by simp only; omega) hkept hnextSize hgnext hlenext hnext hzero
    rw [hup]
    exact ⟨m₂, sh₂, _, rfl, inv₂, hresized.trans hresized' hfresh, by simp only; omega⟩

/-- What a call of mm_realloc for the block `c` can do: free it, fail and change nothing,
or make it the block behind the pointer it returns. -/
inductive Reallocated (sh sh' : Shape) (c : Chunk) (size : Nat) : Nat → Prop
  | freed (hsize : size = 0) (hkeeps : Keeps sh sh' [c.addr]) : Reallocated sh sh' c size 0
  | failed (hsize : size ≠ 0) (hsame : sh' = sh) : Reallocated sh sh' c size 0
  | moved (hsize : size ≠ 0) (c' : Chunk) (hresized : Resized sh sh' c c') :
    Reallocated sh sh' c size (c'.addr + 8)

/-- The last resort of mm_realloc: a new block, the contents copied, the old one freed. -/
theorem mmRealloc_copy (h8g : 8 ∣ g) (hg : g ∣ 16) (c : Chunk) (hc : Block sh.regions c)
    (halloc : c.alloc = true) (size : Nat) (hsize : size + 23 < 2 ^ 32) (hpos : size ≠ 0)
    (hgrow : c.size < mmAlignUp (size + 8)) :
    ∃ m' sh' out, (match mmMalloc nodelist m size with
        | none => none
        | some (m, newmem) =>
          if newmem = 0 then some (m, 0)
          else (mmFree nodelist (memcpy m newmem (c.addr + 8) c.size) (c.addr + 8)).map
            (·, newmem)) = some (m', out) ∧ Inv g nodelist m' sh' ∧
      Reallocated sh sh' c size out ∧ (out = 0 ∨ mmAlignUp (size + 8) ≤ m' (out - 8)) := by
  rcases mmMalloc_spec inv hg size hsize with
    ⟨hnull, -⟩ | ⟨m₁, sh₁, x, d, hmalloc, inv₁, hcarved, hfit, -⟩
  · rw [hnull]
    exact ⟨m, sh, 0, rfl, inv, .failed hpos rfl, .inl rfl⟩
  · have hgran : g ∣ mmAlignUp (size + 8) := by
      rw [mmAlignUp_eq _ (by omega)]
      exact hg.mul_right _
    have hc8 := h8g.trans (inv.layout.block_ge hc).2
    have hnew8 := h8g.trans hgran
    have inv₁ := inv₁.memcpy d hcarved.new hcarved.alloc (d.addr + 8) (c.addr + 8) c.size
      le_rfl (by omega)
    have hkept := hcarved.keeps.block c hc halloc nofun
    obtain ⟨m₂, sh₂, hfree, inv₂, hkeeps⟩ := mmFree_spec inv₁ c hkept halloc
    have hne : d.addr ≠ c.addr := (hcarved.fresh inv.layout c hc halloc).symm
    have hd := hkeeps.block d hcarved.new hcarved.alloc (by simpa using hne)
    refine ⟨m₂, sh₂, d.addr + 8, ?_, inv₂,
      .moved hpos d ⟨hcarved.keeps.trans hkeeps, hd, hcarved.alloc⟩,
      .inr (hfit.trans_eq (inv₂.layout.size_eq hd.has).symm)⟩
    simp only [hmalloc]
    rw [hfree]
    rfl

end

theorem Spot.neighbours (ok : Layout g nodelist m sh.regions) (spot : Spot sh.regions [c]) :
    c.addr - clear32 (m (c.addr + 4)) mmAllocBit = spot.prev.addr ∧
      c.addr + c.size = spot.next.addr ∧
      add32 (add32 (freeSize m spot.next.addr) (freeSize m spot.prev.addr)) c.size =
        c.size + freeSize m spot.prev.addr + freeSize m spot.next.addr := by
  obtain ⟨hbefore, hbehind⟩ := spot.around ok
  have hspan := spot.span_lt ok
  have haddr := hbefore.addr
  have haddr' := hbehind.addr
  refine ⟨?_, haddr'.symm, ?_⟩
  · rw [hbefore.preceding, clear_alloc (ok.size_lt spot.prev_has)]
    omega
  · have hprevSize := ok.freeSize_eq spot.prev_has
    have hnextSize := ok.freeSize_eq spot.next_has
    have hprevLe : freeSize m spot.prev.addr ≤ spot.prev.size := by
      split at hprevSize <;> omega
    have hnextLe : freeSize m spot.next.addr ≤ spot.next.size := by
      split at hnextSize <;> omega
    rw [@add32_of_lt (freeSize m spot.next.addr) _ (by omega), add32_of_lt (by omega)]
    omega

theorem Spot.growth_eq (ok : Layout g nodelist m sh.regions) (spot : Spot sh.regions [c])
    (size : Nat) (hsize : size + 23 < 2 ^ 32) :
    growth m (c.addr + 8) size =
      if c.size < mmAlignUp (size + 8) ∧ mmAlignUp (size + 8) ≤
          c.size + freeSize m spot.prev.addr + freeSize m spot.next.addr then
        some (freeSize m spot.prev.addr,
          (reallocTake (mmAlignUp (size + 8) - c.size) (freeSize m spot.prev.addr)
            (freeSize m spot.next.addr)).1, freeSize m spot.next.addr,
          (reallocTake (mmAlignUp (size + 8) - c.size) (freeSize m spot.prev.addr)
            (freeSize m spot.next.addr)).2)
      else none := by
  obtain ⟨hprev, hnext, hsum⟩ := spot.neighbours ok
  have hcsize := ok.size_eq (spot.win_block c (by simp)).has
  have hadd : add32 size 8 = size + 8 := add32_of_lt (by omega)
  have halign := mmAlignUp_eq (size + 8) (by omega)
  simp only [growth, sizeofMmAllocnode, Nat.add_sub_cancel, hadd, hcsize, hprev, hnext, hsum]
  by_cases hgrow : c.size < mmAlignUp (size + 8)
  · rw [sub32_of_le (by omega) (by omega)]
  · rw [if_neg (fun h => hgrow h.1), if_neg (fun h => hgrow h.1)]

/-- Where all sizes are multiples of 16, so is what is left of a neighbour. -/
theorem no_sliver (inv : Inv 16 nodelist m sh) (hc : Block sh.regions c) (size : Nat)
    (hsize : size + 23 < 2 ^ 32) : leavesSliver m (c.addr + 8) size = false := by
  obtain ⟨spot⟩ := Spot.of_block hc
  unfold leavesSliver
  rw [spot.growth_eq inv.layout size hsize]
  by_cases hgrow : c.size < mmAlignUp (size + 8) ∧ mmAlignUp (size + 8) ≤
      c.size + freeSize m spot.prev.addr + freeSize m spot.next.addr
  · rw [if_pos hgrow]
    have hgran : 16 ∣ mmAlignUp (size + 8) := by
      rw [mmAlignUp_eq _ (by omega)]
      exact Nat.dvd_mul_right 16 _
    have hprev := inv.dvd_freeSize _ spot.prev_has spot.prev_block
    have hnext := inv.dvd_freeSize _ spot.next_has spot.next_block
    obtain ⟨takeprev, takenext, htake⟩ : ∃ takeprev takenext,
        reallocTake (mmAlignUp (size + 8) - c.size) (freeSize m spot.prev.addr)
          (freeSize m spot.next.addr) = (takeprev, takenext) := ⟨_, _, rfl⟩
    obtain ⟨_, _, _, htakeprev, htakenext⟩ := reallocTake_spec (by omega) (by omega)
      (Nat.dvd_sub hgran (inv.layout.block_ge hc).2) hprev hnext _ htake
    rw [htake]
    simp only [Bool.or_eq_false_iff, beq_eq_false_iff_ne]
    exact ⟨by omega, by omega⟩
  · rw [if_neg hgrow]

theorem mmRealloc_spec (inv : Inv g nodelist m sh) (h8g : 8 ∣ g) (hg : g ∣ 16) {c : Chunk}
    (hc : Block sh.regions c) (halloc : c.alloc = true) {size : Nat} (hsize : size + 23 < 2 ^ 32)
    (hsliver : leavesSliver m (c.addr + 8) size = false) :
    ∃ m' sh' out, mmRealloc nodelist m (c.addr + 8) size = some (m', out) ∧
      Inv g nodelist m' sh' ∧ Reallocated sh sh' c size out ∧
      (out = 0 ∨ mmAlignUp (size + 8) ≤ m' (out - 8)) := by
  unfold mmRealloc
  rw [if_neg (by omega)]
  by_cases hzero : size = 0
  · obtain ⟨m', sh', hfree, hinv, hkeeps⟩ := mmFree_spec inv c hc halloc
    rw [if_pos (by omega), hfree]
    exact ⟨m', sh', 0, rfl, hinv, .freed hzero hkeeps, .inl rfl⟩
  rw [if_neg (by omega)]
  obtain ⟨spot⟩ := Spot.of_block hc
  obtain ⟨hprev, hnext, hsum⟩ := spot.neighbours inv.layout
  have hcsize := inv.layout.size_eq hc.has
  have halign := mmAlignUp_eq (size + 8) (by omega)
  have hadd : add32 size 8 = size + 8 := add32_of_lt (by omega)
  have hgran : g ∣ mmAlignUp (size + 8) := by
    rw [halign]
    exact hg.mul_right _
  simp only [sizeofMmAllocnode, Nat.add_sub_cancel, hadd, hcsize, hprev, hnext, hsum]
  by_cases hle : mmAlignUp (size + 8) ≤ c.size
  · rw [if_pos hle]
    by_cases hlt : mmAlignUp (size + 8) < c.size
    · obtain ⟨m', sh', c', hshrink, hinv, hresized, haddr, hfit⟩ :=
        mmShrinkchunk_spec inv hc halloc (by omega) hgran hle
      rw [if_pos hlt, hshrink]
      refine ⟨m', sh', c'.addr + 8, ?_, hinv, .moved hzero c' hresized,
        .inr (hfit.trans_eq (hinv.layout.size_eq hresized.block.has).symm)⟩
      rw [haddr]
      rfl
    · rw [if_neg hlt]
      exact ⟨m, sh, c.addr + 8, rfl, inv,
        .moved hzero c ⟨⟨fun q hq _ _ => hq, rfl⟩, hc, halloc⟩, .inr (hle.trans_eq hcsize.symm)⟩
  · rw [if_neg hle]
    by_cases hroom : mmAlignUp (size + 8) ≤
        c.size + freeSize m spot.prev.addr + freeSize m spot.next.addr
    · rw [if_pos hroom]
      unfold leavesSliver at hsliver
      rw [spot.growth_eq inv.layout size hsize, if_pos ⟨by omega, hroom⟩] at hsliver
      simp only [Bool.or_eq_false_iff, beq_eq_false_iff_ne] at hsliver
      obtain ⟨m', sh', c', hextend, hinv, hresized, hfit⟩ := reallocExtend_spec inv h8g spot
        halloc _ hgran (by omega) hroom _ _ rfl hsliver.1 hsliver.2
      exact ⟨m', sh', _, hextend, hinv, .moved hzero c' hresized,
        .inr (hfit.trans_eq (hinv.layout.size_eq hresized.block.has).symm)⟩
    · rw [if_neg hroom]
      exact mmRealloc_copy inv h8g hg c hc halloc size hsize hzero (by omega)

end NbLot.Source.Heap
