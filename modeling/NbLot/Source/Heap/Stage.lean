import NbLot.Source.Heap.Invariant

/-!
# An operation on the heap, statement by statement

`Stage` describes memory in the middle of an operation that rewrites a window of chunks:
the chunks `gone` have left the list and the chunks `come` have joined it, and `mh` is
memory with the header stores done so far, from which the real memory differs in link
words only. Every statement of the operations is one of the steps below, and
`Stage.finish` gives the invariant for the new chunks.
-/
namespace NbLot.Source.Heap
open Lib List Words

variable {g nodelist : Nat} {m₀ m mh : Words} {sh : Shape} {win : List Chunk} {seg : Nat → List Nat}
  {gone come : List Nat} {x : Nat} {c : Chunk} {regions : List Region}

/-- The first address of the window. -/
def Spot.lo {regions : List Region} (spot : Spot regions win) : Nat :=
  spot.prev.addr + spot.prev.size

/-- The address of the chunk or guard behind the window. -/
def Spot.hi {regions : List Region} (spot : Spot regions win) : Nat := spot.next.addr

/-- A window and its neighbours together are shorter than the sizes the header words can
hold. -/
theorem Spot.span_lt (spot : Spot regions win) (ok : Layout g nodelist m regions) :
    spot.next.addr + spot.next.size < spot.prev.addr + 2 ^ 31 := by
  have hregion := ok.each _ spot.region_mem
  have hprev := hregion.bounds spot.prev_mem
  have hnext := hregion.bounds spot.next_mem
  have hspan := hregion.span
  omega

theorem Spot.length_lt (spot : Spot regions win) (ok : Layout g nodelist m regions) :
    spot.hi < spot.lo + 2 ^ 31 := by
  have hspan := spot.span_lt ok
  unfold Spot.lo Spot.hi
  omega

/-- Memory `m` in the middle of an operation that started from `m₀`. -/
structure Stage (nodelist : Nat) (m₀ : Words) (spot : Spot sh.regions win)
    (gone come : List Nat) (m mh : Words) (seg : Nat → List Nat) : Prop where
  list : FreeList nodelist m seg
  listed : ∀ y, Listed seg y ↔ (Listed sh.seg y ∧ y ∉ gone) ∨ y ∈ come
  near : ∀ a, OffLinks nodelist seg a → m a = mh a
  out : ∀ a, a < spot.lo ∨ spot.hi + 8 ≤ a → mh a = m₀ a
  keep : mh spot.hi = m₀ spot.hi

theorem Spot.outside (ok : Layout g nodelist m sh.regions) (spot : Spot sh.regions win)
    (q : Chunk) (hq : Has sh.regions q) (hwin : q ∉ win) :
    q.addr + q.size ≤ spot.lo ∨ spot.hi ≤ q.addr := by
  obtain ⟨s, hs, hq⟩ := hq
  have hregion := ok.each spot.region spot.region_mem
  by_cases heq : s = spot.region
  · rw [heq, chunks_window spot.inner_eq, ← cons_append, ← cons_append, ← cons_append, append_assoc,
      mem_append, mem_append] at hq
    have hchain := hregion.chain
    rw [chunks_window spot.inner_eq, isChain_window] at hchain
    rcases hq with (hq | hq) | hq
    · exact .inl (ends_before_pred hchain.1 hq)
    · exact absurd hq hwin
    · refine .inr ?_
      cases starts_behind_succ _ _ hchain.2.2 q hq with
      | inl h => exact Nat.le_of_eq (by rw [h]; rfl)
      | inr h =>
        unfold Before at h
        change (succ spot.right spot.region.last).addr ≤ q.addr
        omega
  · have hseparate : Separate s spot.region := ok.separate.forall hs spot.region_mem heq
    have hb := (ok.each s hs).bounds hq
    have hprev := hregion.bounds spot.prev_mem
    have hnext := hregion.bounds spot.next_mem
    unfold Separate at hseparate
    unfold Spot.lo Spot.hi
    omega

section

variable (inv : Inv g nodelist m sh)
include inv

theorem Inv.not_listed (hc : Has sh.regions c) (halloc : c.alloc = true) :
    ¬ Listed sh.seg c.addr := by
  intro hlisted
  obtain ⟨d, hd, hfree, haddr⟩ := (inv.free c.addr).mp hlisted
  have heq := inv.layout.eq_of_addr hd.has hc haddr
  rw [heq, halloc] at hfree
  cases hfree

theorem Inv.listed (c : Chunk) (hc : Block sh.regions c) (hfree : c.alloc = false) :
    Listed sh.seg c.addr :=
  (inv.free c.addr).mpr ⟨c, hc, hfree, rfl⟩

theorem Inv.header_off (c : Chunk) (hc : Has sh.regions c) :
    OffLinks nodelist sh.seg c.addr ∧ OffLinks nodelist sh.seg (c.addr + 4) ∧
      c.addr + 4 ∉ nodes nodelist sh.seg := by
  apply inv.layout.header_off sh.seg _ c hc
  intro x hx
  obtain ⟨q, hq, _, hqx⟩ := (inv.free x).mp hx
  exact ⟨q, hq, hqx⟩

theorem Inv.unlink_header (x : Nat) (hx : Listed sh.seg x) (hc : Has sh.regions c) :
    mmUnlink m x c.addr = m c.addr ∧ mmUnlink m x (c.addr + 4) = m (c.addr + 4) := by
  obtain ⟨seg', _, hlisted, hoff⟩ := inv.list.unlink x hx
  have hsub : ∀ a, OffLinks nodelist sh.seg a → OffLinks nodelist seg' a := by
    intro a ha y hy
    apply ha
    rw [mem_nodes] at hy ⊢
    rw [hlisted] at hy
    exact hy.imp_right And.left
  obtain ⟨hsize, hpreceding, _⟩ := inv.header_off c hc
  exact ⟨hoff _ (hsub _ hsize), hoff _ (hsub _ hpreceding)⟩

end

namespace Stage

variable {spot : Spot sh.regions win}

theorem start (inv : Inv g nodelist m₀ sh) (spot : Spot sh.regions win) :
    Stage nodelist m₀ spot [] [] m₀ m₀ sh.seg :=
  ⟨inv.list, fun y => by simp, fun _ _ => rfl, fun _ _ => rfl, rfl⟩

section

variable (st : Stage nodelist m₀ spot gone come m mh seg)
include st

theorem mem_nodes_old (y : Nat) (hy : y ∈ nodes nodelist seg) :
    y ∈ nodes nodelist sh.seg ∨ y ∈ come := by
  rw [mem_nodes] at hy ⊢
  rcases hy with hhead | hlisted
  · exact .inl (.inl hhead)
  · exact ((st.listed y).mp hlisted).imp_left fun h => .inr h.1

theorem offLinks {a : Nat} (h : OffLinks nodelist sh.seg a)
    (hcome : ∀ x ∈ come, a ≠ x + 8 ∧ a ≠ x + 12) : OffLinks nodelist seg a := by
  intro y hy
  cases st.mem_nodes_old y hy with
  | inl hold => exact h y hold
  | inr hnew => exact hcome y hnew

end

theorem size_eq (st : Stage nodelist m₀ spot gone [] m mh seg) (inv : Inv g nodelist m₀ sh)
    (c : Chunk) (hc : Has sh.regions c) : m c.addr = mh c.addr :=
  st.near _ (st.offLinks (inv.header_off c hc).1 nofun)

theorem tag_eq (st : Stage nodelist m₀ spot gone [] m mh seg) (inv : Inv g nodelist m₀ sh)
    (hc : Has sh.regions c) : m (c.addr + 4) = mh (c.addr + 4) :=
  st.near _ (st.offLinks (inv.header_off c hc).2.1 nofun)

section

variable (st : Stage nodelist m₀ spot gone come m mh seg)
include st

/-- A store into the window or the `preceding` word behind it that is neither the size nor
a link word of a node. -/
theorem set (a v : Nat) (hoff : OffLinks nodelist seg a) (hnode : a ∉ nodes nodelist seg)
    (hlow : spot.lo ≤ a) (hhigh : a < spot.hi + 8) (hne : a ≠ spot.hi) :
    Stage nodelist m₀ spot gone come (m.set a v) (mh.set a v) seg := by
  refine ⟨st.list.set a v hoff hnode, st.listed, ?_, ?_, ?_⟩
  · intro b hb
    unfold Words.set
    rw [st.near b hb]
  · intro b hb
    rw [set_of_ne (by omega)]
    exact st.out b hb
  · rw [set_of_ne hne.symm]
    exact st.keep

theorem set_tag (inv : Inv g nodelist m₀ sh) (v : Nat) (hc : Has sh.regions c)
    (hcome : ∀ x ∈ come, c.addr + 8 ≤ x ∨ x + 16 ≤ c.addr) (hlow : spot.lo ≤ c.addr + 4)
    (hhigh : c.addr ≤ spot.hi) (hne : c.addr + 4 ≠ spot.hi) :
    Stage nodelist m₀ spot gone come (m.set (c.addr + 4) v) (mh.set (c.addr + 4) v) seg := by
  obtain ⟨_, hoff, hnode⟩ := inv.header_off c hc
  apply st.set _ v _ _ hlow (by omega) hne
  · apply st.offLinks hoff
    intro x hx
    have := hcome x hx
    omega
  · intro hmem
    cases st.mem_nodes_old _ hmem with
    | inl hold => exact hnode hold
    | inr hnew =>
      have := hcome _ hnew
      omega

end

section

variable (st : Stage nodelist m₀ spot gone [] m mh seg) (inv : Inv g nodelist m₀ sh)
include st inv

theorem retag_next (v : Nat) {p : Nat} (hold : mh (spot.next.addr + 4) = p + tag spot.next.alloc)
    (hv : v < 2 ^ 31) (hp : p < 2 ^ 31) (hlow : spot.lo ≤ spot.hi) :
    Stage nodelist m₀ spot gone []
      (m.set (spot.next.addr + 4) (v ||| (m (spot.next.addr + 4) &&& mmAllocBit)))
      (mh.set (spot.next.addr + 4) (v + tag spot.next.alloc)) seg := by
  rw [st.tag_eq inv spot.next_has, hold, retag hv hp]
  unfold Spot.hi at hlow
  exact st.set_tag inv _ spot.next_has nofun (by omega) le_rfl
    (by unfold Spot.hi; omega)

/-- A word of an old chunk that is not on the list is stored. -/
theorem set_in (c : Chunk) (a v : Nat) (hc : Has sh.regions c) (hnot : ¬ Listed seg c.addr)
    (ha : c.addr ≤ a) (ha' : a < c.addr + c.size) (hlow : spot.lo ≤ a) (hhigh : a < spot.hi) :
    Stage nodelist m₀ spot gone [] (m.set a v) (mh.set a v) seg := by
  have hsub : ∀ y, Listed seg y → Listed sh.seg y := by
    intro y hy
    cases (st.listed y).mp hy with
    | inl hold => exact hold.1
    | inr hnew => cases hnew
  obtain ⟨hoff, hnode⟩ := inv.off_node hc seg hsub hnot a ha ha'
  exact st.set a v hoff hnode hlow (by omega) (by omega)

omit inv in
/-- A chunk of the window leaves the list. Its link words are plain words from now on. -/
theorem unlink (x : Nat) (hx : Listed seg x) (hlow : spot.lo ≤ x) (hhigh : x + 16 ≤ spot.hi) :
    ∃ seg', Stage nodelist m₀ spot (x :: gone) [] (mmUnlink m x)
      ((mh.set (x + 8) (m (x + 8))).set (x + 12) (m (x + 12))) seg' := by
  obtain ⟨seg', hlist, hlisted, hoff⟩ := st.list.unlink x hx
  refine ⟨seg', hlist, ?_, ?_, ?_, ?_⟩
  · intro y
    rw [hlisted, st.listed, mem_cons]
    tauto
  · intro a ha
    rw [hoff a ha]
    by_cases h12 : a = x + 12
    · rw [h12, set_same]
    · rw [set_of_ne h12]
      by_cases h8 : a = x + 8
      · rw [h8, set_same]
      · rw [set_of_ne h8]
        apply st.near
        intro y hy
        rw [mem_nodes] at hy
        by_cases heq : y = x
        · rw [heq]
          exact ⟨h8, h12⟩
        · apply ha
          rw [mem_nodes, hlisted]
          exact hy.imp_right fun h => ⟨h, heq⟩
  · intro a ha
    rw [set_of_ne (by omega), set_of_ne (by omega)]
    exact st.out a ha
  · rw [set_of_ne (by omega), set_of_ne (by omega)]
    exact st.keep

variable (hgone : ∀ c ∈ win, c.alloc = false → c.addr ∈ gone)
include hgone

/-- No node of the list reaches into a window whose free chunks have left it. -/
theorem clear (y : Nat) (hy : y ∈ nodes nodelist seg) : y + 16 ≤ spot.lo ∨ spot.hi ≤ y := by
  cases mem_nodes.mp hy with
  | inl hhead =>
    have hregion := inv.layout.each _ spot.region_mem
    have hprev := hregion.bounds spot.prev_mem
    have hnext := hregion.bounds spot.next_mem
    have hsize := hregion.size_ge spot.next_mem
    have htable := inv.layout.table _ spot.region_mem
    unfold Spot.lo Spot.hi
    omega
  | inr hlisted =>
    rcases (st.listed y).mp hlisted with ⟨hold, hnot⟩ | hnew
    · obtain ⟨q, hq, hfree, hqy⟩ := (inv.free y).mp hold
      have hwin : q ∉ win := fun h => hnot (by rw [← hqy]; exact hgone q h hfree)
      have hsize := (inv.layout.block_ge hq).1
      have := spot.outside inv.layout q hq.has hwin
      omega
    · cases hnew

/-- A chunk inside a window whose free chunks have left the list is added to it. -/
theorem add (x : Nat) (hsize : m x ≠ 0) (hlow : spot.lo ≤ x) (hhigh : x + 16 ≤ spot.hi) :
    ∃ m' seg', mmAddfreechunk nodelist m x = some m' ∧
      Stage nodelist m₀ spot gone [x] m' mh seg' := by
  have hregion := inv.layout.each _ spot.region_mem
  have hprev := hregion.size_ge spot.prev_mem
  have hbelow : x < addresses := by
    have := (hregion.bounds spot.next_mem).2
    have := hregion.top
    unfold Spot.hi at hhigh
    unfold addresses
    omega
  have hapart : ∀ y ∈ nodes nodelist seg, Apart x y := by
    intro y hy
    have := st.clear inv hgone y hy
    unfold Apart
    omega
  obtain ⟨m', seg', hadd, hlist, hlisted, hoff⟩ := st.list.addfreechunk x
    (by unfold Spot.lo at hlow; omega) hsize hbelow hapart
  refine ⟨m', seg', hadd, hlist, ?_, ?_, st.out, st.keep⟩
  · intro y
    rw [hlisted, st.listed]
    simp
  · intro a ha
    rw [hoff a ha]
    apply st.near
    intro y hy
    apply ha
    rw [mem_nodes] at hy ⊢
    rw [hlisted]
    exact hy.imp_right .inl

/-- A word of a window whose free chunks have left the list is stored. -/
theorem set_window (a v : Nat) (hlow : spot.lo ≤ a) (hhigh : a < spot.hi) :
    Stage nodelist m₀ spot gone [] (m.set a v) (mh.set a v) seg := by
  apply st.set a v _ _ hlow (by omega) (by omega)
  · intro y hy
    have := st.clear inv hgone y hy
    omega
  · intro hmem
    have := st.clear inv hgone a hmem
    omega

end

section

variable (st : Stage nodelist m₀ spot gone come m mh seg)
include st

/-- The operation is done: its new chunks stand in the window. -/
theorem finish (inv : Inv g nodelist m₀ sh) (win' : List Chunk)
    (hgone : ∀ c ∈ win, c.alloc = false → c.addr ∈ gone) (hwin : ∀ x ∈ gone, ∃ c ∈ win, c.addr = x)
    (hcome : ∀ x, x ∈ come ↔ ∃ c ∈ win', c.alloc = false ∧ c.addr = x)
    (hchain : (spot.prev :: (win' ++ [spot.next])).IsChain (Follows mh))
    (hsizes : ∀ c ∈ win', mh c.addr = c.size) (hinner : ∀ c ∈ win', 16 ≤ c.size ∧ g ∣ c.size) :
    Inv g nodelist m ⟨spot.put win', seg⟩ := by
  apply inv.replace spot win' seg st.out st.keep hchain hsizes hinner st.near st.list
  · intro x
    rw [st.listed, ← hcome]
    have hiff : Listed sh.seg x ∧ x ∉ gone ↔ Listed sh.seg x ∧ ∀ c ∈ win, c.addr ≠ x := by
      constructor
      · intro h
        refine ⟨h.1, ?_⟩
        intro c hc hcx
        cases halloc : c.alloc with
        | false =>
          have hmem := hgone c hc halloc
          rw [hcx] at hmem
          exact h.2 hmem
        | true =>
          have hnot := inv.not_listed (spot.win_block c hc).has halloc
          rw [hcx] at hnot
          exact hnot h.1
      · intro h
        refine ⟨h.1, ?_⟩
        intro hmem
        obtain ⟨c, hc, hcx⟩ := hwin x hmem
        exact h.2 c hc hcx
    rw [hiff]

theorem finish_one (inv : Inv g nodelist m₀ sh) (c : Chunk)
    (hgone : ∀ c ∈ win, c.alloc = false → c.addr ∈ gone) (hwin : ∀ x ∈ gone, ∃ q ∈ win, q.addr = x)
    (hcome : ∀ x, x ∈ come ↔ c.alloc = false ∧ c.addr = x) (haddr : c.addr = spot.lo)
    (hend : c.addr + c.size = spot.hi) (hprev : spot.prev.alloc = true ∨ c.alloc = true)
    (hnext : c.alloc = true ∨ spot.next.alloc = true) (hsize : mh c.addr = c.size)
    (hpreceding : mh (c.addr + 4) = spot.prev.size + tag c.alloc)
    (hbehind : mh (spot.next.addr + 4) = c.size + tag spot.next.alloc)
    (hinner : 16 ≤ c.size ∧ g ∣ c.size) : Inv g nodelist m ⟨spot.put [c], seg⟩ := by
  apply st.finish inv [c] hgone hwin
  · simpa using hcome
  · rw [singleton_append, isChain_cons_cons, isChain_cons_cons]
    exact ⟨⟨haddr, hpreceding, hprev⟩, ⟨hend.symm, hbehind, hnext⟩, isChain_singleton _⟩
  · simpa using hsize
  · simpa using hinner

end

theorem finish_pair (st : Stage nodelist m₀ spot gone [x] m mh seg) (inv : Inv g nodelist m₀ sh)
    (c d : Chunk) (hgone : ∀ c ∈ win, c.alloc = false → c.addr ∈ gone)
    (hwin : ∀ x ∈ gone, ∃ q ∈ win, q.addr = x)
    (hfree : (c.alloc = false ∧ c.addr = x ∧ d.alloc = true ∧ spot.prev.alloc = true) ∨
      (c.alloc = true ∧ d.alloc = false ∧ d.addr = x ∧ spot.next.alloc = true))
    (haddr : c.addr = spot.lo) (hmid : d.addr = c.addr + c.size) (hend : d.addr + d.size = spot.hi)
    (hsize : mh c.addr = c.size) (hpreceding : mh (c.addr + 4) = spot.prev.size + tag c.alloc)
    (hsize' : mh d.addr = d.size) (hpreceding' : mh (d.addr + 4) = c.size + tag d.alloc)
    (hbehind : mh (spot.next.addr + 4) = d.size + tag spot.next.alloc)
    (hinner : 16 ≤ c.size ∧ g ∣ c.size) (hinner' : 16 ≤ d.size ∧ g ∣ d.size) :
    Inv g nodelist m ⟨spot.put [c, d], seg⟩ := by
  apply st.finish inv [c, d] hgone hwin
  · intro y
    rcases hfree with ⟨hc, hx, hd, _⟩ | ⟨hc, hd, hx, _⟩
    · have heq : y = x ↔ x = y := eq_comm
      simpa [hc, hd, hx] using heq
    · have heq : y = x ↔ x = y := eq_comm
      simpa [hc, hd, hx] using heq
  · rw [cons_append, singleton_append, isChain_cons_cons, isChain_cons_cons, isChain_cons_cons]
    refine ⟨⟨haddr, hpreceding, ?_⟩, ⟨hmid, hpreceding', ?_⟩, ⟨hend.symm, hbehind, ?_⟩,
      isChain_singleton _⟩
    · exact hfree.elim (fun h => .inl h.2.2.2) fun h => .inr h.1
    · exact hfree.elim (fun h => .inr h.2.2.1) fun h => .inl h.1
    · exact hfree.elim (fun h => .inl h.2.2.1) fun h => .inr h.2.2.2
  · simpa using ⟨hsize, hsize'⟩
  · simpa using ⟨hinner, hinner'⟩

end Stage

/-- The stores that cut the addresses from `lo` to `hi` into a chunk of `size` bytes and
the rest. -/
def cutWords (m : Words) (lo size hi : Nat) (alloc next : Bool) : Words :=
  (((m.set lo size).set (lo + size) (hi - lo - size)).set (lo + size + 4) (size + tag alloc)).set
    (hi + 4) (hi - lo - size + tag next)

/-- The stores that make one chunk of the addresses from `lo` to `hi`. -/
def joinWords (m : Words) (lo hi : Nat) (next : Bool) : Words :=
  (m.set lo (hi - lo)).set (hi + 4) (hi - lo + tag next)

namespace Stage

variable {spot : Spot sh.regions win} (st : Stage nodelist m₀ spot gone [] m mh seg)
  (inv : Inv g nodelist m₀ sh) (hgone : ∀ c ∈ win, c.alloc = false → c.addr ∈ gone)
include st inv hgone

theorem cut (size : Nat) (alloc : Bool) (hroom : spot.lo + size + 8 ≤ spot.hi) :
    Stage nodelist m₀ spot gone [] (cutWords m spot.lo size spot.hi alloc spot.next.alloc)
      (cutWords mh spot.lo size spot.hi alloc spot.next.alloc) seg := by
  have st := st.set_window inv hgone spot.lo size le_rfl (by omega)
  have st := st.set_window inv hgone (spot.lo + size) (spot.hi - spot.lo - size) (by omega)
    (by omega)
  have st := st.set_window inv hgone (spot.lo + size + 4) (size + tag alloc) (by omega) (by omega)
  have hhi : spot.hi = spot.next.addr := rfl
  exact st.set_tag inv _ spot.next_has nofun (by omega) (by omega) (by omega)

/-- The window is cut in two and the free part joins the list. -/
theorem cut_finish (hwin : ∀ x ∈ gone, ∃ q ∈ win, q.addr = x) {size : Nat} (alloc : Bool)
    (hsize : 16 ≤ size ∧ g ∣ size) (hroom : spot.lo + size + 16 ≤ spot.hi)
    (hrest : g ∣ spot.hi - spot.lo - size)
    (halloc : if alloc then spot.prev.alloc = true else spot.next.alloc = true)
    (htag : mh (spot.lo + 4) = spot.prev.size + tag (!alloc)) :
    ∃ m' seg', mmAddfreechunk nodelist (cutWords m spot.lo size spot.hi alloc spot.next.alloc)
        (if alloc then spot.lo else spot.lo + size) = some m' ∧
      Inv g nodelist m' ⟨spot.put [⟨spot.lo, size, !alloc⟩,
        ⟨spot.lo + size, spot.hi - spot.lo - size, alloc⟩], seg'⟩ := by
  have st := st.cut inv hgone size alloc (by omega)
  obtain ⟨m', seg', hadd, st⟩ := st.add inv hgone (if alloc then spot.lo else spot.lo + size)
    (by
      unfold cutWords
      cases alloc with
      | true =>
        simp (disch := omega) only [if_true, set_of_ne, set_same]
        omega
      | false =>
        simp (disch := omega) only [Bool.false_eq_true, if_false, set_of_ne, set_same]
        omega)
    (by split <;> omega) (by split <;> omega)
  refine ⟨m', seg', hadd, ?_⟩
  have hhi : spot.hi = spot.next.addr := rfl
  apply st.finish_pair inv ⟨spot.lo, size, !alloc⟩
    ⟨spot.lo + size, spot.hi - spot.lo - size, alloc⟩ hgone hwin _ rfl rfl (by simp only; omega)
  · unfold cutWords
    simp (disch := omega) only [set_of_ne, set_same]
  · unfold cutWords
    simp (disch := omega) only [set_of_ne]
    exact htag
  · unfold cutWords
    simp (disch := omega) only [set_of_ne, set_same]
  · unfold cutWords
    simp (disch := omega) only [set_of_ne, set_same]
  · unfold cutWords
    rw [hhi, set_same]
  · exact hsize
  · exact ⟨by simp only; omega, hrest⟩
  · cases alloc with
    | true => exact .inl ⟨rfl, rfl, rfl, halloc⟩
    | false => exact .inr ⟨rfl, rfl, rfl, halloc⟩

theorem join_finish (hwin : ∀ x ∈ gone, ∃ q ∈ win, q.addr = x) (hroom : spot.lo + 16 ≤ spot.hi)
    (hrest : g ∣ spot.hi - spot.lo) (htag : mh (spot.lo + 4) = spot.prev.size + tag true) :
    Inv g nodelist (joinWords m spot.lo spot.hi spot.next.alloc)
      ⟨spot.put [⟨spot.lo, spot.hi - spot.lo, true⟩], seg⟩ := by
  have hhi : spot.hi = spot.next.addr := rfl
  have st := st.set_window inv hgone spot.lo (spot.hi - spot.lo) le_rfl (by omega)
  have st := st.set_tag inv (spot.hi - spot.lo + tag spot.next.alloc) spot.next_has nofun
    (by omega) (by omega) (by omega)
  apply st.finish_one inv ⟨spot.lo, spot.hi - spot.lo, true⟩ hgone hwin (by simp) rfl
    (by simp only; omega) (.inr rfl) (.inl rfl)
  · simp (disch := omega) only [set_of_ne, set_same]
  · simp (disch := omega) only [set_of_ne]
    exact htag
  · rw [set_same]
  · exact ⟨by simp only; omega, hrest⟩

end Stage

end NbLot.Source.Heap
