import NbLot.Source.Heap.Stage

/-!
# mm_free keeps the invariant

Source: nuttx/mm/mm_heap/mm_free.c:60-147.

The freed chunk is merged with a free chunk behind it and with a free chunk before it.
`freeNext_spec` and `freePrev_spec` are the two merges; whether a neighbour is free or
not, they end with one chunk from the first address of the window to its end.
-/
namespace NbLot.Source.Heap
open Lib List Words

variable {g nodelist : Nat} {m m₀ mh : Words} {sh : Shape} {pre post : List Chunk} {c : Chunk}
  {seg : Nat → List Nat} {gone : List Nat}

/-- The chunk to free and those of its neighbours that are free. -/
structure Merge (sh : Shape) (pre : List Chunk) (c : Chunk) (post : List Chunk) where
  spot : Spot sh.regions (pre ++ c :: post)
  before : (pre = [] ∧ spot.prev.alloc = true) ∨ ∃ p, pre = [p] ∧ p.alloc = false
  behind : (post = [] ∧ spot.next.alloc = true) ∨ ∃ n, post = [n] ∧ n.alloc = false

theorem exists_merge (c : Chunk) (hc : Block sh.regions c) :
    ∃ pre post, Nonempty (Merge sh pre c post) := by
  obtain ⟨spot⟩ := Spot.of_block hc
  have hbefore : ∀ (post : List Chunk) (wide : Spot sh.regions (c :: post)),
      (post = [] ∧ wide.next.alloc = true) ∨ (∃ n, post = [n] ∧ n.alloc = false) →
      ∃ pre post, Nonempty (Merge sh pre c post) := by
    intro post wide hbehind
    cases hprev : wide.prev.alloc with
    | true => exact ⟨[], post, ⟨⟨wide, .inl ⟨rfl, hprev⟩, hbehind⟩⟩⟩
    | false =>
      obtain ⟨wider, hnext⟩ := wide.widen_prev hprev
      rw [← hnext] at hbehind
      exact ⟨[wide.prev], post, ⟨⟨wider, .inr ⟨_, rfl, hprev⟩, hbehind⟩⟩⟩
  cases hnext : spot.next.alloc with
  | true => exact hbefore [] spot (.inl ⟨rfl, hnext⟩)
  | false =>
    obtain ⟨wide, _⟩ := spot.widen_next hnext
    exact hbefore [spot.next] wide (.inr ⟨_, rfl, hnext⟩)

namespace Merge

section

variable (mg : Merge sh pre c post) (ok : Layout g nodelist m sh.regions)
include mg ok

theorem chain :
    (mg.spot.prev :: (pre ++ [c])).IsChain (Follows m) ∧
      (c :: (post ++ [mg.spot.next])).IsChain (Follows m) := by
  have hchain := mg.spot.chain ok
  rw [append_assoc, cons_append, isChain_cons_split] at hchain
  exact hchain

omit ok in
theorem block : Block sh.regions c :=
  mg.spot.win_block c (by simp)

theorem behind_cases :
    (post = [] ∧ mg.spot.next.alloc = true ∧ Follows m c mg.spot.next) ∨
      ∃ n, post = [n] ∧ n.alloc = false ∧ Follows m c n ∧ Follows m n mg.spot.next := by
  have hchain := (mg.chain ok).2
  obtain ⟨spot, _, hbehind⟩ := mg
  cases hbehind with
  | inl hnone =>
    obtain ⟨rfl, hnext⟩ := hnone
    exact .inl ⟨rfl, hnext, (isChain_cons_cons.mp hchain).1⟩
  | inr hsome =>
    obtain ⟨n, rfl, hfree⟩ := hsome
    obtain ⟨hn, hchain⟩ := isChain_cons_cons.mp hchain
    exact .inr ⟨n, rfl, hfree, hn, (isChain_cons_cons.mp hchain).1⟩

theorem before_cases :
    (pre = [] ∧ mg.spot.prev.alloc = true ∧ Follows m mg.spot.prev c) ∨
      ∃ p, pre = [p] ∧ p.alloc = false ∧ Follows m mg.spot.prev p ∧ Follows m p c := by
  have hchain := (mg.chain ok).1
  obtain ⟨spot, hbefore, _⟩ := mg
  cases hbefore with
  | inl hnone =>
    obtain ⟨rfl, hprev⟩ := hnone
    exact .inl ⟨rfl, hprev, (isChain_cons_cons.mp hchain).1⟩
  | inr hsome =>
    obtain ⟨p, rfl, hfree⟩ := hsome
    obtain ⟨hp, hchain⟩ := isChain_cons_cons.mp hchain
    exact .inr ⟨p, rfl, hfree, hp, (isChain_cons_cons.mp hchain).1⟩

theorem next_alloc : mg.spot.next.alloc = true := by
  rcases mg.behind_cases ok with ⟨_, hnext, _⟩ | ⟨n, _, hfree, _, hfollows⟩
  · exact hnext
  · exact hfollows.notBothFree.resolve_left (by simp [hfree])

theorem prev_alloc : mg.spot.prev.alloc = true := by
  rcases mg.before_cases ok with ⟨_, hprev, _⟩ | ⟨p, _, hfree, hfollows, _⟩
  · exact hprev
  · exact hfollows.notBothFree.resolve_right (by simp [hfree])

theorem bounds : mg.spot.lo ≤ c.addr ∧ c.addr + c.size ≤ mg.spot.hi := by
  obtain ⟨hleft, hright⟩ := mg.chain ok
  have hbefore : Before mg.spot.prev c := (pairwise_cons.mp (pairwise_before _ hleft)).1 c (by simp)
  have hbehind : Before c mg.spot.next :=
    (pairwise_cons.mp (pairwise_before _ hright)).1 mg.spot.next (by simp)
  exact ⟨hbefore, hbehind⟩

theorem first : ∃ q, Block sh.regions q ∧ q.addr = mg.spot.lo := by
  rcases mg.before_cases ok with ⟨_, _, hbefore⟩ | ⟨p, hpre, _, hbefore, _⟩
  · exact ⟨c, mg.block, hbefore.addr⟩
  · exact ⟨p, mg.spot.win_block p (by simp [hpre]), hbefore.addr⟩

theorem dvd_length : g ∣ mg.spot.hi - mg.spot.lo := by
  have hc := (ok.block_ge mg.block).2
  have hleft : ∃ a, g ∣ a ∧ c.addr = mg.spot.lo + a := by
    rcases mg.before_cases ok with ⟨_, _, hbefore⟩ | ⟨p, hpre, _, hbefore, hpc⟩
    · exact ⟨0, Nat.dvd_zero g, hbefore.addr⟩
    · have hp := (ok.block_ge (mg.spot.win_block p (by simp [hpre]))).2
      refine ⟨p.size, hp, ?_⟩
      rw [hpc.addr, hbefore.addr]
      rfl
  have hright : ∃ b, g ∣ b ∧ mg.spot.hi = c.addr + c.size + b := by
    rcases mg.behind_cases ok with ⟨_, _, hbehind⟩ | ⟨n, hpost, _, hcn, hbehind⟩
    · exact ⟨0, Nat.dvd_zero g, hbehind.addr⟩
    · have hn := (ok.block_ge (mg.spot.win_block n (by simp [hpost]))).2
      refine ⟨n.size, hn, ?_⟩
      rw [← hcn.addr, ← hbehind.addr]
      rfl
  obtain ⟨a, ha, hlo⟩ := hleft
  obtain ⟨b, hb, hhi⟩ := hright
  have hlength : mg.spot.hi - mg.spot.lo = a + c.size + b := by omega
  rw [hlength]
  exact Nat.dvd_add (Nat.dvd_add ha hc) hb

end

theorem free_mem (halloc : c.alloc = true) (q : Chunk) (hq : q ∈ pre ++ c :: post)
    (hfree : q.alloc = false) : q.addr ∈ pre.map Chunk.addr ++ post.map Chunk.addr := by
  have hne : q ≠ c := by
    intro heq
    rw [heq, halloc] at hfree
    cases hfree
  have hmem : q ∈ pre ++ post := by
    simp only [mem_append, mem_cons] at hq ⊢
    tauto
  rw [← map_append]
  exact mem_map_of_mem hmem

theorem alloc_eq (mg : Merge sh pre c post) (q : Chunk) (hq : q ∈ pre ++ c :: post)
    (halloc : q.alloc = true) : q = c := by
  have hpre : q ∉ pre := by
    rcases mg.before with ⟨h, _⟩ | ⟨p, h, hfree⟩
    · simp [h]
    · rw [h, mem_singleton]
      intro heq
      rw [heq, hfree] at halloc
      cases halloc
  have hpost : q ∉ post := by
    rcases mg.behind with ⟨h, _⟩ | ⟨n, h, hfree⟩
    · simp [h]
    · rw [h, mem_singleton]
      intro heq
      rw [heq, hfree] at halloc
      cases halloc
  simpa [hpre, hpost] using hq

theorem of_mem_gone (x : Nat) (hx : x ∈ pre.map Chunk.addr ++ post.map Chunk.addr) :
    ∃ q ∈ pre ++ c :: post, q.addr = x := by
  rw [← map_append] at hx
  obtain ⟨q, hq, hqx⟩ := mem_map.mp hx
  refine ⟨q, ?_, hqx⟩
  simp only [mem_append] at hq ⊢
  tauto

end Merge

/-- The merge with the chunk behind, or its absence: the chunk reaches to the end of the
window. -/
theorem freeNext_spec (inv : Inv g nodelist m₀ sh) (mg : Merge sh pre c post)
    (halloc : c.alloc = true) (st : Stage nodelist m₀ mg.spot [] [] m mh seg)
    (hmh : ∀ a, a ≠ c.addr + 4 → mh a = m₀ a) :
    ∃ m' mh' seg', freeNext m c.addr = (m', mg.spot.next.addr) ∧
      Stage nodelist m₀ mg.spot (post.map Chunk.addr) [] m' mh' seg' ∧
      mh' c.addr = mg.spot.hi - c.addr ∧
      mh' (mg.spot.next.addr + 4) = mg.spot.hi - c.addr + tag true ∧
      ∀ a, a ≤ c.addr + 4 → a ≠ c.addr → mh' a = mh a := by
  have hc := mg.block.has
  have hnextAlloc := mg.next_alloc inv.layout
  obtain ⟨hlow, -⟩ := mg.bounds inv.layout
  have hge := inv.layout.size_ge hc
  have hlt := inv.layout.size_lt hc
  have hlength := mg.spot.length_lt inv.layout
  have hhi : mg.spot.hi = mg.spot.next.addr := rfl
  have hsize : m c.addr = c.size := by
    rw [st.size_eq inv c hc, hmh _ (by omega)]
    exact inv.layout.size_eq hc
  unfold freeNext
  simp only [hsize]
  rcases mg.behind_cases inv.layout with ⟨hpost, hnext, hbehind⟩ | ⟨n, hpost, hfree, hcn, hbehind⟩
  · have haddr := hbehind.addr
    have hword : m (mg.spot.next.addr + 4) = c.size + tag true := by
      rw [st.tag_eq inv mg.spot.next_has, hmh _ (by omega), hbehind.preceding, hnext]
    have hgone : post.map Chunk.addr = [] := by rw [hpost, map_nil]
    refine ⟨m, mh, seg, ?_, ?_, ?_, ?_, fun _ _ _ => rfl⟩
    · rw [← haddr, hword, if_neg]
      rw [alloc_bit_clear_iff hlt]
      simp
    · rw [hgone]
      exact st
    · rw [← st.size_eq inv c hc]
      omega
    · rw [← st.tag_eq inv mg.spot.next_has]
      omega
  · have hn : Block sh.regions n := mg.spot.win_block n (by simp [hpost])
    have hnlt := inv.layout.size_lt hn.has
    have hnge := (inv.layout.block_ge hn).1
    have hncn := hcn.addr
    have hnext := hbehind.addr
    have hword : m (n.addr + 4) = c.size + tag false := by
      rw [st.tag_eq inv hn.has, hmh _ (by omega), hcn.preceding, hfree]
    have hnsize : m n.addr = n.size := by
      rw [st.size_eq inv n hn.has, hmh _ (by omega)]
      exact inv.layout.size_eq hn.has
    obtain ⟨seg', st'⟩ := st.unlink n.addr
      ((st.listed n.addr).mpr (by simp [inv.listed n hn hfree])) (by omega) (by omega)
    have hsize' : mmUnlink m n.addr c.addr = c.size := by
      rw [st'.size_eq inv c hc, ← hsize, st.size_eq inv c hc]
      simp (disch := omega) only [set_of_ne]
    have hnsize' : mmUnlink m n.addr n.addr = n.size := by
      rw [st'.size_eq inv n hn.has, ← hnsize, st.size_eq inv n hn.has]
      simp (disch := omega) only [set_of_ne]
    have hnot : ¬ Listed seg' c.addr := by
      rw [st'.listed]
      simp [inv.not_listed hc halloc]
    have hsum : add32 c.size n.size = c.size + n.size := add32_of_lt (by omega)
    have st' := st'.set_in inv c c.addr (c.size + n.size) hc hnot (by omega) (by omega) hlow
      (by omega)
    have st' := st'.retag_next inv (c.size + n.size)
      (by
        simp (disch := omega) only [set_of_ne]
        rw [hmh _ (by omega)]
        exact hbehind.preceding)
      (by omega) hnlt (by omega)
    have hgone : post.map Chunk.addr = [n.addr] := by rw [hpost, map_singleton]
    rw [← hgone] at st'
    refine ⟨_, _, seg', ?_, st', ?_, ?_, ?_⟩
    · rw [← hncn, hword, if_pos ((alloc_bit_clear_iff hlt).mpr rfl), hnsize, ← hnext, hsize',
        hnsize', hsum, set_same]
    · rw [set_of_ne (by omega), set_same]
      omega
    · rw [set_same, hnextAlloc]
      omega
    · intro a ha ha'
      simp (disch := omega) only [set_of_ne]

/-- The merge with the chunk before, or its absence: the chunk that is left is the whole
window. -/
theorem freePrev_spec (inv : Inv g nodelist m₀ sh) (mg : Merge sh pre c post)
    (st : Stage nodelist m₀ mg.spot (post.map Chunk.addr) [] m mh seg)
    (hsize : mh c.addr = mg.spot.hi - c.addr)
    (hbehind : mh (mg.spot.next.addr + 4) = mg.spot.hi - c.addr + tag true)
    (hpreceding : mh (c.addr + 4) = clear32 (m₀ (c.addr + 4)) mmAllocBit)
    (hmh : ∀ a, a < c.addr + 4 → a ≠ c.addr → mh a = m₀ a) :
    ∃ m' mh' seg', freePrev m c.addr mg.spot.next.addr = (m', mg.spot.lo) ∧
      Stage nodelist m₀ mg.spot (pre.map Chunk.addr ++ post.map Chunk.addr) [] m' mh' seg' ∧
      mh' mg.spot.lo = mg.spot.hi - mg.spot.lo ∧
      mh' (mg.spot.lo + 4) = mg.spot.prev.size + tag false ∧
      mh' (mg.spot.next.addr + 4) = mg.spot.hi - mg.spot.lo + tag true := by
  have hc := mg.block.has
  have hnextAlloc := mg.next_alloc inv.layout
  obtain ⟨-, hhigh⟩ := mg.bounds inv.layout
  have hlength := mg.spot.length_lt inv.layout
  have hhi : mg.spot.hi = mg.spot.next.addr := rfl
  unfold freePrev
  simp only [st.tag_eq inv hc, hpreceding]
  rcases mg.before_cases inv.layout with ⟨hpre, hprev, hbefore⟩ | ⟨p, hpre, hfree, hbefore, hpc⟩
  · have hprevLt := inv.layout.size_lt mg.spot.prev_has
    have hprevGe := inv.layout.size_ge mg.spot.prev_has
    have haddr := hbefore.addr
    obtain ⟨q, hq, hword⟩ := inv.layout.tag_word mg.spot.prev_has
    rw [hprev, ← hmh _ (by omega) (by omega), ← st.tag_eq inv mg.spot.prev_has]
      at hword
    rw [hbefore.preceding, clear_alloc hprevLt] at hpreceding ⊢
    have hgone : pre.map Chunk.addr = [] := by rw [hpre, map_nil]
    rw [hgone]
    have heq : c.addr = mg.spot.lo := haddr
    refine ⟨m, mh, seg, ?_, st, ?_, ?_, ?_⟩
    · rw [haddr, Nat.add_sub_cancel, hword, if_neg]
      · rfl
      · rw [alloc_bit_clear_iff hq]
        simp
    · rw [← heq, hsize]
    · rw [← heq, hpreceding, tag_false, Nat.add_zero]
    · rw [hbehind, heq]
  · have hp : Block sh.regions p := mg.spot.win_block p (by simp [hpre])
    have hplt := inv.layout.size_lt hp.has
    have hpge := (inv.layout.block_ge hp).1
    have haddr := hpc.addr
    have heq : p.addr = mg.spot.lo := hbefore.addr
    rw [hpc.preceding, clear_alloc hplt]
    have hword : m (p.addr + 4) = mg.spot.prev.size + tag false := by
      rw [st.tag_eq inv hp.has, hmh _ (by omega) (by omega), hbefore.preceding, hfree]
    have hnot : p.addr ∉ post.map Chunk.addr := by
      intro hmem
      obtain ⟨q, hq, hqp⟩ := mem_map.mp hmem
      have hbehindc : Before c q :=
        (pairwise_cons.mp (pairwise_before _ (mg.chain inv.layout).2)).1 q (by simp [hq])
      unfold Before at hbehindc
      omega
    obtain ⟨seg', st'⟩ := st.unlink p.addr
      ((st.listed p.addr).mpr (.inl ⟨inv.listed p hp hfree, hnot⟩)) (by omega) (by omega)
    have hsize' : mmUnlink m p.addr c.addr = mg.spot.hi - c.addr := by
      rw [st'.size_eq inv c hc, ← hsize]
      simp (disch := omega) only [set_of_ne]
    have hpsize' : mmUnlink m p.addr p.addr = p.size := by
      rw [st'.size_eq inv p hp.has]
      simp (disch := omega) only [set_of_ne]
      rw [hmh _ (by omega) (by omega)]
      exact inv.layout.size_eq hp.has
    have hsum : add32 p.size (mg.spot.hi - c.addr) = mg.spot.hi - mg.spot.lo := by
      rw [add32_of_lt (by omega)]
      omega
    have hunlisted : ¬ Listed seg' p.addr := by
      rw [st'.listed]
      simp
    have st' := st'.set_in inv p p.addr (mg.spot.hi - mg.spot.lo) hp.has hunlisted (by omega)
      (by omega) (by omega) (by omega)
    have st' := st'.retag_next inv (mg.spot.hi - mg.spot.lo)
      (by
        simp (disch := omega) only [set_of_ne]
        rw [hbehind, hnextAlloc])
      (by omega) (by omega) (by omega)
    have hgone : pre.map Chunk.addr = [p.addr] := by rw [hpre, map_singleton]
    rw [hgone]
    refine ⟨_, _, seg', ?_, st', ?_, ?_, ?_⟩
    · rw [haddr, Nat.add_sub_cancel, hword, if_pos ((alloc_bit_clear_iff
        (inv.layout.size_lt mg.spot.prev_has)).mpr rfl), ← haddr, hsize', hpsize', hsum,
        set_same, heq]
    · rw [set_of_ne (by omega), heq, set_same]
    · simp (disch := omega) only [set_of_ne]
      rw [hmh _ (by omega) (by omega), ← heq, hbefore.preceding, hfree]
    · rw [set_same, hnextAlloc]

/-- mm_free gives the block back; the other blocks stay allocated. -/
theorem mmFree_spec (inv : Inv g nodelist m sh) (c : Chunk) (hc : Block sh.regions c)
    (halloc : c.alloc = true) :
    ∃ m' sh', mmFree nodelist m (c.addr + 8) = some m' ∧ Inv g nodelist m' sh' ∧
      Keeps sh sh' [c.addr] := by
  obtain ⟨pre, post, ⟨mg⟩⟩ := exists_merge c hc
  obtain ⟨hlow, hhigh⟩ := mg.bounds inv.layout
  have hge := (inv.layout.block_ge hc).1
  have st := (Stage.start inv mg.spot).set_tag inv (clear32 (m (c.addr + 4)) mmAllocBit) hc.has
    nofun (by omega) (by omega) (by omega)
  obtain ⟨m₁, mh₁, seg₁, hnext, st, hsize, hbehind, hrest⟩ := freeNext_spec inv mg halloc st
    (fun a ha => set_of_ne ha)
  obtain ⟨m₂, mh₂, seg₂, hprev, st, hsize, hpreceding, hbehind⟩ := freePrev_spec inv mg st hsize
    hbehind
    (by rw [hrest _ (by omega) (by omega), set_same])
    (by
      intro a ha ha'
      rw [hrest a (by omega) ha', set_of_ne (by omega)])
  obtain ⟨q, hq, hqlo⟩ := mg.first inv.layout
  have hread : m₂ mg.spot.lo ≠ 0 := by
    rw [← hqlo, st.size_eq inv q hq.has, hqlo]
    omega
  obtain ⟨m₃, seg₃, hadd, st⟩ := st.add inv (Merge.free_mem halloc) mg.spot.lo hread
    le_rfl (by omega)
  refine ⟨m₃, _, ?_, st.finish_one inv ⟨mg.spot.lo, mg.spot.hi - mg.spot.lo, false⟩
    (Merge.free_mem halloc) Merge.of_mem_gone ?_ rfl ?_ (.inl (mg.prev_alloc inv.layout))
    (.inr (mg.next_alloc inv.layout)) hsize hpreceding ?_ ?_,
    (mg.spot.rewrites inv.layout _ _).keeps ?_⟩
  · unfold mmFree
    simp only [sizeofMmAllocnode, Nat.add_sub_cancel, hnext, hprev]
    exact hadd
  · intro x
    simp [eq_comm]
  · simp only
    omega
  · rw [mg.next_alloc inv.layout]
    exact hbehind
  · exact ⟨by simp only; omega, mg.dvd_length inv.layout⟩
  · intro q hq hqalloc
    rw [mg.alloc_eq q hq hqalloc]
    exact mem_cons_self

end NbLot.Source.Heap
