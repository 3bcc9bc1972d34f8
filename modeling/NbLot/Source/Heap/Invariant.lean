import NbLot.Source.Heap.Chunks
import NbLot.Source.Heap.FreeList

/-!
# The representation invariant of the heap

`Layout` collects the regions: each is right by itself, and neither two of them nor a
region and the node array overlap. `Inv` adds the free list and says that it links
exactly the free chunks. An operation rewrites a window of chunks of one region and
edits the list; `Inv.replace` is the invariant after such a step.
-/
namespace NbLot.Source.Heap
open Lib List

/-- A chunk or a guard of one of the regions. -/
def Has (regions : List Region) (c : Chunk) : Prop := ∃ r ∈ regions, c ∈ r.chunks

/-- A chunk between the guards of one of the regions. -/
def Block (regions : List Region) (c : Chunk) : Prop := ∃ r ∈ regions, c ∈ r.inner

/-- One region ends before the other begins. -/
def Separate (r s : Region) : Prop := r.stop + 8 ≤ s.start ∨ s.stop + 8 ≤ r.start

instance : Std.Symm Separate := ⟨fun _ _ h => h.symm⟩

structure Layout (g nodelist : Nat) (m : Words) (regions : List Region) : Prop where
  each : ∀ r ∈ regions, RegionOk g m r
  separate : regions.Pairwise Separate
  table : ∀ r ∈ regions, r.stop + 8 ≤ nodelist ∨ nodelist + 16 * mmNnodes ≤ r.start

variable {g nodelist : Nat} {m m' mh : Words} {regions : List Region} {c d : Chunk} {win : List Chunk}

theorem Block.has (h : Block regions c) : Has regions c := by
  obtain ⟨r, hr, hc⟩ := h
  exact ⟨r, hr, (mem_chunks r c).mpr (.inr (.inl hc))⟩

namespace Layout

variable (ok : Layout g nodelist m regions)
include ok

theorem size_ge (hc : Has regions c) : 8 ≤ c.size := by
  obtain ⟨r, hr, hc⟩ := hc
  exact (ok.each r hr).size_ge hc

theorem size_lt (hc : Has regions c) : c.size < 2 ^ 31 := by
  obtain ⟨r, hr, hc⟩ := hc
  exact (ok.each r hr).size_lt hc

theorem size_eq (hc : Has regions c) : m c.addr = c.size := by
  obtain ⟨r, hr, hc⟩ := hc
  exact (ok.each r hr).sizes c hc

theorem end_le (hc : Has regions c) : c.addr + c.size ≤ 2 ^ 32 := by
  obtain ⟨r, hr, hc⟩ := hc
  exact Nat.le_trans ((ok.each r hr).bounds hc).2 (ok.each r hr).top

theorem tag_word (hc : Has regions c) :
    ∃ p, p < 2 ^ 31 ∧ m (c.addr + 4) = p + tag c.alloc := by
  obtain ⟨r, hr, hc⟩ := hc
  exact (ok.each r hr).tag_word hc

theorem addr_aligned (hg : 8 ∣ g) (hc : Has regions c) : c.addr % 8 = 0 := by
  obtain ⟨r, hr, hc⟩ := hc
  exact (ok.each r hr).addr_aligned hg hc

theorem block_ge (hc : Block regions c) : 16 ≤ c.size ∧ g ∣ c.size := by
  obtain ⟨r, hr, hc⟩ := hc
  exact (ok.each r hr).inner c hc

theorem block_addr (hc : Block regions c) : 8 ≤ c.addr := by
  obtain ⟨r, hr, hc⟩ := hc
  have hpair := pairwise_before _ (ok.each r hr).chain
  have hfirst : r.start + 8 ≤ c.addr := (pairwise_cons.mp hpair).1 c (mem_append_left _ hc)
  omega

theorem disjoint (hc : Has regions c) (hd : Has regions d) (hne : c ≠ d) :
    Before c d ∨ Before d c := by
  obtain ⟨r, hr, hc⟩ := hc
  obtain ⟨s, hs, hd⟩ := hd
  by_cases heq : r = s
  · rw [← heq] at hd
    exact (ok.each r hr).disjoint hc hd hne
  · have hseparate : Separate r s := ok.separate.forall hr hs heq
    have hcb := (ok.each r hr).bounds hc
    have hdb := (ok.each s hs).bounds hd
    unfold Separate at hseparate
    unfold Before
    omega

theorem eq_of_addr (hc : Has regions c) (hd : Has regions d) (haddr : c.addr = d.addr) :
    c = d := by
  by_contra hne
  have hdisjoint := ok.disjoint hc hd hne
  have := ok.size_ge hc
  have := ok.size_ge hd
  unfold Before at hdisjoint
  omega

theorem table_apart {i : Nat} (hi : i < mmNnodes) (hc : Has regions c) :
    nodelist + 16 * i + 16 ≤ c.addr ∨ c.addr + c.size ≤ nodelist + 16 * i := by
  obtain ⟨r, hr, hc⟩ := hc
  have hbounds := (ok.each r hr).bounds hc
  have htable := ok.table r hr
  omega

theorem congr (h : ∀ c, Has regions c → m' c.addr = m c.addr ∧ m' (c.addr + 4) = m (c.addr + 4)) :
    Layout g nodelist m' regions :=
  ⟨fun r hr => (ok.each r hr).congr fun c hc => h c ⟨r, hr, hc⟩, ok.separate, ok.table⟩

end Layout

/-- Where a window of chunks stands in the heap. -/
structure Spot (regions : List Region) (win : List Chunk) where
  before : List Region
  after : List Region
  region : Region
  left : List Chunk
  right : List Chunk
  regions_eq : regions = before ++ region :: after
  inner_eq : region.inner = left ++ win ++ right

namespace Spot

variable {win : List Chunk} (spot : Spot regions win)

/-- The chunk or guard before the window. -/
def prev : Chunk := pred spot.region.first spot.left

/-- The chunk or guard behind the window. -/
def next : Chunk := succ spot.right spot.region.last

/-- The regions with other chunks in the window. -/
def put (win' : List Chunk) : List Region :=
  spot.before ++ { spot.region with inner := spot.left ++ win' ++ spot.right } :: spot.after

theorem region_mem : spot.region ∈ regions := by
  have hmem : spot.region ∈ spot.before ++ spot.region :: spot.after :=
    mem_append_right _ mem_cons_self
  rwa [← spot.regions_eq] at hmem

theorem prev_mem : spot.prev ∈ spot.region.chunks :=
  RegionOk.pred_mem spot.inner_eq

theorem next_mem : spot.next ∈ spot.region.chunks :=
  RegionOk.succ_mem spot.inner_eq

theorem prev_has : Has regions spot.prev := ⟨spot.region, spot.region_mem, spot.prev_mem⟩

theorem next_has : Has regions spot.next := ⟨spot.region, spot.region_mem, spot.next_mem⟩

theorem win_block (spot : Spot regions win) (c : Chunk) (hc : c ∈ win) : Block regions c := by
  refine ⟨spot.region, spot.region_mem, ?_⟩
  rw [spot.inner_eq]
  simp [hc]

theorem chain (ok : Layout g nodelist m regions) :
    (spot.prev :: (win ++ [spot.next])).IsChain (Follows m) :=
  (ok.each spot.region spot.region_mem).window spot.inner_eq

theorem around {x : Chunk} (spot : Spot regions [x]) (ok : Layout g nodelist m regions) :
    Follows m spot.prev x ∧ Follows m x spot.next := by
  have hchain := spot.chain ok
  rw [singleton_append, isChain_cons_cons, isChain_cons_cons] at hchain
  exact ⟨hchain.1, hchain.2.1⟩

theorem around_pair {x y : Chunk} (spot : Spot regions [x, y]) (ok : Layout g nodelist m regions) :
    Follows m spot.prev x ∧ Follows m x y ∧ Follows m y spot.next := by
  have hchain := spot.chain ok
  rw [cons_append, singleton_append, isChain_cons_cons, isChain_cons_cons,
    isChain_cons_cons] at hchain
  exact ⟨hchain.1, hchain.2.1, hchain.2.2.1⟩

/-- Every chunk between guards is a window. -/
theorem of_block (h : Block regions c) : Nonempty (Spot regions [c]) := by
  obtain ⟨r, hr, hc⟩ := h
  obtain ⟨before, after, hregions⟩ := append_of_mem hr
  obtain ⟨left, right, hinner⟩ := append_of_mem hc
  exact ⟨⟨before, after, r, left, right, hregions, by rw [hinner]; simp⟩⟩

/-- A free chunk behind the window is no guard and may join it. -/
theorem widen_next (h : spot.next.alloc = false) :
    ∃ wide : Spot regions (win ++ [spot.next]), wide.prev = spot.prev := by
  obtain ⟨before, after, region, left, right, hregions, hinner⟩ := spot
  cases right with
  | nil => cases h
  | cons n right =>
    exact ⟨⟨before, after, region, left, right, hregions, by rw [hinner]; simp [next, succ]⟩, rfl⟩

theorem next_block (h : spot.next.alloc = false) : Block regions spot.next := by
  obtain ⟨wide, _⟩ := spot.widen_next h
  exact wide.win_block _ (by simp)

/-- A free chunk before the window is no guard and may join it. -/
theorem widen_prev (h : spot.prev.alloc = false) :
    ∃ wide : Spot regions (spot.prev :: win), wide.next = spot.next := by
  obtain ⟨before, after, region, left, right, hregions, hinner⟩ := spot
  cases eq_nil_or_concat left with
  | inl hnil =>
    change (pred region.first left).alloc = false at h
    rw [hnil] at h
    cases h
  | inr hlast =>
    obtain ⟨init, p, hleft⟩ := hlast
    have hprev : pred region.first left = p := by
      rw [hleft, pred, concat_eq_append, getLastD_concat]
    refine ⟨⟨before, after, region, init, right, hregions, ?_⟩, rfl⟩
    rw [hinner, prev, hprev, hleft]
    simp

theorem prev_block (h : spot.prev.alloc = false) : Block regions spot.prev := by
  obtain ⟨wide, _⟩ := spot.widen_prev h
  exact wide.win_block _ (by simp)

theorem separate (ok : Layout g nodelist m regions) :
    (spot.before ++ spot.region :: spot.after).Pairwise Separate := by
  rw [← spot.regions_eq]
  exact ok.separate

/-- A region of the new heap is an old one beside the window's, or the window's. -/
theorem mem_put {win' : List Chunk} {s : Region} (hs : s ∈ spot.put win')
    (ok : Layout g nodelist m regions) :
    (s ∈ regions ∧ Separate s spot.region) ∨
      s = { spot.region with inner := spot.left ++ win' ++ spot.right } := by
  have hsep := spot.separate ok
  have hmem : ∀ t ∈ spot.before ++ spot.region :: spot.after, t ∈ regions := by
    rw [← spot.regions_eq]
    exact fun t ht => ht
  rw [pairwise_append, pairwise_cons] at hsep
  obtain ⟨_, ⟨hafter, _⟩, hbefore⟩ := hsep
  rw [put, mem_append, mem_cons] at hs
  rcases hs with hs | hs | hs
  · exact .inl ⟨hmem s (mem_append_left _ hs), hbefore s hs _ mem_cons_self⟩
  · exact .inr hs
  · exact .inl ⟨hmem s (mem_append_right _ (mem_cons_of_mem _ hs)), (hafter s hs).symm⟩

section

variable (ok : Layout g nodelist m regions)
include ok

theorem not_win_of_separate (s : Region) (hs : s ∈ regions) (hseparate : Separate s spot.region)
    (c : Chunk) (hc : c ∈ s.chunks) : c ∉ win := by
  intro hwin
  have hin : c ∈ spot.region.chunks := by
    rw [chunks_window spot.inner_eq]
    simp [hwin]
  have hb := (ok.each s hs).bounds hc
  have hb' := (ok.each spot.region spot.region_mem).bounds hin
  have hsize := (ok.each s hs).size_ge hc
  unfold Separate at hseparate
  omega

/-- The window shares no chunk with the rest of its region. -/
theorem not_beside (c : Chunk) (hc : c ∈ win) :
    c ≠ spot.region.first ∧ c ∉ spot.left ∧ c ∉ spot.right ∧ c ≠ spot.region.last := by
  have hnodup := (ok.each spot.region spot.region_mem).nodup
  rw [chunks_window spot.inner_eq] at hnodup
  grind

theorem block_put (win' : List Chunk) (c : Chunk) :
    Block (spot.put win') c ↔ (Block regions c ∧ c ∉ win) ∨ c ∈ win' := by
  have hbeside := spot.not_beside ok c
  constructor
  · intro h
    obtain ⟨s, hs, hc⟩ := h
    cases spot.mem_put hs ok with
    | inl hold =>
      have hchunk : c ∈ s.chunks := (mem_chunks s c).mpr (.inr (.inl hc))
      exact .inl ⟨⟨s, hold.1, hc⟩, spot.not_win_of_separate ok s hold.1 hold.2 c hchunk⟩
    | inr hnew =>
      rw [hnew] at hc
      have hblock : c ∈ spot.left ++ win ++ spot.right → Block regions c := by
        rw [← spot.inner_eq]
        exact fun h => ⟨spot.region, spot.region_mem, h⟩
      simp only [mem_append] at hc hblock
      tauto
  · intro h
    have hnew : ∀ d ∈ spot.left ++ win' ++ spot.right, Block (spot.put win') d := fun d hd =>
      ⟨_, mem_append_right _ mem_cons_self, hd⟩
    rcases h with ⟨⟨s, hs, hc⟩, hwin⟩ | hwin
    · rw [spot.regions_eq, mem_append, mem_cons] at hs
      rcases hs with hs | hs | hs
      · exact ⟨s, mem_append_left _ hs, hc⟩
      · apply hnew
        rw [hs, spot.inner_eq] at hc
        simp only [mem_append] at hc ⊢
        tauto
      · exact ⟨s, mem_append_right _ (mem_cons_of_mem _ hs), hc⟩
    · apply hnew
      simp [hwin]

end

end Spot

theorem Layout.replace (ok : Layout g nodelist m regions) (spot : Spot regions win)
    (win' : List Chunk)
    (hout : ∀ a, a < spot.prev.addr + spot.prev.size ∨ spot.next.addr + 8 ≤ a → mh a = m a)
    (hnext : mh spot.next.addr = m spot.next.addr)
    (hchain : (spot.prev :: (win' ++ [spot.next])).IsChain (Follows mh))
    (hsizes : ∀ c ∈ win', mh c.addr = c.size) (hinner : ∀ c ∈ win', 16 ≤ c.size ∧ g ∣ c.size) :
    Layout g nodelist mh (spot.put win') := by
  have hregion := ok.each spot.region spot.region_mem
  refine ⟨?_, ?_, ?_⟩
  · intro s hs
    cases spot.mem_put hs ok with
    | inl hold =>
      obtain ⟨hmem, hseparate⟩ := hold
      apply (ok.each s hmem).congr
      intro c hc
      -- the window and the word behind it lie inside another region
      have hc8 := (ok.each s hmem).size_ge hc
      have hcb := (ok.each s hmem).bounds hc
      have hprev := hregion.bounds spot.prev_mem
      have hnextb := hregion.bounds spot.next_mem
      have hnext8 := hregion.size_ge spot.next_mem
      unfold Separate at hseparate
      exact ⟨hout _ (by omega), hout _ (by omega)⟩
    | inr hnew =>
      rw [hnew]
      exact hregion.replace spot.inner_eq win' hout hnext hchain hsizes
        hinner
  · have hsep := spot.separate ok
    rw [Spot.put]
    rw [pairwise_append, pairwise_cons] at hsep ⊢
    refine ⟨hsep.1, ⟨hsep.2.1.1, hsep.2.1.2⟩, ?_⟩
    intro s hs t ht
    cases mem_cons.mp ht with
    | inl h =>
      rw [h]
      exact hsep.2.2 s hs spot.region mem_cons_self
    | inr h => exact hsep.2.2 s hs t (mem_cons_of_mem _ h)
  · intro s hs
    cases spot.mem_put hs ok with
    | inl hold => exact ok.table s hold.1
    | inr hnew =>
      rw [hnew]
      exact ok.table spot.region spot.region_mem

structure Shape where
  regions : List Region
  seg : Nat → List Nat

structure Inv (g nodelist : Nat) (m : Words) (sh : Shape) : Prop where
  layout : Layout g nodelist m sh.regions
  top : nodelist + 16 * mmNnodes ≤ 2 ^ 32
  list : FreeList nodelist m sh.seg
  free : ∀ x, Listed sh.seg x ↔ ∃ c, Block sh.regions c ∧ c.alloc = false ∧ c.addr = x

def Region.extent (r : Region) : Nat × Nat := (r.start, r.stop)

/-- The heap `sh'` holds the chunks `win'` where `sh` holds `win`. -/
structure Rewrites (sh sh' : Shape) (win win' : List Chunk) : Prop where
  block : ∀ c, Block sh'.regions c ↔ (Block sh.regions c ∧ c ∉ win) ∨ c ∈ win'
  extents : sh'.regions.map Region.extent = sh.regions.map Region.extent

/-- The blocks allocated in `sh` are allocated in `sh'`, those at `given` excepted. -/
structure Keeps (sh sh' : Shape) (given : List Nat) : Prop where
  block : ∀ c, Block sh.regions c → c.alloc = true → c.addr ∉ given → Block sh'.regions c
  extents : sh'.regions.map Region.extent = sh.regions.map Region.extent

variable {sh sh' sh'' : Shape} {given given' : List Nat}

theorem Keeps.trans (h : Keeps sh sh' given) (h' : Keeps sh' sh'' given') :
    Keeps sh sh'' (given ++ given') := by
  refine ⟨?_, h'.extents.trans h.extents⟩
  intro c hc halloc hnot
  rw [mem_append, not_or] at hnot
  exact h'.block c (h.block c hc halloc hnot.1) halloc hnot.2

theorem Rewrites.keeps {win' : List Chunk} (h : Rewrites sh sh' win win')
    (hwin : ∀ c ∈ win, c.alloc = true → c.addr ∈ given) : Keeps sh sh' given := by
  refine ⟨?_, h.extents⟩
  intro c hc halloc hnot
  exact (h.block c).mpr (.inl ⟨hc, fun hmem => hnot (hwin c hmem halloc)⟩)

theorem Spot.rewrites (spot : Spot sh.regions win) (ok : Layout g nodelist m sh.regions)
    (win' : List Chunk) (seg : Nat → List Nat) : Rewrites sh ⟨spot.put win', seg⟩ win win' := by
  refine ⟨spot.block_put ok win', ?_⟩
  have heq : sh.regions.map Region.extent =
      (spot.before ++ spot.region :: spot.after).map Region.extent :=
    congrArg _ spot.regions_eq
  rw [heq, Spot.put, map_append, map_append]
  rfl

theorem Inv.node_apart (inv : Inv g nodelist m sh) (y : Nat) (hy : y ∈ nodes nodelist sh.seg)
    (c : Chunk) (hc : Has sh.regions c) (hne : c.addr ≠ y) :
    y + 16 ≤ c.addr ∨ c.addr + c.size ≤ y := by
  cases mem_nodes.mp hy with
  | inl hhead =>
    obtain ⟨i, hi, heq⟩ := hhead
    rw [heq]
    exact inv.layout.table_apart hi hc
  | inr hlisted =>
    obtain ⟨d, hd, _, hdy⟩ := (inv.free y).mp hlisted
    have hsize := (inv.layout.block_ge hd).1
    have hcd : c ≠ d := fun h => hne (by rw [h, hdy])
    have hdisjoint := inv.layout.disjoint hc hd.has hcd
    unfold Before at hdisjoint
    omega

/-- No word of a chunk that is not on the list is a word of a node. -/
theorem Inv.off_node (inv : Inv g nodelist m sh) (hc : Has sh.regions c) (seg : Nat → List Nat)
    (hsub : ∀ y, Listed seg y → Listed sh.seg y) (hnot : ¬ Listed seg c.addr) (a : Nat)
    (hlow : c.addr ≤ a) (hhigh : a < c.addr + c.size) :
    OffLinks nodelist seg a ∧ a ∉ nodes nodelist seg := by
  have hfar : ∀ y ∈ nodes nodelist seg, y + 16 ≤ a ∨ a < y := by
    intro y hy
    cases mem_nodes.mp hy with
    | inl hhead =>
      obtain ⟨i, hi, heq⟩ := hhead
      have := inv.layout.table_apart hi hc
      omega
    | inr hlisted =>
      have hmem : y ∈ nodes nodelist sh.seg := mem_nodes.mpr (.inr (hsub y hlisted))
      have hne : c.addr ≠ y := fun h => hnot (by rw [h]; exact hlisted)
      have := inv.node_apart y hmem c hc hne
      omega
  refine ⟨?_, ?_⟩
  · intro y hy
    have := hfar y hy
    omega
  · intro hmem
    have := hfar a hmem
    omega

theorem Layout.header_off (ok : Layout g nodelist m regions) (seg : Nat → List Nat)
    (hfree : ∀ x, Listed seg x → ∃ q, Block regions q ∧ q.addr = x) (c : Chunk)
    (hc : Has regions c) :
    OffLinks nodelist seg c.addr ∧ OffLinks nodelist seg (c.addr + 4) ∧
      c.addr + 4 ∉ nodes nodelist seg := by
  have hsize := ok.size_ge hc
  have hfar : ∀ y ∈ nodes nodelist seg, c.addr = y ∨ y + 16 ≤ c.addr ∨ c.addr + 8 ≤ y := by
    intro y hy
    cases mem_nodes.mp hy with
    | inl hhead =>
      obtain ⟨i, hi, heq⟩ := hhead
      have := ok.table_apart hi hc
      omega
    | inr hlisted =>
      obtain ⟨q, hq, hqy⟩ := hfree y hlisted
      have hqsize := (ok.block_ge hq).1
      by_cases heq : c = q
      · exact .inl (by rw [heq, hqy])
      · have := ok.disjoint hc hq.has heq
        unfold Before at this
        omega
  refine ⟨?_, ?_, ?_⟩
  · intro y hy
    have := hfar y hy
    omega
  · intro y hy
    have := hfar y hy
    omega
  · intro hmem
    have := hfar _ hmem
    omega

/-- The invariant after a window has been rewritten. `mh` is the memory with the new
headers, which differs from the old one in the window and in the `preceding` word behind
it; `m'` differs from `mh` in link words only. The list has lost the free chunks of the
old window and holds those of the new one. -/
theorem Inv.replace (inv : Inv g nodelist m sh) (spot : Spot sh.regions win) (win' : List Chunk)
    (seg' : Nat → List Nat)
    (hout : ∀ a, a < spot.prev.addr + spot.prev.size ∨ spot.next.addr + 8 ≤ a → mh a = m a)
    (hnext : mh spot.next.addr = m spot.next.addr)
    (hchain : (spot.prev :: (win' ++ [spot.next])).IsChain (Follows mh))
    (hsizes : ∀ c ∈ win', mh c.addr = c.size) (hinner : ∀ c ∈ win', 16 ≤ c.size ∧ g ∣ c.size)
    (hnear : ∀ a, OffLinks nodelist seg' a → m' a = mh a) (hlist : FreeList nodelist m' seg')
    (hlisted : ∀ x, Listed seg' x ↔ (Listed sh.seg x ∧ ∀ c ∈ win, c.addr ≠ x) ∨ ∃ c ∈ win', c.alloc = false ∧ c.addr = x) :
    Inv g nodelist m' ⟨spot.put win', seg'⟩ := by
  have hlayout : Layout g nodelist mh (spot.put win') :=
    inv.layout.replace spot win' hout hnext hchain hsizes hinner
  have hput := spot.block_put inv.layout win'
  have hfree : ∀ x, Listed seg' x ↔ ∃ c, Block (spot.put win') c ∧ c.alloc = false ∧ c.addr = x := by
    intro x
    rw [hlisted]
    constructor
    · intro h
      rcases h with ⟨hx, hwin⟩ | ⟨c, hc, hfree, hcx⟩
      · obtain ⟨q, hq, hfree, hqx⟩ := (inv.free x).mp hx
        exact ⟨q, (hput q).mpr (.inl ⟨hq, fun h => hwin q h hqx⟩), hfree, hqx⟩
      · exact ⟨c, (hput c).mpr (.inr hc), hfree, hcx⟩
    · intro h
      obtain ⟨c, hc, hfree, hcx⟩ := h
      cases (hput c).mp hc with
      | inl hold =>
        refine .inl ⟨(inv.free x).mpr ⟨c, hold.1, hfree, hcx⟩, ?_⟩
        intro d hd hdx
        have heq := inv.layout.eq_of_addr (spot.win_block d hd).has hold.1.has
          (by rw [hdx, hcx])
        rw [heq] at hd
        exact hold.2 hd
      | inr hnew => exact .inr ⟨c, hnew, hfree, hcx⟩
  -- no header of the new chunks is a link word
  have hwords : ∀ c, Has (spot.put win') c →
      m' c.addr = mh c.addr ∧ m' (c.addr + 4) = mh (c.addr + 4) := by
    intro c hc
    have hoff := hlayout.header_off seg'
      (fun x hx => by
        obtain ⟨q, hq, _, hqx⟩ := (hfree x).mp hx
        exact ⟨q, hq, hqx⟩) c hc
    exact ⟨hnear _ hoff.1, hnear _ hoff.2.1⟩
  exact ⟨hlayout.congr hwords, inv.top, hlist, hfree⟩

end NbLot.Source.Heap
