import NbLot.Lib.Transition
import NbLot.Source.Heap.Memalign
import NbLot.Source.Heap.Regions

/-!
# Runs of heap calls

Source: nuttx/mm/mm_heap/mm_initialize.c, mm_extend.c (the assertions on its arguments),
mm_malloc.c, mm_free.c, mm_realloc.c, mm_memalign.c.

A run is a list of calls; between them the program stores into the blocks it holds.
`live` are the pointers it has received and not given back. `callOk` is what the caller
of each function promises, `heapStep_spec` that a call then returns and keeps the
invariant.
-/
namespace NbLot.Source.Heap
open Lib List Words

inductive HeapOp where
  | init (heapstart heapsize : Nat)
  | addregion (heapstart heapsize : Nat)
  | extend (mem size region : Nat)
  | malloc (size : Nat)
  | free (mem : Nat)
  | realloc (oldmem size : Nat)
  | memalign (alignment size : Nat)
  | store (a v : Nat)
  deriving DecidableEq, Repr

structure HeapState where
  heap : MmHeap
  live : List Nat

/-- The pointer a call returned, unless it is NULL. -/
def remember (mem : Nat) (live : List Nat) : List Nat := if mem = 0 then live else mem :: live

/-- The state after a call that changed memory. -/
def HeapState.after (s : HeapState) (mem : Words) (live : List Nat) : HeapState :=
  ⟨{ s.heap with mem := mem }, live⟩

def heapStep (s : HeapState) : HeapOp → Option HeapState
  | .init heapstart heapsize => (mmInitialize s.heap heapstart heapsize).map (⟨·, []⟩)
  | .addregion heapstart heapsize => (mmAddregion s.heap heapstart heapsize).map (⟨·, s.live⟩)
  | .extend mem size region => (mmExtend s.heap mem size region).map (⟨·, s.live⟩)
  | .malloc size => (mmMalloc s.heap.nodelist s.heap.mem size).map fun (m, mem) =>
      s.after m (remember mem s.live)
  | .free mem => (mmFree s.heap.nodelist s.heap.mem mem).map fun m =>
      s.after m (s.live.filter (· ≠ mem))
  | .realloc oldmem size => (mmRealloc s.heap.nodelist s.heap.mem oldmem size).map fun (m, mem) =>
      -- a call that fails leaves the old block allocated
      if mem = 0 ∧ size ≠ 0 then s.after m s.live
      else s.after m (remember mem (s.live.filter (· ≠ oldmem)))
  | .memalign alignment size =>
    (mmMemalign s.heap.nodelist s.heap.mem alignment size).map fun (m, mem) =>
      s.after m (remember mem s.live)
  | .store a v => some (s.after (s.heap.mem.set a v) s.live)

/-- A region has room for its guards and one free node, and neither wraps around nor is
larger than the header words can say. -/
def RegionFits (heapstart heapsize : Nat) : Prop :=
  heapstart + heapsize < addresses ∧
    mmAlignUp heapstart + 32 ≤ mmAlignDown (heapstart + heapsize) ∧
    mmAlignDown (heapstart + heapsize) < mmAlignUp heapstart + 2 ^ 31

/-- The addresses from `lo` to `hi` belong neither to the node array nor to a region. -/
def AreaFree (h : MmHeap) (lo hi : Nat) : Prop :=
  (hi ≤ h.nodelist ∨ h.nodelist + 16 * mmNnodes ≤ lo) ∧
    ∀ e ∈ h.heapstart.zip h.heapend, e.2 + 8 ≤ lo ∨ hi ≤ e.1

/-- What the caller promises. -/
def callOk (s : HeapState) : HeapOp → Prop
  | .init heapstart heapsize =>
    RegionFits heapstart heapsize ∧ s.heap.nodelist + 16 * mmNnodes ≤ addresses ∧
      (mmAlignDown (heapstart + heapsize) ≤ s.heap.nodelist ∨
        s.heap.nodelist + 16 * mmNnodes ≤ mmAlignUp heapstart)
  | .addregion heapstart heapsize =>
    s.heap.heapstart.length < configMmRegions ∧ RegionFits heapstart heapsize ∧
      AreaFree s.heap (mmAlignUp heapstart) (mmAlignDown (heapstart + heapsize))
  | .extend mem size region =>
    -- the assertions of mm_extend, and memory that is free to use
    16 ≤ size ∧ size % 16 = 0 ∧ mem + size < addresses ∧
      (∃ e ∈ (s.heap.heapstart.zip s.heap.heapend)[region]?,
        mem = e.2 + 8 ∧ mem + size < e.1 + 2 ^ 31) ∧
      AreaFree s.heap mem (mem + size)
  | .malloc size => size < 2 ^ 31
  | .free mem => mem = 0 ∨ mem ∈ s.live
  | .realloc oldmem size => (oldmem = 0 ∨ oldmem ∈ s.live) ∧ size < 2 ^ 31
  | .memalign alignment size =>
    mmMinChunk < alignment ∧ alignment = 2 ^ alignment.log2 ∧ size < 2 ^ 31
  | .store a _ => ∃ mem ∈ s.live, mem ≤ a ∧ a < mem - 8 + s.heap.mem (mem - 8)

instance (heapstart heapsize : Nat) : Decidable (RegionFits heapstart heapsize) :=
  inferInstanceAs (Decidable (_ ∧ _ ∧ _))

instance (h : MmHeap) (lo hi : Nat) : Decidable (AreaFree h lo hi) :=
  inferInstanceAs (Decidable ((_ ∨ _) ∧ ∀ e ∈ h.heapstart.zip h.heapend, _ ∨ _))

instance (s : HeapState) : (op : HeapOp) → Decidable (callOk s op)
  | .init _ _ => inferInstanceAs (Decidable (_ ∧ _ ∧ (_ ∨ _)))
  | .addregion _ _ => inferInstanceAs (Decidable (_ ∧ _ ∧ _))
  | .extend _ _ region =>
    inferInstanceAs (Decidable (_ ∧ _ ∧ _ ∧
      (∃ e ∈ (s.heap.heapstart.zip s.heap.heapend)[region]?, _ ∧ _) ∧ _))
  | .malloc _ => inferInstanceAs (Decidable (_ < _))
  | .free _ => inferInstanceAs (Decidable (_ ∨ _))
  | .realloc _ _ => inferInstanceAs (Decidable ((_ ∨ _) ∧ _))
  | .memalign _ _ => inferInstanceAs (Decidable (_ ∧ _ ∧ _))
  | .store _ _ => inferInstanceAs (Decidable (∃ mem ∈ s.live, _ ∧ _))

/-- The regions of the heap are those its two arrays name. -/
structure HeapInv (g : Nat) (h : MmHeap) (sh : Shape) : Prop where
  inv : Inv g h.nodelist h.mem sh
  starts : h.heapstart = sh.regions.map Region.start
  ends : h.heapend = sh.regions.map Region.stop

/-- Every pointer held is that of an allocated chunk. -/
def Live (sh : Shape) (live : List Nat) : Prop :=
  ∀ mem ∈ live, ∃ c, Block sh.regions c ∧ c.alloc = true ∧ mem = c.addr + 8

def RunInv (g : Nat) (s : HeapState) : Prop := ∃ sh, HeapInv g s.heap sh ∧ Live sh s.live

variable {g : Nat} {s : HeapState} {h : MmHeap} {sh sh' : Shape} {live : List Nat}

section

variable (hlive : Live sh live)
include hlive

theorem Live.keep (hkeeps : Keeps sh sh' []) : Live sh' live := by
  intro mem hmem
  obtain ⟨c, hc, halloc, heq⟩ := hlive mem hmem
  exact ⟨c, hkeeps.block c hc halloc nofun, halloc, heq⟩

theorem Live.filter (keep : Nat → Bool) : Live sh (live.filter keep) :=
  fun mem hmem => hlive mem (mem_of_mem_filter hmem)

theorem Live.drop (x : Nat) (hkeeps : Keeps sh sh' [x]) : Live sh' (live.filter (· ≠ x + 8)) := by
  intro mem hmem
  simp only [decide_not, mem_filter, Bool.not_eq_eq_eq_not, Bool.not_true,
    decide_eq_false_iff_not] at hmem
  obtain ⟨c, hc, halloc, heq⟩ := hlive mem hmem.1
  refine ⟨c, hkeeps.block c hc halloc ?_, halloc, heq⟩
  rw [mem_singleton]
  intro hcx
  rw [hcx] at heq
  exact hmem.2 heq

theorem Live.add (c : Chunk) (hc : Block sh.regions c) (halloc : c.alloc = true) :
    Live sh (remember (c.addr + 8) live) := by
  intro mem hmem
  unfold remember at hmem
  cases mem_cons.mp hmem with
  | inl heq => exact ⟨c, hc, halloc, heq⟩
  | inr hold => exact hlive mem hold

end

theorem starts_of_extents {regions regions' : List Region}
    (h : regions'.map Region.extent = regions.map Region.extent) :
    regions'.map Region.start = regions.map Region.start ∧
      regions'.map Region.stop = regions.map Region.stop := by
  have hfst := congrArg (List.map Prod.fst) h
  have hsnd := congrArg (List.map Prod.snd) h
  simp only [map_map] at hfst hsnd
  exact ⟨hfst, hsnd⟩

theorem HeapInv.after (hinv : HeapInv g h sh) (m : Words) (hm : Inv g h.nodelist m sh')
    (hextents : sh'.regions.map Region.extent = sh.regions.map Region.extent) :
    HeapInv g { h with mem := m } sh' := by
  obtain ⟨hstarts, hends⟩ := starts_of_extents hextents
  exact ⟨hm, hinv.starts.trans hstarts.symm, hinv.ends.trans hends.symm⟩

theorem malloc_step (hrun : RunInv g s) (hg : g ∣ 16) (size : Nat) (hsize : size < 2 ^ 31) :
    ∃ t, heapStep s (.malloc size) = some t ∧ RunInv g t := by
  obtain ⟨sh, hinv, hlive⟩ := hrun
  simp only [heapStep]
  rcases mmMalloc_spec hinv.inv hg size (by omega) with
    ⟨hnull, -⟩ | ⟨m', sh', x, c, hmalloc, hm, hcarved, -⟩
  · rw [hnull]
    exact ⟨_, rfl, sh, hinv, hlive⟩
  · rw [hmalloc]
    exact ⟨_, rfl, sh', hinv.after m' hm hcarved.keeps.extents,
      (hlive.keep hcarved.keeps).add c hcarved.new hcarved.alloc⟩

theorem free_step (hrun : RunInv g s) (mem : Nat) (hmem : mem = 0 ∨ mem ∈ s.live) :
    ∃ t, heapStep s (.free mem) = some t ∧ RunInv g t := by
  obtain ⟨sh, hinv, hlive⟩ := hrun
  simp only [heapStep]
  rcases hmem with hnull | hmem
  · have hfree : mmFree s.heap.nodelist s.heap.mem mem = some s.heap.mem := if_pos hnull
    rw [hfree]
    exact ⟨_, rfl, sh, hinv, hlive.filter _⟩
  · obtain ⟨c, hc, halloc, heq⟩ := hlive mem hmem
    obtain ⟨m', sh', hfree, hm, hkeeps⟩ := mmFree_spec hinv.inv c hc halloc
    rw [heq, hfree]
    exact ⟨_, rfl, sh', hinv.after m' hm hkeeps.extents, hlive.drop c.addr hkeeps⟩

theorem realloc_step (hrun : RunInv g s) (h8g : 8 ∣ g) (hg : g ∣ 16) {oldmem size : Nat}
    (hmem : oldmem = 0 ∨ oldmem ∈ s.live) (hsize : size < 2 ^ 31)
    (hsliver : oldmem ≠ 0 → leavesSliver s.heap.mem oldmem size = false) :
    ∃ t, heapStep s (.realloc oldmem size) = some t ∧ RunInv g t := by
  obtain ⟨sh, hinv, hlive⟩ := hrun
  simp only [heapStep]
  rcases hmem with hnull | hmem
  · have hrealloc : mmRealloc s.heap.nodelist s.heap.mem oldmem size =
        mmMalloc s.heap.nodelist s.heap.mem size := if_pos hnull
    rw [hrealloc]
    rcases mmMalloc_spec hinv.inv hg size (by omega) with
      ⟨hfail, -⟩ | ⟨m', sh', x, c, hmalloc, hm, hcarved, -⟩
    · rw [hfail]
      refine ⟨_, rfl, sh, ?_⟩
      simp only [remember]
      split
      · exact ⟨hinv, hlive⟩
      · exact ⟨hinv, hlive.filter _⟩
    · rw [hmalloc]
      refine ⟨_, rfl, sh', ?_⟩
      exact ⟨hinv.after m' hm hcarved.keeps.extents,
        ((hlive.filter _).keep hcarved.keeps).add c hcarved.new hcarved.alloc⟩
  · obtain ⟨c, hc, halloc, heq⟩ := hlive oldmem hmem
    rw [heq] at hsliver ⊢
    obtain ⟨m', sh', out, hrealloc, hm, hout, _⟩ := mmRealloc_spec hinv.inv h8g hg hc halloc
      (by omega) (hsliver (by omega))
    rw [hrealloc]
    cases hout with
    | freed hzero hkeeps =>
      refine ⟨_, rfl, sh', ?_⟩
      simp only [hzero]
      exact ⟨hinv.after m' hm hkeeps.extents, hlive.drop c.addr hkeeps⟩
    | failed hpos hsame =>
      refine ⟨_, rfl, sh', ?_⟩
      simp only [hpos, ne_eq]
      rw [hsame] at hm ⊢
      exact ⟨hinv.after m' hm rfl, hlive⟩
    | moved hpos c' hresized =>
      refine ⟨_, rfl, sh', ?_⟩
      exact ⟨hinv.after m' hm hresized.keeps.extents,
        (hlive.drop c.addr hresized.keeps).add c' hresized.block hresized.alloc⟩

theorem memalign_step (hrun : RunInv 8 s) {alignment size : Nat} (hmin : mmMinChunk < alignment)
    (hpow : alignment = 2 ^ alignment.log2) (hpos : 1 ≤ size) (hsize : size < 2 ^ 31)
    (hfit : mmAlignUp size + 2 * alignment + 23 < 2 ^ 32) :
    ∃ t, heapStep s (.memalign alignment size) = some t ∧ RunInv 8 t := by
  obtain ⟨sh, hinv, hlive⟩ := hrun
  have hk : 5 ≤ alignment.log2 := by
    by_contra hlt
    have hle : 2 ^ alignment.log2 ≤ 2 ^ 4 := Nat.pow_le_pow_right (by decide) (by omega)
    unfold mmMinChunk mmMinShift at hmin
    omega
  rw [hpow] at hfit
  have hspec := mmMemalign_spec hinv.inv hk hpos hsize hfit
  rw [← hpow] at hspec
  simp only [heapStep]
  rcases hspec with hnull | ⟨m', sh', c, hmemalign, hm, hkeeps, hc, halloc⟩
  · rw [hnull]
    exact ⟨_, rfl, sh, hinv, hlive⟩
  · rw [hmemalign]
    exact ⟨_, rfl, sh', hinv.after m' hm hkeeps.extents, (hlive.keep hkeeps).add c hc halloc⟩

theorem store_step (hrun : RunInv g s) (a v : Nat)
    (hin : ∃ mem ∈ s.live, mem ≤ a ∧ a < mem - 8 + s.heap.mem (mem - 8)) :
    ∃ t, heapStep s (.store a v) = some t ∧ RunInv g t := by
  obtain ⟨sh, hinv, hlive⟩ := hrun
  obtain ⟨mem, hmem, hlow, hhigh⟩ := hin
  obtain ⟨c, hc, halloc, heq⟩ := hlive mem hmem
  rw [heq, Nat.add_sub_cancel, hinv.inv.layout.size_eq hc.has] at hhigh
  rw [heq] at hlow
  exact ⟨_, rfl, sh, hinv.after _ (hinv.inv.store c hc halloc a v hlow hhigh) rfl, hlive⟩

theorem HeapInv.unused (hinv : HeapInv g h sh) (lo hi : Nat) (harea : AreaFree h lo hi) :
    Unused h.nodelist sh.regions lo hi := by
  refine ⟨harea.1, ?_⟩
  intro r hr
  apply harea.2 (r.start, r.stop)
  rw [hinv.starts, hinv.ends, zip_map']
  exact mem_map_of_mem hr

theorem mmAlignDown_eq (a : Nat) (h : a < 2 ^ 32) : mmAlignDown a = 16 * (a / 16) :=
  clear32_mask 4 h

theorem mmAddregion_spec (hinv : HeapInv g h sh) (hg : g ∣ 16) {heapstart heapsize : Nat}
    (hcount : h.heapstart.length < configMmRegions) (hfits : RegionFits heapstart heapsize)
    (hunused : Unused h.nodelist sh.regions (mmAlignUp heapstart)
      (mmAlignDown (heapstart + heapsize))) :
    ∃ h' r seg', mmAddregion h heapstart heapsize = some h' ∧
      HeapInv g h' ⟨sh.regions ++ [r], seg'⟩ := by
  obtain ⟨hwrap, hroom, hspan⟩ := hfits
  unfold addresses at hwrap
  have hbase : mmAlignUp heapstart % 16 = 0 := by
    have heq : mmAlignUp heapstart = 16 * (add32 heapstart mmGranMask / 16) :=
      clear32_mask 4 (Nat.mod_lt _ (by decide))
    omega
  have hfin : mmAlignDown (heapstart + heapsize) % 16 = 0 := by
    rw [mmAlignDown_eq _ hwrap]
    omega
  have htop : mmAlignDown (heapstart + heapsize) < 2 ^ 32 := by
    rw [mmAlignDown_eq _ hwrap]
    omega
  have hadd : add32 heapstart heapsize = heapstart + heapsize := add32_of_lt hwrap
  unfold mmAddregion
  rw [if_pos hcount]
  simp only [hadd]
  generalize mmAlignUp heapstart = base at *
  generalize mmAlignDown (heapstart + heapsize) = fin at *
  obtain ⟨m', seg', hm, hnew⟩ := hinv.inv.new_region hg hbase hfin hroom hspan
    (Nat.le_of_lt htop) hunused
  have hsub : sub32 (sub32 fin base) (2 * sizeofMmAllocnode) = fin - base - 16 := by
    unfold sizeofMmAllocnode
    rw [sub32_of_le (by omega) htop, sub32_of_le (by omega) (by omega)]
  have hread : (((((h.mem.set base sizeofMmAllocnode).set (base + 4) mmAllocBit).set
      (base + sizeofMmAllocnode) (fin - base - 16)).set (base + sizeofMmAllocnode + 4)
      sizeofMmAllocnode).set (fin - sizeofMmAllocnode) sizeofMmAllocnode)
      (base + sizeofMmAllocnode) = fin - base - 16 := by
    unfold sizeofMmAllocnode
    simp (disch := omega) only [set_of_ne, set_same]
  rw [hsub, hread, set_alloc (by omega)]
  refine ⟨{ h with
      mem := m'
      heapsize := add32 h.heapsize (sub32 fin base)
      heapstart := h.heapstart ++ [base]
      heapend := h.heapend ++ [fin - sizeofMmAllocnode] },
    ⟨base, [⟨base + 8, fin - base - 16, false⟩], fin - 8⟩, seg', ?_, hnew, ?_, ?_⟩
  · change Option.map _ (mmAddfreechunk h.nodelist (regionWords h.mem base fin) (base + 8)) = _
    rw [hm]
    rfl
  · simp [hinv.starts]
  · simp [hinv.ends, sizeofMmAllocnode]

theorem addregion_step (hrun : RunInv g s) (hg : g ∣ 16) {heapstart heapsize : Nat}
    (hcall : callOk s (.addregion heapstart heapsize)) :
    ∃ t, heapStep s (.addregion heapstart heapsize) = some t ∧ RunInv g t := by
  obtain ⟨sh, hinv, hlive⟩ := hrun
  obtain ⟨hcount, hfits, harea⟩ := hcall
  obtain ⟨h', r, seg', hadd, hinv'⟩ := mmAddregion_spec hinv hg hcount hfits
    (hinv.unused _ _ harea)
  simp only [heapStep, hadd]
  refine ⟨_, rfl, _, hinv', ?_⟩
  intro mem hmem
  obtain ⟨c, ⟨q, hq, hc⟩, halloc, heq⟩ := hlive mem hmem
  exact ⟨c, ⟨q, mem_append_left _ hq, hc⟩, halloc, heq⟩

theorem init_step (hg : g ∣ 16) (heapstart heapsize : Nat)
    (hcall : callOk s (.init heapstart heapsize)) :
    ∃ t, heapStep s (.init heapstart heapsize) = some t ∧ RunInv g t := by
  obtain ⟨hfits, htop, htable⟩ := hcall
  have hinv : HeapInv g ⟨initNodelist s.heap.nodelist s.heap.mem, s.heap.nodelist, 0, [], []⟩
      ⟨[], fun _ => []⟩ := ⟨initNodelist_inv htop, rfl, rfl⟩
  obtain ⟨h', r, seg', hadd, hinv'⟩ := mmAddregion_spec hinv hg Nat.two_pos
    hfits ⟨htable, nofun⟩
  simp only [heapStep, mmInitialize, hadd]
  exact ⟨_, rfl, _, hinv', nofun⟩

theorem mmExtend_spec (hinv : HeapInv g h sh) (hg : g ∣ 16) {mem size region : Nat} {r : Region}
    (hr : sh.regions[region]? = some r) (h16 : 16 ≤ size) (hgran : size % 16 = 0)
    (hmem : mem = r.stop + 8) (hwrap : mem + size < 2 ^ 32) (hspan : mem + size < r.start + 2 ^ 31)
    (hunused : Unused h.nodelist sh.regions mem (mem + size)) :
    ∃ h' sh', mmExtend h mem size region = some h' ∧ HeapInv g h' sh' ∧
      ∀ c, Block sh.regions c → c.alloc = true → Block sh'.regions c := by
  obtain ⟨hlt, hget⟩ := List.getElem?_eq_some_iff.mp hr
  have hregions : sh.regions = sh.regions.take region ++ r :: sh.regions.drop (region + 1) := by
    rw [← hget, getElem_cons_drop, take_append_drop]
  have hgrow := hinv.inv.grow_region _ _ r hregions size h16 (hg.trans (Nat.dvd_of_mod_eq_zero hgran))
    (by omega) (by omega)
    (by
      have heq : r.stop + size + 8 = mem + size := by omega
      rw [heq, ← hmem]
      exact hunused)
  have hblock : Block (sh.regions.take region ++ r.grow size :: sh.regions.drop (region + 1))
      ⟨r.stop, size, true⟩ :=
    ⟨r.grow size, mem_append_right _ mem_cons_self, by simp [Region.grow]⟩
  obtain ⟨m', sh', hfree, hm, hkeeps⟩ := mmFree_spec hgrow _ hblock rfl
  obtain ⟨hstarts, hends⟩ := starts_of_extents hkeeps.extents
  have hlast : h.heapend[region]? = some r.stop := by
    rw [hinv.ends, getElem?_map, hr]
    rfl
  have hrmem : r ∈ sh.regions := mem_of_getElem? hr
  have hguard : r.last ∈ r.chunks := (mem_chunks r _).mpr (.inr (.inr rfl))
  have hstart : r.start ≤ r.stop := ((hinv.inv.layout.each r hrmem).bounds hguard).1
  have hnew : mem + size - 8 = r.stop + size := by omega
  refine ⟨{ h with mem := m', heapend := h.heapend.set region (r.stop + size) }, sh', ?_,
    ⟨hm, ?_, ?_⟩, ?_⟩
  · unfold mmExtend
    simp only [hlast, add32_of_lt hwrap, sizeofMmAllocnode, hnew]
    rw [set_of_ne (by omega), set_same, set_alloc (by omega), hmem]
    change Option.map _ (mmFree h.nodelist (extendWords h.mem r.stop size) (r.stop + 8)) = _
    rw [hfree]
    rfl
  · rw [hstarts, map_append]
    change h.heapstart = (sh.regions.take region).map Region.start ++ r.start :: _
    rw [← map_cons, ← map_append, ← hregions, hinv.starts]
  · rw [hends, hinv.ends, set_eq_take_append_cons_drop,
      if_pos (by rw [length_map]; exact hlt), map_append, map_cons, map_take,
      map_drop]
    rfl
  · -- the old guard was no block
    intro c hc halloc
    have hne : c.addr ≠ r.stop := by
      intro heq
      have hclast := hinv.inv.layout.eq_of_addr hc.has ⟨r, hrmem, hguard⟩ heq
      have hc16 := (hinv.inv.layout.block_ge hc).1
      rw [hclast] at hc16
      exact absurd hc16 (by simp [Region.last, sizeofMmAllocnode])
    apply hkeeps.block c _ halloc (by simpa using hne)
    obtain ⟨q, hq, hc⟩ := hc
    rw [hregions, mem_append, mem_cons] at hq
    rcases hq with h | h | h
    · exact ⟨q, mem_append_left _ h, hc⟩
    · rw [h] at hc
      exact ⟨r.grow size, mem_append_right _ mem_cons_self, mem_append_left _ hc⟩
    · exact ⟨q, mem_append_right _ (mem_cons_of_mem _ h), hc⟩

theorem extend_step (hrun : RunInv g s) (hg : g ∣ 16) {mem size region : Nat}
    (hcall : callOk s (.extend mem size region)) :
    ∃ t, heapStep s (.extend mem size region) = some t ∧ RunInv g t := by
  obtain ⟨sh, hinv, hlive⟩ := hrun
  obtain ⟨h16, hgran, hwrap, ⟨e, he, hmem, hspan⟩, harea⟩ := hcall
  rw [hinv.starts, hinv.ends, zip_map', getElem?_map, Option.mem_def, Option.map_eq_some_iff] at he
  obtain ⟨r, hr, her⟩ := he
  rw [← her] at hmem hspan
  obtain ⟨h', sh', hextend, hinv', hkept⟩ := mmExtend_spec hinv hg hr h16 hgran
    hmem hwrap hspan (hinv.unused _ _ harea)
  simp only [heapStep, hextend]
  refine ⟨_, rfl, sh', hinv', ?_⟩
  intro p hp
  obtain ⟨c, hc, halloc, heq⟩ := hlive p hp
  exact ⟨c, hkept c hc halloc, halloc, heq⟩

/-- What keeps the sizes at multiples of 8 with no chunk below 16 bytes: mm_realloc leaves
no sliver of a neighbour, and mm_memalign is asked for at least one byte and for so little
that the size it computes does not wrap around. -/
def keepsNodes (s : HeapState) : HeapOp → Prop
  | .realloc oldmem size => oldmem = 0 ∨ leavesSliver s.heap.mem oldmem size = false
  | .memalign alignment size => 1 ≤ size ∧ mmAlignUp size + 2 * alignment + 23 < addresses
  | _ => True

instance (s : HeapState) : (op : HeapOp) → Decidable (keepsNodes s op)
  | .init _ _ => .isTrue trivial
  | .addregion _ _ => .isTrue trivial
  | .extend _ _ _ => .isTrue trivial
  | .malloc _ => .isTrue trivial
  | .free _ => .isTrue trivial
  | .realloc _ _ => inferInstanceAs (Decidable (_ ∨ _))
  | .memalign _ _ => inferInstanceAs (Decidable (_ ∧ _))
  | .store _ _ => .isTrue trivial

def usesMemalign : HeapOp → Bool
  | .memalign _ _ => true
  | _ => false

/-- Every call returns and keeps the invariant. -/
theorem heapStep_spec (h8g : 8 ∣ g) (hg : g ∣ 16) (op : HeapOp) (hrun : RunInv g s)
    (hcall : callOk s op) (hnodes : keepsNodes s op) (hmemalign : usesMemalign op = true → g = 8) :
    ∃ t, heapStep s op = some t ∧ RunInv g t := by
  cases op with
  | init heapstart heapsize => exact init_step hg heapstart heapsize hcall
  | addregion heapstart heapsize => exact addregion_step hrun hg hcall
  | extend mem size region => exact extend_step hrun hg hcall
  | malloc size => exact malloc_step hrun hg size hcall
  | free mem => exact free_step hrun mem hcall
  | realloc oldmem size =>
    exact realloc_step hrun h8g hg hcall.1 hcall.2 hnodes.resolve_left
  | memalign alignment size =>
    have hgran : g = 8 := hmemalign rfl
    rw [hgran] at hrun ⊢
    obtain ⟨hmin, hpow, hsize⟩ := hcall
    exact memalign_step hrun hmin hpow hnodes.1 hsize hnodes.2
  | store a v => exact store_step hrun a v hcall

/-- With granules of 16 bytes no growing mm_realloc leaves a sliver. -/
theorem keepsNodes_of_granules (op : HeapOp) (hrun : RunInv 16 s) (hcall : callOk s op)
    (hmemalign : usesMemalign op = false) : keepsNodes s op := by
  cases op with
  | realloc oldmem size =>
    obtain ⟨sh, hinv, hlive⟩ := hrun
    obtain ⟨hmem, hsize⟩ := hcall
    apply hmem.imp_right
    intro hmem
    obtain ⟨c, hc, _, heq⟩ := hlive oldmem hmem
    rw [heq]
    exact no_sliver hinv.inv hc size (by omega)
  | memalign alignment size => cases hmemalign
  | init _ _ => trivial
  | addregion _ _ => trivial
  | extend _ _ _ => trivial
  | malloc _ => trivial
  | free _ => trivial
  | store _ _ => trivial

end NbLot.Source.Heap
