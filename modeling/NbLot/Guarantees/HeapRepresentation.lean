import NbLot.Source.Heap.Runs

/-!
# The heap representation over whole runs

After every call of mm_initialize, mm_addregion, mm_extend, mm_malloc, mm_free and
mm_realloc the chunks tile the regions, the header words agree with the tiling, and the
free list holds exactly the free chunks, sorted into the buckets by size. The callers
hand over regions that hold at least one free node between their guards: mm_addregion
itself does not check it, and with a region of 16 bytes it links the end guard.
-/
namespace NbLot.Guarantees.HeapRepresentation
open Lib Lib.Transition Source.Heap List

/-- The chunks `regions` and the buckets `seg` are what memory and the two arrays of the
heap describe. The first and the last chunk of a region are its guards. -/
structure Represents (h : MmHeap) (regions : List Region) (seg : Nat → List Nat) : Prop where
  starts : h.heapstart = regions.map Region.start
  ends : h.heapend = regions.map Region.stop
  sizes : ∀ r ∈ regions, ∀ c ∈ r.chunks, h.mem c.addr = c.size
  granules : ∀ r ∈ regions, ∀ c ∈ r.inner, mmMinChunk ∣ c.size ∧ 0 < c.size
  tiled : ∀ r ∈ regions, r.chunks.IsChain fun p c => c.addr = p.addr + p.size
  preceding : ∀ r ∈ regions, r.chunks.IsChain fun p c =>
    clear32 (h.mem (c.addr + 4)) mmAllocBit = p.size
  allocBit : ∀ r ∈ regions, ∀ c ∈ r.chunks,
    c.alloc = false ↔ h.mem (c.addr + 4) &&& mmAllocBit = 0
  merged : ∀ r ∈ regions, r.chunks.IsChain fun p c => p.alloc = true ∨ c.alloc = true
  linked : Linked (fun x => h.mem (x + 8)) (fun x => h.mem (x + 12)) (nodes h.nodelist seg) 0
  once : (nodes h.nodelist seg).Nodup
  free : ∀ x, Listed seg x ↔ ∃ r ∈ regions, ∃ c ∈ r.chunks, c.alloc = false ∧ c.addr = x
  bucket : ∀ i < mmNnodes, ∀ x ∈ seg i, mmSize2ndx (h.mem x) = i
  sorted : ∀ i < mmNnodes, (seg i).Pairwise fun x y => h.mem x ≤ h.mem y

theorem free_is_inner (r : Region) (c : Chunk) (hc : c ∈ r.chunks) (hfree : c.alloc = false) :
    c ∈ r.inner := by
  rcases (mem_chunks r c).mp hc with h | h | h
  · rw [h] at hfree
    cases hfree
  · exact h
  · rw [h] at hfree
    cases hfree

theorem represents_of_inv {h : MmHeap} {sh : Shape} (hinv : HeapInv 16 h sh) :
    Represents h sh.regions sh.seg := by
  have hregion := hinv.inv.layout.each
  refine ⟨hinv.starts, hinv.ends, fun r hr => (hregion r hr).sizes, ?_, ?_, ?_, ?_, ?_,
    hinv.inv.list.linked, nodup_of_apart _ hinv.inv.list.apart, ?_, hinv.inv.list.bucket,
    hinv.inv.list.sorted⟩
  · intro r hr c hc
    obtain ⟨h16, hgran⟩ := (hregion r hr).inner c hc
    exact ⟨hgran, by omega⟩
  · intro r hr
    exact (hregion r hr).chain.imp fun _ _ hpc => hpc.addr
  · intro r hr
    apply (hregion r hr).chain.imp_of_mem_imp
    intro p c hp _ hpc
    rw [hpc.preceding, clear_alloc ((hregion r hr).size_lt hp)]
  · intro r hr c hc
    obtain ⟨p, hp, hword⟩ := (hregion r hr).tag_word hc
    rw [hword, alloc_bit_clear_iff hp]
  · intro r hr
    exact (hregion r hr).chain.imp fun _ _ hpc => hpc.notBothFree
  · intro x
    rw [hinv.inv.free]
    constructor
    · intro hx
      obtain ⟨c, ⟨r, hr, hc⟩, hfree, hcx⟩ := hx
      exact ⟨r, hr, c, (mem_chunks r c).mpr (.inr (.inl hc)), hfree, hcx⟩
    · intro hx
      obtain ⟨r, hr, c, hc, hfree, hcx⟩ := hx
      exact ⟨c, ⟨r, hr, free_is_inner r c hc hfree⟩, hfree, hcx⟩

/-- A call whose caller keeps its promises, other than mm_memalign. -/
def PlainCall (s : HeapState) (op : HeapOp) : Prop := callOk s op ∧ usesMemalign op = false

instance (s : HeapState) (op : HeapOp) : Decidable (PlainCall s op) :=
  inferInstanceAs (Decidable (_ ∧ _))

/-- A run that starts with mm_initialize never gets stuck, and after each of its calls
memory represents a heap. -/
theorem heap_represented (h : MmHeap) (heapstart heapsize : Nat) (ops : List HeapOp)
    (hcalls : StepsMeet heapStep PlainCall ⟨h, []⟩ (.init heapstart heapsize :: ops)) :
    ∃ s, run heapStep ⟨h, []⟩ (.init heapstart heapsize :: ops) = some s ∧
      ∃ regions seg, Represents s.heap regions seg := by
  obtain ⟨hinit, hrest⟩ := hcalls
  obtain ⟨s₀, hstart, hrun⟩ := @init_step 16 _ (Nat.dvd_refl 16) heapstart heapsize hinit.1
  rw [hstart] at hrest
  have hstep : ∀ s op, RunInv 16 s → PlainCall s op → ∃ t, heapStep s op = some t ∧ RunInv 16 t := by
    intro s op hs hcall
    apply heapStep_spec (by decide) (Nat.dvd_refl 16) op hs hcall.1
      (keepsNodes_of_granules op hs hcall.1 hcall.2)
    intro hmemalign
    rw [hcall.2] at hmemalign
    cases hmemalign
  obtain ⟨s, hs, sh, hinv, _⟩ := progress_run hstep s₀ ops hrun hrest
  refine ⟨s, ?_, sh.regions, sh.seg, represents_of_inv hinv⟩
  simp only [run, hstart]
  exact hs

/-- Memory of zeros with the node array at 0x100. -/
def blankHeap : MmHeap := ⟨fun _ => 0, 0x100, 0, [], []⟩

/-- Two blocks, one grown and the other freed, a store, and more memory of both kinds. -/
def mixedCalls : List HeapOp :=
  [.malloc 20, .malloc 40, .realloc 4144 100, .free 4112, .store 4148 7, .extend 4352 64 0,
    .addregion 0x3000 128, .realloc 4144 0]

theorem heap_represented_mixed :
    StepsMeet heapStep PlainCall ⟨blankHeap, []⟩ (.init 0x1000 256 :: mixedCalls) ∧
      ∃ s, run heapStep ⟨blankHeap, []⟩ (.init 0x1000 256 :: mixedCalls) = some s ∧
        ∃ regions seg, Represents s.heap regions seg := by
  have hcalls : StepsMeet heapStep PlainCall ⟨blankHeap, []⟩ (.init 0x1000 256 :: mixedCalls) := by
    decide +kernel
  exact ⟨hcalls, heap_represented blankHeap 0x1000 256 mixedCalls hcalls⟩

/-- A region of 16 bytes is two guards and nothing between them. mm_initialize puts the
end guard on the free list, and no reading of memory as chunks agrees with that. -/
theorem tiny_region_not_represented :
    ∃ s, run heapStep ⟨blankHeap, []⟩ [.init 0x1000 16] = some s ∧
      ¬ ∃ regions seg, Represents s.heap regions seg := by
  have hwords : ((run heapStep ⟨blankHeap, []⟩ [.init 0x1000 16]).map fun s =>
      (s.heap.nodelist, s.heap.mem 264, s.heap.mem 4104, s.heap.heapstart, s.heap.heapend)) =
      some (256, 4104, 8, [4096], [4104]) := by
    decide +kernel
  obtain ⟨s, hrun, hvalues⟩ := Option.map_eq_some_iff.mp hwords
  simp only [Prod.mk.injEq] at hvalues
  obtain ⟨hnodelist, hflink, hsize, _, hends⟩ := hvalues
  refine ⟨s, hrun, ?_⟩
  intro hrep
  obtain ⟨regions, seg, hrep⟩ := hrep
  -- the first link leads to 4104, which is no separator
  have hlisted : Listed seg 4104 := by
    have hlink := hrep.linked
    rw [nodes_split (show 0 < mmNnodes by decide), linked_append] at hlink
    have hnext := hlink.2.2.next_eq
    rw [hnodelist] at hnext
    cases hseg : seg 0 with
    | nil =>
      rw [hseg] at hnext
      exact absurd (hflink.symm.trans hnext) (by simp [nodesFrom, mmNnodes, mmMaxShift, mmMinShift,
        range'_succ])
    | cons x rest =>
      rw [hseg] at hnext
      have hx : 4104 = x := hflink.symm.trans hnext
      refine ⟨0, by decide, ?_⟩
      rw [hseg, hx]
      exact mem_cons_self
  obtain ⟨r, hr, c, hc, hfree, haddr⟩ := (hrep.free 4104).mp hlisted
  have hstop : r.stop = 4104 := by
    have hmem : r.stop ∈ s.heap.heapend := by
      rw [hrep.ends]
      exact mem_map_of_mem hr
    rw [hends] at hmem
    exact mem_singleton.mp hmem
  -- a chunk at the address of the guard would lie before it
  have hbefore : Before c r.last := by
    have hpair : r.chunks.Pairwise Before := by
      rw [← isChain_iff_pairwise]
      exact (hrep.tiled r hr).imp fun _ _ hpc => Nat.le_of_eq hpc.symm
    rw [Region.chunks, ← cons_append, pairwise_append] at hpair
    apply hpair.2.2 c _ _ mem_cons_self
    exact mem_cons_of_mem _ (free_is_inner r c hc hfree)
  have hcsize := hrep.sizes r hr c hc
  rw [haddr] at hcsize
  have hlast : c.addr + c.size ≤ r.stop := hbefore
  omega

end NbLot.Guarantees.HeapRepresentation
