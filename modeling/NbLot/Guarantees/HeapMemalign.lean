import NbLot.Source.Heap.Runs

/-!
# Free chunks next to aligned blocks

mm_memalign shrinks its block to the requested size and a header, which is a multiple of
8 only. When mm_realloc later takes what it needs from such a neighbour, 8 bytes of it
can remain: they go on the free list as a chunk whose link words are the header of the
chunk behind. Runs in which no mm_realloc leaves such a sliver, and mm_memalign is not
asked for zero bytes or for sizes that wrap around, keep every free chunk large enough.
-/
namespace NbLot.Guarantees.HeapMemalign
open Lib Lib.Transition Source.Heap

/-- The nodes the links lead to from `mm_nodelist[0]`. -/
inductive Reached (h : MmHeap) : Nat → Prop
  | head : Reached h h.nodelist
  | flink (x : Nat) (hx : Reached h x) (hnext : h.mem (x + 8) ≠ 0) : Reached h (h.mem (x + 8))

/-- A chunk on the free list: a node that is no entry of `mm_nodelist`. -/
def OnFreeList (h : MmHeap) (x : Nat) : Prop :=
  Reached h x ∧ ∀ i < mmNnodes, x ≠ h.nodelist + 16 * i

/-- Every chunk on the list can hold its node, and its link words lie before the header of
the chunk that follows it. -/
def FreeNodesFit (h : MmHeap) : Prop :=
  ∀ x, OnFreeList h x → sizeofMmFreenode ≤ h.mem x ∧ x + 12 + 4 ≤ x + h.mem x

theorem reached_mem {h : MmHeap} {seg : Nat → List Nat} (ok : FreeList h.nodelist h.mem seg)
    (x : Nat) (hx : Reached h x) : x ∈ nodes h.nodelist seg := by
  induction hx with
  | head => exact mem_nodes.mpr (.inl ⟨0, by decide, rfl⟩)
  | flink x _ hnext ih =>
    obtain ⟨before, after, hsplit⟩ := List.append_of_mem ih
    have hlink := ok.linked
    rw [hsplit, linked_append] at hlink
    have heq : h.mem (x + 8) = behind after 0 := hlink.2.2.next_eq
    cases after with
    | nil => exact absurd heq hnext
    | cons y after =>
      rw [heq, hsplit]
      simp

theorem freeNodesFit_of_inv {g : Nat} {h : MmHeap} {sh : Shape} (hinv : HeapInv g h sh) :
    FreeNodesFit h := by
  intro x hx
  obtain ⟨hreached, hentry⟩ := hx
  cases mem_nodes.mp (reached_mem hinv.inv.list x hreached) with
  | inl hhead =>
    obtain ⟨i, hi, hxi⟩ := hhead
    exact absurd hxi (hentry i hi)
  | inr hlisted =>
    obtain ⟨c, hc, _, hcx⟩ := (hinv.inv.free x).mp hlisted
    have h16 := (hinv.inv.layout.block_ge hc).1
    have hsize := hinv.inv.layout.size_eq hc.has
    rw [hcx] at hsize
    unfold sizeofMmFreenode
    exact ⟨by omega, by omega⟩

/-- A call that keeps the promises of its caller and leaves no chunk below a free node. -/
def SafeCall (s : HeapState) (op : HeapOp) : Prop := callOk s op ∧ keepsNodes s op

instance (s : HeapState) (op : HeapOp) : Decidable (SafeCall s op) :=
  inferInstanceAs (Decidable (_ ∧ _))

/-- A run of safe calls, mm_memalign among them, returns from every call with all free
chunks large enough. -/
theorem free_nodes_fit (h : MmHeap) (heapstart heapsize : Nat) (ops : List HeapOp)
    (hcalls : StepsMeet heapStep SafeCall ⟨h, []⟩ (.init heapstart heapsize :: ops)) :
    ∃ s, run heapStep ⟨h, []⟩ (.init heapstart heapsize :: ops) = some s ∧
      FreeNodesFit s.heap := by
  obtain ⟨hinit, hrest⟩ := hcalls
  obtain ⟨s₀, hstart, hrun⟩ := @init_step 8 _ (by decide) heapstart heapsize hinit.1
  rw [hstart] at hrest
  obtain ⟨s, hs, sh, hinv, _⟩ := progress_run
    (fun s op hs hcall => heapStep_spec (Nat.dvd_refl 8) (by decide) op hs hcall.1 hcall.2
      fun _ => rfl) s₀ ops hrun hrest
  refine ⟨s, ?_, freeNodesFit_of_inv hinv⟩
  simp only [run, hstart]
  exact hs

/-- Memory of zeros with the node array at 0x100. -/
def zeroHeap : MmHeap := ⟨fun _ => 0, 0x100, 0, [], []⟩

/-- Two aligned blocks and one between them that grows. -/
def alignedCalls : List HeapOp :=
  [.memalign 32 16, .malloc 40, .memalign 64 100, .realloc 4152 60, .free 4128]

theorem free_nodes_fit_aligned :
    StepsMeet heapStep SafeCall ⟨zeroHeap, []⟩ (.init 0x1000 1024 :: alignedCalls) ∧
      ∃ s, run heapStep ⟨zeroHeap, []⟩ (.init 0x1000 1024 :: alignedCalls) = some s ∧
        FreeNodesFit s.heap := by
  have hcalls : StepsMeet heapStep SafeCall ⟨zeroHeap, []⟩
      (.init 0x1000 1024 :: alignedCalls) := by
    decide +kernel
  exact ⟨hcalls, free_nodes_fit zeroHeap 0x1000 1024 alignedCalls hcalls⟩

/-- An aligned block of 24 bytes leaves the free chunks at multiples of 8. -/
def sliverCalls : List HeapOp :=
  [.init 0x1000 256, .memalign 32 16, .malloc 168, .realloc 4152 184]

/-- The last call takes 16 of the 24 bytes between the block and the end guard. The rest,
8 bytes at 4336, goes on the free list, and its links overwrite the guard at 4344. -/
theorem realloc_overwrites_guard :
    StepsMeet heapStep callOk ⟨zeroHeap, []⟩ sliverCalls ∧
      ∃ s, run heapStep ⟨zeroHeap, []⟩ sliverCalls = some s ∧ OnFreeList s.heap 4336 ∧
        s.heap.mem 4336 = 8 ∧ s.heap.heapend = [4344] ∧
        s.heap.mem 4344 ≠ sizeofMmAllocnode ∧ ¬ FreeNodesFit s.heap := by
  have hcalls : StepsMeet heapStep callOk ⟨zeroHeap, []⟩ sliverCalls := by decide +kernel
  have hwords : ((run heapStep ⟨zeroHeap, []⟩ sliverCalls).map fun s =>
      (s.heap.nodelist, s.heap.mem 264, s.heap.mem 4336, s.heap.heapend, s.heap.mem 4344)) =
      some (256, 4336, 8, [4344], 4104) := by
    decide +kernel
  obtain ⟨s, hrun, hvalues⟩ := Option.map_eq_some_iff.mp hwords
  simp only [Prod.mk.injEq] at hvalues
  obtain ⟨hnodelist, hflink, hsize, hends, hguard⟩ := hvalues
  have hlisted : OnFreeList s.heap 4336 := by
    refine ⟨?_, ?_⟩
    · have hreached := Reached.flink s.heap.nodelist .head (by rw [hnodelist, hflink]; decide)
      rw [hnodelist, hflink] at hreached
      exact hreached
    · intro i hi
      have hnodes : mmNnodes = 19 := rfl
      omega
  refine ⟨hcalls, s, hrun, hlisted, hsize, hends, by rw [hguard]; decide, ?_⟩
  intro hfit
  have hle := (hfit 4336 hlisted).1
  rw [hsize] at hle
  exact absurd hle (by decide)

end NbLot.Guarantees.HeapMemalign
