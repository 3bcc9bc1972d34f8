import NbLot.Guarantees.HeapMemalign

/-!
# What a request to the heap gives

mm_malloc takes a smallest free chunk that fits and fails only when none does. The
request grows by the header and the rounding in 32-bit arithmetic: as long as the sum
fits in a word, mm_malloc, mm_calloc and mm_realloc give NULL or a block of the heap that
holds what was asked for. A sum that wraps is served from the small number left, with
a block that is too small or with an entry of `mm_nodelist`.
-/
namespace NbLot.Guarantees.HeapAllocation
open Lib Source.Heap Guarantees.HeapMemalign

variable {g nodelist bytes : Nat} {m m' : Words} {sh sh' : Shape} {res : Option (Words × Nat)}

/-- The call gives NULL exactly if no free chunk is large enough, and else takes the space
from a smallest one that is. -/
def ServesBestFit (g nodelist : Nat) (m : Words) (sh : Shape) (size : Nat) : Prop :=
  ∃ m' mem, mmMalloc nodelist m size = some (m', mem) ∧
    (mem = 0 ↔ ∀ y, Block sh.regions y → y.alloc = false →
      y.size < mmAlignUp (size + sizeofMmAllocnode)) ∧
    (mem ≠ 0 → ∃ sh' x c, Inv g nodelist m' sh' ∧ Carved sh sh' x c ∧
      mem = c.addr + sizeofMmAllocnode ∧
      BestFit sh.regions (mmAlignUp (size + sizeofMmAllocnode)) x)

theorem mmMalloc_best_fit (inv : Inv g nodelist m sh) (hg : g ∣ 16) (size : Nat) (hpos : 1 ≤ size)
    (hsize : size ≤ 2 ^ 31) : ServesBestFit g nodelist m sh size := by
  rcases mmMalloc_spec inv hg size (by omega) with
    ⟨hnull, hnone⟩ | ⟨m', sh', x, c, hmalloc, hinv, hcarved, _, hbest⟩
  · exact ⟨m, 0, hnull, iff_of_true rfl (hnone.resolve_left (by omega)), absurd rfl⟩
  · refine ⟨m', _, hmalloc, ⟨fun h => absurd h (by omega), fun hnone => ?_⟩,
      fun _ => ⟨sh', x, c, hinv, hcarved, rfl, hbest⟩⟩
    exact absurd (hnone x hcarved.block hcarved.free) (Nat.not_lt.mpr hbest.fits)

theorem mmMalloc_best_fit_fresh :
    ∃ t sh, heapStep ⟨zeroHeap, []⟩ (.init 0x1000 1024) = some t ∧ HeapInv 16 t.heap sh ∧
      ServesBestFit 16 t.heap.nodelist t.heap.mem sh 100 := by
  obtain ⟨t, hinit, sh, hinv, _⟩ :=
    @init_step 16 ⟨zeroHeap, []⟩ (Nat.dvd_refl 16) 0x1000 1024 (by decide +kernel)
  exact ⟨t, sh, hinit, hinv,
    mmMalloc_best_fit hinv.inv (Nat.dvd_refl 16) 100 (by decide) (by decide)⟩

/-- The call gives NULL, or a block inside a region whose chunk holds the bytes behind its
header. -/
def Safe (regions : List Region) (bytes : Nat) (res : Option (Words × Nat)) : Prop :=
  ∃ m mem, res = some (m, mem) ∧ (mem = 0 ∨ ∃ r ∈ regions, r.start + 8 ≤ mem ∧
    bytes + 8 ≤ m (mem - 8) ∧ mem - 8 + m (mem - 8) ≤ r.stop + 8)

def GivesNull (res : Option (Words × Nat)) : Prop := ∃ m, res = some (m, 0)

theorem safe_of_block (inv : Inv g nodelist m' sh')
    (hextents : sh'.regions.map Region.extent = sh.regions.map Region.extent) (c : Chunk)
    (hc : Block sh'.regions c) (hfit : bytes + 8 ≤ c.size) :
    Safe sh.regions bytes (some (m', c.addr + 8)) := by
  have hsize := inv.layout.size_eq hc.has
  obtain ⟨r', hr', hc⟩ := hc.has
  have hbounds := (inv.layout.each r' hr').bounds hc
  have hmem := List.mem_map_of_mem (f := Region.extent) hr'
  rw [hextents, List.mem_map] at hmem
  obtain ⟨r, hr, heq⟩ := hmem
  simp only [Region.extent, Prod.mk.injEq] at heq
  refine ⟨m', _, rfl, .inr ⟨r, hr, ?_⟩⟩
  rw [Nat.add_sub_cancel]
  omega

/-- No block of the heap holds a request that wraps. -/
theorem safe_iff (inv : Inv g nodelist m sh) (h : bytes + 23 < 2 ^ 32 → Safe sh.regions bytes res) :
    Safe sh.regions bytes res ↔ bytes + 23 < 2 ^ 32 ∨ GivesNull res := by
  constructor
  · intro hsafe
    obtain ⟨m', mem, hres, hnull | ⟨r, hr, hlow, hfit, hhigh⟩⟩ := hsafe
    · exact .inr ⟨m', by rw [hres, hnull]⟩
    · have hspan := (inv.layout.each r hr).span
      exact .inl (by omega)
  · rintro (hsmall | ⟨m', hres⟩)
    · exact h hsmall
    · exact ⟨m', 0, hres, .inl rfl⟩

section

variable (inv : Inv 16 nodelist m sh)
include inv

theorem mmMalloc_safe (size : Nat) (hsize : size + 23 < 2 ^ 32) :
    Safe sh.regions size (mmMalloc nodelist m size) := by
  have halign := mmAlignUp_eq (size + 8) (by omega)
  rcases mmMalloc_spec inv (Nat.dvd_refl 16) size hsize with
    ⟨hnull, _⟩ | ⟨m', sh', x, c, hmalloc, hinv, hcarved, hfit, _⟩
  · exact ⟨m, 0, hnull, .inl rfl⟩
  · rw [hmalloc]
    exact safe_of_block hinv hcarved.keeps.extents c hcarved.new (by omega)

theorem mmCalloc_safe (n elemSize : Nat) (hsize : n * elemSize + 23 < 2 ^ 32) :
    Safe sh.regions (n * elemSize) (mmCalloc nodelist m n elemSize) := by
  unfold mmCalloc mmZalloc
  split
  · rw [Nat.mod_eq_of_lt (by omega)]
    obtain ⟨m', mem, hmalloc, hmem⟩ := mmMalloc_safe inv _ hsize
    refine ⟨_, mem, by rw [hmalloc]; rfl, ?_⟩
    rcases hmem with hnull | ⟨r, hr, hlow, hfit⟩
    · exact .inl hnull
    · -- the header in front of the bytes stays
      have hheader : memset m' mem (n * elemSize) (mem - 8) = m' (mem - 8) := by
        unfold memset
        rw [Words.set_of_ne (by omega), clear_words, if_neg (by omega)]
      rw [if_pos (by omega), hheader]
      exact .inr ⟨r, hr, hlow, hfit⟩
  · exact ⟨m, 0, rfl, .inl rfl⟩

/-- A pointer the caller may pass to mm_realloc. -/
def Held (sh : Shape) (mem : Nat) : Prop :=
  mem = 0 ∨ ∃ c, Block sh.regions c ∧ c.alloc = true ∧ mem = c.addr + 8

theorem mmRealloc_safe (oldmem size : Nat) (hold : Held sh oldmem) (hsize : size + 23 < 2 ^ 32) :
    Safe sh.regions size (mmRealloc nodelist m oldmem size) := by
  rcases hold with hnull | ⟨c, hc, halloc, hmem⟩
  · have hrealloc : mmRealloc nodelist m oldmem size = mmMalloc nodelist m size := if_pos hnull
    rw [hrealloc]
    exact mmMalloc_safe inv size hsize
  · have halign := mmAlignUp_eq (size + 8) (by omega)
    obtain ⟨m', sh', out, hrealloc, hinv, hout, hfit⟩ := mmRealloc_spec inv (by decide)
      (Nat.dvd_refl 16) hc halloc hsize (no_sliver inv hc size hsize)
    rw [hmem, hrealloc]
    cases hout with
    | freed _ _ => exact ⟨m', 0, rfl, .inl rfl⟩
    | failed _ _ => exact ⟨m', 0, rfl, .inl rfl⟩
    | moved _ c' hresized =>
      rw [Nat.add_sub_cancel, hinv.layout.size_eq hresized.block.has] at hfit
      exact safe_of_block hinv hresized.keeps.extents c' hresized.block (by omega)

end

/-- The pointer a call gives and the size in the header before it. -/
def given (res : Option (Words × Nat)) : Option (Nat × Nat) :=
  res.map fun (m, mem) => (mem, m (mem - 8))

theorem not_safe_of_given {mem size : Nat} (regions : List Region)
    (h : given res = some (mem, size)) (hmem : mem ≠ 0) (hsmall : size < bytes + 8) :
    ¬ Safe regions bytes res := by
  rintro ⟨m, mem', hres, hsafe⟩
  rw [given, hres] at h
  cases h
  rcases hsafe with hnull | ⟨r, _, _, hfit, _⟩
  · exact hmem hnull
  · exact absurd hfit (Nat.not_le.mpr hsmall)

end NbLot.Guarantees.HeapAllocation
