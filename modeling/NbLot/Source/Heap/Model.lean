import NbLot.Lib.Words

/-!
# The heap of nuttx/mm: nodes, free list and operations

Source: nuttx/include/nuttx/mm/mm.h, nuttx/mm/mm_heap/mm_size2ndx.c:56-73,
mm_addfreechunk.c:57-84, mm_malloc.c:70-198, mm_zalloc.c, mm_calloc.c:56-66,
mm_free.c:60-147, mm_shrinkchunk.c:65-139,
mm_realloc.c:76-352, mm_memalign.c:63-206, mm_initialize.c:70-204, mm_extend.c:65-127.

The 32-bit layout: a node is the address of its `size` word, with `preceding` at +4,
`flink` at +8 and `blink` at +12. `size_t` arithmetic wraps, pointer arithmetic stays
inside memory. The functions work on the word memory and the address of `mm_nodelist`;
the semaphore and the log messages are left out. A loop that passes more nodes than
there are addresses has met one twice and does not end: it gives `none`.
-/
namespace NbLot.Source.Heap
open Lib

def sizeofMmAllocnode : Nat := 8
def sizeofMmFreenode : Nat := 16
def mmMinShift : Nat := 4
def mmMaxShift : Nat := 22
def mmMinChunk : Nat := 1 <<< mmMinShift
def mmMaxChunk : Nat := 1 <<< mmMaxShift
def mmNnodes : Nat := mmMaxShift - mmMinShift + 1
def mmGranMask : Nat := mmMinChunk - 1
def mmAllocBit : Nat := 0x80000000
def configMmRegions : Nat := 2

def mmAlignUp (a : Nat) : Nat := clear32 (add32 a mmGranMask) mmGranMask

def mmAlignDown (a : Nat) : Nat := clear32 a mmGranMask

def addresses : Nat := 2 ^ 32

def size2ndxLoop : Nat → Nat → Nat → Nat
  | 0, ndx, _ => ndx
  | passes + 1, ndx, size =>
    if size > 1 then size2ndxLoop passes (ndx + 1) (size >>> 1) else ndx

def mmSize2ndx (size : Nat) : Nat :=
  if size ≥ mmMaxChunk then mmNnodes - 1 else size2ndxLoop 32 0 (size >>> mmMinShift)

/-- The search of mm_addfreechunk for the two nodes to insert between. -/
def insertSearch (m : Words) (size : Nat) : Nat → Nat → Nat → Option (Nat × Nat)
  | 0, _, _ => none
  | passes + 1, prev, next =>
    if next ≠ 0 ∧ m next ≠ 0 ∧ m next < size then
      insertSearch m size passes next (m (next + 8))
    else some (prev, next)

/-- The writes that put a node between `prev` and `next`. -/
def insertLinks (m : Words) (prev node next : Nat) : Words :=
  let m := m.set (prev + 8) node
  let m := m.set (node + 12) prev
  let m := m.set (node + 8) next
  if next ≠ 0 then m.set (next + 12) node else m

def mmAddfreechunk (nodelist : Nat) (m : Words) (node : Nat) : Option Words :=
  let ndx := mmSize2ndx (m node)
  match insertSearch m (m node) addresses (nodelist + 16 * ndx) (m (nodelist + 16 * ndx + 8)) with
  | none => none
  | some (prev, next) => some (insertLinks m prev node next)

/-- The removal of a node that every operation performs in line. -/
def mmUnlink (m : Words) (node : Nat) : Words :=
  let m := m.set (m (node + 12) + 8) (m (node + 8))
  if m (node + 8) ≠ 0 then m.set (m (node + 8) + 12) (m (node + 12)) else m

/-- The search of mm_malloc for the first node that is large enough, or NULL. -/
def mallocSearch (m : Words) (size : Nat) : Nat → Nat → Option Nat
  | 0, _ => none
  | passes + 1, node =>
    if node ≠ 0 ∧ m node < size then mallocSearch m size passes (m (node + 8)) else some node

/-- What mm_malloc does to a node that is large enough, once it is unlinked. -/
def mallocSplit (nodelist : Nat) (m : Words) (node size : Nat) : Option Words :=
  let remaining := sub32 (m node) size
  if remaining ≥ sizeofMmFreenode then
    let next := node + m node
    let remainder := node + size
    let m := m.set remainder remaining
    let m := m.set (remainder + 4) size
    let m := m.set node size
    let m := m.set (next + 4) (remaining ||| (m (next + 4) &&& mmAllocBit))
    mmAddfreechunk nodelist m remainder
  else some m

def mmMalloc (nodelist : Nat) (m : Words) (size : Nat) : Option (Words × Nat) :=
  if size < 1 then some (m, 0)
  else
    let size := mmAlignUp (add32 size sizeofMmAllocnode)
    let ndx := if size ≥ mmMaxChunk then mmNnodes - 1 else mmSize2ndx size
    match mallocSearch m size addresses (m (nodelist + 16 * ndx + 8)) with
    | none => none
    | some node =>
      if node = 0 then some (m, 0)
      else
        match mallocSplit nodelist (mmUnlink m node) node size with
        | none => none
        | some m =>
          some (m.set (node + 4) (m (node + 4) ||| mmAllocBit), node + sizeofMmAllocnode)

/-- `memset` to zero: whole words, and the first bytes of the last one. -/
def memset (m : Words) (dest bytes : Nat) : Words :=
  let last := dest + bytes / 4 * 4
  let m := (List.range (bytes / 4)).foldl (fun m k => m.set (dest + 4 * k) 0) m
  m.set last (m last / 256 ^ (bytes % 4) * 256 ^ (bytes % 4))

def mmZalloc (nodelist : Nat) (m : Words) (size : Nat) : Option (Words × Nat) :=
  (mmMalloc nodelist m size).map fun (m, alloc) =>
    (if alloc ≠ 0 then memset m alloc size else m, alloc)

def mmCalloc (nodelist : Nat) (m : Words) (n elemSize : Nat) : Option (Words × Nat) :=
  if n > 0 ∧ elemSize > 0 then mmZalloc nodelist m (n * elemSize % 2 ^ 32) else some (m, 0)

/-- The merge of mm_free with the chunk behind the node: the new memory and the chunk
that is behind the node now. -/
def freeNext (m : Words) (node : Nat) : Words × Nat :=
  let next := node + m node
  if m (next + 4) &&& mmAllocBit = 0 then
    let andbeyond := next + m next
    let m := mmUnlink m next
    let m := m.set node (add32 (m node) (m next))
    (m.set (andbeyond + 4) (m node ||| (m (andbeyond + 4) &&& mmAllocBit)), andbeyond)
  else (m, next)

/-- The merge of mm_free with the chunk before the node: the new memory and the node
that is left. -/
def freePrev (m : Words) (node next : Nat) : Words × Nat :=
  let prev := node - m (node + 4)
  if m (prev + 4) &&& mmAllocBit = 0 then
    let m := mmUnlink m prev
    let m := m.set prev (add32 (m prev) (m node))
    (m.set (next + 4) (m prev ||| (m (next + 4) &&& mmAllocBit)), prev)
  else (m, node)

def mmFree (nodelist : Nat) (m : Words) (mem : Nat) : Option Words :=
  if mem = 0 then some m
  else
    let node := mem - sizeofMmAllocnode
    let m := m.set (node + 4) (clear32 (m (node + 4)) mmAllocBit)
    let (m, next) := freeNext m node
    let (m, node) := freePrev m node next
    mmAddfreechunk nodelist m node

def mmShrinkchunk (nodelist : Nat) (m : Words) (node size : Nat) : Option Words :=
  let next := node + m node
  if m (next + 4) &&& mmAllocBit = 0 then
    let andbeyond := next + m next
    let m := mmUnlink m next
    let newnode := node + size
    let m := m.set newnode (sub32 (add32 (m next) (m node)) size)
    let m := m.set (newnode + 4) size
    let m := m.set node size
    let m := m.set (andbeyond + 4) (m newnode ||| (m (andbeyond + 4) &&& mmAllocBit))
    mmAddfreechunk nodelist m newnode
  else if m node ≥ add32 size sizeofMmFreenode then
    let newnode := node + size
    let m := m.set newnode (sub32 (m node) size)
    let m := m.set (newnode + 4) size
    let m := m.set node size
    let m := m.set (next + 4) (m newnode ||| mmAllocBit)
    mmAddfreechunk nodelist m newnode
  else some m

/-- `memcpy` of `count` words in increasing address order. -/
def copyWords (m : Words) (dest src : Nat) : Nat → Words
  | 0 => m
  | count + 1 => copyWords (m.set dest (m src)) (dest + 4) (src + 4) count

def memcpy (m : Words) (dest src bytes : Nat) : Words := copyWords m dest src (bytes / 4)

/-- How much mm_realloc takes from the chunk before and the chunk behind. -/
def reallocTake (needed prevsize nextsize : Nat) : Nat × Nat :=
  if prevsize > 0 ∧ (nextsize ≥ prevsize ∨ nextsize < 1) then
    if needed > prevsize then (prevsize, needed - prevsize) else (needed, 0)
  else if nextsize > 0 ∧ needed ≠ 0 then
    if needed > nextsize then (needed - nextsize, nextsize) else (0, needed)
  else (0, 0)

/-- mm_realloc extends the node into the free chunk before it: the new memory, node
and node size, with the contents moved down. -/
def reallocPrev (nodelist : Nat) (m : Words) (oldnode oldsize prev prevsize next takeprev : Nat) :
    Option (Words × Nat × Nat) :=
  let m := mmUnlink m prev
  let newnode := oldnode - takeprev
  let extended :=
    if takeprev < prevsize then
      let m := m.set prev (sub32 (m prev) takeprev)
      let m := m.set newnode (add32 oldsize takeprev)
      let m := m.set (newnode + 4) (m prev ||| mmAllocBit)
      let m := m.set (next + 4) (m newnode ||| (m (next + 4) &&& mmAllocBit))
      mmAddfreechunk nodelist m prev
    else
      let m := m.set newnode (add32 (m newnode) oldsize)
      let m := m.set (newnode + 4) (m (newnode + 4) ||| mmAllocBit)
      some (m.set (next + 4) (m newnode ||| (m (next + 4) &&& mmAllocBit)))
  match extended with
  | none => none
  | some m =>
    let oldmem := oldnode + sizeofMmAllocnode
    let newmem := newnode + sizeofMmAllocnode
    some (memcpy m newmem oldmem (sub32 (m newnode) sizeofMmAllocnode), newnode, m newnode)

/-- mm_realloc extends the node into the free chunk behind it. -/
def reallocNext (nodelist : Nat) (m : Words) (oldnode oldsize next nextsize takenext : Nat) :
    Option Words :=
  let andbeyond := next + nextsize
  let m := mmUnlink m next
  let m := m.set oldnode (add32 oldsize takenext)
  let newnode := oldnode + m oldnode
  if takenext < nextsize then
    let m := m.set newnode (sub32 nextsize takenext)
    let m := m.set (newnode + 4) (m oldnode)
    let m := m.set (andbeyond + 4) (m newnode ||| (m (andbeyond + 4) &&& mmAllocBit))
    mmAddfreechunk nodelist m newnode
  else some (m.set (andbeyond + 4) (m oldnode ||| (m (andbeyond + 4) &&& mmAllocBit)))

/-- The growing branch of mm_realloc that finds enough room next to the node. -/
def reallocExtend (nodelist : Nat) (m : Words) (oldnode newsize prev prevsize next nextsize : Nat) :
    Option (Words × Nat) :=
  let oldsize := m oldnode
  let (takeprev, takenext) := reallocTake (sub32 newsize oldsize) prevsize nextsize
  let moved :=
    if takeprev ≠ 0 then reallocPrev nodelist m oldnode oldsize prev prevsize next takeprev
    else some (m, oldnode, oldsize)
  match moved with
  | none => none
  | some (m, node, size) =>
    if takenext ≠ 0 then
      match reallocNext nodelist m node size next nextsize takenext with
      | none => none
      | some m => some (m, node + sizeofMmAllocnode)
    else some (m, node + sizeofMmAllocnode)

/-- The size of the chunk at `node` if it is free, else zero. -/
def freeSize (m : Words) (node : Nat) : Nat :=
  if m (node + 4) &&& mmAllocBit = 0 then m node else 0

def mmRealloc (nodelist : Nat) (m : Words) (oldmem size : Nat) : Option (Words × Nat) :=
  if oldmem = 0 then mmMalloc nodelist m size
  else if size < 1 then (mmFree nodelist m oldmem).map (·, 0)
  else
    let newsize := mmAlignUp (add32 size sizeofMmAllocnode)
    let oldnode := oldmem - sizeofMmAllocnode
    let oldsize := m oldnode
    if newsize ≤ oldsize then
      if newsize < oldsize then (mmShrinkchunk nodelist m oldnode newsize).map (·, oldmem)
      else some (m, oldmem)
    else
      let next := oldnode + oldsize
      let prev := oldnode - clear32 (m (oldnode + 4)) mmAllocBit
      let nextsize := freeSize m next
      let prevsize := freeSize m prev
      if add32 (add32 nextsize prevsize) oldsize ≥ newsize then
        reallocExtend nodelist m oldnode newsize prev prevsize next nextsize
      else
        match mmMalloc nodelist m size with
        | none => none
        | some (m, newmem) =>
          if newmem = 0 then some (m, 0)
          else (mmFree nodelist (memcpy m newmem oldmem oldsize) oldmem).map (·, newmem)

/-- mm_memalign gives the front of the raw chunk back: the new memory, the aligned
node, the aligned address and the size left to allocate. -/
def memalignFront (nodelist : Nat) (m : Words) (node alignment alignedchunk : Nat) :
    Option (Words × Nat × Nat × Nat) :=
  let next := node + m node
  let newnode := alignedchunk - sizeofMmAllocnode
  let precedingsize := sub32 newnode node
  let alignedchunk :=
    if precedingsize < sizeofMmFreenode then add32 alignedchunk alignment else alignedchunk
  let newnode := alignedchunk - sizeofMmAllocnode
  let precedingsize := sub32 newnode node
  let m := m.set newnode (sub32 next newnode)
  let m := m.set (newnode + 4) (precedingsize ||| mmAllocBit)
  let m := m.set node precedingsize
  let m := m.set (node + 4) (clear32 (m (node + 4)) mmAllocBit)
  let m := m.set (next + 4) (m newnode ||| (m (next + 4) &&& mmAllocBit))
  let allocsize := sub32 (m newnode) sizeofMmAllocnode
  (mmAddfreechunk nodelist m node).map (·, newnode, alignedchunk, allocsize)

def mmMemalign (nodelist : Nat) (m : Words) (alignment size : Nat) : Option (Words × Nat) :=
  if alignment ≤ mmMinChunk then mmMalloc nodelist m size
  else
    let mask := sub32 alignment 1
    let size := mmAlignUp size
    let allocsize := add32 size (add32 alignment alignment)
    match mmMalloc nodelist m allocsize with
    | none => none
    | some (m, rawchunk) =>
      if rawchunk = 0 then some (m, 0)
      else
        let node := rawchunk - sizeofMmAllocnode
        let alignedchunk := clear32 (add32 rawchunk mask) mask
        let front :=
          if alignedchunk ≠ rawchunk then memalignFront nodelist m node alignment alignedchunk
          else some (m, node, alignedchunk, allocsize)
        match front with
        | none => none
        | some (m, node, aligned, allocsize) =>
          if allocsize > size then
            (mmShrinkchunk nodelist m node (add32 size sizeofMmAllocnode)).map (·, aligned)
          else some (m, aligned)

/-- `struct mm_heap_s` with the memory it manages. `heapstart` and `heapend` hold the
entries below `mm_nregions`. -/
structure MmHeap where
  mem : Words
  nodelist : Nat
  heapsize : Nat
  heapstart : List Nat
  heapend : List Nat

/-- mm_addregion; a region beyond `CONFIG_MM_REGIONS` has no entry in the arrays. -/
def mmAddregion (h : MmHeap) (heapstart heapsize : Nat) : Option MmHeap :=
  if h.heapstart.length < configMmRegions then
    let heapbase := mmAlignUp heapstart
    let heapend := mmAlignDown (add32 heapstart heapsize)
    let heapsize := sub32 heapend heapbase
    let m := h.mem.set heapbase sizeofMmAllocnode
    let m := m.set (heapbase + 4) mmAllocBit
    let node := heapbase + sizeofMmAllocnode
    let m := m.set node (sub32 heapsize (2 * sizeofMmAllocnode))
    let m := m.set (node + 4) sizeofMmAllocnode
    let last := heapend - sizeofMmAllocnode
    let m := m.set last sizeofMmAllocnode
    let m := m.set (last + 4) (m node ||| mmAllocBit)
    (mmAddfreechunk h.nodelist m node).map fun m =>
      { h with
        mem := m
        heapsize := add32 h.heapsize heapsize
        heapstart := h.heapstart ++ [heapbase]
        heapend := h.heapend ++ [last] }
  else none

/-- The node array of mm_initialize: cleared, then linked in index order. -/
def initNodelist (nodelist : Nat) (m : Words) : Words :=
  let m := (List.range (4 * mmNnodes)).foldl (fun m k => m.set (nodelist + 4 * k) 0) m
  (List.range' 1 (mmNnodes - 1)).foldl
    (fun m i =>
      (m.set (nodelist + 16 * (i - 1) + 8) (nodelist + 16 * i)).set
        (nodelist + 16 * i + 12) (nodelist + 16 * (i - 1))) m

def mmInitialize (h : MmHeap) (heapstart heapsize : Nat) : Option MmHeap :=
  mmAddregion
    { mem := initNodelist h.nodelist h.mem, nodelist := h.nodelist, heapsize := 0
      heapstart := [], heapend := [] } heapstart heapsize

/-- mm_extend; a region that does not exist has no last node. -/
def mmExtend (h : MmHeap) (mem size region : Nat) : Option MmHeap :=
  match h.heapend[region]? with
  | none => none
  | some oldnode =>
    let blockend := add32 mem size
    let m := h.mem.set oldnode size
    let newnode := blockend - sizeofMmAllocnode
    let m := m.set newnode sizeofMmAllocnode
    let m := m.set (newnode + 4) (m oldnode ||| mmAllocBit)
    (mmFree h.nodelist m mem).map fun m =>
      { h with mem := m, heapend := h.heapend.set region newnode }

end NbLot.Source.Heap
