import Mathlib.Algebra.Group.Nat.Defs
import Mathlib.Data.List.Basic

/-!
# Chains of I/O buffers

Source: nuttx/include/nuttx/mm/iob.h:100-122, nuttx/mm/iob/iob_concat.c:60-76, iob_clone.c:71-175.

A chain is the list of its buffers, and `bufsize` is CONFIG_IOB_BUFSIZE. The buffers that `iob_alloc`
hands out are given as a list: when it is used up, the allocation fails.
-/
namespace NbLot.Source.Iob

open List

/-- The `n` bytes of an array from `i` on. -/
def segment (a : Nat → UInt8) (i n : Nat) : List UInt8 := (range n).map fun j => a (i + j)

def memcpy (dest : Nat → UInt8) (i : Nat) (src : Nat → UInt8) (j n : Nat) : Nat → UInt8 := fun k =>
  if i ≤ k ∧ k < i + n then src (j + (k - i)) else dest k

/-- `struct iob_s`. -/
structure IobS where
  ioLen : Nat
  ioOffset : Nat
  ioPktlen : Nat
  ioData : Nat → UInt8

/-- The bytes that a chain holds. -/
def bytes (chain : List IobS) : List UInt8 :=
  chain.flatMap fun iob => segment iob.ioData iob.ioOffset iob.ioLen

structure WellFormed (bufsize : Nat) (chain : List IobS) : Prop where
  pktlen : chain.head?.map IobS.ioPktlen = some (bytes chain).length
  fits : ∀ iob ∈ chain, iob.ioOffset + iob.ioLen ≤ bufsize

/-- `iob_concat`; `iob1` is moved to the last buffer of its chain. -/
def iobConcat (chain1 chain2 : List IobS) : List IobS :=
  match chain1.getLast?, chain2.head? with
  | some iob1, some iob2 => chain1.dropLast ++
    { iob1 with ioPktlen := (iob1.ioPktlen + iob2.ioPktlen) % 2 ^ 16 } :: chain2
  | _, _ => chain1

/-- Where `iob_clone` goes on reading; it skips empty buffers. -/
def nextSource (iob1 : IobS) (rest : List IobS) (offset1 : Nat) : List IobS × Nat :=
  if iob1.ioLen ≤ offset1 then (rest.dropWhile (·.ioLen = 0), 0) else (iob1 :: rest, offset1)

/-- The loop of `iob_clone`, from the source buffer `iob1` on. -/
def cloneLoop (bufsize : Nat) : Nat → List IobS → List IobS → IobS → Nat → Nat → Option (List IobS)
  | 0, _, _, _, _, _ => none
  | _ + 1, [], _, iob2, _, _ => some [iob2]
  | fuel + 1, iob1 :: rest, pool, iob2, offset1, offset2 =>
    let ncopy := min (iob1.ioLen - offset1) (bufsize - offset2)
    let iob2 := { iob2 with
      ioData := memcpy iob2.ioData offset2 iob1.ioData (iob1.ioOffset + offset1) ncopy }
    let offset2 := offset2 + ncopy
    let (chain1, offset1) := nextSource iob1 rest (offset1 + ncopy)
    if bufsize ≤ offset2 ∧ chain1 ≠ [] then
      match pool with
      | [] => none
      | next :: pool =>
        (cloneLoop bufsize fuel chain1 pool { next with ioLen := 0, ioOffset := 0, ioPktlen := 0 }
          offset1 0).map (iob2 :: ·)
    else cloneLoop bufsize fuel chain1 pool iob2 offset1 offset2

/-- `iob_clone` into the empty buffer `iob2`; it copies at least a byte in every round. A chain without
bytes ends in a NULL pointer. -/
def iobClone (bufsize : Nat) (chain1 : List IobS) (iob2 : IobS) (pool : List IobS) : Option (List IobS) :=
  match chain1.dropWhile (·.ioLen = 0) with
  | [] => none
  | source => cloneLoop bufsize ((bytes chain1).length + 1) source pool
      { iob2 with ioPktlen := (chain1.headD iob2).ioPktlen } 0 0

/-- The loop sets no `io_len`. -/
theorem cloneLoop_empty {bufsize fuel offset1 offset2 : Nat} {chain1 pool copy : List IobS} {iob2 : IobS}
    (hrun : cloneLoop bufsize fuel chain1 pool iob2 offset1 offset2 = some copy) (hlen : iob2.ioLen = 0) :
    (∀ iob ∈ copy, iob.ioLen = 0) ∧ copy.head?.map IobS.ioPktlen = some iob2.ioPktlen := by
  induction fuel generalizing chain1 pool iob2 offset1 offset2 copy with
  | zero => cases hrun
  | succ fuel ih =>
    cases chain1 with
    | nil =>
      cases hrun
      simp [hlen]
    | cons iob1 rest =>
      simp only [cloneLoop] at hrun
      split at hrun
      · split at hrun
        · cases hrun
        · obtain ⟨copy, hrest, rfl⟩ := Option.map_eq_some_iff.mp hrun
          simpa [hlen] using (ih hrest rfl).1
      · simpa using ih hrun hlen

end NbLot.Source.Iob
