import NbLot.Source.Mtd.At24
import Mathlib.Data.Nat.ModEq

/-!
# EEPROM block access

`at24c_bwrite` stores the data in the pages it reports, changes no other page, and
`at24c_bread` of the same range returns the data, exactly when the range does not run past
the end of the device (or lies behind it as a whole, and nothing is done).

A range that runs past the end is clamped in the count that is reported, but not in the count
of the loop: the pages behind the end are written to the start of the device
(`write_wraps_around`).
-/
namespace NbLot.Guarantees.Eeprom
open Source.Mtd List Function

variable {p : Part} {s : Chip} {startblock left pagesize nblocks a offset : Nat}
  {data buffer : List UInt8} {v : UInt8} {mem : Nat → UInt8}

/-- The part can be addressed, and its write cycle ends before the driver gives up. -/
structure Works (p : Part) : Prop where
  pagesize_pos : 0 < p.pagesize
  npages_lt : p.npages < 2 ^ 16
  pagesize_lt : p.pagesize < 2 ^ 16
  capacity_le : p.npages * p.pagesize ≤ 2 ^ 16
  addressed : ∀ bits, p.addrsize = .one bits →
    bits ≤ 3 ∧ p.capacity ≤ 256 * 2 ^ bits ∧ p.addr % 2 ^ bits = 0
  answers : p.writeCycle ≤ p.timeoutMs

/-- The bytes of a block. -/
def blockBytes (p : Part) : Nat := p.ratio * p.pagesize

/-- The blocks of a range that are in the device. -/
def blocksThere (p : Part) (startblock nblocks : Nat) : Nat :=
  min nblocks ((p.npages - startblock * p.ratio) / p.ratio)

/-- The reported blocks, which are those of the range that are in the device, hold the data,
all other bytes are as before, and reading the range returns the data. -/
def Stores (p : Part) (s : Chip) (startblock nblocks : Nat) (data : List UInt8) : Prop :=
  ∃ t, at24cBwrite p s startblock nblocks data = some (t, Int.ofNat (blocksThere p startblock nblocks)) ∧
    (∀ a < p.capacity, t.mem a =
      if startblock * blockBytes p ≤ a ∧
          a < (startblock + blocksThere p startblock nblocks) * blockBytes p then
        data.getD (a - startblock * blockBytes p) 0
      else s.mem a) ∧
    ∃ u, at24cBread p t startblock nblocks =
      some (u, Int.ofNat (blocksThere p startblock nblocks),
        data.take (blocksThere p startblock nblocks * blockBytes p))

section

variable (works : Works p)
include works

theorem ratio_pos : 0 < p.ratio := by
  unfold Part.ratio
  split
  · next h => exact Nat.div_pos (Nat.le_of_lt h) works.pagesize_pos
  · exact Nat.one_pos

/-- The chip sees the offset, as far as its address bits go. -/
theorem wordAddress_address (hoffset : offset < 2 ^ 16) :
    p.wordAddress (p.address offset).1 (p.address offset).2 = (match p.addrsize with
        | .two => offset
        | .one bits => offset % (256 * 2 ^ bits)) % p.capacity := by
  have hlow : offset &&& 0xff = offset % 256 := Nat.and_two_pow_sub_one_eq_mod offset 8
  cases haddr : p.addrsize with
  | two =>
    have hhigh : (offset >>> 8) &&& 0xff = offset / 256 % 256 := by
      rw [Nat.shiftRight_eq_div_pow]
      exact Nat.and_two_pow_sub_one_eq_mod _ 8
    simp only [Part.wordAddress, Part.address, haddr, getD_cons_zero, getD_cons_succ]
    congr 1
    omega
  | one bits =>
    obtain ⟨hbits, -, hbase⟩ := works.addressed bits haddr
    have hhigh : (p.addr ||| ((offset >>> 8) &&& 0x07)) % 2 ^ bits = offset / 256 % 2 ^ bits := by
      rw [Nat.or_mod_two_pow, hbase, Nat.zero_or, Nat.shiftRight_eq_div_pow]
      rw [show (7 : Nat) = 2 ^ 3 - 1 from rfl, Nat.and_two_pow_sub_one_eq_mod]
      exact Nat.mod_mod_of_dvd _ (Nat.pow_dvd_pow 2 hbits)
    simp only [Part.wordAddress, Part.address, haddr, getD_cons_zero]
    rw [hlow, hhigh, Nat.mod_mul, Nat.mul_comm, Nat.add_comm]

theorem wordAddress_inside (hoffset : offset < p.capacity) :
    p.wordAddress (p.address offset).1 (p.address offset).2 = offset := by
  have hcap : p.capacity ≤ 2 ^ 16 := works.capacity_le
  rw [wordAddress_address works (by omega)]
  cases haddr : p.addrsize with
  | two => exact Nat.mod_eq_of_lt hoffset
  | one bits =>
    obtain ⟨-, hle, -⟩ := works.addressed bits haddr
    dsimp only
    rw [Nat.mod_eq_of_lt (a := offset) (by omega), Nat.mod_eq_of_lt hoffset]

/-- The offset behind the last page is the start of the memory. -/
theorem wordAddress_behind :
    p.wordAddress (p.address (p.capacity % 2 ^ 16)).1 (p.address (p.capacity % 2 ^ 16)).2 = 0 := by
  have hcap : p.capacity ≤ 2 ^ 16 := works.capacity_le
  rw [wordAddress_address works (Nat.mod_lt _ (by decide))]
  rcases Nat.lt_or_eq_of_le hcap with hlt | heq
  · rw [Nat.mod_eq_of_lt hlt]
    cases haddr : p.addrsize with
    | two => exact Nat.mod_self _
    | one bits =>
      obtain ⟨-, hle, -⟩ := works.addressed bits haddr
      dsimp only
      rcases Nat.lt_or_eq_of_le hle with hlt | heq
      · rw [Nat.mod_eq_of_lt hlt, Nat.mod_self]
      · rw [heq, Nat.mod_self, Nat.zero_mod]
  · rw [heq, Nat.mod_self]
    cases p.addrsize with
    | two => rfl
    | one bits =>
      dsimp only
      rw [Nat.zero_mod, Nat.zero_mod]

end

/-- The chip answers before the driver gives up. -/
theorem sendAddress_spec {at24addr : Nat} {bytes : List Nat} {wait : Nat} (h : s.busy ≤ wait) :
    sendAddress p at24addr bytes wait s = (⟨s.mem, p.wordAddress at24addr bytes, 0⟩, true) := by
  induction wait generalizing s with
  | zero =>
    unfold sendAddress at24cI2cWrite
    rw [if_neg (by omega)]
    rfl
  | succ wait ih =>
    unfold sendAddress at24cI2cWrite
    by_cases hbusy : 0 < s.busy
    · rw [if_pos hbusy]
      exact ih (by dsimp only; omega)
    · rw [if_neg hbusy]
      rfl

/-- Data that fits in the page is stored in one piece. -/
theorem pageWrite_spec (mem : Nat → UInt8) (x : Nat)
    (hroom : a % pagesize + data.length ≤ pagesize) :
    (pageWrite pagesize mem a data).1 x =
      if a ≤ x ∧ x < a + data.length then data.getD (x - a) 0 else mem x := by
  induction data generalizing mem a with
  | nil =>
    rw [if_neg (by simp)]
    rfl
  | cons b bs ih =>
    unfold pageWrite
    rw [length_cons] at hroom
    cases bs with
    | nil =>
      by_cases hx : x = a
      · subst hx
        simp [pageWrite]
      · rw [if_neg (by simp only [length_cons, length_nil]; omega)]
        exact update_of_ne hx ..
    | cons c cs =>
      rw [length_cons] at hroom
      have hmod : (a % pagesize + 1) % pagesize = a % pagesize + 1 := Nat.mod_eq_of_lt (by omega)
      have hnext : nextInPage pagesize a = a + 1 := by
        unfold nextInPage
        rw [hmod, ← Nat.add_assoc, Nat.div_add_mod']
      have hroom' : (a + 1) % pagesize + (c :: cs).length ≤ pagesize := by
        rw [← Nat.mod_add_mod, length_cons]
        omega
      rw [hnext, ih _ hroom']
      by_cases hx : x = a
      · subst hx
        simp
      · rw [update_of_ne hx]
        simp only [length_cons]
        by_cases hin : a + 1 ≤ x ∧ x < a + 1 + (cs.length + 1)
        · rw [if_pos hin, if_pos (by omega)]
          rw [show x - a = (x - (a + 1)) + 1 by omega, getD_cons_succ]
        · rw [if_neg hin, if_neg (by omega)]

/-- A byte that holds the value of all the data keeps it. -/
theorem pageWrite_keeps {x : Nat} (hdata : ∀ b ∈ data, b = v) (hx : mem x = v) :
    (pageWrite pagesize mem a data).1 x = v := by
  induction data generalizing mem a with
  | nil => exact hx
  | cons b bs ih =>
    rw [forall_mem_cons] at hdata
    refine ih hdata.2 ?_
    by_cases heq : x = a
    · rw [heq, update_self, hdata.1]
    · rw [update_of_ne heq, hx]

theorem pageWrite_first (hdata : ∀ b ∈ data, b = v) (hne : data ≠ []) :
    (pageWrite pagesize mem a data).1 a = v := by
  cases data with
  | nil => exact absurd rfl hne
  | cons b bs =>
    rw [forall_mem_cons] at hdata
    unfold pageWrite
    refine pageWrite_keeps hdata.2 ?_
    rw [update_self, hdata.1]

/-- The chip after one pass of the loop of `at24c_bwrite`. -/
def pageStored (p : Part) (s : Chip) (startblock : Nat) (page : List UInt8) : Chip :=
  let (at24addr, bytes) := p.address (startblock * p.pagesize % 2 ^ 16)
  (at24cI2cWrite p ⟨s.mem, p.wordAddress at24addr bytes, 0⟩ at24addr bytes page).1

theorem pageStored_mem (startblock : Nat) (page : List UInt8) :
    (pageStored p s startblock page).mem = (pageWrite p.pagesize s.mem
      (p.wordAddress (p.address (startblock * p.pagesize % 2 ^ 16)).1
        (p.address (startblock * p.pagesize % 2 ^ 16)).2) page).1 := rfl

theorem pageStored_busy (works : Works p) (startblock : Nat) (page : List UInt8) :
    (pageStored p s startblock page).busy ≤ p.timeoutMs := by
  have := works.answers
  change (if page = [] then 0 else p.writeCycle) ≤ p.timeoutMs
  split <;> omega

/-- The chip after the loop. -/
def pagesStored (p : Part) : Nat → Nat → List UInt8 → Chip → Chip
  | 0, _, _, s => s
  | left + 1, startblock, buffer, s =>
    pagesStored p left (startblock + 1) (buffer.drop p.pagesize)
      (pageStored p s startblock (buffer.take p.pagesize))

/-- The loop of `at24c_bwrite` goes through all passes. -/
theorem bwriteLoop_eq (works : Works p) (left startblock : Nat) (buffer : List UInt8)
    (hbusy : s.busy ≤ p.timeoutMs) :
    bwriteLoop p left startblock buffer s = (pagesStored p left startblock buffer s, true) := by
  induction left generalizing s startblock buffer with
  | zero => rfl
  | succ left ih =>
    rw [bwriteLoop]
    dsimp only
    rw [sendAddress_spec hbusy]
    exact ih (startblock + 1) (buffer.drop p.pagesize) (pageStored_busy works ..)

theorem pagesStored_add (i j startblock : Nat) (buffer : List UInt8) :
    pagesStored p (i + j) startblock buffer s =
      pagesStored p j (startblock + i) (buffer.drop (i * p.pagesize))
        (pagesStored p i startblock buffer s) := by
  induction i generalizing s startblock buffer with
  | zero => simp [pagesStored]
  | succ i ih =>
    rw [Nat.succ_add, pagesStored, ih, drop_drop]
    congr 1
    · omega
    · rw [Nat.succ_mul, Nat.add_comm]

theorem pagesStored_busy (works : Works p) (left startblock : Nat) (buffer : List UInt8)
    (hbusy : s.busy ≤ p.timeoutMs) : (pagesStored p left startblock buffer s).busy ≤ p.timeoutMs := by
  induction left generalizing s startblock buffer with
  | zero => exact hbusy
  | succ left ih => exact ih _ _ (pageStored_busy works ..)

theorem pageStored_inside (works : Works p) {page : List UInt8} (x : Nat)
    (hin : startblock < p.npages) (hlen : page.length = p.pagesize) :
    (pageStored p s startblock page).mem x =
      if startblock * p.pagesize ≤ x ∧ x < startblock * p.pagesize + p.pagesize then
        page.getD (x - startblock * p.pagesize) 0
      else s.mem x := by
  have hcap : p.capacity ≤ 2 ^ 16 := works.capacity_le
  have hps := works.pagesize_pos
  have hpage : startblock * p.pagesize + p.pagesize ≤ p.capacity := by
    rw [← Nat.succ_mul]
    exact Nat.mul_le_mul_right _ hin
  rw [pageStored_mem, Nat.mod_eq_of_lt (by omega), wordAddress_inside works (by omega),
    pageWrite_spec _ _ (by rw [Nat.mul_mod_left]; omega), hlen]

theorem pagesStored_inside (works : Works p) (x : Nat) (hin : startblock + left ≤ p.npages)
    (hlen : left * p.pagesize ≤ buffer.length) :
    (pagesStored p left startblock buffer s).mem x =
      if startblock * p.pagesize ≤ x ∧ x < (startblock + left) * p.pagesize then
        buffer.getD (x - startblock * p.pagesize) 0
      else s.mem x := by
  induction left generalizing s startblock buffer with
  | zero =>
    rw [if_neg (by rw [Nat.add_zero]; omega)]
    rfl
  | succ left ih =>
    rw [Nat.succ_mul] at hlen
    have htake : (buffer.take p.pagesize).length = p.pagesize := by
      rw [length_take]
      omega
    rw [pagesStored, ih (by omega) (by rw [length_drop]; omega),
      pageStored_inside works x (by omega) htake]
    have hend : (startblock + (left + 1)) * p.pagesize =
        startblock * p.pagesize + p.pagesize + left * p.pagesize := by
      rw [Nat.add_mul, Nat.succ_mul]
      omega
    have hmid : (startblock + 1) * p.pagesize = startblock * p.pagesize + p.pagesize :=
      Nat.succ_mul ..
    rw [Nat.add_mul (startblock + 1), hend, hmid]
    by_cases hlater : startblock * p.pagesize + p.pagesize ≤ x
    · by_cases hx : x < startblock * p.pagesize + p.pagesize + left * p.pagesize
      · rw [if_pos ⟨hlater, hx⟩, if_pos ⟨by omega, hx⟩, getD_eq_getElem?_getD, getElem?_drop]
        congr 2
        omega
      · rw [if_neg (by omega), if_neg (by omega), if_neg (by omega)]
    · rw [if_neg (by omega)]
      by_cases hx : startblock * p.pagesize ≤ x
      · rw [if_pos (by omega), if_pos (by omega), getD_eq_getElem?_getD,
          getD_eq_getElem?_getD, getElem?_take_of_lt (by omega)]
      · rw [if_neg (by omega), if_neg (by omega)]

/-- A byte that holds the value of all the data keeps it in the loop. -/
theorem pagesStored_keeps {x : Nat} (hdata : ∀ b ∈ buffer, b = v) (hx : s.mem x = v) :
    (pagesStored p left startblock buffer s).mem x = v := by
  induction left generalizing s startblock buffer with
  | zero => exact hx
  | succ left ih =>
    refine ih (fun b hb => hdata b (mem_of_mem_drop hb)) ?_
    exact pageWrite_keeps (fun b hb => hdata b (mem_of_mem_take hb)) hx

/-- The page behind the last one is stored at the start of the memory. -/
theorem pagesStored_behind (works : Works p) (hdata : ∀ b ∈ buffer, b = v) (hne : buffer ≠ []) :
    (pagesStored p (left + 1) p.npages buffer s).mem 0 = v := by
  unfold pagesStored
  refine pagesStored_keeps (fun b hb => hdata b (mem_of_mem_drop hb)) ?_
  have hbehind := wordAddress_behind works
  unfold Part.capacity at hbehind
  rw [pageStored_mem, hbehind]
  refine pageWrite_first (fun b hb => hdata b (mem_of_mem_take hb)) ?_
  have hps := works.pagesize_pos
  rw [ne_eq, take_eq_nil_iff]
  rintro (h | h)
  · omega
  · exact hne h

theorem breadLoop_spec (works : Works p) (hbusy : s.busy ≤ p.timeoutMs)
    (hin : startblock + left ≤ p.npages) :
    ∃ u, breadLoop p left (startblock * p.pagesize) s =
      (u, some ((List.range (left * p.pagesize)).map fun i => s.mem (startblock * p.pagesize + i))) := by
  induction left generalizing s startblock with
  | zero =>
    refine ⟨s, ?_⟩
    rw [Nat.zero_mul]
    rfl
  | succ left ih =>
    have hcap : (startblock + 1) * p.pagesize ≤ p.capacity := Nat.mul_le_mul_right _ (by omega)
    rw [Nat.succ_mul] at hcap
    have hps := works.pagesize_pos
    have hread : ∃ u, at24cReadInternal p s (startblock * p.pagesize) p.pagesize =
        (u, some ((List.range p.pagesize).map fun i => s.mem (startblock * p.pagesize + i))) ∧
        u.mem = s.mem ∧ u.busy = 0 := by
      unfold at24cReadInternal
      dsimp only
      rw [sendAddress_spec hbusy, wordAddress_inside works (by omega)]
      refine ⟨_, Prod.ext rfl (congrArg some (map_congr_left fun i hi => ?_)), rfl, rfl⟩
      rw [mem_range] at hi
      dsimp only
      rw [Nat.mod_eq_of_lt (by omega)]
    obtain ⟨u, hpage, hmem, hidle⟩ := hread
    obtain ⟨v, hrest⟩ := @ih u (startblock + 1) (by omega) (by omega)
    refine ⟨v, ?_⟩
    rw [breadLoop, hpage]
    dsimp only
    rw [← Nat.succ_mul, hrest, hmem]
    dsimp only
    congr 2
    rw [Nat.succ_mul left, Nat.add_comm (left * p.pagesize), range_add, map_append, map_map]
    congr 1
    refine map_congr_left fun i _ => ?_
    dsimp only [comp_apply]
    congr 1
    rw [Nat.succ_mul]
    omega

/-- The range does not run past the end of the device, or lies behind it. -/
def InDevice (p : Part) (startblock nblocks : Nat) : Prop :=
  startblock * p.ratio < 2 ^ 31 ∧
    (p.npages ≤ startblock * p.ratio ∨ (startblock + nblocks) * p.ratio ≤ p.npages)

theorem stores_behind (hdefined : startblock * p.ratio < 2 ^ 31)
    (hbehind : p.npages ≤ startblock * p.ratio) : Stores p s startblock nblocks data := by
  have hnone : blocksThere p startblock nblocks = 0 := by
    unfold blocksThere
    rw [Nat.sub_eq_zero_of_le hbehind, Nat.zero_div, Nat.min_zero]
  unfold Stores
  rw [hnone]
  refine ⟨s, ?_, fun a _ => ?_, s, ?_⟩
  · unfold at24cBwrite
    rw [if_neg (by omega), if_pos hbehind]
    rfl
  · rw [if_neg (by rw [Nat.add_zero]; omega)]
  · unfold at24cBread
    rw [if_neg (by omega), if_pos hbehind, Nat.zero_mul]
    rfl

theorem toSsize_eq {n : Nat} (h : n < 2 ^ 31) : toSsize n = n :=
  Int.bmod_eq_of_le (by omega) (by omega)

theorem stores_inside (works : Works p) (hdefined : startblock * p.ratio < 2 ^ 31)
    (hstart : startblock * p.ratio < p.npages) (hin : (startblock + nblocks) * p.ratio ≤ p.npages)
    (hbusy : s.busy ≤ p.timeoutMs) (hlen : data.length = nblocks * blockBytes p) :
    Stores p s startblock nblocks data := by
  have hratio := ratio_pos works
  have hnpages := works.npages_lt
  rw [Nat.add_mul] at hin
  have hcount : nblocks * p.ratio / p.ratio = nblocks := Nat.mul_div_cancel _ hratio
  have hle : nblocks ≤ nblocks * p.ratio := Nat.le_mul_of_pos_right _ hratio
  have hthere : blocksThere p startblock nblocks = nblocks :=
    Nat.min_eq_left ((Nat.le_div_iff_mul_le hratio).mpr (by omega))
  have hclamp : clampBlocks p (startblock * p.ratio) (nblocks * p.ratio) = nblocks * p.ratio := by
    unfold clampBlocks
    rw [if_neg (by omega)]
  have hssize : toSsize (nblocks * p.ratio / p.ratio) = Int.ofNat nblocks := by
    rw [hcount, toSsize_eq (by omega)]
    rfl
  have hlength : nblocks * p.ratio * p.pagesize ≤ data.length := by
    rw [hlen, blockBytes, Nat.mul_assoc]
  have hbytes : nblocks * p.ratio * p.pagesize = nblocks * blockBytes p := Nat.mul_assoc ..
  have hfirst : startblock * p.ratio * p.pagesize = startblock * blockBytes p := Nat.mul_assoc ..
  have hmem := fun x => pagesStored_inside (s := s) works x
    (show startblock * p.ratio + nblocks * p.ratio ≤ p.npages by omega) hlength
  unfold Stores
  rw [hthere]
  refine ⟨pagesStored p (nblocks * p.ratio) (startblock * p.ratio) data s, ?_, fun a _ => ?_, ?_⟩
  · unfold at24cBwrite
    rw [if_neg (by omega), if_neg (by omega), Nat.mod_eq_of_lt (by omega),
      bwriteLoop_eq works _ _ _ hbusy, hclamp]
    dsimp only
    rw [hssize]
  · rw [hmem, Nat.add_mul, hbytes, hfirst, Nat.add_mul]
  · obtain ⟨u, hread⟩ := breadLoop_spec works
      (pagesStored_busy works (nblocks * p.ratio) (startblock * p.ratio) data hbusy)
      (show startblock * p.ratio + nblocks * p.ratio ≤ p.npages by omega)
    have hdata : ((List.range (nblocks * p.ratio * p.pagesize)).map fun i =>
        (pagesStored p (nblocks * p.ratio) (startblock * p.ratio) data s).mem
          (startblock * p.ratio * p.pagesize + i)) = data.take (nblocks * blockBytes p) := by
      refine ext_getElem ?_ fun i hi _ => ?_
      · rw [length_map, length_range, length_take, hbytes, hlen, Nat.min_self]
      · rw [length_map, length_range] at hi
        rw [getElem_map, getElem_range, hmem, if_pos (by rw [Nat.add_mul]; omega),
          Nat.add_sub_cancel_left, getElem_take, getD_eq_getElem _ _ (by omega)]
    refine ⟨u, ?_⟩
    unfold at24cBread
    dsimp only
    rw [if_neg (by omega), if_neg (by omega), Nat.mod_eq_of_lt (by omega),
      hclamp, hread, hdata]
    dsimp only
    rw [hssize]

/-- A range that runs past the end: the first byte of the device is overwritten. -/
theorem not_stores_past_end (works : Works p) (hstart : startblock * p.ratio < p.npages)
    (hpast : p.npages < (startblock + nblocks) * p.ratio)
    (hfits : nblocks * blockBytes p < 2 ^ 32) :
    ∃ data : List UInt8, data.length = nblocks * blockBytes p ∧
      ¬ Stores p ⟨fun _ => 0, 0, 0⟩ startblock nblocks data := by
  have hps := works.pagesize_pos
  have hbytes : nblocks * p.ratio * p.pagesize = nblocks * blockBytes p := Nat.mul_assoc ..
  rw [Nat.add_mul] at hpast
  obtain ⟨i, hi⟩ : ∃ i, p.npages = startblock * p.ratio + i := ⟨_, (Nat.add_sub_of_le hstart.le).symm⟩
  obtain ⟨j, hj⟩ : ∃ j, nblocks * p.ratio = i + (j + 1) := ⟨nblocks * p.ratio - i - 1, by omega⟩
  have hsplit : nblocks * blockBytes p = i * p.pagesize + (j + 1) * p.pagesize := by
    rw [← hbytes, hj, Nat.add_mul]
  have hroom : 0 < i * p.pagesize := Nat.mul_pos (by omega) hps
  -- the data for the device is what the chip holds, the data behind it is not
  refine ⟨List.replicate (i * p.pagesize) 0 ++ List.replicate ((j + 1) * p.pagesize) 1, by simp [hsplit],
    fun ⟨t, hwrite, hmem, _⟩ => ?_⟩
  have hold := hmem 0 (Nat.mul_pos (by omega) hps)
  generalize hdata : List.replicate (i * p.pagesize) (0 : UInt8) ++
    List.replicate ((j + 1) * p.pagesize) 1 = data at *
  have hzero : data.getD 0 0 = 0 := by
    rw [← hdata, getD_append _ _ _ _ (by simpa using hroom), getD_eq_getElem?_getD,
      getElem?_replicate_of_lt hroom, Option.getD_some]
  have hexpected : t.mem 0 = 0 := by
    rw [hold, Nat.zero_sub, hzero, ite_self]
  have hdrop : data.drop (i * p.pagesize) = List.replicate ((j + 1) * p.pagesize) 1 := by
    rw [← hdata, drop_left' (length_replicate ..)]
  have ht : t = pagesStored p (nblocks * p.ratio) (startblock * p.ratio) data ⟨fun _ => 0, 0, 0⟩ := by
    have hlt : nblocks * p.ratio < 2 ^ 32 := by
      rw [← hbytes] at hfits
      exact Nat.lt_of_le_of_lt (Nat.le_mul_of_pos_right _ hps) hfits
    have hnpages := works.npages_lt
    unfold at24cBwrite at hwrite
    rw [if_neg (by omega), if_neg (by omega), Nat.mod_eq_of_lt hlt,
      bwriteLoop_eq works _ _ _ (Nat.zero_le _)] at hwrite
    exact (congrArg Prod.fst (Option.some.inj hwrite)).symm
  have hfound : t.mem 0 = 1 := by
    rw [ht, hj, pagesStored_add, ← hi, hdrop]
    refine pagesStored_behind works (fun b hb => eq_of_mem_replicate hb) ?_
    rw [ne_eq, replicate_eq_nil_iff]
    exact (Nat.mul_pos (Nat.succ_pos j) hps).ne'
  rw [hexpected] at hfound
  exact absurd hfound (by decide)

/-- Block access of a working part is right for all data exactly if the range does not run
past the end of the device. -/
theorem blocks_stored_iff (p : Part) (works : Works p) (startblock nblocks : Nat)
    (hfits : nblocks * blockBytes p < 2 ^ 32) :
    (∀ s data, s.busy ≤ p.timeoutMs → data.length = nblocks * blockBytes p →
      Stores p s startblock nblocks data) ↔ InDevice p startblock nblocks := by
  constructor
  · intro hall
    have hdefined : startblock * p.ratio < 2 ^ 31 := by
      obtain ⟨t, hwrite, -⟩ := hall ⟨fun _ => 0, 0, 0⟩ (List.replicate (nblocks * blockBytes p) 0)
        (Nat.zero_le _) (length_replicate ..)
      by_contra hge
      unfold at24cBwrite at hwrite
      rw [if_pos (by omega)] at hwrite
      cases hwrite
    refine ⟨hdefined, ?_⟩
    by_contra hpast
    rw [not_or, Nat.not_le, Nat.not_le] at hpast
    obtain ⟨data, hlen, hnot⟩ := not_stores_past_end works hpast.1 hpast.2 hfits
    exact hnot (hall _ data (Nat.zero_le _) hlen)
  · rintro ⟨hdefined, hbehind | hin⟩ s data hbusy hlen
    · exact stores_behind hdefined hbehind
    · rcases Nat.lt_or_ge (startblock * p.ratio) p.npages with hstart | hge
      · exact stores_inside works hdefined hstart hin hbusy hlen
      · exact stores_behind hdefined hge

theorem parts_addressed :
    ∀ part ∈ parts, 0 < part.2.2.1 ∧ part.2.1 < 2 ^ 16 ∧ part.2.2.1 < 2 ^ 16 ∧
      part.2.1 * part.2.2.1 ≤ 2 ^ 16 ∧
      match part.2.2.2 with
      | .two => True
      | .one bits => bits ≤ 3 ∧ part.2.1 * part.2.2.1 ≤ 256 * 2 ^ bits ∧ 0x50 % 2 ^ bits = 0 := by
  simp [parts]

theorem parts_work (blocksize timeoutMs writeCycle : Nat) (h : writeCycle ≤ timeoutMs) :
    ∀ part ∈ parts,
      Works ⟨part.2.1, part.2.2.1, part.2.2.2, 0x50, blocksize, timeoutMs, writeCycle⟩ := by
  intro part hpart
  obtain ⟨hpos, hnpages, hpagesize, hcapacity, haddressed⟩ := parts_addressed part hpart
  refine ⟨hpos, hnpages, hpagesize, hcapacity, fun bits hbits => ?_, h⟩
  dsimp only at hbits
  rw [hbits] at haddressed
  exact haddressed

/-- AT24C512. -/
def at24c512 : Part := ⟨512, 128, .two, 0x50, 128, 10, 5⟩

theorem at24c512_works : Works at24c512 :=
  parts_work 128 10 5 (by decide) (512, 512, 128, .two) (by decide)

/-- The last two pages of an AT24C512. -/
theorem blocks_stored_iff_at24c512 :
    Stores at24c512 ⟨fun _ => 0, 0, 0⟩ 510 2 (List.replicate 256 7) := by
  have hstored := (blocks_stored_iff at24c512 at24c512_works 510 2 (by decide)).mpr
    ⟨by decide, .inr (by decide)⟩
  exact hstored ⟨fun _ => 0, 0, 0⟩ (List.replicate 256 7) (Nat.zero_le _) length_replicate

/-- Two pages from the last one on: one block is reported, and the second page of data is in
the first page of the device. -/
theorem write_wraps_around :
    ((at24cBwrite at24c512 ⟨fun _ => 0, 0, 0⟩ 511 2
      (List.replicate 128 0 ++ List.replicate 128 1)).map fun r => (r.2, r.1.mem 0)) = some (1, 1) ∧
    ¬ Stores at24c512 ⟨fun _ => 0, 0, 0⟩ 511 2
      (List.replicate 128 0 ++ List.replicate 128 1) := by
  have hwrite : ((at24cBwrite at24c512 ⟨fun _ => 0, 0, 0⟩ 511 2
      (List.replicate 128 0 ++ List.replicate 128 1)).map fun r => (r.2, r.1.mem 0)) =
      some (1, 1) := by decide +kernel
  refine ⟨hwrite, fun ⟨t, hstored, hmem, _⟩ => ?_⟩
  rw [hstored, Option.map_some, Option.some.injEq, Prod.mk.injEq] at hwrite
  have hzero : t.mem 0 = 0 := hmem 0 (by decide)
  rw [hzero] at hwrite
  exact absurd hwrite.2 (by decide)

end NbLot.Guarantees.Eeprom
