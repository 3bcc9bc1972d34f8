import Mathlib.Data.Nat.Bitwise

/-!
# AT24 EEPROM driver

Source: nuttx/drivers/mtd/at24xx.c:89-129, 195-242, 310-490.

The driver with the chip on the bus. The chip takes the bytes of its word address and, for
the small parts, the low bits of the bus address; data bytes are stored within a page, a read
goes on over the whole memory. During its write cycle it does not answer: `busy` is the
number of transfers it still refuses. `off_t` and `size_t` have 32 bits, the fields `pagesize`
and `npages` 16; a signed product that overflows is undefined and gives `none`.
-/
namespace NbLot.Source.Mtd

/-- AT24XX_ADDRSIZE; a part with one address byte takes `bits` of the bus address. -/
inductive AddrSize where
  | one (bits : Nat)
  | two
  deriving DecidableEq, Repr

/-- The part and its configuration. `blocksize` is CONFIG_AT24XX_MTD_BLOCKSIZE, `timeoutMs`
is CONFIG_AT24XX_TIMEOUT_MS and `writeCycle` the transfers refused after a page write. -/
structure Part where
  npages : Nat
  pagesize : Nat
  addrsize : AddrSize
  addr : Nat
  blocksize : Nat
  timeoutMs : Nat
  writeCycle : Nat
  deriving DecidableEq, Repr

structure Chip where
  mem : Nat → UInt8
  pointer : Nat
  busy : Nat

def etimedout : Int := 116

namespace Part

def capacity (p : Part) : Nat := p.npages * p.pagesize

/-- Pages of a block. -/
def ratio (p : Part) : Nat := if p.blocksize > p.pagesize then p.blocksize / p.pagesize else 1

/-- The bus address and the address bytes for an offset. -/
def address (p : Part) (offset : Nat) : Nat × List Nat :=
  match p.addrsize with
  | .two => (p.addr, [(offset >>> 8) &&& 0xff, offset &&& 0xff])
  | .one _ => (p.addr ||| ((offset >>> 8) &&& 0x07), [offset &&& 0xff])

/-- The word address the chip takes from the bus. -/
def wordAddress (p : Part) (at24addr : Nat) (bytes : List Nat) : Nat :=
  match p.addrsize with
  | .two => (bytes.getD 0 0 * 256 + bytes.getD 1 0) % p.capacity
  | .one bits => (at24addr % 2 ^ bits * 256 + bytes.getD 0 0) % p.capacity

end Part

/-- The address behind one, within its page. -/
def nextInPage (pagesize a : Nat) : Nat := a / pagesize * pagesize + (a % pagesize + 1) % pagesize

/-- The chip stores data bytes. -/
def pageWrite (pagesize : Nat) : (Nat → UInt8) → Nat → List UInt8 → (Nat → UInt8) × Nat
  | mem, a, [] => (mem, a)
  | mem, a, b :: bs => pageWrite pagesize (Function.update mem a b) (nextInPage pagesize a) bs

variable (p : Part)

/-- `at24c_i2c_write` of the address bytes and data; the result tells whether the chip
answered. -/
def at24cI2cWrite (s : Chip) (at24addr : Nat) (bytes : List Nat) (data : List UInt8) : Chip × Bool :=
  if 0 < s.busy then ({ s with busy := s.busy - 1 }, false)
  else
    let stored := pageWrite p.pagesize s.mem (p.wordAddress at24addr bytes) data
    (⟨stored.1, stored.2, if data = [] then 0 else p.writeCycle⟩, true)

/-- `at24c_i2c_read`. -/
def at24cI2cRead (s : Chip) (buflen : Nat) : Chip × List UInt8 :=
  ({ s with pointer := (s.pointer + buflen) % p.capacity },
    (List.range buflen).map fun i => s.mem ((s.pointer + i) % p.capacity))

/-- The address is sent until the chip answers. -/
def sendAddress (at24addr : Nat) (bytes : List Nat) : Nat → Chip → Chip × Bool
  | 0, s => at24cI2cWrite p s at24addr bytes []
  | wait + 1, s =>
    match at24cI2cWrite p s at24addr bytes [] with
    | (s, true) => (s, true)
    | (s, false) => sendAddress at24addr bytes wait s

/-- `at24c_read_internal`; no bytes for -ETIMEDOUT. -/
def at24cReadInternal (s : Chip) (offset nbytes : Nat) : Chip × Option (List UInt8) :=
  let (at24addr, bytes) := p.address offset
  match sendAddress p at24addr bytes p.timeoutMs s with
  | (s, false) => (s, none)
  | (s, true) =>
    let (s, buffer) := at24cI2cRead p s nbytes
    (s, some buffer)

/-- The loop of `at24c_bread`. -/
def breadLoop : Nat → Nat → Chip → Chip × Option (List UInt8)
  | 0, _, s => (s, some [])
  | left + 1, offset, s =>
    match at24cReadInternal p s offset p.pagesize with
    | (s, none) => (s, none)
    | (s, some page) =>
      match breadLoop left (offset + p.pagesize) s with
      | (s, none) => (s, none)
      | (s, some pages) => (s, some (page ++ pages))

/-- The loop of `at24c_bwrite`. -/
def bwriteLoop : Nat → Nat → List UInt8 → Chip → Chip × Bool
  | 0, _, _, s => (s, true)
  | blocksleft + 1, startblock, buffer, s =>
    let offset := startblock * p.pagesize % 2 ^ 16
    let (at24addr, bytes) := p.address offset
    match sendAddress p at24addr bytes p.timeoutMs s with
    | (s, false) => (s, false)
    | (s, true) =>
      let s := (at24cI2cWrite p s at24addr bytes (buffer.take p.pagesize)).1
      bwriteLoop blocksleft (startblock + 1) (buffer.drop p.pagesize) s

/-- The number of pages from a page on that are in the device. -/
def clampBlocks (startblock nblocks : Nat) : Nat :=
  if (startblock + nblocks) % 2 ^ 32 > p.npages then p.npages - startblock else nblocks

/-- `ssize_t`. -/
def toSsize (n : Nat) : Int := (n : Int).bmod (2 ^ 32)

/-- `at24c_bread`: the result and what is in the buffer. -/
def at24cBread (s : Chip) (startblock nblocks : Nat) : Option (Chip × Int × List UInt8) :=
  let startblock := startblock * p.ratio
  if 2 ^ 31 ≤ startblock then none
  else
    let nblocks := nblocks * p.ratio % 2 ^ 32
    if startblock ≥ p.npages then some (s, 0, [])
    else
      let nblocks := clampBlocks p startblock nblocks
      match breadLoop p nblocks (startblock * p.pagesize) s with
      | (s, none) => some (s, -etimedout, [])
      | (s, some buffer) => some (s, toSsize (nblocks / p.ratio), buffer)

/-- `at24c_bwrite`. -/
def at24cBwrite (s : Chip) (startblock nblocks : Nat) (buffer : List UInt8) : Option (Chip × Int) :=
  let startblock := startblock * p.ratio
  if 2 ^ 31 ≤ startblock then none
  else
    let nblocks := nblocks * p.ratio % 2 ^ 32
    let blocksleft := nblocks
    if startblock ≥ p.npages then some (s, 0)
    else
      let nblocks := clampBlocks p startblock nblocks
      match bwriteLoop p blocksleft startblock buffer s with
      | (s, false) => some (s, -etimedout)
      | (s, true) => some (s, toSsize (nblocks / p.ratio))

/-- The parts by CONFIG_AT24XX_SIZE: pages, page size and address bytes. -/
def parts : List (Nat × Nat × Nat × AddrSize) :=
  [(2, 16, 16, .one 0), (4, 32, 16, .one 1), (8, 64, 16, .one 2), (16, 128, 16, .one 3),
    (32, 128, 32, .two), (48, 192, 32, .two), (64, 256, 32, .two), (128, 256, 64, .two),
    (256, 512, 64, .two), (512, 512, 128, .two)]

end NbLot.Source.Mtd
