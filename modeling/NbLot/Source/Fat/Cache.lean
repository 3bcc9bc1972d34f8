import Mathlib.Data.Nat.Bitwise

/-!
# FAT: the sector cache and the entries of the FAT

Source: nuttx/fs/fat/fs_fat32util.c:255-350, 814-1098, 1483-1572, fs_fat32.h:216-223.

The mounted volume with its one-sector cache `fs_buffer`. A device error does not occur. The
geometry that `fat_mount` has read is the structure `Volume`; a sector number is an `off_t`.
-/
namespace NbLot.Source.Fat

inductive FatType where
  | fat12
  | fat16
  | fat32
  deriving DecidableEq, Repr

/-- What the mount has read from the boot record. -/
structure Volume where
  fatType : FatType
  hwsectorsize : Nat
  fatbase : Nat
  nfatsects : Nat
  fatnumfats : Nat
  fatsecperclus : Nat
  database : Nat
  nclusters : Nat
  deriving DecidableEq, Repr

/-- `struct fat_mountpt_s` with the medium: the bytes of each sector. -/
structure Fs where
  dev : Int → Nat → UInt8
  buffer : Nat → UInt8
  currentsector : Int
  dirty : Bool
  fsinextfree : Nat
  fsifreecount : Nat
  fsidirty : Bool

def einval : Int := 22

/-- `SEC_NDXMASK`. -/
def Volume.secNdxmask (v : Volume) : Nat := v.hwsectorsize - 1

/-- Unsigned 32-bit arithmetic. -/
def uint32 (n : Nat) : Nat := n % 2 ^ 32

def fatGetuint16 (ptr : Nat → UInt8) (i : Nat) : Nat := (ptr (i + 1)).toNat <<< 8 ||| (ptr i).toNat

def fatGetuint32 (ptr : Nat → UInt8) (i : Nat) : Nat :=
  fatGetuint16 ptr (i + 2) <<< 16 ||| fatGetuint16 ptr i

def fatPutuint16 (ptr : Nat → UInt8) (i value16 : Nat) : Nat → UInt8 :=
  Function.update (Function.update ptr i (UInt8.ofNat value16)) (i + 1) (UInt8.ofNat (value16 >>> 8))

def fatPutuint32 (ptr : Nat → UInt8) (i value32 : Nat) : Nat → UInt8 :=
  fatPutuint16 (fatPutuint16 ptr i value32) (i + 2) (value32 >>> 16)

namespace Fs

/-- `fat_hwwrite` of one sector. -/
def hwwrite (fs : Fs) (buffer : Nat → UInt8) (sector : Int) : Fs :=
  { fs with dev := Function.update fs.dev sector buffer }

end Fs

variable (v : Volume)

/-- The loop of `fat_fscacheflush` over the copies of the FAT. -/
def mirror : Nat → Fs → Fs
  | 0, fs => fs
  | copies + 1, fs =>
    let fs := { fs with currentsector := fs.currentsector + v.nfatsects }
    mirror copies (fs.hwwrite fs.buffer fs.currentsector)

/-- `fat_fscacheflush`. -/
def fatFscacheflush (fs : Fs) : Fs :=
  if fs.dirty = true then
    let fs := fs.hwwrite fs.buffer fs.currentsector
    let fs :=
      if fs.currentsector ≥ v.fatbase ∧ fs.currentsector < v.fatbase + v.nfatsects then
        mirror v (v.fatnumfats - 1) fs
      else fs
    { fs with dirty := false }
  else fs

/-- `fat_fscacheread`. -/
def fatFscacheread (fs : Fs) (sector : Int) : Fs :=
  if fs.currentsector ≠ sector then
    let fs := fatFscacheflush v fs
    { fs with buffer := fs.dev sector, currentsector := sector }
  else fs

/-- The byte behind one of a FAT12 entry: the sector may change. -/
def nextByte (fs : Fs) (fatsector : Int) (fatindex : Nat) : Fs × Nat :=
  if fatindex + 1 ≥ v.hwsectorsize then (fatFscacheread v fs (fatsector + 1), 0)
  else (fs, fatindex + 1)

/-- `fat_getcluster`. -/
def fatGetcluster (fs : Fs) (clusterno : Nat) : Fs × Int :=
  if clusterno ≥ 2 ∧ clusterno < v.nclusters then
    match v.fatType with
    | .fat12 =>
      let fatoffset := uint32 (clusterno * 3) / 2
      let fatsector : Int := v.fatbase + (fatoffset / v.hwsectorsize : Nat)
      let fs := fatFscacheread v fs fatsector
      let fatindex := fatoffset &&& v.secNdxmask
      let low := (fs.buffer fatindex).toNat
      let (fs, fatindex) := nextByte v fs fatsector fatindex
      let cluster := low ||| (fs.buffer fatindex).toNat <<< 8
      (fs, (if clusterno &&& 1 ≠ 0 then cluster >>> 4 else cluster &&& 0x0fff : Nat))
    | .fat16 =>
      let fatoffset := uint32 (2 * clusterno)
      let fs := fatFscacheread v fs (v.fatbase + (fatoffset / v.hwsectorsize : Nat))
      (fs, fatGetuint16 fs.buffer (fatoffset &&& v.secNdxmask))
    | .fat32 =>
      let fatoffset := uint32 (4 * clusterno)
      let fs := fatFscacheread v fs (v.fatbase + (fatoffset / v.hwsectorsize : Nat))
      (fs, (fatGetuint32 fs.buffer (fatoffset &&& v.secNdxmask) &&& 0x0fffffff : Nat))
  else (fs, -einval)

/-- `fat_putcluster`; `nextcluster` is the bit pattern of the argument. -/
def fatPutcluster (fs : Fs) (clusterno nextcluster : Nat) : Fs × Int :=
  if clusterno = 0 ∨ clusterno ≥ 2 ∧ clusterno < v.nclusters then
    let fs :=
      match v.fatType with
      | .fat12 =>
        let fatoffset := uint32 (clusterno * 3) / 2
        let fatsector : Int := v.fatbase + (fatoffset / v.hwsectorsize : Nat)
        let fs := fatFscacheread v fs fatsector
        let fatindex := fatoffset &&& v.secNdxmask
        let value :=
          if clusterno &&& 1 ≠ 0 then
            ((fs.buffer fatindex).toNat &&& 0x0f) ||| nextcluster <<< 4
          else nextcluster
        let fs := { fs with buffer := Function.update fs.buffer fatindex (UInt8.ofNat value) }
        let (fs, fatindex) :=
          if fatindex + 1 ≥ v.hwsectorsize then
            (fatFscacheread v { fs with dirty := true } (fatsector + 1), 0)
          else (fs, fatindex + 1)
        let value :=
          if clusterno &&& 1 ≠ 0 then nextcluster >>> 4
          else ((fs.buffer fatindex).toNat &&& 0xf0) ||| ((nextcluster >>> 8) &&& 0x0f)
        { fs with buffer := Function.update fs.buffer fatindex (UInt8.ofNat value) }
      | .fat16 =>
        let fatoffset := uint32 (2 * clusterno)
        let fs := fatFscacheread v fs (v.fatbase + (fatoffset / v.hwsectorsize : Nat))
        { fs with
          buffer := fatPutuint16 fs.buffer (fatoffset &&& v.secNdxmask) (nextcluster &&& 0xffff) }
      | .fat32 =>
        let fatoffset := uint32 (4 * clusterno)
        let fs := fatFscacheread v fs (v.fatbase + (fatoffset / v.hwsectorsize : Nat))
        let fatindex := fatoffset &&& v.secNdxmask
        let val := fatGetuint32 fs.buffer fatindex &&& 0xf0000000
        { fs with
          buffer := fatPutuint32 fs.buffer fatindex (val ||| (nextcluster &&& 0x0fffffff)) }
    ({ fs with dirty := true }, 0)
  else (fs, -einval)

end NbLot.Source.Fat
