import NbLot.Source.Fat.Cache

/-!
# FAT: the geometry of a volume

Source: nuttx/fs/fat/fs_fat32util.c:108-268,1324-1406, fs_fat32.h:64-94,216-217,312-329.

`fat_checkbootrecord`, from the bytes of the boot sector (`fatCheckbootsector`) and behind the check
of the signature (`fatCheckbootrecord`), with the divisors of the divisions it performs, and
`fat_nextdirentry` in the root directory of a FAT12 or FAT16 volume. What is read for FSINFO and for
the root directory of a FAT32 volume is left out.
-/
namespace NbLot.Source.Fat

/-- The fields of a boot record. -/
structure BootRecord where
  bytespersec : Nat
  secperclus : Nat
  resvdseccount : Nat
  numfats : Nat
  rootentcnt : Nat
  totsec16 : Nat
  fatsz16 : Nat
  totsec32 : Nat
  fatsz32 : Nat
  deriving DecidableEq, Repr

/-- `FAT_MAXCLUST12`. -/
def fatMaxclust12 : Nat := 2 ^ 12 - 16

/-- `FAT_MAXCLUST16`. -/
def fatMaxclust16 : Nat := 2 ^ 16 - 16

namespace BootRecord

def nfatsects (record : BootRecord) : Nat :=
  if record.fatsz16 ≠ 0 then record.fatsz16 else record.fatsz32

def fattotsec (record : BootRecord) : Nat :=
  if record.totsec16 ≠ 0 then record.totsec16 else record.totsec32

def ntotalfatsects (record : BootRecord) : Nat := uint32 (record.numfats * record.nfatsects)

def ndatasectors (record : BootRecord) (hwsectorsize : Nat) : Nat :=
  let rootdirsectors : Nat :=
    if record.rootentcnt ≠ 0 then
      (32 * record.rootentcnt + hwsectorsize - 1) / hwsectorsize % 2 ^ 16
    else 0
  (((record.fattotsec : Int) - record.resvdseccount - record.ntotalfatsects - rootdirsectors)
    % 2 ^ 32).toNat

/-- The checks in front of the division by the sectors of a cluster, in their order. -/
def Checked (record : BootRecord) (hwsectorsize hwnsectors : Nat) : Prop :=
  record.bytespersec = hwsectorsize ∧ ¬(record.nfatsects = 0 ∨ record.nfatsects ≥ hwnsectors) ∧
    ¬(record.fattotsec = 0 ∨ record.fattotsec > hwnsectors) ∧
    ¬record.resvdseccount > hwnsectors ∧ ¬record.ndatasectors hwsectorsize > hwnsectors

instance (record : BootRecord) (hwsectorsize hwnsectors : Nat) :
    Decidable (record.Checked hwsectorsize hwnsectors) :=
  inferInstanceAs (Decidable (_ ∧ _))

/-- What is stored for an accepted record in the sector `fatbase`. Where `fs_fatbase` would overflow
here it lies behind every device. -/
def volume (record : BootRecord) (hwsectorsize fatbase : Nat) (fatType : FatType) : Volume where
  fatType := fatType
  hwsectorsize := hwsectorsize
  fatbase := fatbase + record.resvdseccount
  nfatsects := record.nfatsects
  fatnumfats := record.numfats
  fatsecperclus := record.secperclus
  database := uint32 (fatbase + record.resvdseccount + record.ntotalfatsects +
    record.rootentcnt / (hwsectorsize / 32))
  nclusters := record.ndatasectors hwsectorsize / record.secperclus

end BootRecord

/-- `fat_checkbootrecord`, for a record in the sector `fatbase`; `none` is an error. -/
def fatCheckbootrecord (hwsectorsize hwnsectors fatbase : Nat) (record : BootRecord) :
    Option Volume :=
  if record.Checked hwsectorsize hwnsectors then
    let nclusters := record.ndatasectors hwsectorsize / record.secperclus
    let notfat32 := record.rootentcnt ≠ 0 ∨ record.fatsz16 ≠ 0 ∨ record.totsec16 ≠ 0
    if nclusters ≤ fatMaxclust12 then some (record.volume hwsectorsize fatbase .fat12)
    else if nclusters ≤ fatMaxclust16 then some (record.volume hwsectorsize fatbase .fat16)
    else if ¬notfat32 then some (record.volume hwsectorsize fatbase .fat32)
    else none
  else none

/-- The fields of a boot sector. -/
def bootRecord (buffer : Nat → UInt8) : BootRecord where
  bytespersec := fatGetuint16 buffer 11
  secperclus := (buffer 13).toNat
  resvdseccount := fatGetuint16 buffer 14
  numfats := (buffer 16).toNat
  rootentcnt := fatGetuint16 buffer 17
  totsec16 := fatGetuint16 buffer 19
  fatsz16 := fatGetuint16 buffer 22
  totsec32 := fatGetuint32 buffer 32
  fatsz32 := fatGetuint32 buffer 36

/-- `fat_checkbootrecord`, with the check of the signature. -/
def fatCheckbootsector (hwsectorsize hwnsectors fatbase : Nat) (buffer : Nat → UInt8) : Option Volume :=
  if fatGetuint16 buffer 510 ≠ 0xaa55 then none
  else fatCheckbootrecord hwsectorsize hwnsectors fatbase (bootRecord buffer)

/-- The divisors of the divisions that `fat_checkbootrecord` performs behind the check of the
signature. -/
def bootDivisors (hwsectorsize hwnsectors : Nat) (record : BootRecord) : List Nat :=
  if record.bytespersec ≠ hwsectorsize then []
  else
    (if record.rootentcnt ≠ 0 then [hwsectorsize] else []) ++
      if record.Checked hwsectorsize hwnsectors then
        record.secperclus ::
          -- the division for `fs_database`, once the type is known
          if (fatCheckbootrecord hwsectorsize hwnsectors 0 record).isSome then [hwsectorsize / 32] else []
      else []

/-- `fat_nextdirentry` in the root directory of a FAT12 or FAT16 volume: the index of the entry and
its sector. -/
def fatNextdirentryRoot (hwsectorsize rootentcnt : Nat) (dir : Nat × Nat) : Option (Nat × Nat) :=
  let ndx := dir.1 + 1
  if ndx &&& uint32 (hwsectorsize / 32 + (2 ^ 32 - 1)) = 0 then
    if ndx ≥ rootentcnt then none else some (ndx, dir.2 + 1)
  else some (ndx, dir.2)

end NbLot.Source.Fat
