import NbLot.Source.Fat.Cache

/-!
# FAT: reading, writing and seeking in an open file

Source: nuttx/fs/fat/fs_fat32.c:470-1254, fs_fat32util.c:785-802, 1150-1290, 1575-1688, 1845-1887.

An open file with its one-sector cache `ff_buffer`. The mount is healthy and not forced off, a
device error does not occur, and CONFIG_FAT_FORCE_INDIRECT and CONFIG_FAT_DIRECT_RETRY are not
set. `handed` records the sectors of file data that have been handed to the device. Loops have
fuel; `none` is a loop that runs out of it.
-/
namespace NbLot.Source.Fat

def eacces : Int := 13
def efbig : Int := 27
def enospc : Int := 28

/-- The value an `off_t` holds after an assignment. -/
def offT (n : Int) : Int := (n + 2 ^ 31) % 2 ^ 32 - 2 ^ 31

/-- `struct fat_file_s` with `f_pos`, which is `offT` of the position here. -/
structure Ff where
  rdok : Bool
  wrok : Bool
  fpos : Nat
  size : Nat
  startcluster : Nat
  currentcluster : Nat
  sectorsincluster : Nat
  currentsector : Int
  cachesector : Int
  buffer : Nat → UInt8
  dirty : Bool
  valid : Bool
  modified : Bool

structure St where
  fs : Fs
  ff : Ff
  handed : List Int

variable (v : Volume)

/-- `CLUS_NDXMASK`. -/
def Volume.clusNdxmask (v : Volume) : Nat := v.fatsecperclus - 1

/-- `fat_cluster2sector`. -/
def fatCluster2sector (cluster : Nat) : Int :=
  let cluster := uint32 (cluster + (2 ^ 32 - 2))
  if cluster ≥ uint32 (2 ^ 32 - 2 + v.nclusters) then -einval
  else (cluster * v.fatsecperclus + v.database : Nat)

/-- The loop of `fat_extendchain`: the number of a free cluster, zero when there is none, or an
error. -/
def searchFree (startcluster : Nat) : Nat → Fs → Nat → Option (Fs × Int)
  | 0, _, _ => none
  | fuel + 1, fs, newcluster =>
    let newcluster := newcluster + 1
    if newcluster ≥ v.nclusters ∧ 2 > startcluster then some (fs, 0)
    else
      let newcluster := if newcluster ≥ v.nclusters then 2 else newcluster
      let (fs, startsector) := fatGetcluster v fs newcluster
      if startsector = 0 then some (fs, newcluster)
      else if startsector < 0 then some (fs, startsector)
      else if newcluster = startcluster then some (fs, 0)
      else searchFree startcluster fuel fs newcluster

/-- The end of `fat_extendchain`: mark the cluster and link it. -/
def linkCluster (fs : Fs) (cluster newcluster : Nat) : Fs × Int :=
  let (fs, ret) := fatPutcluster v fs newcluster 0x0fffffff
  if ret < 0 then (fs, ret)
  else
    let (fs, ret) := if cluster ≠ 0 then fatPutcluster v fs cluster newcluster else (fs, ret)
    if ret < 0 then (fs, ret)
    else
      let fs := { fs with fsinextfree := newcluster }
      let fs :=
        if fs.fsifreecount ≠ 0xffffffff then
          { fs with fsifreecount := uint32 (fs.fsifreecount + (2 ^ 32 - 1)), fsidirty := true }
        else fs
      (fs, newcluster)

/-- The part of `fat_extendchain` behind its checks. -/
def allocCluster (fs : Fs) (cluster startcluster : Nat) : Option (Fs × Int) :=
  match searchFree v startcluster (v.nclusters + 1) fs startcluster with
  | none => none
  | some (fs, found) => if found ≤ 0 then some (fs, found) else some (linkCluster v fs cluster found.toNat)

/-- `fat_extendchain`. -/
def fatExtendchain (fs : Fs) (cluster : Nat) : Option (Fs × Int) :=
  if cluster = 0 then
    let startcluster :=
      if fs.fsinextfree = 0 ∨ fs.fsinextfree ≥ v.nclusters then 1 else fs.fsinextfree
    allocCluster v fs cluster startcluster
  else
    let (fs, startsector) := fatGetcluster v fs cluster
    if startsector < 0 then some (fs, startsector)
    else if startsector < 2 then some (fs, 0)
    else if startsector < v.nclusters then some (fs, startsector)
    else allocCluster v fs cluster cluster

/-- `fat_createchain`. -/
def fatCreatechain (fs : Fs) : Option (Fs × Int) := fatExtendchain v fs 0

/-- Data sectors written from memory. -/
def Fs.hwwriteData (fs : Fs) (bytes : List UInt8) (sector : Int) (nsectors : Nat) : Fs :=
  { fs with
    dev := fun s =>
      if sector ≤ s ∧ s < sector + nsectors then
        fun i => bytes.getD ((s - sector).toNat * v.hwsectorsize + i) 0
      else fs.dev s }

/-- Data sectors read into memory. -/
def Fs.hwreadData (fs : Fs) (sector : Int) (nsectors : Nat) : List UInt8 :=
  (List.range (nsectors * v.hwsectorsize)).map fun i =>
    fs.dev (sector + (i / v.hwsectorsize : Nat)) (i % v.hwsectorsize)

/-- `fat_ffcacheflush`. -/
def fatFfcacheflush (s : St) : St :=
  if s.ff.cachesector ≠ 0 ∧ s.ff.dirty = true ∧ s.ff.valid = true then
    { fs := s.fs.hwwrite s.ff.buffer s.ff.cachesector
      ff := { s.ff with dirty := false }
      handed := s.handed ++ [s.ff.cachesector] }
  else s

/-- `fat_ffcacheread`. -/
def fatFfcacheread (s : St) (sector : Int) : St :=
  if s.ff.cachesector ≠ sector ∨ s.ff.valid = false then
    let s := fatFfcacheflush s
    { s with ff := { s.ff with buffer := s.fs.dev sector, cachesector := sector, valid := true } }
  else s

/-- `fat_ffcacheinvalidate`. -/
def fatFfcacheinvalidate (s : St) : St :=
  if s.ff.valid = true then
    let s := fatFfcacheflush s
    { s with ff := { s.ff with valid := false, cachesector := 0 } }
  else s

/-- `fat_currentsector`. -/
def fatCurrentsector (s : St) (position : Nat) : St × Int :=
  if position ≤ s.ff.size then
    let sectoroffset := position / v.hwsectorsize &&& v.clusNdxmask
    ({ s with
        ff := { s.ff with
          currentsector := fatCluster2sector v s.ff.currentcluster + sectoroffset
          sectorsincluster := (v.fatsecperclus + 256 - sectoroffset) % 256 } }, 0)
  else (s, -enospc)

/-- The sectors behind the ones that have been transferred. -/
def Ff.forward (ff : Ff) (nsectors : Nat) : Ff :=
  { ff with
    sectorsincluster := (ff.sectorsincluster + 256 - nsectors) % 256
    currentsector := ff.currentsector + nsectors }

/-- One transfer of the loop of `fat_read`: the bytes that have been read. -/
def readChunk (s : St) (buflen : Nat) : St × List UInt8 :=
  let sectorindex := s.ff.fpos &&& v.secNdxmask
  let nsectors := buflen / v.hwsectorsize
  if nsectors > 0 ∧ sectorindex = 0 then
    let nsectors := min nsectors s.ff.sectorsincluster
    let s := fatFfcacheinvalidate s
    ({ s with ff := s.ff.forward nsectors }, s.fs.hwreadData v s.ff.currentsector nsectors)
  else
    let s := fatFfcacheread s s.ff.currentsector
    let bytesread := v.hwsectorsize - sectorindex
    let (s, bytesread) :=
      if bytesread > buflen then (s, buflen) else ({ s with ff := s.ff.forward 1 }, bytesread)
    (s, (List.range bytesread).map fun i => s.ff.buffer (sectorindex + i))

/-- The next cluster of the chain, for a read. -/
def nextCluster (s : St) : St × Int :=
  if s.ff.sectorsincluster < 1 then
    let (fs, cluster) := fatGetcluster v s.fs s.ff.currentcluster
    let s := { s with fs := fs }
    if cluster < 2 ∨ cluster ≥ v.nclusters then (s, -einval)
    else
      ({ s with
          ff := { s.ff with
            currentcluster := cluster.toNat
            currentsector := fatCluster2sector v cluster.toNat
            sectorsincluster := v.fatsecperclus } }, 0)
  else (s, 0)

/-- The loop of `fat_read`, with what has been read so far. -/
def readLoop : Nat → St → Nat → List UInt8 → Option (St × Int × List UInt8)
  | 0, s, buflen, read => if buflen > 0 then none else some (s, read.length, read)
  | fuel + 1, s, buflen, read =>
    if buflen > 0 then
      let (s, ret) := nextCluster v s
      if ret < 0 then some (s, ret, read)
      else
        let (s, bytes) := readChunk v s buflen
        let s := { s with ff := { s.ff with fpos := s.ff.fpos + bytes.length } }
        readLoop fuel s (buflen - bytes.length) (read ++ bytes)
    else some (s, read.length, read)

/-- `fat_read`. -/
def fatRead (s : St) (buflen : Nat) : Option (St × Int × List UInt8) :=
  if s.ff.rdok = false then some (s, -eacces, [])
  else
    let bytesleft := ((s.ff.size - s.ff.fpos : Int) % 2 ^ 32).toNat
    let buflen := min buflen bytesleft
    let (s, ret) := if s.ff.currentsector = 0 then fatCurrentsector v s s.ff.fpos else (s, 0)
    if ret < 0 then some (s, ret, []) else readLoop v buflen s buflen []

/-- The next cluster for a write: the chain is extended at its end. -/
def extendCluster (s : St) : Option (St × Int) :=
  if s.ff.sectorsincluster < 1 then
    match fatExtendchain v s.fs s.ff.currentcluster with
    | none => none
    | some (fs, cluster) =>
      let s := { s with fs := fs }
      if cluster < 0 then some (s, cluster)
      else if cluster < 2 ∨ cluster ≥ v.nclusters then some (s, -enospc)
      else
        some ({ s with
          ff := { s.ff with
            currentcluster := cluster.toNat
            sectorsincluster := v.fatsecperclus
            currentsector := fatCluster2sector v cluster.toNat } }, 0)
  else some (s, 0)

/-- `memcpy` into the sector buffer. -/
def copyInto (buffer : Nat → UInt8) (index : Nat) (bytes : List UInt8) : Nat → UInt8 :=
  fun i => if index ≤ i ∧ i < index + bytes.length then bytes.getD (i - index) 0 else buffer i

/-- The sector buffer for a write that is not of whole sectors. -/
def cacheForWrite (s : St) (buflen : Nat) : St :=
  let sectorindex := s.ff.fpos &&& v.secNdxmask
  if sectorindex = 0 ∧ (buflen ≥ v.hwsectorsize ∨ uint32 (s.ff.fpos + buflen) ≥ s.ff.size) then
    let s := fatFfcacheflush s
    { s with ff := { s.ff with cachesector := s.ff.currentsector } }
  else fatFfcacheread s s.ff.currentsector

/-- One transfer of the loop of `fat_write`: the number of bytes that have been written. -/
def writeChunk (s : St) (bytes : List UInt8) : St × Nat :=
  let buflen := bytes.length
  let sectorindex := s.ff.fpos &&& v.secNdxmask
  let nsectors := buflen / v.hwsectorsize
  if nsectors > 0 ∧ sectorindex = 0 then
    let nsectors := min nsectors s.ff.sectorsincluster
    let s := fatFfcacheinvalidate s
    ({ fs := s.fs.hwwriteData v bytes s.ff.currentsector nsectors
       ff := { s.ff.forward nsectors with modified := true }
       handed := s.handed ++ (List.range nsectors).map fun i : Nat => s.ff.currentsector + i },
      nsectors * v.hwsectorsize)
  else
    let s := cacheForWrite v s buflen
    let writesize := v.hwsectorsize - sectorindex
    let (s, writesize) :=
      if writesize > buflen then (s, buflen) else ({ s with ff := s.ff.forward 1 }, writesize)
    ({ s with
        ff := { s.ff with
          buffer := copyInto s.ff.buffer sectorindex (bytes.take writesize)
          dirty := true
          valid := true
          modified := true } }, writesize)

/-- The loop of `fat_write`, with the number of bytes written so far. -/
def writeLoop : Nat → St → List UInt8 → Nat → Option (St × Int)
  | 0, s, bytes, written => if bytes.length > 0 then none else some (s, written)
  | fuel + 1, s, bytes, written =>
    if bytes.length > 0 then
      match extendCluster v s with
      | none => none
      | some (s, ret) =>
        if ret < 0 then some (s, ret)
        else
          let (s, writesize) := writeChunk v s bytes
          let s := { s with ff := { s.ff with fpos := s.ff.fpos + writesize } }
          writeLoop fuel s (bytes.drop writesize) (written + writesize)
    else some (s, written)

/-- The start of the chain, and the first sector to write to. -/
def writeStart (s : St) : Option (St × Int) :=
  if s.ff.currentsector = 0 then
    if s.ff.startcluster = 0 then
      match fatCreatechain v s.fs with
      | none => none
      | some (fs, cluster) =>
        -- the result is stored in a uint32_t and not checked
        let cluster := (cluster % 2 ^ 32).toNat
        let s :=
          { s with
            fs := fs
            ff := { s.ff with
              startcluster := cluster
              currentcluster := cluster
              sectorsincluster := v.fatsecperclus } }
        some (fatCurrentsector v s s.ff.fpos)
    else some (fatCurrentsector v s s.ff.fpos)
  else some (s, 0)

/-- The size of the file after a write. -/
def updateSize (s : St) : St :=
  if offT s.ff.fpos > s.ff.size then { s with ff := { s.ff with size := (offT s.ff.fpos).toNat } }
  else s

/-- `fat_write`. -/
def fatWrite (s : St) (bytes : List UInt8) : Option (St × Int) :=
  if s.ff.wrok = false then some (s, -eacces)
  else if uint32 (s.ff.size + bytes.length) < s.ff.size then some (s, -efbig)
  else
    match writeStart v s with
    | none => none
    | some (s, ret) =>
      if ret < 0 then some (s, ret)
      else
        match writeLoop v bytes.length s bytes 0 with
        | none => none
        | some (s, ret) =>
          if ret < 0 then some (s, ret) else some (updateSize s, ret)

inductive Whence where
  | set
  | cur
  | end
  deriving DecidableEq, Repr

/-- The position a seek asks for. -/
def seekPosition (s : St) (offset : Int) : Whence → Int
  | .set => offset
  | .cur => offset + s.ff.fpos
  | .end => offset + s.ff.size

/-- The loop of `fat_seek` along the chain: the rest of the position, and zero or an error. -/
def seekLoop : Nat → St → Nat → Nat → Option (St × Nat × Int)
  | 0, _, _, _ => none
  | fuel + 1, s, cluster, position =>
    let clustersize := v.fatsecperclus * v.hwsectorsize
    let s := { s with ff := { s.ff with currentcluster := cluster } }
    if position < clustersize then some (s, position, 0)
    else
      let next :=
        if s.ff.wrok = true then fatExtendchain v s.fs cluster
        else some (fatGetcluster v s.fs cluster)
      match next with
      | none => none
      | some (fs, cluster) =>
        let s := { s with fs := fs }
        if cluster < 0 then some (s, position, cluster)
        else if cluster = 0 then some (s, clustersize, 0)
        else if cluster ≥ v.nclusters then some (s, position, -enospc)
        else
          let s := { s with ff := { s.ff with fpos := s.ff.fpos + clustersize } }
          seekLoop fuel s cluster.toNat (position - clustersize)

/-- `fat_seek` along a chain that starts at `cluster`. -/
def seekChain (s : St) (cluster position : Nat) : Option (St × Int) :=
  match seekLoop v (position + 1) s cluster position with
  | none => none
  | some (s, position, ret) =>
    if ret < 0 then some (s, ret)
    else
      let s := { s with ff := { s.ff with fpos := s.ff.fpos + position } }
      let s := (fatCurrentsector v s s.ff.fpos).1
      let s := if position &&& v.secNdxmask ≠ 0 then fatFfcacheread s s.ff.currentsector else s
      if s.ff.wrok = true ∧ s.ff.fpos > s.ff.size then
        some ({ s with ff := { s.ff with size := s.ff.fpos, modified := true } }, 0)
      else some (s, 0)

/-- `fat_seek`, to a position that is not negative. -/
def fatSeek (s : St) (offset : Int) (whence : Whence) : Option (St × Int) :=
  let position := seekPosition s offset whence
  if position = s.ff.fpos then some (s, 0)
  else
    let s := fatFfcacheflush s
    let position := if position > s.ff.size ∧ s.ff.wrok = false then (s.ff.size : Int) else position
    let s := { s with ff := { s.ff with fpos := 0, sectorsincluster := v.fatsecperclus } }
    if s.ff.startcluster = 0 then
      if position > 0 then
        match fatCreatechain v s.fs with
        | none => none
        | some (fs, cluster) =>
          let s := { s with fs := fs }
          if cluster < 0 then some (s, cluster)
          else
            let s := { s with ff := { s.ff with startcluster := cluster.toNat } }
            if cluster = 0 then some (s, 0) else seekChain v s cluster.toNat position.toNat
      else some (s, 0)
    else seekChain v s s.ff.startcluster position.toNat

end NbLot.Source.Fat
