import NbLot.Source.Fat.View
import Mathlib.Data.Nat.ModEq

/-!
# FAT: the entries as bytes of the FAT

Source: nuttx/fs/fat/fs_fat32util.c:814-1098.

`fatByte` is a byte of the first FAT as the cache and the medium hold it. `fat_getcluster` reads
the bytes of an entry, and `fat_putcluster` is a sequence of single stores (`putcluster_stores`),
whatever sectors they lie in.
-/
namespace NbLot.Source.Fat
open List Function

variable {v : Volume} {fs : Fs} {offset c o i : Nat}

/-- The bytes of a FAT. -/
def Volume.fatBytes (v : Volume) : Nat := v.nfatsects * v.hwsectorsize

/-- The bytes that a number of entries take. -/
def Volume.fatLength (v : Volume) (entries : Nat) : Nat :=
  match v.fatType with
  | .fat12 => (entries * 3 + 1) / 2
  | .fat16 => 2 * entries
  | .fat32 => 4 * entries

/-- The bits of an entry. -/
def FatType.bits : FatType → Nat
  | .fat12 => 12
  | .fat16 => 16
  | .fat32 => 28

/-- The sector size is a power of two, the entries are within the FAT, two of them are reserved,
and a cluster number fits in an entry. -/
structure WellFormed (v : Volume) : Prop where
  sectorSize : ∃ k, 9 ≤ k ∧ v.hwsectorsize = 2 ^ k
  entriesFit : v.fatLength v.nclusters ≤ v.fatBytes
  numbersFit : v.nclusters ≤ 2 ^ v.fatType.bits
  reserved : 2 ≤ v.nclusters

/-- The sector of a byte of the FAT. -/
def fatSector (v : Volume) (offset : Nat) : Int := copySector v 0 (offset / v.hwsectorsize)

def fatByte (v : Volume) (fs : Fs) (offset : Nat) : UInt8 :=
  fs.view (fatSector v offset) (offset % v.hwsectorsize)

/-- A change of one byte of the FAT. -/
def storeByte (v : Volume) (fs : Fs) (offset : Nat) (b : UInt8) : Fs :=
  let fs := fatFscacheread v fs (fatSector v offset)
  { fs with buffer := Function.update fs.buffer (offset % v.hwsectorsize) b, dirty := true }

theorem add_within (a size i : Nat) (h : a % size + i < size) :
    (a + i) / size = a / size ∧ (a + i) % size = a % size + i := by
  have hi : i < size := by omega
  have hmod : a % size + i % size < size := by rwa [Nat.mod_eq_of_lt hi]
  rw [Nat.add_div_eq_of_add_mod_lt hmod, Nat.add_mod_of_add_mod_lt hmod, Nat.div_eq_of_lt hi,
    Nat.mod_eq_of_lt hi]
  exact ⟨rfl, rfl⟩

namespace WellFormed

section

variable (wf : WellFormed v)
include wf

theorem sectorSize_pos : 0 < v.hwsectorsize := by
  obtain ⟨k, -, hk⟩ := wf.sectorSize
  exact hk ▸ Nat.two_pow_pos k

theorem and_secNdxmask (offset : Nat) : offset &&& v.secNdxmask = offset % v.hwsectorsize := by
  obtain ⟨k, -, hk⟩ := wf.sectorSize
  rw [Volume.secNdxmask, hk, Nat.and_two_pow_sub_one_eq_mod]

theorem sector_lt (h : offset < v.fatBytes) : offset / v.hwsectorsize < v.nfatsects :=
  (Nat.div_lt_iff_lt_mul wf.sectorSize_pos).mpr h

theorem lasting (h : offset < v.fatBytes) : Lasting v (fatSector v offset) :=
  lasting_first (wf.sector_lt h)

/-- An aligned entry lies in one sector. -/
theorem same_sector (hmod : offset % 4 + i < 4) :
    (offset + i) / v.hwsectorsize = offset / v.hwsectorsize ∧
      (offset + i) % v.hwsectorsize = offset % v.hwsectorsize + i := by
  obtain ⟨k, hk, hsize⟩ := wf.sectorSize
  have hfour : v.hwsectorsize = 4 * 2 ^ (k - 2) := by
    rw [hsize, ← Nat.pow_add 2 2 (k - 2)]
    congr 1
    omega
  have hrest : offset % v.hwsectorsize % 4 = offset % 4 := by
    rw [hfour, Nat.mod_mul_right_mod]
  have hlt := Nat.mod_lt offset wf.sectorSize_pos
  exact add_within _ _ _ (by omega)

end

end WellFormed

theorem fatSector_eq (v : Volume) (offset : Nat) :
    (v.fatbase : Int) + (offset / v.hwsectorsize : Nat) = fatSector v offset :=
  (copySector_zero v _).symm

/-- The byte behind one: in the same sector, or the first of the next. -/
theorem next_sector (hsize : 0 < v.hwsectorsize) (offset : Nat) :
    (offset % v.hwsectorsize + 1 < v.hwsectorsize →
      fatSector v (offset + 1) = fatSector v offset ∧
        (offset + 1) % v.hwsectorsize = offset % v.hwsectorsize + 1) ∧
    (v.hwsectorsize ≤ offset % v.hwsectorsize + 1 →
      fatSector v (offset + 1) = fatSector v offset + 1 ∧ (offset + 1) % v.hwsectorsize = 0) := by
  have hsplit := Nat.div_add_mod offset v.hwsectorsize
  have hlt := Nat.mod_lt offset hsize
  constructor
  · intro hin
    obtain ⟨hdiv, hmod⟩ := add_within _ _ _ hin
    exact ⟨by rw [fatSector, hdiv, fatSector], hmod⟩
  · intro hout
    have hnext : offset + 1 = v.hwsectorsize * (offset / v.hwsectorsize + 1) := by
      rw [Nat.mul_add]
      omega
    have hdiv : (offset + 1) / v.hwsectorsize = offset / v.hwsectorsize + 1 := by
      rw [hnext, Nat.mul_div_cancel_left _ hsize]
    refine ⟨?_, ?_⟩
    · rw [fatSector, fatSector, copySector_zero, copySector_zero]
      omega
    · rw [hnext, Nat.mul_mod_right]

namespace CacheOk

theorem storeByte_ok (ok : CacheOk v fs) (wf : WellFormed v) (h : offset < v.fatBytes) (b : UInt8) :
    CacheOk v (storeByte v fs offset b) := by
  refine (ok.read (fatSector v offset)).change ?_ _
  rw [read_current]
  exact (wf.lasting h).2

theorem storeByte_view (ok : CacheOk v fs) (b : UInt8) {s : Int} (hs : Lasting v s)
    (hne : s ≠ fatSector v offset) : (storeByte v fs offset b).view s = fs.view s := by
  have hread : (fatFscacheread v fs (fatSector v offset)).currentsector ≠ s := by
    rw [read_current]
    exact hne.symm
  have hstored : (storeByte v fs offset b).currentsector ≠ s := hread
  rw [Fs.view_other hstored, ← ok.read_view (fatSector v offset) hs, Fs.view_other hread]
  rfl

theorem fatByte_store (ok : CacheOk v fs) (wf : WellFormed v) (hoffset : offset < v.fatBytes)
    (ho : o < v.fatBytes) (b : UInt8) :
    fatByte v (storeByte v fs offset b) o = if o = offset then b else fatByte v fs o := by
  by_cases hsector : fatSector v o = fatSector v offset
  · have hcurrent : (storeByte v fs offset b).currentsector = fatSector v offset :=
      read_current fs _
    have hdiv : o / v.hwsectorsize = offset / v.hwsectorsize :=
      (copySector_inj (wf.sector_lt ho) (wf.sector_lt hoffset) hsector).2
    rw [fatByte, hsector, Fs.view, if_pos hcurrent]
    show update (fatFscacheread v fs (fatSector v offset)).buffer _ b _ = _
    rw [ok.read_buffer (wf.lasting hoffset), fatByte, hsector, update_apply]
    have hiff : o % v.hwsectorsize = offset % v.hwsectorsize ↔ o = offset := by
      constructor
      · intro hmod
        rw [← Nat.div_add_mod o v.hwsectorsize, ← Nat.div_add_mod offset v.hwsectorsize, hdiv, hmod]
      · intro h
        rw [h]
    simp only [hiff]
  · have hne : o ≠ offset := fun h => hsector (h ▸ rfl)
    rw [if_neg hne, fatByte, ok.storeByte_view b (wf.lasting ho) hsector, fatByte]

end CacheOk

theorem storeByte_cached (h : fs.currentsector = fatSector v offset) (b : UInt8) :
    storeByte v fs offset b =
      { fs with buffer := update fs.buffer (offset % v.hwsectorsize) b, dirty := true } := by
  rw [storeByte, CacheOk.read_again h]

theorem storeByte_current (fs : Fs) (offset : Nat) (b : UInt8) :
    (storeByte v fs offset b).currentsector = fatSector v offset :=
  CacheOk.read_current fs _

theorem storeByte_storeByte {p : Nat} (h : fatSector v o = fatSector v p) (a b : UInt8) :
    storeByte v (storeByte v fs o a) p b =
      { fatFscacheread v fs (fatSector v o) with
        buffer := update (update (fatFscacheread v fs (fatSector v o)).buffer
          (o % v.hwsectorsize) a) (p % v.hwsectorsize) b
        dirty := true } := by
  rw [storeByte_cached (by rw [storeByte_current, h])]
  rfl

/-- The offset of the first byte of an entry. -/
def entryOffset (v : Volume) (clusterno : Nat) : Nat :=
  match v.fatType with
  | .fat12 => clusterno * 3 / 2
  | .fat16 => 2 * clusterno
  | .fat32 => 4 * clusterno

theorem entryOffset_fat12 (h : v.fatType = .fat12) (c : Nat) : entryOffset v c = c * 3 / 2 := by
  simp only [entryOffset, h]

theorem entryOffset_fat16 (h : v.fatType = .fat16) (c : Nat) : entryOffset v c = 2 * c := by
  simp only [entryOffset, h]

theorem entryOffset_fat32 (h : v.fatType = .fat32) (c : Nat) : entryOffset v c = 4 * c := by
  simp only [entryOffset, h]

/-- Two bytes of the FAT, the low one first. -/
def fatWord (v : Volume) (fs : Fs) (offset : Nat) : Nat :=
  (fatByte v fs offset).toNat + 256 * (fatByte v fs (offset + 1)).toNat

/-- The entry of a cluster, with the reserved bits of a FAT32 entry. -/
def rawEntry (v : Volume) (fs : Fs) (clusterno : Nat) : Nat :=
  let offset := entryOffset v clusterno
  match v.fatType with
  | .fat12 =>
    if clusterno % 2 = 1 then fatWord v fs offset / 16 else fatWord v fs offset % 4096
  | .fat16 => fatWord v fs offset
  | .fat32 => fatWord v fs offset + 65536 * fatWord v fs (offset + 2)

/-- The cluster number an entry holds. -/
def entry (v : Volume) (fs : Fs) (clusterno : Nat) : Nat :=
  rawEntry v fs clusterno % 2 ^ v.fatType.bits

section

variable (p : Nat → UInt8)
include p

theorem getuint16_eq (i : Nat) : fatGetuint16 p i = (p i).toNat + 256 * (p (i + 1)).toNat := by
  rw [fatGetuint16, ← Nat.shiftLeft_add_eq_or_of_lt (p i).toNat_lt]
  omega

theorem getuint16_lt (i : Nat) : fatGetuint16 p i < 2 ^ 16 := by
  have hlow := (p i).toNat_lt
  have hhigh := (p (i + 1)).toNat_lt
  rw [getuint16_eq]
  omega

theorem getuint32_eq (i : Nat) :
    fatGetuint32 p i = fatGetuint16 p i + 65536 * fatGetuint16 p (i + 2) := by
  rw [fatGetuint32, ← Nat.shiftLeft_add_eq_or_of_lt (getuint16_lt p i)]
  omega

end

/-- The end of the last byte of an entry. -/
def entryEnd (v : Volume) (clusterno : Nat) : Nat :=
  match v.fatType with
  | .fat12 | .fat16 => entryOffset v clusterno + 2
  | .fat32 => entryOffset v clusterno + 4

/-- The first entries lie in the FAT if it is long enough for them. -/
theorem entryEnd_le {n : Nat} (hfit : v.fatLength n ≤ v.fatBytes) (hc : c < n) :
    entryEnd v c ≤ v.fatBytes := by
  refine Nat.le_trans ?_ hfit
  unfold entryEnd entryOffset Volume.fatLength
  cases v.fatType <;> simp only <;> omega

section

variable (wf : WellFormed v)
include wf

/-- The entry of a cluster in range lies in the FAT, and its offset is computed without overflow. -/
theorem entry_in_fat (hc : c < v.nclusters) : entryEnd v c ≤ v.fatBytes ∧ c * 4 < 2 ^ 32 := by
  refine ⟨entryEnd_le wf.entriesFit hc, ?_⟩
  have hfit := wf.numbersFit
  have hbits : 2 ^ v.fatType.bits ≤ 2 ^ 28 := by
    cases v.fatType <;> simp [FatType.bits]
  omega

theorem entry_fat12 (htype : v.fatType = .fat12) (hc : c < v.nclusters) :
    uint32 (c * 3) / 2 = entryOffset v c ∧ entryOffset v c + 1 < v.fatBytes := by
  obtain ⟨hfat, hwrap⟩ := entry_in_fat wf hc
  simp only [entryEnd, htype] at hfat
  rw [entryOffset_fat12 htype] at hfat ⊢
  exact ⟨congrArg (· / 2) (Nat.mod_eq_of_lt (by omega)), hfat⟩

/-- A FAT16 entry lies in one sector, -/
theorem entry_fat16 (htype : v.fatType = .fat16) (hc : c < v.nclusters) :
    uint32 (2 * c) = entryOffset v c ∧ entryOffset v c % 4 + 1 < 4 ∧
      entryOffset v c + 1 < v.fatBytes := by
  obtain ⟨hfat, hwrap⟩ := entry_in_fat wf hc
  simp only [entryEnd, htype, entryOffset_fat16 htype] at hfat ⊢
  exact ⟨Nat.mod_eq_of_lt (by omega), by omega, hfat⟩

/-- and so does a FAT32 entry. -/
theorem entry_fat32 (htype : v.fatType = .fat32) (hc : c < v.nclusters) :
    uint32 (4 * c) = entryOffset v c ∧ entryOffset v c % 4 = 0 ∧
      entryOffset v c + 3 < v.fatBytes := by
  obtain ⟨hfat, hwrap⟩ := entry_in_fat wf hc
  simp only [entryEnd, htype, entryOffset_fat32 htype] at hfat ⊢
  exact ⟨Nat.mod_eq_of_lt (by omega), by omega, hfat⟩

end

/-- Nothing has changed but what is cached. -/
structure SameContent (v : Volume) (fs fs' : Fs) : Prop where
  ok : CacheOk v fs'
  view : ∀ s, Lasting v s → fs'.view s = fs.view s

namespace SameContent

theorem read (ok : CacheOk v fs) (s : Int) : SameContent v fs (fatFscacheread v fs s) :=
  ⟨ok.read s, fun _ hs => ok.read_view s hs⟩

theorem trans {fs' fs'' : Fs} (h : SameContent v fs fs') (h' : SameContent v fs' fs'') :
    SameContent v fs fs'' :=
  ⟨h'.ok, fun s hs => (h'.view s hs).trans (h.view s hs)⟩

theorem fatByte_eq {fs' : Fs} (h : SameContent v fs fs') (wf : WellFormed v)
    (ho : offset < v.fatBytes) : fatByte v fs' offset = fatByte v fs offset := by
  rw [fatByte, h.view _ (wf.lasting ho), fatByte]

end SameContent

section

variable (ok : CacheOk v fs)
include ok

section

variable (wf : WellFormed v)
include wf

theorem buffer_read (ho : offset < v.fatBytes) :
    (fatFscacheread v fs (fatSector v offset)).buffer (offset % v.hwsectorsize) =
      fatByte v fs offset := by
  rw [ok.read_buffer (wf.lasting ho), fatByte]

theorem buffer_read_near (hi : offset % 4 + i < 4) (ho : offset + i < v.fatBytes) :
    (fatFscacheread v fs (fatSector v offset)).buffer (offset % v.hwsectorsize + i) =
      fatByte v fs (offset + i) := by
  obtain ⟨hdiv, hmod⟩ := wf.same_sector hi
  rw [← buffer_read ok wf ho, fatSector, fatSector, hdiv, hmod]

theorem nextByte_spec (hcurrent : fs.currentsector = fatSector v offset)
    (ho : offset + 1 < v.fatBytes) :
    SameContent v fs (nextByte v fs (fatSector v offset) (offset % v.hwsectorsize)).1 ∧
      (nextByte v fs (fatSector v offset) (offset % v.hwsectorsize)).1.buffer
        (nextByte v fs (fatSector v offset) (offset % v.hwsectorsize)).2 =
          fatByte v fs (offset + 1) := by
  obtain ⟨hin, hout⟩ := next_sector wf.sectorSize_pos offset
  unfold nextByte
  split
  · next h =>
    obtain ⟨hsector, hmod⟩ := hout h
    refine ⟨SameContent.read ok _, ?_⟩
    rw [← hsector, ← hmod]
    exact buffer_read ok wf ho
  · next h =>
    obtain ⟨hsector, hmod⟩ := hin (by omega)
    refine ⟨⟨ok, fun _ _ => rfl⟩, ?_⟩
    rw [fatByte, hsector, hmod, ← hcurrent, Fs.view_cached]

theorem buffer_getuint32 (hmod : o % 4 = 0) (ho : o + 3 < v.fatBytes) :
    fatGetuint32 (fatFscacheread v fs (fatSector v o)).buffer (o % v.hwsectorsize) =
      fatWord v fs o + 65536 * fatWord v fs (o + 2) := by
  have hbytes : ∀ i < 4, (fatFscacheread v fs (fatSector v o)).buffer (o % v.hwsectorsize + i) =
      fatByte v fs (o + i) :=
    fun i hi => buffer_read_near ok wf (by omega) (by omega)
  simp only [getuint32_eq, getuint16_eq, fatWord]
  rw [hbytes 1 (by decide), hbytes 2 (by decide), hbytes (2 + 1) (by decide),
    buffer_read ok wf (by omega)]

/-- `fat_getcluster` returns the entry and changes nothing but the cache. -/
theorem getcluster_spec (hlow : 2 ≤ c) (hc : c < v.nclusters) :
    SameContent v fs (fatGetcluster v fs c).1 ∧ (fatGetcluster v fs c).2 = entry v fs c := by
  rw [fatGetcluster, if_pos ⟨hlow, hc⟩]
  unfold entry rawEntry
  cases htype : v.fatType with
  | fat12 =>
    obtain ⟨hoffset, hfat⟩ := entry_fat12 wf htype hc
    obtain ⟨hsame, hbyte⟩ := nextByte_spec (ok.read (fatSector v (entryOffset v c))) wf
      (CacheOk.read_current fs _) hfat
    have hfirst := SameContent.read ok (fatSector v (entryOffset v c))
    simp only [hoffset, fatSector_eq, wf.and_secNdxmask, hbyte, buffer_read ok wf (Nat.lt_of_succ_lt hfat),
      hfirst.fatByte_eq wf hfat]
    refine ⟨hfirst.trans hsame, ?_⟩
    have hlow := (fatByte v fs (entryOffset v c)).toNat_lt
    have hhigh := (fatByte v fs (entryOffset v c + 1)).toNat_lt
    rw [Nat.or_comm, ← Nat.shiftLeft_add_eq_or_of_lt hlow, Nat.and_one_is_mod, show 0x0fff = 2 ^ 12 - 1 from rfl, Nat.and_two_pow_sub_one_eq_mod]
    simp only [FatType.bits, fatWord]
    congr 1
    split <;> split <;> omega
  | fat16 =>
    obtain ⟨hoffset, hmod, hfat⟩ := entry_fat16 wf htype hc
    simp only [hoffset, fatSector_eq, wf.and_secNdxmask]
    refine ⟨SameContent.read ok _, ?_⟩
    rw [getuint16_eq, buffer_read ok wf (Nat.lt_of_succ_lt hfat), buffer_read_near ok wf hmod hfat]
    have hlow := (fatByte v fs (entryOffset v c)).toNat_lt
    have hhigh := (fatByte v fs (entryOffset v c + 1)).toNat_lt
    simp only [FatType.bits, fatWord]
    omega
  | fat32 =>
    obtain ⟨hoffset, hmod, hfat⟩ := entry_fat32 wf htype hc
    simp only [hoffset, fatSector_eq, wf.and_secNdxmask]
    refine ⟨SameContent.read ok _, ?_⟩
    rw [buffer_getuint32 ok wf hmod hfat, show 0x0fffffff = 2 ^ 28 - 1 from rfl,
      Nat.and_two_pow_sub_one_eq_mod]
    rfl

end

end

/-- The bits of a field in the middle of a word. -/
theorem and_field (x k w : Nat) : x &&& (2 ^ w - 1) * 2 ^ k = (x / 2 ^ k % 2 ^ w) <<< k := by
  have hdiv : (x &&& (2 ^ w - 1) * 2 ^ k) / 2 ^ k = x / 2 ^ k % 2 ^ w := by
    rw [Nat.and_div_two_pow, Nat.mul_div_cancel _ (Nat.two_pow_pos k),
      Nat.and_two_pow_sub_one_eq_mod]
  have hmod : (x &&& (2 ^ w - 1) * 2 ^ k) % 2 ^ k = 0 := by
    rw [Nat.and_mod_two_pow, Nat.mul_mod_left, Nat.and_zero]
  rw [← Nat.div_add_mod (x &&& (2 ^ w - 1) * 2 ^ k) (2 ^ k), hdiv, hmod, Nat.shiftLeft_eq,
    Nat.mul_comm, Nat.add_zero]

/-- The bytes of a FAT12 entry that `fat_putcluster` stores, from those that are there. -/
def low12 (clusterno nextcluster old : Nat) : Nat :=
  if clusterno &&& 1 ≠ 0 then (old &&& 0x0f) ||| nextcluster <<< 4 else nextcluster

def high12 (clusterno nextcluster old : Nat) : Nat :=
  if clusterno &&& 1 ≠ 0 then nextcluster >>> 4
  else (old &&& 0xf0) ||| ((nextcluster >>> 8) &&& 0x0f)

/-- The FAT32 entry that `fat_putcluster` stores. -/
def entry32 (nextcluster old : Nat) : Nat := (old &&& 0xf0000000) ||| (nextcluster &&& 0x0fffffff)

theorem and_one_ne_zero (c : Nat) : (c &&& 1 ≠ 0) ↔ c % 2 = 1 := by
  rw [Nat.and_one_is_mod]
  omega

theorem low12_eq (c n old : Nat) : low12 c n old = if c % 2 = 1 then old % 16 + 16 * n else n := by
  have hmod : old % 16 < 2 ^ 4 := Nat.mod_lt _ (by decide)
  rw [low12, show 0x0f = 2 ^ 4 - 1 from rfl, Nat.and_two_pow_sub_one_eq_mod, Nat.or_comm,
    ← Nat.shiftLeft_add_eq_or_of_lt hmod]
  simp only [and_one_ne_zero]
  split <;> omega

theorem high12_eq (c n : Nat) (old : UInt8) :
    high12 c n old.toNat = if c % 2 = 1 then n / 16 else 16 * (old.toNat / 16) + n / 256 % 16 := by
  have hold := old.toNat_lt
  have hmod : n / 2 ^ 8 % 2 ^ 4 < 2 ^ 4 := Nat.mod_lt _ (by decide)
  rw [high12, show 0xf0 = (2 ^ 4 - 1) * 2 ^ 4 from rfl, and_field, show 0x0f = 2 ^ 4 - 1 from rfl,
    Nat.and_two_pow_sub_one_eq_mod, Nat.shiftRight_eq_div_pow, Nat.shiftRight_eq_div_pow,
    ← Nat.shiftLeft_add_eq_or_of_lt hmod]
  simp only [and_one_ne_zero]
  split <;> omega

theorem entry32_eq (n old : Nat) (hold : old < 2 ^ 32) :
    entry32 n old = 2 ^ 28 * (old / 2 ^ 28) + n % 2 ^ 28 := by
  have hmod : n % 2 ^ 28 < 2 ^ 28 := Nat.mod_lt _ (by decide)
  rw [entry32, show 0xf0000000 = (2 ^ 4 - 1) * 2 ^ 28 from rfl, and_field,
    show 0x0fffffff = 2 ^ 28 - 1 from rfl, Nat.and_two_pow_sub_one_eq_mod,
    ← Nat.shiftLeft_add_eq_or_of_lt hmod]
  omega

/-- The bytes of an entry that `fat_putcluster` stores. -/
def entryBytes (v : Volume) (fs : Fs) (clusterno nextcluster : Nat) : List UInt8 :=
  let offset := entryOffset v clusterno
  match v.fatType with
  | .fat12 =>
    [UInt8.ofNat (low12 clusterno nextcluster (fatByte v fs offset).toNat),
      UInt8.ofNat (high12 clusterno nextcluster (fatByte v fs (offset + 1)).toNat)]
  | .fat16 =>
    let value := nextcluster &&& 0xffff
    [UInt8.ofNat value, UInt8.ofNat (value >>> 8)]
  | .fat32 =>
    let value := entry32 nextcluster (rawEntry v fs clusterno)
    [UInt8.ofNat value, UInt8.ofNat (value >>> 8), UInt8.ofNat (value >>> 16),
      UInt8.ofNat (value >>> 24)]

/-- Changes of bytes one after the other. -/
def storeBytes (v : Volume) (fs : Fs) (offset : Nat) : List UInt8 → Fs
  | [] => fs
  | b :: bytes => storeBytes v (storeByte v fs offset b) (offset + 1) bytes

theorem entryBytes_in_fat (wf : WellFormed v) (hc : c < v.nclusters) (fs : Fs) (n : Nat) :
    entryOffset v c + (entryBytes v fs c n).length ≤ v.fatBytes := by
  obtain ⟨hfat, -⟩ := entry_in_fat wf hc
  cases htype : v.fatType <;> simp only [entryEnd, htype] at hfat <;> simp [entryBytes, htype] <;> omega

/-- Stores that stay in the sector of the first one change the buffer only. -/
theorem storeByte_near (wf : WellFormed v) (hi : o % 4 + i < 4)
    (hcurrent : fs.currentsector = fatSector v o) (b : UInt8) :
    storeByte v fs (o + i) b =
      { fs with
        buffer := update fs.buffer (o % v.hwsectorsize + i) b
        dirty := true } := by
  obtain ⟨hdiv, hmod⟩ := wf.same_sector hi
  have hsector : fatSector v (o + i) = fatSector v o := by
    rw [fatSector, hdiv, fatSector]
  rw [storeByte_cached (hcurrent.trans hsector.symm), hmod]

namespace CacheOk

variable {bytes : List UInt8}

theorem storeBytes_ok (ok : CacheOk v fs) (wf : WellFormed v)
    (h : offset + bytes.length ≤ v.fatBytes) : CacheOk v (storeBytes v fs offset bytes) := by
  induction bytes generalizing fs offset with
  | nil => exact ok
  | cons b bytes ih =>
    rw [length_cons] at h
    exact ih (ok.storeByte_ok wf (by omega) b) (by omega)

/-- The stores change those bytes of the FAT only, -/
theorem fatByte_storeBytes (ok : CacheOk v fs) (wf : WellFormed v)
    (h : offset + bytes.length ≤ v.fatBytes) (ho : o < v.fatBytes) :
    fatByte v (storeBytes v fs offset bytes) o =
      if offset ≤ o ∧ o < offset + bytes.length then bytes.getD (o - offset) 0
      else fatByte v fs o := by
  induction bytes generalizing fs offset with
  | nil =>
    rw [if_neg (by simp)]
    rfl
  | cons b bytes ih =>
    rw [length_cons] at h ⊢
    rw [storeBytes, ih (ok.storeByte_ok wf (by omega) b) (by omega),
      ok.fatByte_store wf (by omega) ho]
    by_cases heq : o = offset
    · subst heq
      simp
    · by_cases hin : offset + 1 ≤ o ∧ o < offset + 1 + bytes.length
      · rw [if_pos hin, if_pos (by omega), show o - offset = o - (offset + 1) + 1 by omega,
          getD_cons_succ]
      · rw [if_neg hin, if_neg heq, if_neg (by omega)]

end CacheOk

theorem toNat_ofNat (n : Nat) : (UInt8.ofNat n).toNat = n % 256 := by
  simp

theorem rawEntry_lt (v : Volume) (fs : Fs) (c : Nat) : rawEntry v fs c < 2 ^ 32 := by
  have hword : ∀ o, fatWord v fs o < 65536 := by
    intro o
    have hlow := (fatByte v fs o).toNat_lt
    have hhigh := (fatByte v fs (o + 1)).toNat_lt
    unfold fatWord
    omega
  have hfirst := hword (entryOffset v c)
  have hsecond := hword (entryOffset v c + 2)
  simp only [rawEntry]
  split
  · split <;> omega
  · omega
  · omega

section Put

variable (ok : CacheOk v fs) (wf : WellFormed v) {c d : Nat} (hone : c ≠ 1) (hc : c < v.nclusters)
include ok wf hone hc

/-- `fat_putcluster` on FAT12: two stores, with the nibbles of the neighbour kept. -/
theorem putcluster_fat12 (htype : v.fatType = .fat12) (n : Nat) :
    fatPutcluster v fs c n = (storeBytes v fs (entryOffset v c) (entryBytes v fs c n), 0) := by
  have hrange : c = 0 ∨ c ≥ 2 ∧ c < v.nclusters := by omega
  obtain ⟨hoffset, hfat⟩ := entry_fat12 wf htype hc
  simp only [entryBytes, htype, storeBytes]
  generalize entryOffset v c = o at hfat hoffset ⊢
  have hfirst : o < v.fatBytes := Nat.lt_of_succ_lt hfat
  obtain ⟨hin, hout⟩ := next_sector wf.sectorSize_pos o
  have hsecond : ∀ b, fatByte v (storeByte v fs o b) (o + 1) = fatByte v fs (o + 1) := by
    intro b
    rw [ok.fatByte_store wf hfirst hfat, if_neg (by omega)]
  simp only [fatPutcluster, if_pos hrange, htype, hoffset, fatSector_eq,
    wf.and_secNdxmask, buffer_read ok wf hfirst]
  rw [← low12]
  generalize UInt8.ofNat (low12 c n (fatByte v fs o).toNat) = b
  by_cases h : o % v.hwsectorsize + 1 ≥ v.hwsectorsize
  · -- the second byte is the first of the next sector, and the first one is flushed
    obtain ⟨hsector, hmod⟩ := hout h
    have hbyte := buffer_read (ok.storeByte_ok wf hfirst b) wf hfat
    rw [hsecond] at hbyte
    rw [if_pos h, ← hsector, ← hbyte, storeByte.eq_def v _ (o + 1), hmod]
    rfl
  · obtain ⟨hsector, hmod⟩ := hin (by omega)
    have hbyte := buffer_read ok wf hfat
    rw [hsector, hmod] at hbyte
    rw [if_neg h, storeByte_storeByte hsector.symm, hmod, ← hbyte]
    simp only [high12, update_of_ne (Nat.succ_ne_self _)]

omit ok in
theorem putcluster_fat16 (htype : v.fatType = .fat16) (n : Nat) :
    fatPutcluster v fs c n = (storeBytes v fs (entryOffset v c) (entryBytes v fs c n), 0) := by
  have hrange : c = 0 ∨ c ≥ 2 ∧ c < v.nclusters := by omega
  obtain ⟨hoffset, hmod, -⟩ := entry_fat16 wf htype hc
  simp only [fatPutcluster, if_pos hrange, htype, hoffset, fatSector_eq,
    wf.and_secNdxmask, entryBytes, storeBytes]
  rw [storeByte_near wf hmod (storeByte_current fs _ _)]
  rfl

theorem putcluster_fat32 (htype : v.fatType = .fat32) (n : Nat) :
    fatPutcluster v fs c n = (storeBytes v fs (entryOffset v c) (entryBytes v fs c n), 0) := by
  have hrange : c = 0 ∨ c ≥ 2 ∧ c < v.nclusters := by omega
  obtain ⟨hoffset, hmod, hfat⟩ := entry_fat32 wf htype hc
  have hraw : fatGetuint32 (fatFscacheread v fs (fatSector v (entryOffset v c))).buffer
      (entryOffset v c % v.hwsectorsize) = rawEntry v fs c := by
    rw [buffer_getuint32 ok wf hmod hfat]
    simp only [rawEntry, htype]
  simp only [fatPutcluster, if_pos hrange, htype, hoffset, fatSector_eq,
    wf.and_secNdxmask, hraw, entryBytes, storeBytes]
  -- the first store has read the sector, and the others find it there
  have hcurrent := storeByte_current (v := v) fs (entryOffset v c)
    (UInt8.ofNat (entry32 n (rawEntry v fs c)))
  rw [storeByte_near wf (by omega) hcurrent,
    storeByte_near wf (o := entryOffset v c) (i := 1 + 1) (by omega) (by exact hcurrent),
    storeByte_near wf (i := 1 + (1 + 1)) (by omega) (by exact hcurrent)]
  rfl

theorem putcluster_stores (n : Nat) :
    fatPutcluster v fs c n = (storeBytes v fs (entryOffset v c) (entryBytes v fs c n), 0) := by
  cases htype : v.fatType with
  | fat12 => exact putcluster_fat12 ok wf hone hc htype n
  | fat16 => exact putcluster_fat16 wf hone hc htype n
  | fat32 => exact putcluster_fat32 ok wf hone hc htype n

theorem fatByte_putcluster (n : Nat) (ho : o < v.fatBytes) :
    fatByte v (fatPutcluster v fs c n).1 o =
      if entryOffset v c ≤ o ∧ o < entryOffset v c + (entryBytes v fs c n).length then
        (entryBytes v fs c n).getD (o - entryOffset v c) 0
      else fatByte v fs o := by
  rw [putcluster_stores ok wf hone hc]
  exact ok.fatByte_storeBytes wf (entryBytes_in_fat wf hc fs n) ho

/-- A FAT12 entry after the store of one: neighbours share a byte. -/
theorem rawEntry_fat12 (htype : v.fatType = .fat12) (hdfat : entryEnd v d ≤ v.fatBytes) (n : Nat) :
    rawEntry v (fatPutcluster v fs c n).1 d = if d = c then n % 4096 else rawEntry v fs d := by
  obtain ⟨hcfat, -⟩ := entry_in_fat wf hc
  have hbyte := fun o => fatByte_putcluster ok wf hone hc n (o := o)
  have hold' := (fatByte v fs (entryOffset v c + 1)).toNat_lt
  simp only [htype, entryEnd, entryBytes, low12_eq, high12_eq, rawEntry, fatWord,
    entryOffset_fat12 htype, length_cons, length_nil] at *
  have hfirst := hbyte _ (Nat.lt_of_succ_lt hcfat)
  have hsecond := hbyte _ hcfat
  rw [if_pos (by omega), Nat.sub_self, getD_cons_zero] at hfirst
  rw [if_pos (by omega), Nat.add_sub_cancel_left, getD_cons_succ, getD_cons_zero] at hsecond
  have hother : ∀ o < v.fatBytes, o ≠ c * 3 / 2 → o ≠ c * 3 / 2 + 1 →
      fatByte v (fatPutcluster v fs c n).1 o = fatByte v fs o := by
    intro o ho hne hne'
    rw [hbyte o ho, if_neg (by omega)]
  by_cases hsame : d = c
  · subst hsame
    rw [hfirst, hsecond, toNat_ofNat, toNat_ofNat, if_pos rfl]
    split <;> omega
  · rw [if_neg hsame]
    by_cases hnext : d * 3 / 2 = c * 3 / 2 + 1
    · -- the odd cluster behind an even one: its low nibble is in the second byte
      rw [hnext, hsecond, hother (c * 3 / 2 + 1 + 1) (by omega) (by omega) (by omega), toNat_ofNat]
      split <;> split <;> omega
    · rw [hother (d * 3 / 2) (by omega) (by omega) hnext]
      by_cases hprev : d * 3 / 2 + 1 = c * 3 / 2
      · -- the even cluster before an odd one: its high nibble is in the first byte
        rw [hprev, hfirst, toNat_ofNat]
        split <;> split <;> omega
      · rw [hother (d * 3 / 2 + 1) hdfat hprev (by omega)]

theorem rawEntry_fat16 (htype : v.fatType = .fat16) (hdfat : entryEnd v d ≤ v.fatBytes) (n : Nat) :
    rawEntry v (fatPutcluster v fs c n).1 d = if d = c then n % 65536 else rawEntry v fs d := by
  have hbyte := fun o => fatByte_putcluster ok wf hone hc n (o := o)
  simp only [htype, entryEnd, entryBytes, rawEntry, fatWord, entryOffset_fat16 htype, length_cons,
    length_nil] at *
  rw [hbyte _ (Nat.lt_of_succ_lt hdfat), hbyte _ hdfat]
  by_cases hsame : d = c
  · subst hsame
    rw [if_pos (by omega), if_pos (by omega), if_pos rfl, Nat.sub_self, Nat.add_sub_cancel_left,
      getD_cons_zero, getD_cons_succ, getD_cons_zero, toNat_ofNat, toNat_ofNat,
      show 0xffff = 2 ^ 16 - 1 from rfl, Nat.and_two_pow_sub_one_eq_mod]
    omega
  · rw [if_neg (by omega), if_neg (by omega), if_neg hsame]

/-- A FAT32 entry after the store of one: its top four bits stay. -/
theorem rawEntry_fat32 (htype : v.fatType = .fat32) (hdfat : entryEnd v d ≤ v.fatBytes) (n : Nat) :
    rawEntry v (fatPutcluster v fs c n).1 d =
      if d = c then 2 ^ 28 * (rawEntry v fs c / 2 ^ 28) + n % 2 ^ 28 else rawEntry v fs d := by
  have hbyte := fun o => fatByte_putcluster ok wf hone hc n (o := o)
  have hraw := rawEntry_lt v fs c
  rw [← entry32_eq n _ hraw]
  have hentry : entry32 n (rawEntry v fs c) < 2 ^ 32 := by
    rw [entry32_eq n _ hraw]
    omega
  simp only [entryBytes, entryEnd, htype, entryOffset_fat32 htype, length_cons, length_nil]
    at hbyte hdfat
  generalize entry32 n (rawEntry v fs c) = value at *
  simp only [rawEntry, htype, fatWord, entryOffset_fat32 htype]
  rw [hbyte _ (by omega), hbyte _ (by omega), hbyte _ (by omega), hbyte _ (by omega)]
  by_cases hsame : d = c
  · subst hsame
    rw [if_pos (by omega), if_pos (by omega), if_pos (by omega), if_pos (by omega), if_pos rfl]
    simp only [Nat.add_assoc, Nat.sub_self, Nat.add_sub_cancel_left, getD_cons_zero,
      getD_cons_succ, toNat_ofNat]
    omega
  · rw [if_neg (by omega), if_neg (by omega), if_neg (by omega), if_neg (by omega), if_neg hsame]

theorem entry_putcluster (hdfat : entryEnd v d ≤ v.fatBytes) (n : Nat) :
    entry v (fatPutcluster v fs c n).1 d =
      if d = c then n % 2 ^ v.fatType.bits else entry v fs d := by
  unfold entry
  cases htype : v.fatType with
  | fat12 =>
    rw [rawEntry_fat12 ok wf hone hc htype hdfat]
    split <;> simp [FatType.bits]
  | fat16 =>
    rw [rawEntry_fat16 ok wf hone hc htype hdfat]
    split <;> simp [FatType.bits]
  | fat32 =>
    rw [rawEntry_fat32 ok wf hone hc htype hdfat]
    split
    · simp only [FatType.bits]
      omega
    · rfl

end Put

end NbLot.Source.Fat
