import NbLot.Guarantees.FatContents

/-!
# What the mount checks

The boot record is not trusted: whenever it is accepted, the reserved sectors, the FATs, the root
directory of a FAT12 or FAT16 volume and the clusters should lie apart in the device, the FATs
should be long enough, and no division should be by zero. `fat_checkbootrecord` does not ensure this.
`mount_sound_iff` gives the conditions on the record that are missing, each of which is necessary:

* the sectors of a cluster are not 0, and a sector holds a directory entry;
* there is a FAT, and the parts of the volume end within the device;
* the root directory ends where the clusters start: the one is rounded up, the other down;
* there are at least two clusters, since `fat_cluster2sector` subtracts 2 from their number;
* the FAT has an entry for every cluster.
-/
namespace NbLot.Guarantees.FatMount
open Source.Fat
open FatContents (tiny tinyRecord)

/-- The positions at which scanning the root directory arrives. -/
inductive Scanned (hwsectorsize rootentcnt rootbase : Nat) : Nat × Nat → Prop
  | start : Scanned hwsectorsize rootentcnt rootbase (0, rootbase)
  | next {dir dir'} (h : Scanned hwsectorsize rootentcnt rootbase dir)
      (hnext : fatNextdirentryRoot hwsectorsize rootentcnt dir = some dir') :
      Scanned hwsectorsize rootentcnt rootbase dir'

/-- How often scanning has moved on to the next sector at an index. -/
def sectorSteps (hwsectorsize : Nat) : Nat → Nat
  | 0 => 0
  | index + 1 =>
    sectorSteps hwsectorsize index +
      if (index + 1) &&& uint32 (hwsectorsize / 32 + (2 ^ 32 - 1)) = 0 then 1 else 0

/-- The number of sectors that scanning the root directory visits. -/
def rootSectors (hwsectorsize rootentcnt : Nat) : Nat := sectorSteps hwsectorsize (rootentcnt - 1) + 1

variable {hwsectorsize rootentcnt rootbase : Nat}

theorem sectorSteps_mono (hwsectorsize : Nat) {m n : Nat} (h : m ≤ n) :
    sectorSteps hwsectorsize m ≤ sectorSteps hwsectorsize n := by
  induction n, h using Nat.le_induction with
  | base => exact le_rfl
  | succ n _ ih => exact Nat.le_trans ih (Nat.le_add_right _ _)

theorem scanned_sector {dir : Nat × Nat} (h : Scanned hwsectorsize rootentcnt rootbase dir) :
    dir.2 = rootbase + sectorSteps hwsectorsize dir.1 ∧
      sectorSteps hwsectorsize dir.1 < rootSectors hwsectorsize rootentcnt := by
  induction h with
  | start => exact ⟨rfl, Nat.succ_pos _⟩
  | @next dir _ _ hnext ih =>
    unfold fatNextdirentryRoot at hnext
    simp only at hnext
    split_ifs at hnext with hsector hend
    · cases hnext
      have hmono := sectorSteps_mono hwsectorsize (show dir.1 + 1 ≤ rootentcnt - 1 by omega)
      refine ⟨?_, Nat.lt_succ_of_le hmono⟩
      simp only [sectorSteps, if_pos hsector]
      omega
    · cases hnext
      simp only [sectorSteps, if_neg hsector]
      exact ih

theorem scanned_index (hwsectorsize rootbase : Nat) {index : Nat} (h : index ≤ rootentcnt - 1) :
    Scanned hwsectorsize rootentcnt rootbase (index, rootbase + sectorSteps hwsectorsize index) := by
  induction index with
  | zero => exact .start
  | succ index ih =>
    refine .next (ih (by omega)) ?_
    unfold fatNextdirentryRoot
    simp only [sectorSteps]
    split_ifs with hsector hend
    · omega
    · rfl
    · rfl

theorem scanned_iff (hwsectorsize rootentcnt rootbase s : Nat) :
    (∃ index, Scanned hwsectorsize rootentcnt rootbase (index, s)) ↔
      rootbase ≤ s ∧ s < rootbase + rootSectors hwsectorsize rootentcnt := by
  constructor
  · rintro ⟨index, hscan⟩
    obtain ⟨hsector, hlt⟩ := scanned_sector hscan
    omega
  · rintro ⟨hlow, hhigh⟩
    -- the steps take every value up to the last
    have hhit : ∀ n t, t ≤ sectorSteps hwsectorsize n → ∃ m ≤ n, sectorSteps hwsectorsize m = t := by
      intro n
      induction n with
      | zero => exact fun t ht => ⟨0, Nat.le_refl 0, (Nat.le_zero.mp ht).symm⟩
      | succ n ih =>
        intro t ht
        by_cases hbefore : t ≤ sectorSteps hwsectorsize n
        · obtain ⟨m, hm, heq⟩ := ih t hbefore
          exact ⟨m, Nat.le_succ_of_le hm, heq⟩
        · refine ⟨n + 1, le_rfl, ?_⟩
          unfold sectorSteps at ht ⊢
          split at ht
          · next h => rw [if_pos h]; omega
          · omega
    obtain ⟨index, hindex, hsteps⟩ := hhit (rootentcnt - 1) (s - rootbase) (by
      unfold rootSectors at hhigh
      omega)
    refine ⟨index, ?_⟩
    have hscan := scanned_index hwsectorsize rootbase hindex
    rwa [hsteps, Nat.add_sub_cancel' hlow] at hscan

/-- What an accepted record has been checked for, and what is stored. -/
theorem checkbootrecord_some {hwnsectors fatbase : Nat} {record : BootRecord} {v : Volume}
    (h : fatCheckbootrecord hwsectorsize hwnsectors fatbase record = some v) :
    record.Checked hwsectorsize hwnsectors ∧ v = record.volume hwsectorsize fatbase v.fatType ∧
      (v.fatType = .fat32 → record.rootentcnt = 0 ∧ fatMaxclust16 < v.nclusters) := by
  unfold fatCheckbootrecord at h
  simp only at h
  split_ifs at h with hchecked h12 h16 h32
  · cases h
    exact ⟨hchecked, rfl, nofun⟩
  · cases h
    exact ⟨hchecked, rfl, nofun⟩
  · cases h
    refine ⟨hchecked, rfl, fun _ => ⟨?_, Nat.lt_of_not_le h16⟩⟩
    by_contra hroot
    exact h32 (.inl hroot)

/-- The parts of a volume. -/
inductive Area where
  | reserved
  | fat (i : Nat)
  | root
  | cluster (c : Nat)
  deriving DecidableEq, Repr

/-- The parts that a volume has: the driver uses the first FAT in any case, the root directory is
fixed except for FAT32, and the clusters are those that `fat_cluster2sector` accepts. -/
def Area.Part (v : Volume) : Area → Prop
  | .reserved => True
  | .fat i => i < max 1 v.fatnumfats
  | .root => v.fatType ≠ .fat32
  | .cluster c => c < 2 ^ 32 ∧ fatCluster2sector v c ≠ -einval

/-- The sectors of a part, for a volume that starts at the sector `fatbase`. -/
def Area.Sector (fatbase : Nat) (record : BootRecord) (v : Volume) : Area → Int → Prop
  | .reserved, s => (fatbase : Int) ≤ s ∧ s < v.fatbase
  | .fat i, s => ((v.fatbase + i * v.nfatsects : Nat) : Int) ≤ s ∧
      s < (v.fatbase + (i + 1) * v.nfatsects : Nat)
  | .root, s => ∃ index t : Nat, Scanned v.hwsectorsize record.rootentcnt
      (uint32 (v.fatbase + record.ntotalfatsects)) (index, t) ∧ s = t
  | .cluster c, s => ∃ j < v.fatsecperclus, s = fatCluster2sector v c + j

/-- The parts lie apart in the device, and the FATs have an entry for every cluster. -/
structure Sound (hwnsectors fatbase : Nat) (record : BootRecord) (v : Volume) : Prop where
  apart : ∀ a b : Area, a ≠ b → a.Part v → b.Part v →
    ∀ s, a.Sector fatbase record v s → ¬b.Sector fatbase record v s
  inside : ∀ a : Area, a.Part v → ∀ s, a.Sector fatbase record v s → 0 ≤ s ∧ s < hwnsectors
  entries : v.fatLength v.nclusters ≤ v.fatBytes

/-- What has to hold of an accepted record. -/
structure Fits (hwnsectors : Nat) (record : BootRecord) (v : Volume) : Prop where
  fats : 1 ≤ v.fatnumfats
  fatsEnd : v.fatbase + v.fatnumfats * v.nfatsects ≤ hwnsectors
  rootEnd : v.fatType ≠ .fat32 → v.fatbase + v.fatnumfats * v.nfatsects +
    rootSectors v.hwsectorsize record.rootentcnt ≤ hwnsectors
  rootWhole : v.fatType ≠ .fat32 → 3 ≤ v.nclusters →
    rootSectors v.hwsectorsize record.rootentcnt ≤ record.rootentcnt / (v.hwsectorsize / 32)
  clusters : 2 ≤ v.nclusters
  clustersEnd : 3 ≤ v.nclusters → v.fatbase + v.fatnumfats * v.nfatsects +
    record.rootentcnt / (v.hwsectorsize / 32) + (v.nclusters - 2) * v.fatsecperclus ≤ hwnsectors
  entries : v.fatLength v.nclusters ≤ v.fatBytes

variable {hwnsectors fatbase : Nat} {record : BootRecord} {v : Volume}

/-- What is known of a volume whose record has been accepted without a division by zero. -/
structure Accepted (hwnsectors fatbase : Nat) (record : BootRecord) (v : Volume) : Prop where
  stored : v = record.volume v.hwsectorsize fatbase v.fatType
  device : hwnsectors < 2 ^ 31
  nfatsects : 1 ≤ v.nfatsects
  secperclus : 1 ≤ v.fatsecperclus
  rootentcnt : record.rootentcnt < 2 ^ 16
  nclusters : v.nclusters < 2 ^ 31
  fat32 : v.fatType = .fat32 → record.rootentcnt = 0 ∧ 3 ≤ v.nclusters

/-- Where a part starts and ends when nothing has wrapped around. -/
def Area.span (fatbase : Nat) (record : BootRecord) (v : Volume) : Area → Nat × Nat
  | .reserved => (fatbase, v.fatbase)
  | .fat i => (v.fatbase + i * v.nfatsects, v.fatbase + (i + 1) * v.nfatsects)
  | .root => (v.fatbase + v.fatnumfats * v.nfatsects, v.fatbase + v.fatnumfats * v.nfatsects +
      rootSectors v.hwsectorsize record.rootentcnt)
  | .cluster c =>
    (v.fatbase + v.fatnumfats * v.nfatsects + record.rootentcnt / (v.hwsectorsize / 32) +
        (c - 2) * v.fatsecperclus,
      v.fatbase + v.fatnumfats * v.nfatsects + record.rootentcnt / (v.hwsectorsize / 32) +
        (c - 1) * v.fatsecperclus)

namespace Accepted

variable (h : Accepted hwnsectors fatbase record v) {a : Area}
include h

section

variable (hend : v.fatbase + v.fatnumfats * v.nfatsects ≤ hwnsectors)
include hend

theorem ntotalfatsects : record.ntotalfatsects = v.fatnumfats * v.nfatsects := by
  have hdevice := h.device
  have hfats : record.numfats * record.nfatsects = v.fatnumfats * v.nfatsects := by
    rw [h.stored]
    rfl
  rw [BootRecord.ntotalfatsects, hfats, uint32, Nat.mod_eq_of_lt (by omega)]

theorem database :
    v.database = v.fatbase + v.fatnumfats * v.nfatsects + record.rootentcnt / (v.hwsectorsize / 32) := by
  have hdevice := h.device
  have hroot := h.rootentcnt
  have htotal := h.ntotalfatsects hend
  have hle := Nat.div_le_self record.rootentcnt (v.hwsectorsize / 32)
  have hdatabase : v.database = uint32 (v.fatbase + record.ntotalfatsects +
      record.rootentcnt / (v.hwsectorsize / 32)) := by
    rw [h.stored]
    rfl
  rw [hdatabase, htotal, uint32, Nat.mod_eq_of_lt (by omega)]

end

theorem cluster_part (hclusters : 2 ≤ v.nclusters) (c : Nat) :
    (Area.cluster c).Part v ↔ 2 ≤ c ∧ c < v.nclusters := by
  have hlt := h.nclusters
  have hlast : uint32 (2 ^ 32 - 2 + v.nclusters) = v.nclusters - 2 := by
    unfold uint32
    omega
  unfold Area.Part fatCluster2sector
  simp only [hlast]
  constructor
  · rintro ⟨hc, haccept⟩
    split at haccept
    · exact absurd rfl haccept
    · next hrange =>
      unfold uint32 at hrange
      omega
  · rintro ⟨hlow, hc⟩
    refine ⟨by omega, ?_⟩
    rw [if_neg (by unfold uint32; omega)]
    unfold einval
    omega

theorem cluster_sector {c : Nat} (hlow : 2 ≤ c) (hc : c < v.nclusters) :
    fatCluster2sector v c = ((c - 2) * v.fatsecperclus + v.database : Nat) := by
  have hlt := h.nclusters
  have hminus : uint32 (c + (2 ^ 32 - 2)) = c - 2 := by
    unfold uint32
    omega
  have hlast : uint32 (2 ^ 32 - 2 + v.nclusters) = v.nclusters - 2 := by
    unfold uint32
    omega
  rw [fatCluster2sector, hminus, if_neg (by omega)]

theorem sector_iff (hend : v.fatbase + v.fatnumfats * v.nfatsects ≤ hwnsectors)
    (hclusters : 2 ≤ v.nclusters) (ha : a.Part v) (s : Int) :
    a.Sector fatbase record v s ↔
      ((a.span fatbase record v).1 : Int) ≤ s ∧ s < (a.span fatbase record v).2 := by
  have hdevice := h.device
  cases a with
  | reserved => exact Iff.rfl
  | fat i => exact Iff.rfl
  | root =>
    have hbase : uint32 (v.fatbase + record.ntotalfatsects) = v.fatbase + v.fatnumfats * v.nfatsects := by
      rw [h.ntotalfatsects hend, uint32, Nat.mod_eq_of_lt (by omega)]
    simp only [Area.Sector, Area.span, hbase]
    constructor
    · rintro ⟨index, t, hscan, rfl⟩
      have := (scanned_iff _ _ _ t).mp ⟨index, hscan⟩
      omega
    · rintro ⟨hlow, hhigh⟩
      obtain ⟨t, rfl⟩ : ∃ t : Nat, s = t := ⟨s.toNat, by omega⟩
      obtain ⟨index, hscan⟩ := (scanned_iff v.hwsectorsize record.rootentcnt
        (v.fatbase + v.fatnumfats * v.nfatsects) t).mpr ⟨by omega, by omega⟩
      exact ⟨index, t, hscan, rfl⟩
  | cluster c =>
    obtain ⟨hlow, hc⟩ := (h.cluster_part hclusters c).mp ha
    have hsize : (c - 1) * v.fatsecperclus = (c - 2) * v.fatsecperclus + v.fatsecperclus := by
      rw [show c - 1 = c - 2 + 1 by omega, Nat.add_mul, Nat.one_mul]
    simp only [Area.Sector, Area.span, h.cluster_sector hlow hc, h.database hend]
    constructor
    · rintro ⟨j, hj, rfl⟩
      omega
    · rintro ⟨hfrom, hto⟩
      refine ⟨(s - ((c - 2) * v.fatsecperclus + (v.fatbase + v.fatnumfats * v.nfatsects +
        record.rootentcnt / (v.hwsectorsize / 32)) : Nat)).toNat, by omega, by omega⟩

section

variable (fits : Fits hwnsectors record v)
include fits

/-- The part of the volume in which an area lies: in front of the FATs, the FATs, the root directory
and the clusters. -/
theorem span_bounds (ha : a.Part v) :
    match a with
    | .reserved => (a.span fatbase record v).2 = v.fatbase
    | .fat _ => v.fatbase ≤ (a.span fatbase record v).1 ∧
        (a.span fatbase record v).2 ≤ v.fatbase + v.fatnumfats * v.nfatsects
    | .root => (a.span fatbase record v).1 = v.fatbase + v.fatnumfats * v.nfatsects ∧
        (3 ≤ v.nclusters → (a.span fatbase record v).2 ≤
          v.fatbase + v.fatnumfats * v.nfatsects + record.rootentcnt / (v.hwsectorsize / 32))
    | .cluster _ => 3 ≤ v.nclusters ∧
        v.fatbase + v.fatnumfats * v.nfatsects ≤ (a.span fatbase record v).1 ∧
        v.fatbase + v.fatnumfats * v.nfatsects + record.rootentcnt / (v.hwsectorsize / 32) ≤
          (a.span fatbase record v).1 := by
  cases a with
  | reserved => rfl
  | fat i =>
    have hi : i + 1 ≤ v.fatnumfats := by
      have hfats := fits.fats
      have hlt : i < max 1 v.fatnumfats := ha
      omega
    have hend := Nat.mul_le_mul_right v.nfatsects hi
    exact ⟨Nat.le_add_right _ _, Nat.add_le_add_left hend _⟩
  | root => exact ⟨rfl, fun hsome => Nat.add_le_add_left (fits.rootWhole ha hsome) _⟩
  | cluster c =>
    obtain ⟨hlow, hc⟩ := (h.cluster_part fits.clusters c).mp ha
    have hstart := Nat.le_add_right (v.fatbase + v.fatnumfats * v.nfatsects +
      record.rootentcnt / (v.hwsectorsize / 32)) ((c - 2) * v.fatsecperclus)
    exact ⟨by omega, Nat.le_trans (Nat.le_add_right _ _) hstart, hstart⟩

theorem span_apart {b : Area} (hne : a ≠ b) (ha : a.Part v) (hb : b.Part v) :
    (a.span fatbase record v).2 ≤ (b.span fatbase record v).1 ∨
      (b.span fatbase record v).2 ≤ (a.span fatbase record v).1 := by
  have hbounds_a := h.span_bounds fits ha
  have hbounds_b := h.span_bounds fits hb
  have hmul : ∀ n i j : Nat, i < j → (i + 1) * n ≤ j * n := fun n i j hij => Nat.mul_le_mul_right n hij
  cases a with
  | reserved =>
    cases b with
    | reserved => exact absurd rfl hne
    | fat j => simp only at hbounds_a hbounds_b; omega
    | root => simp only at hbounds_a hbounds_b; omega
    | cluster d => simp only at hbounds_a hbounds_b; omega
  | fat i =>
    cases b with
    | reserved => simp only at hbounds_a hbounds_b; omega
    | fat j =>
      simp only [Area.span]
      rcases Nat.lt_trichotomy i j with hlt | heq | hgt
      · have := hmul v.nfatsects i j hlt
        omega
      · exact absurd (congrArg Area.fat heq) hne
      · have := hmul v.nfatsects j i hgt
        omega
    | root => simp only at hbounds_a hbounds_b; omega
    | cluster d => simp only at hbounds_a hbounds_b; omega
  | root =>
    cases b with
    | reserved => simp only at hbounds_a hbounds_b; omega
    | fat j => simp only at hbounds_a hbounds_b; omega
    | root => exact absurd rfl hne
    | cluster d =>
      omega
  | cluster c =>
    cases b with
    | reserved => simp only at hbounds_a hbounds_b; omega
    | fat j => simp only at hbounds_a hbounds_b; omega
    | root =>
      omega
    | cluster d =>
      obtain ⟨hclow, -⟩ := (h.cluster_part fits.clusters c).mp ha
      obtain ⟨hdlow, -⟩ := (h.cluster_part fits.clusters d).mp hb
      simp only [Area.span]
      rcases Nat.lt_trichotomy c d with hlt | heq | hgt
      · have := hmul v.fatsecperclus (c - 2) (d - 2) (by omega)
        rw [show c - 2 + 1 = c - 1 by omega] at this
        omega
      · exact absurd (congrArg Area.cluster heq) hne
      · have := hmul v.fatsecperclus (d - 2) (c - 2) (by omega)
        rw [show d - 2 + 1 = d - 1 by omega] at this
        omega

theorem span_inside (ha : a.Part v) : (a.span fatbase record v).2 ≤ hwnsectors := by
  have hend := fits.fatsEnd
  cases a with
  | reserved => exact Nat.le_trans (Nat.le_add_right _ _) hend
  | fat i => exact Nat.le_trans (h.span_bounds fits ha).2 hend
  | root => exact fits.rootEnd ha
  | cluster c =>
    obtain ⟨hlow, hc⟩ := (h.cluster_part fits.clusters c).mp ha
    have hlast := Nat.mul_le_mul_right v.fatsecperclus (show c - 1 ≤ v.nclusters - 2 by omega)
    exact Nat.le_trans (Nat.add_le_add_left hlast _) (fits.clustersEnd (by omega))

theorem sound :
    Sound hwnsectors fatbase record v where
  apart := by
    intro a b hne ha hb s hsa hsb
    have ha_span := (h.sector_iff fits.fatsEnd fits.clusters ha s).mp hsa
    have hb_span := (h.sector_iff fits.fatsEnd fits.clusters hb s).mp hsb
    have hapart := h.span_apart fits hne ha hb
    omega
  inside := by
    intro a ha s hs
    have hspan := (h.sector_iff fits.fatsEnd fits.clusters ha s).mp hs
    have hinside := h.span_inside fits ha
    omega
  entries := fits.entries

end

section

variable (sound : Sound hwnsectors fatbase record v)
include sound

theorem fatsEnd_of_sound : v.fatbase + max 1 v.fatnumfats * v.nfatsects ≤ hwnsectors := by
  have hpos := h.nfatsects
  obtain ⟨i, hi⟩ : ∃ i, max 1 v.fatnumfats = i + 1 := ⟨max 1 v.fatnumfats - 1, by omega⟩
  have hpart : (Area.fat i).Part v := by
    show i < max 1 v.fatnumfats
    omega
  have hsize : (i + 1) * v.nfatsects = i * v.nfatsects + v.nfatsects := by
    rw [Nat.add_mul, Nat.one_mul]
  have hlast := sound.inside (.fat i) hpart ((v.fatbase + (i + 1) * v.nfatsects : Nat) - 1)
    ⟨by omega, by omega⟩
  rw [hi]
  omega

/-- With fewer than two clusters `fat_cluster2sector` accepts a cluster behind the device. -/
theorem clusters_of_sound : 2 ≤ v.nclusters := by
  by_contra hfew
  have hdevice := h.device
  have hpos := h.secperclus
  have hminus : uint32 (hwnsectors + 2 + (2 ^ 32 - 2)) = hwnsectors := by
    unfold uint32
    omega
  have hlast : hwnsectors < uint32 (2 ^ 32 - 2 + v.nclusters) := by
    unfold uint32
    omega
  have hsector : fatCluster2sector v (hwnsectors + 2) =
      (hwnsectors * v.fatsecperclus + v.database : Nat) := by
    rw [fatCluster2sector, hminus, if_neg (by omega)]
  have hpart : (Area.cluster (hwnsectors + 2)).Part v := by
    refine ⟨by omega, ?_⟩
    unfold einval
    omega
  have hinside := sound.inside _ hpart _ ⟨0, hpos, rfl⟩
  have hge := Nat.mul_le_mul_left hwnsectors hpos
  omega

theorem fits : Fits hwnsectors record v := by
  have hlast := h.fatsEnd_of_sound sound
  have hclusters := h.clusters_of_sound sound
  have hpos := h.nfatsects
  have hspc := h.secperclus
  have hend : v.fatbase + v.fatnumfats * v.nfatsects ≤ hwnsectors := by
    have := Nat.mul_le_mul_right v.nfatsects (Nat.le_max_right 1 v.fatnumfats)
    omega
  have hspan : ∀ {a : Area}, a.Part v → ∀ s, ((a.span fatbase record v).1 : Int) ≤ s →
      s < (a.span fatbase record v).2 → a.Sector fatbase record v s :=
    fun ha s hlow hhigh => (h.sector_iff hend hclusters ha s).mpr ⟨hlow, hhigh⟩
  have hcluster : ∀ c, 2 ≤ c → c < v.nclusters → (Area.cluster c).Part v := fun c hlow hc =>
    (h.cluster_part hclusters c).mpr ⟨hlow, hc⟩
  have hfirst : (Area.fat 0).Part v := by
    show 0 < max 1 v.fatnumfats
    omega
  refine ⟨?_, hend, fun htype => ?_, fun htype hsome => ?_, hclusters, fun hsome => ?_, sound.entries⟩
  · -- without a FAT the first one would be the root directory or the first cluster
    by_contra hnone
    have hzero : v.fatnumfats = 0 := by omega
    have hsector : (Area.fat 0).Sector fatbase record v v.fatbase := by
      refine hspan hfirst _ ?_ ?_
      · simp [Area.span]
      · simp only [Area.span]
        omega
    by_cases htype : v.fatType = .fat32
    · obtain ⟨hroot, hsome⟩ := h.fat32 htype
      refine sound.apart (.fat 0) (.cluster 2) nofun hfirst (hcluster 2 le_rfl hsome) _ hsector
        (hspan (hcluster 2 le_rfl hsome) _ ?_ ?_)
      · simp [Area.span, hzero, hroot]
      · simp only [Area.span, hroot, Nat.zero_div]
        omega
    · refine sound.apart (.fat 0) .root nofun hfirst htype _ hsector
        (hspan (a := .root) htype _ ?_ ?_)
      · simp [Area.span, hzero]
      · simp only [Area.span, rootSectors]
        omega
  · have hin := sound.inside .root htype _ (hspan (a := .root) htype
      ((v.fatbase + v.fatnumfats * v.nfatsects + rootSectors v.hwsectorsize record.rootentcnt : Nat) - 1)
      (by simp only [Area.span, rootSectors]; omega) (by simp only [Area.span]; omega))
    omega
  · by_contra hover
    have hpart := hcluster 2 le_rfl hsome
    refine sound.apart .root (.cluster 2) nofun htype hpart
      (v.fatbase + v.fatnumfats * v.nfatsects + record.rootentcnt / (v.hwsectorsize / 32) : Nat)
      (hspan (a := .root) htype _ (Int.ofNat_le.mpr (Nat.le_add_right _ _))
        (by simp only [Area.span]; omega))
      (hspan hpart _ (by simp [Area.span]) (by simp only [Area.span]; omega))
  · have hpart := hcluster (v.nclusters - 1) (by omega) (by omega)
    have hsize : (v.nclusters - 1 - 1) * v.fatsecperclus =
        (v.nclusters - 1 - 2) * v.fatsecperclus + v.fatsecperclus := by
      rw [show v.nclusters - 1 - 1 = v.nclusters - 1 - 2 + 1 by omega, Nat.add_mul, Nat.one_mul]
    have hin := sound.inside _ hpart _ (hspan hpart
      ((v.fatbase + v.fatnumfats * v.nfatsects + record.rootentcnt / (v.hwsectorsize / 32) +
        (v.nclusters - 1 - 1) * v.fatsecperclus : Nat) - 1)
      (by simp only [Area.span]; omega) (by simp only [Area.span]; omega))
    rw [show v.nclusters - 2 = v.nclusters - 1 - 1 by omega]
    omega

end

end Accepted

theorem accepted (hdevice : hwnsectors < 2 ^ 31) {buffer : Nat → UInt8}
    (h : fatCheckbootrecord hwsectorsize hwnsectors fatbase (bootRecord buffer) = some v)
    (hpos : (bootRecord buffer).secperclus ≠ 0) :
    Accepted hwnsectors fatbase (bootRecord buffer) v := by
  obtain ⟨⟨-, hfat, -, -, hdata⟩, hv, h32⟩ := checkbootrecord_some h
  have hcount : v.nclusters =
      (bootRecord buffer).ndatasectors hwsectorsize / (bootRecord buffer).secperclus := by
    rw [hv]
    rfl
  refine ⟨?_, hdevice, ?_, ?_, getuint16_lt buffer 17, ?_, fun htype => ⟨(h32 htype).1, ?_⟩⟩
  · rw [hv]
    rfl
  · rw [hv]
    show 1 ≤ (bootRecord buffer).nfatsects
    omega
  · rw [hv]
    exact Nat.one_le_iff_ne_zero.mpr hpos
  · have hle := Nat.div_le_self ((bootRecord buffer).ndatasectors hwsectorsize)
      (bootRecord buffer).secperclus
    omega
  · have hmany := (h32 htype).2
    unfold fatMaxclust16 at hmany
    omega

/-- The base of the volume decides nothing about which records are accepted. -/
theorem checkbootrecord_isSome (hwsectorsize hwnsectors fatbase fatbase' : Nat) (record : BootRecord) :
    (fatCheckbootrecord hwsectorsize hwnsectors fatbase record).isSome =
      (fatCheckbootrecord hwsectorsize hwnsectors fatbase' record).isSome := by
  unfold fatCheckbootrecord
  simp only
  split_ifs <;> rfl

/-- The divisions are by the size of a sector, the sectors of a cluster and the entries in a sector. -/
theorem divisors_nonzero_iff (hwsectorsize hwnsectors fatbase : Nat) (record : BootRecord) :
    0 ∉ bootDivisors hwsectorsize hwnsectors record ↔
      (record.bytespersec = hwsectorsize → record.rootentcnt ≠ 0 → hwsectorsize ≠ 0) ∧
        (record.Checked hwsectorsize hwnsectors → record.secperclus ≠ 0) ∧
        ∀ v, fatCheckbootrecord hwsectorsize hwnsectors fatbase record = some v → 32 ≤ hwsectorsize := by
  have hsome : (∀ v, fatCheckbootrecord hwsectorsize hwnsectors fatbase record = some v →
      32 ≤ hwsectorsize) ↔
        ((fatCheckbootrecord hwsectorsize hwnsectors 0 record).isSome → 32 ≤ hwsectorsize) := by
    rw [checkbootrecord_isSome hwsectorsize hwnsectors 0 fatbase, Option.isSome_iff_exists]
    exact ⟨fun h ⟨v, hv⟩ => h v hv, fun h v hv => h ⟨v, hv⟩⟩
  have hchecked : (fatCheckbootrecord hwsectorsize hwnsectors 0 record).isSome →
      record.Checked hwsectorsize hwnsectors := by
    rw [Option.isSome_iff_exists]
    exact fun ⟨v, hv⟩ => (checkbootrecord_some hv).1
  unfold bootDivisors
  by_cases hbytes : record.bytespersec = hwsectorsize
  · split_ifs <;> grind
  · have hnot : ¬record.Checked hwsectorsize hwnsectors := fun h => hbytes h.1
    grind

/-- Mounting never divides by zero and leaves a sound volume exactly when the sizes are not 0 and the
parts of every accepted volume fit. -/
theorem mount_sound_iff (hwsectorsize hwnsectors fatbase : Nat) (hdevice : hwnsectors < 2 ^ 31)
    (buffer : Nat → UInt8) :
    (fatGetuint16 buffer 510 = 0xaa55 → 0 ∉ bootDivisors hwsectorsize hwnsectors (bootRecord buffer)) ∧
        (∀ v, fatCheckbootsector hwsectorsize hwnsectors fatbase buffer = some v →
          Sound hwnsectors fatbase (bootRecord buffer) v) ↔
      (fatGetuint16 buffer 510 = 0xaa55 →
        ((bootRecord buffer).bytespersec = hwsectorsize → (bootRecord buffer).rootentcnt ≠ 0 →
          hwsectorsize ≠ 0) ∧
        ((bootRecord buffer).Checked hwsectorsize hwnsectors → (bootRecord buffer).secperclus ≠ 0) ∧
        ∀ v, fatCheckbootrecord hwsectorsize hwnsectors fatbase (bootRecord buffer) = some v →
          32 ≤ hwsectorsize ∧ Fits hwnsectors (bootRecord buffer) v) := by
  by_cases hsign : fatGetuint16 buffer 510 = 0xaa55
  · have hcheck : fatCheckbootsector hwsectorsize hwnsectors fatbase buffer =
        fatCheckbootrecord hwsectorsize hwnsectors fatbase (bootRecord buffer) :=
      if_neg (not_not.mpr hsign)
    simp only [hsign, forall_true_left, hcheck,
      divisors_nonzero_iff hwsectorsize hwnsectors fatbase (bootRecord buffer)]
    constructor
    · rintro ⟨⟨hsize, hpos, hentries⟩, hsound⟩
      refine ⟨hsize, hpos, fun v hv => ⟨hentries v hv, ?_⟩⟩
      exact (accepted hdevice hv (hpos (checkbootrecord_some hv).1)).fits (hsound v hv)
    · rintro ⟨hsize, hpos, hfits⟩
      refine ⟨⟨hsize, hpos, fun v hv => (hfits v hv).1⟩, fun v hv => ?_⟩
      exact (accepted hdevice hv (hpos (checkbootrecord_some hv).1)).sound (hfits v hv).2
  · have hcheck : fatCheckbootsector hwsectorsize hwnsectors fatbase buffer = none := if_pos hsign
    simp [hsign, hcheck]

/-- The boot sector with the fields of a record. -/
def bootSector (record : BootRecord) (i : Nat) : UInt8 :=
  match i with
  | 11 => record.bytespersec.toUInt8
  | 12 => (record.bytespersec / 256).toUInt8
  | 13 => record.secperclus.toUInt8
  | 14 => record.resvdseccount.toUInt8
  | 16 => record.numfats.toUInt8
  | 17 => record.rootentcnt.toUInt8
  | 19 => record.totsec16.toUInt8
  | 22 => record.fatsz16.toUInt8
  | 510 => 0x55
  | 511 => 0xaa
  | _ => 0

/-- The tiny volume is mounted soundly. -/
theorem mount_sound_tiny : fatCheckbootsector 512 7 0 (bootSector tinyRecord) = some tiny ∧
    Sound 7 0 tinyRecord tiny := by
  have hmount : fatCheckbootsector 512 7 0 (bootSector tinyRecord) = some tiny := by decide +kernel
  have hrecord : fatCheckbootrecord 512 7 0 tinyRecord = some tiny := by decide +kernel
  have hfits : Fits 7 tinyRecord tiny := by
    constructor <;> decide +kernel
  have hsound := (mount_sound_iff 512 7 0 (by decide) (bootSector tinyRecord)).mpr (by
    refine fun _ => ⟨fun _ _ => by decide, fun _ => by decide, fun v hv => ⟨by decide, ?_⟩⟩
    obtain rfl := Option.some.inj (hrecord.symm.trans hv)
    exact hfits)
  exact ⟨hmount, hsound.2 tiny hmount⟩

/-- A record with clusters of no sectors divides by zero; one with a root directory of 17 entries is
accepted, with the 17th entry in the first sector of cluster 2. -/
theorem mount_unsound :
    (0 ∈ bootDivisors 512 7 (bootRecord (bootSector { tinyRecord with secperclus := 0 }))) ∧
      ∃ v, fatCheckbootsector 512 8 0
          (bootSector { tinyRecord with rootentcnt := 17, totsec16 := 8 }) = some v ∧
        ¬Sound 8 0 (bootRecord (bootSector { tinyRecord with rootentcnt := 17, totsec16 := 8 })) v := by
  refine ⟨by decide +kernel, tiny, by decide +kernel, fun h => ?_⟩
  have hroot : Scanned 512 17 2 (16, 3) := scanned_index 512 2 (show 16 ≤ 17 - 1 by decide)
  exact h.apart .root (.cluster 2) nofun nofun ⟨by decide, by decide⟩ 3 ⟨16, 3, hroot, rfl⟩
    ⟨0, by decide, by decide⟩

end NbLot.Guarantees.FatMount
