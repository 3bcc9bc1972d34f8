import NbLot.Source.Fat.Chain

/-!
# FAT: where the bytes of an open file are

Source: nuttx/fs/fat/fs_fat32.c:470-1006, fs_fat32util.c:1575-1688, 1845-1887.

The bytes of a file lie in the sectors of its cluster chain, with the sector in `ff_buffer` taken
from there (`fileByte`). `Layout` says what holds of an open file between any two transfers: which
clusters the chain has, what is cached, and that nothing but the clusters of the file and those
that were free has changed since the file was opened.
-/
namespace NbLot.Source.Fat
open List

variable {v : Volume} {new k c cluster : Nat}

/-- Sector `j` of a cluster. -/
def sectorOf (v : Volume) (c j : Nat) : Int := (v.database + (c - 2) * v.fatsecperclus + j : Nat)

/-- Sector `q` of a file. -/
def fileSector (v : Volume) (chain : List Nat) (q : Nat) : Int :=
  sectorOf v (chain.getD (q / v.fatsecperclus) 0) (q % v.fatsecperclus)

namespace DataArea

variable (area : DataArea v)
include area

theorem secperclus_pos : 0 < v.fatsecperclus := by
  obtain ⟨k, -, hk⟩ := area.secperclus
  exact hk ▸ Nat.two_pow_pos k

theorem secperclus_le : v.fatsecperclus ≤ 128 := by
  obtain ⟨k, hle, hk⟩ := area.secperclus
  rw [hk]
  exact Nat.pow_le_pow_right (by decide) hle

theorem and_clusNdxmask (q : Nat) : q &&& v.clusNdxmask = q % v.fatsecperclus := by
  obtain ⟨k, -, hk⟩ := area.secperclus
  rw [Volume.clusNdxmask, hk, Nat.and_two_pow_sub_one_eq_mod]

theorem database_pos : 0 < v.database := by
  have hbehind := area.behindFat
  have hfit := area.entriesFit
  have hreserved := area.reserved
  rcases Nat.eq_zero_or_pos v.nfatsects with hzero | hpos
  · rw [Volume.fatBytes, hzero] at hfit
    unfold Volume.fatLength at hfit
    split at hfit <;> omega
  · omega

theorem cluster2sector (hlow : 2 ≤ c) (hc : c < v.nclusters) :
    fatCluster2sector v c = sectorOf v c 0 := by
  have hfit := area.numbersFit
  have hbits : 2 ^ v.fatType.bits ≤ 2 ^ 28 := by
    cases v.fatType <;> simp [FatType.bits]
  have hminus : uint32 (c + (2 ^ 32 - 2)) = c - 2 := by
    unfold uint32
    omega
  have hlast : uint32 (2 ^ 32 - 2 + v.nclusters) = v.nclusters - 2 := by
    unfold uint32
    omega
  rw [fatCluster2sector, hminus, if_neg (by omega), sectorOf, Nat.add_zero, Nat.add_comm]

end DataArea

theorem database_le_sectorOf (v : Volume) (c j : Nat) : (v.database : Int) ≤ sectorOf v c j := by
  unfold sectorOf
  omega

theorem sectorOf_inj {d i j : Nat} (hc : 2 ≤ c) (hd : 2 ≤ d) (hi : i < v.fatsecperclus)
    (hj : j < v.fatsecperclus) (h : sectorOf v c i = sectorOf v d j) : c = d ∧ i = j := by
  have hsum : i + v.fatsecperclus * (c - 2) = j + v.fatsecperclus * (d - 2) := by
    unfold sectorOf at h
    rw [Nat.mul_comm, Nat.mul_comm v.fatsecperclus]
    omega
  have hpos : 0 < v.fatsecperclus := by omega
  have hdiv := congrArg (· / v.fatsecperclus) hsum
  have hmod := congrArg (· % v.fatsecperclus) hsum
  simp only [Nat.add_mul_div_left _ _ hpos, Nat.add_mul_mod_self_left, Nat.div_eq_of_lt hi,
    Nat.div_eq_of_lt hj, Nat.mod_eq_of_lt hi, Nat.mod_eq_of_lt hj] at hdiv hmod
  exact ⟨by omega, hmod⟩

/-- The clusters of a chain, in the range the driver accepts, linked in the FAT. -/
structure Chain (v : Volume) (fs : Fs) (chain : List Nat) : Prop where
  nonempty : 0 < chain.length
  nodup : chain.Nodup
  range : ∀ c ∈ chain, 2 ≤ c ∧ c < v.nclusters
  links : ∀ i, i + 1 < chain.length → entry v fs (chain.getD i 0) = chain.getD (i + 1) 0
  last : v.nclusters ≤ entry v fs (chain.getD (chain.length - 1) 0)

theorem getD_mem {chain : List Nat} (h : k < chain.length) : chain.getD k 0 ∈ chain := by
  rw [getD_eq_getElem _ _ h]
  exact getElem_mem h

namespace Chain

variable {fs fs' : Fs} {chain : List Nat}

variable (h : Chain v fs chain)
include h

theorem getD_range (hk : k < chain.length) : 2 ≤ chain.getD k 0 ∧ chain.getD k 0 < v.nclusters :=
  h.range _ (getD_mem hk)

theorem getD_inj {l : Nat} (hk : k < chain.length) (hl : l < chain.length)
    (heq : chain.getD k 0 = chain.getD l 0) : k = l := by
  rw [getD_eq_getElem _ _ hk, getD_eq_getElem _ _ hl] at heq
  exact (List.Nodup.getElem_inj_iff h.nodup).mp heq

theorem fileSector_inj (hpos : 0 < v.fatsecperclus) {q r : Nat}
    (hq : q < chain.length * v.fatsecperclus) (hr : r < chain.length * v.fatsecperclus)
    (heq : fileSector v chain q = fileSector v chain r) : q = r := by
  have hq' : q / v.fatsecperclus < chain.length := (Nat.div_lt_iff_lt_mul hpos).mpr hq
  have hr' : r / v.fatsecperclus < chain.length := (Nat.div_lt_iff_lt_mul hpos).mpr hr
  obtain ⟨hcluster, hindex⟩ := sectorOf_inj (h.getD_range hq').1 (h.getD_range hr').1
    (Nat.mod_lt _ hpos) (Nat.mod_lt _ hpos) heq
  have hdiv := h.getD_inj hq' hr' hcluster
  rw [← Nat.div_add_mod q v.fatsecperclus, ← Nat.div_add_mod r v.fatsecperclus, hdiv, hindex]

theorem sameFat (hsame : SameFat v fs fs') : Chain v fs' chain := by
  refine ⟨h.nonempty, h.nodup, h.range, fun i hi => ?_, ?_⟩
  · rw [hsame.entries _ (Nat.lt_add_right 2 (h.getD_range (Nat.lt_of_succ_lt hi)).2)]
    exact h.links i hi
  · rw [hsame.entries _ (Nat.lt_add_right 2 (h.getD_range (Nat.sub_lt h.nonempty Nat.one_pos)).2)]
    exact h.last

/-- A free cluster is linked behind the last one. -/
theorem extend (area : DataArea v) (hfree : Free v fs new)
    (hlinked : Linked v fs fs' (chain.getD (chain.length - 1) 0) new) :
    Chain v fs' (chain ++ [new]) := by
  obtain ⟨hlow, hnew, hzero⟩ := hfree
  have hpos := h.nonempty
  have hreserved := area.reserved
  have hused : ∀ k < chain.length, entry v fs (chain.getD k 0) ≠ 0 := by
    intro k hk
    by_cases hlast : k + 1 < chain.length
    · have := (h.getD_range hlast).1
      rw [h.links k hlast]
      omega
    · obtain rfl : k = chain.length - 1 := by omega
      have := h.last
      omega
  have hnotin : new ∉ chain := by
    intro hmem
    obtain ⟨k, hk, rfl⟩ := getElem_of_mem hmem
    exact hused k hk (by rwa [getD_eq_getElem _ _ hk])
  have hold : ∀ k < chain.length, (chain ++ [new]).getD k 0 = chain.getD k 0 := by
    intro k hk
    rw [getD_append _ _ _ _ hk]
  have hend : (chain ++ [new]).getD chain.length 0 = new := by
    simp
  refine ⟨by simp, ?_, ?_, fun i hi => ?_, ?_⟩
  · rw [nodup_append]
    refine ⟨h.nodup, nodup_singleton new, fun a ha b hb => ?_⟩
    rw [mem_singleton] at hb
    exact fun heq => hnotin (hb ▸ heq ▸ ha)
  · intro c hc
    rcases mem_append.mp hc with hc | hc
    · exact h.range c hc
    · rw [mem_singleton] at hc
      exact hc ▸ ⟨hlow, hnew⟩
  · have hi' : i < chain.length := by
      simp only [length_append, length_singleton] at hi
      omega
    obtain ⟨hclow, hc⟩ := h.getD_range hi'
    have hne : chain.getD i 0 ≠ new := fun heq => hnotin (heq ▸ getD_mem hi')
    rw [hold i hi', hlinked.2 _ hclow (Nat.lt_add_right 2 hc)]
    by_cases hlast : i + 1 = chain.length
    · rw [hlast, hend, if_pos (by rw [← hlast, Nat.add_sub_cancel])]
    · rw [hold (i + 1) (by omega), if_neg, if_neg hne]
      · exact h.links i (by omega)
      · intro heq
        have := h.getD_inj hi' (by omega) heq
        omega
  · have hne : new ≠ chain.getD (chain.length - 1) 0 := fun heq =>
      hnotin (heq ▸ getD_mem (by omega))
    have hmark := lt_endMark area
    rw [length_append, length_singleton, Nat.add_sub_cancel, hend,
      hlinked.2 new hlow (Nat.lt_add_right 2 hnew), if_neg hne, if_pos rfl]
    omega

end Chain

/-- The clusters that may be taken. -/
def freeClusters (v : Volume) (fs : Fs) : Finset Nat :=
  (Finset.range v.nclusters).filter fun c => 2 ≤ c ∧ entry v fs c = 0

theorem mem_freeClusters {fs : Fs} : c ∈ freeClusters v fs ↔ Free v fs c := by
  rw [freeClusters, Finset.mem_filter, Finset.mem_range]
  constructor
  · rintro ⟨hc, hlow, hzero⟩
    exact ⟨hlow, hc, hzero⟩
  · rintro ⟨hlow, hc, hzero⟩
    exact ⟨hc, hlow, hzero⟩

theorem Linked.free_iff {fs fs' : Fs} (h : Linked v fs fs' cluster new) (area : DataArea v)
    (hnew : Free v fs new) (hcluster : ¬Free v fs cluster) (c : Nat) :
    Free v fs' c ↔ Free v fs c ∧ c ≠ new := by
  have hmark := lt_endMark area
  constructor
  · rintro ⟨hlow, hc, hzero⟩
    rw [h.2 c hlow (Nat.lt_add_right 2 hc)] at hzero
    split at hzero
    · have := hnew.1
      omega
    · split at hzero
      · omega
      · next hne => exact ⟨⟨hlow, hc, hzero⟩, hne⟩
  · rintro ⟨hfree, hne⟩
    obtain ⟨hlow, hc, hzero⟩ := id hfree
    refine ⟨hlow, hc, ?_⟩
    rw [h.2 c hlow (Nat.lt_add_right 2 hc), if_neg, if_neg hne]
    · exact hzero
    · rintro rfl
      exact hcluster hfree

theorem Linked.card {fs fs' : Fs} (h : Linked v fs fs' cluster new) (area : DataArea v)
    (hnew : Free v fs new) (hcluster : ¬Free v fs cluster) :
    (freeClusters v fs').card + 1 = (freeClusters v fs).card := by
  have herase : freeClusters v fs' = (freeClusters v fs).erase new := by
    ext c
    rw [mem_freeClusters, Finset.mem_erase, mem_freeClusters, h.free_iff area hnew hcluster, and_comm]
  have hmem := mem_freeClusters.mpr hnew
  have hpos := Finset.card_pos.mpr ⟨new, hmem⟩
  rw [herase, Finset.card_erase_of_mem hmem]
  omega

/-- A sector is in one of some clusters. -/
def InClusters (v : Volume) (own : Nat → Prop) (sector : Int) : Prop :=
  ∃ c, own c ∧ ∃ j < v.fatsecperclus, sector = sectorOf v c j

/-- A sector is in the chain of the file. -/
def InFile (v : Volume) (chain : List Nat) (sector : Int) : Prop :=
  ∃ q < chain.length * v.fatsecperclus, sector = fileSector v chain q

/-- The volume with a file of a given chain. The clusters `own` are the file's and those that were
free in the state `old`; everything else is as it was there. The clusters of the chain and the free
ones together stay as many. -/
structure OnVolume (v : Volume) (own : Nat → Prop) (old : Fs) (room : Nat) (chain : List Nat)
    (fs : Fs) : Prop where
  cache : CacheOk v fs
  linked : Chain v fs chain
  ours : ∀ c ∈ chain, own c
  freeOurs : ∀ c, Free v fs c → own c
  apart : ¬InClusters v own fs.currentsector
  entries : ∀ c, 2 ≤ c → c < v.nclusters + 2 → ¬own c → entry v fs c = entry v old c
  sectors : ∀ sector, (v.database : Int) ≤ sector → ¬InClusters v own sector →
    fs.view sector = old.view sector
  count : chain.length + (freeClusters v fs).card = room

section
variable {own : Nat → Prop} {old fs fs' : Fs} {room : Nat} {chain : List Nat} {sector : Int}

namespace InFile

section

variable (h : InFile v chain sector)
include h

theorem database_le : (v.database : Int) ≤ sector := by
  obtain ⟨q, -, rfl⟩ := h
  exact database_le_sectorOf v _ _

theorem inClusters (hpos : 0 < v.fatsecperclus) (hours : ∀ c ∈ chain, own c) :
    InClusters v own sector := by
  obtain ⟨q, hq, rfl⟩ := h
  exact ⟨_, hours _ (getD_mem ((Nat.div_lt_iff_lt_mul hpos).mpr hq)), _, Nat.mod_lt _ hpos, rfl⟩

theorem extend (hpos : 0 < v.fatsecperclus) (new : Nat) : InFile v (chain ++ [new]) sector := by
  obtain ⟨q, hq, rfl⟩ := h
  have hlt : q / v.fatsecperclus < chain.length := (Nat.div_lt_iff_lt_mul hpos).mpr hq
  refine ⟨q, ?_, ?_⟩
  · rw [length_append, Nat.add_mul]
    omega
  · rw [fileSector, fileSector, getD_append _ _ _ _ hlt]

end

end InFile

namespace OnVolume

variable (h : OnVolume v own old room chain fs)
include h

theorem file_apart (area : DataArea v) (hsector : InFile v chain sector) :
    fs.currentsector ≠ sector := fun heq =>
  h.apart (heq ▸ hsector.inClusters area.secperclus_pos h.ours)

theorem sameFat (hsame : SameFat v fs fs') : OnVolume v own old room chain fs' := by
  refine ⟨hsame.ok, h.linked.sameFat hsame, h.ours, fun c hc => ?_, ?_, fun c hlow hc hother => ?_,
    fun sector hdata hother => ?_, ?_⟩
  · exact h.freeOurs c ((hsame.free_iff c).mp hc)
  · rcases hsame.label with hlabel | hlabel
    · rw [hlabel]
      exact h.apart
    · rintro ⟨c, -, j, -, hsector⟩
      have := database_le_sectorOf v c j
      omega
  · rw [hsame.entries c hc]
    exact h.entries c hlow hc hother
  · rw [hsame.view sector hdata]
    exact h.sectors sector hdata hother
  · have hfree : freeClusters v fs' = freeClusters v fs := by
      ext c
      rw [mem_freeClusters, mem_freeClusters, hsame.free_iff]
    rw [hfree]
    exact h.count

theorem link (area : DataArea v) (hfree : Free v fs new)
    (hlinked : Linked v fs fs' (chain.getD (chain.length - 1) 0) new) :
    OnVolume v own old room (chain ++ [new]) fs' := by
  have hchain := h.linked.extend area hfree hlinked
  have hlast : chain.getD (chain.length - 1) 0 ∈ chain :=
    getD_mem (Nat.sub_lt h.linked.nonempty Nat.one_pos)
  have hreserved := area.reserved
  have hused : ¬Free v fs (chain.getD (chain.length - 1) 0) := by
    rintro ⟨-, -, hzero⟩
    have := h.linked.last
    omega
  have hfree' := hlinked.free_iff area hfree hused
  refine ⟨hlinked.1.ok, hchain, fun c hc => ?_, fun c hc => ?_, ?_, fun c hlow hc hother => ?_,
    fun sector hdata hother => ?_, ?_⟩
  · rcases mem_append.mp hc with hc | hc
    · exact h.ours c hc
    · rw [mem_singleton] at hc
      exact hc ▸ h.freeOurs new hfree
  · exact h.freeOurs c ((hfree' c).mp hc).1
  · rcases hlinked.1.label with hlabel | hlabel
    · rw [hlabel]
      exact h.apart
    · rintro ⟨c, -, j, -, hsector⟩
      have := database_le_sectorOf v c j
      omega
  · have hne : c ≠ chain.getD (chain.length - 1) 0 := fun heq => hother (heq ▸ h.ours _ hlast)
    have hne' : c ≠ new := fun heq => hother (heq ▸ h.freeOurs new hfree)
    rw [hlinked.2 c hlow hc, if_neg hne, if_neg hne']
    exact h.entries c hlow hc hother
  · rw [hlinked.1.view sector hdata]
    exact h.sectors sector hdata hother
  · have hcard := hlinked.card area hfree hused
    have hcount := h.count
    rw [length_append, length_singleton]
    omega

theorem write (area : DataArea v) {dev : Int → Nat → UInt8}
    (hdev : ∀ sector, ¬InFile v chain sector → dev sector = fs.dev sector) :
    OnVolume v own old room chain { fs with dev := dev } := by
  have hview : ∀ sector, ¬InFile v chain sector →
      Fs.view { fs with dev := dev } sector = fs.view sector := by
    intro sector hsector
    unfold Fs.view
    split
    · rfl
    · exact hdev sector hsector
  have hlow : ∀ sector : Int, sector < v.database → ¬InFile v chain sector := by
    intro sector hlt hsector
    have := hsector.database_le
    omega
  have hentry : ∀ c < v.nclusters + 2, entry v { fs with dev := dev } c = entry v fs c := by
    intro c hc
    refine entry_congr area (fun o ho => ?_) hc
    rw [fatByte, hview _ (hlow _ (area.fatSector_lt ho)), fatByte]
  have hfree : ∀ c, Free v { fs with dev := dev } c ↔ Free v fs c := by
    intro c
    constructor
    · rintro ⟨hlow, hc, hzero⟩
      exact ⟨hlow, hc, by rwa [← hentry c (by omega)]⟩
    · rintro ⟨hlow, hc, hzero⟩
      exact ⟨hlow, hc, by rwa [hentry c (by omega)]⟩
  refine ⟨⟨fun hclean hbase => ?_, h.cache.dirty, fun k hk j hj hother => ?_⟩,
    ⟨h.linked.nonempty, h.linked.nodup, h.linked.range, fun i hi => ?_, ?_⟩, h.ours, fun c hc => ?_,
    h.apart, fun c hclow hc hother => ?_, fun sector hdata hother => ?_, ?_⟩
  · refine (h.cache.clean hclean hbase).trans (hdev _ fun hin => ?_).symm
    exact h.file_apart area hin rfl
  · have hsector : ∀ l < v.fatnumfats, copySector v l j < v.database := by
      intro l hl
      have hmul : (l + 1) * v.nfatsects ≤ v.fatnumfats * v.nfatsects := Nat.mul_le_mul_right _ hl
      have hbehind := area.behindCopies
      rw [Nat.add_mul] at hmul
      unfold copySector
      omega
    show dev _ = dev _
    rw [hdev _ (hlow _ (hsector k hk)), hdev _ (hlow _ (hsector 0 (by omega)))]
    exact h.cache.copies k hk j hj hother
  · rw [hentry _ (Nat.lt_add_right 2 (h.linked.getD_range (Nat.lt_of_succ_lt hi)).2)]
    exact h.linked.links i hi
  · rw [hentry _ (Nat.lt_add_right 2 (h.linked.getD_range (Nat.sub_lt h.linked.nonempty Nat.one_pos)).2)]
    exact h.linked.last
  · exact h.freeOurs c ((hfree c).mp hc)
  · rw [hentry c hc]
    exact h.entries c hclow hc hother
  · rw [hview sector fun hin => hother (hin.inClusters area.secperclus_pos h.ours)]
    exact h.sectors sector hdata hother
  · have hset : freeClusters v { fs with dev := dev } = freeClusters v fs := by
      ext c
      rw [mem_freeClusters, mem_freeClusters, hfree c]
    rw [hset]
    exact h.count

end OnVolume
end
end NbLot.Source.Fat
