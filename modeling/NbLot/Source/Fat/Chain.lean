import NbLot.Lib.Counting
import NbLot.Source.Fat.Entries
import NbLot.Source.Fat.File

/-!
# FAT: following, extending and removing a cluster chain

Source: nuttx/fs/fat/fs_fat32util.c:1108-1290.

`fat_extendchain` at the end of a chain takes a cluster that is free, whenever there is one
(`extendchain_end`), and elsewhere follows the chain (`extendchain_next`). Both leave what is in
the data area as it is (`Touched`). `fat_removechain` makes free whatever it comes to, until it
has come to a number that is not one of a cluster (`removechain_stops`, `removechain_frees`).
-/
namespace NbLot.Source.Fat
open List

variable {v : Volume} {fs fs' fs'' fs₁ : Fs} {cluster start c new : Nat} {r : Int}

/-- The data area lies behind the FATs, its clusters are made of a power of two of sectors. There
are `nclusters` of them, with the numbers from 2 on: the FAT has entries for all, and the end mark
is not one of the numbers. -/
structure DataArea (v : Volume) : Prop extends WellFormed v where
  allFit : v.fatLength (v.nclusters + 2) ≤ v.fatBytes
  secperclus : ∃ k, k ≤ 7 ∧ v.fatsecperclus = 2 ^ k
  behindFat : v.fatbase + v.nfatsects ≤ v.database
  behindCopies : v.fatbase + v.fatnumfats * v.nfatsects ≤ v.database
  endMark : v.nclusters + 2 < 2 ^ v.fatType.bits

/-- A cluster that may be taken. -/
def Free (v : Volume) (fs : Fs) (c : Nat) : Prop := 2 ≤ c ∧ c < v.nclusters ∧ entry v fs c = 0

/-- Only the FATs and the cache of their sectors have been touched. -/
structure Touched (v : Volume) (fs fs' : Fs) : Prop where
  ok : CacheOk v fs'
  label : fs'.currentsector = fs.currentsector ∨ fs'.currentsector < v.database
  view : ∀ s, (v.database : Int) ≤ s → fs'.view s = fs.view s

namespace Touched

theorem refl (ok : CacheOk v fs) : Touched v fs fs := ⟨ok, .inl rfl, fun _ _ => rfl⟩

theorem trans (h : Touched v fs fs') (h' : Touched v fs' fs'') : Touched v fs fs'' := by
  refine ⟨h'.ok, ?_, fun s hs => (h'.view s hs).trans (h.view s hs)⟩
  rcases h'.label with hsame | hlow
  · rw [hsame]
    exact h.label
  · exact .inr hlow

/-- A data sector that is not cached is the same on the medium. -/
theorem dev (h : Touched v fs fs') {s : Int} (hs : (v.database : Int) ≤ s)
    (hlabel : fs.currentsector ≠ s) : fs'.dev s = fs.dev s ∧ fs'.currentsector ≠ s := by
  have hlabel' : fs'.currentsector ≠ s := by
    rcases h.label with hsame | hlow
    · rwa [hsame]
    · omega
  have hview := h.view s hs
  rw [Fs.view_other hlabel', Fs.view_other hlabel] at hview
  exact ⟨hview, hlabel'⟩

end Touched

namespace DataArea

variable (area : DataArea v)
include area

theorem lasting {s : Int} (hs : (v.database : Int) ≤ s) : Lasting v s := by
  have h' := area.behindCopies
  unfold Lasting InCopies
  constructor <;> omega

theorem fatSector_lt {o : Nat} (ho : o < v.fatBytes) : fatSector v o < v.database := by
  have hlt := area.toWellFormed.sector_lt ho
  have h := area.behindFat
  rw [fatSector, copySector_zero]
  omega

variable (ok : CacheOk v fs)
include ok

/-- The cache holds a sector of the FAT after an entry has been read. -/
theorem getcluster_touched (hlow : 2 ≤ c) (hc : c < v.nclusters) :
    Touched v fs (fatGetcluster v fs c).1 := by
  have wf := area.toWellFormed
  obtain ⟨hsame, -⟩ := getcluster_spec ok wf hlow hc
  refine ⟨hsame.ok, .inr ?_, fun s hs => hsame.view s (area.lasting hs)⟩
  rw [fatGetcluster, if_pos ⟨hlow, hc⟩]
  cases htype : v.fatType with
  | fat12 =>
    obtain ⟨hoffset, hfat⟩ := entry_fat12 wf htype hc
    simp only [hoffset, fatSector_eq, wf.and_secNdxmask, nextByte]
    split
    · next h =>
      rw [← ((next_sector wf.sectorSize_pos _).2 h).1, CacheOk.read_current]
      exact area.fatSector_lt hfat
    · rw [CacheOk.read_current]
      exact area.fatSector_lt (by omega)
  | fat16 =>
    obtain ⟨hoffset, -, hfat⟩ := entry_fat16 wf htype hc
    simp only [fatSector_eq, CacheOk.read_current]
    exact area.fatSector_lt (by omega)
  | fat32 =>
    obtain ⟨hoffset, -, hfat⟩ := entry_fat32 wf htype hc
    simp only [fatSector_eq, CacheOk.read_current]
    exact area.fatSector_lt (by omega)

theorem storeBytes_touched {o : Nat} {bytes : List UInt8} (h : o + bytes.length ≤ v.fatBytes) :
    Touched v fs (storeBytes v fs o bytes) := by
  induction bytes generalizing fs o with
  | nil => exact Touched.refl ok
  | cons b bytes ih =>
    rw [length_cons] at h
    have ho : o < v.fatBytes := by omega
    have hfirst : Touched v fs (storeByte v fs o b) := by
      refine ⟨ok.storeByte_ok area.toWellFormed ho b, .inr ?_, fun s hs => ?_⟩
      · rw [storeByte_current]
        exact area.fatSector_lt ho
      · refine ok.storeByte_view b (area.lasting hs) fun heq => ?_
        have := area.fatSector_lt ho
        omega
    exact hfirst.trans (ih hfirst.ok (by omega))

theorem putcluster_touched (hone : c ≠ 1) (hc : c < v.nclusters) (n : Nat) :
    Touched v fs (fatPutcluster v fs c n).1 := by
  rw [putcluster_stores ok area.toWellFormed hone hc]
  exact area.storeBytes_touched ok (entryBytes_in_fat area.toWellFormed hc fs n)

end DataArea

/-- The mark `fat_extendchain` puts at the end of a chain. -/
def endMark (v : Volume) : Nat := 0x0fffffff % 2 ^ v.fatType.bits

theorem lt_endMark (area : DataArea v) : v.nclusters + 2 ≤ endMark v := by
  have h := area.endMark
  unfold endMark
  cases htype : v.fatType <;> simp only [htype, FatType.bits] at h ⊢ <;> omega

/-- The entries are as they were. -/
structure SameFat (v : Volume) (fs fs' : Fs) : Prop extends Touched v fs fs' where
  entries : ∀ c < v.nclusters + 2, entry v fs' c = entry v fs c

namespace SameFat

theorem refl (ok : CacheOk v fs) : SameFat v fs fs := ⟨Touched.refl ok, fun _ _ => rfl⟩

theorem trans (h : SameFat v fs fs') (h' : SameFat v fs' fs'') : SameFat v fs fs'' :=
  ⟨h.toTouched.trans h'.toTouched, fun c hc => (h'.entries c hc).trans (h.entries c hc)⟩

theorem free_iff (h : SameFat v fs fs') (c : Nat) : Free v fs' c ↔ Free v fs c := by
  constructor
  · rintro ⟨hlow, hc, hentry⟩
    exact ⟨hlow, hc, by rwa [← h.entries c (by omega)]⟩
  · rintro ⟨hlow, hc, hentry⟩
    exact ⟨hlow, hc, by rwa [h.entries c (by omega)]⟩

end SameFat

/-- The entries are made of the bytes of the FAT. -/
theorem entry_congr (area : DataArea v) (h : ∀ o < v.fatBytes, fatByte v fs' o = fatByte v fs o)
    (hc : c < v.nclusters + 2) : entry v fs' c = entry v fs c := by
  have hfat := entryEnd_le area.allFit hc
  unfold entry rawEntry fatWord
  cases htype : v.fatType <;> simp only [entryEnd, htype] at hfat ⊢
  · rw [h _ hfat, h _ (by omega)]
  · rw [h _ hfat, h _ (by omega)]
  · rw [h (entryOffset v c + 2 + 1) (by omega), h (entryOffset v c + 2) (by omega),
      h (entryOffset v c + 1) (by omega), h (entryOffset v c) (by omega)]

theorem getcluster_same (area : DataArea v) (ok : CacheOk v fs) (hlow : 2 ≤ c)
    (hc : c < v.nclusters) :
    SameFat v fs (fatGetcluster v fs c).1 ∧ (fatGetcluster v fs c).2 = entry v fs c := by
  obtain ⟨hsame, hvalue⟩ := getcluster_spec ok area.toWellFormed hlow hc
  exact ⟨⟨area.getcluster_touched ok hlow hc, fun _ hd =>
    entry_congr area (fun _ ho => hsame.fatByte_eq area.toWellFormed ho) hd⟩, hvalue⟩

/-- The result of a search: a free cluster, or zero when no cluster is free. -/
def Found (v : Volume) (fs fs' : Fs) (r : Int) : Prop :=
  SameFat v fs fs' ∧ ((∃ c, Free v fs c ∧ r = c) ∨ ((∀ c, ¬Free v fs c) ∧ r = 0))

theorem Found.of_same (h : SameFat v fs fs') (hfound : Found v fs' fs'' r) : Found v fs fs'' r := by
  refine ⟨h.trans hfound.1, ?_⟩
  simpa only [h.free_iff] using hfound.2

section

variable (area : DataArea v)
include area

/-- One round of the search looks at `c`, after the clusters `seen`: it is free, or the search
has come around, or it goes on behind `c`. -/
theorem searchFree_round (ok : CacheOk v fs) (c : Nat) {cur fuel : Nat}
    (hnext : c = if cur + 1 ≥ v.nclusters then 2 else cur + 1) (hc : c < v.nclusters) (hlow : 2 ≤ c)
    (hgo : ¬(cur + 1 ≥ v.nclusters ∧ 2 > start)) {seen : Nat → Prop}
    (hseen : ∀ d, seen d → ¬Free v fs d) (hend : c = start → ∀ d, Free v fs d → seen d ∨ d = c)
    (hrest : c ≠ start → ∀ fs₁, CacheOk v fs₁ → (∀ d, seen d ∨ d = c → ¬Free v fs₁ d) → ∃ fs' r, searchFree v start fuel fs₁ c = some (fs', r) ∧ Found v fs₁ fs' r) :
    ∃ fs' r, searchFree v start (fuel + 1) fs cur = some (fs', r) ∧ Found v fs fs' r := by
  obtain ⟨hsame, hvalue⟩ := getcluster_same area ok hlow hc
  have hround : searchFree v start (fuel + 1) fs cur =
      if (entry v fs c : Int) = 0 then some ((fatGetcluster v fs c).1, (c : Int))
      else if (entry v fs c : Int) < 0 then some ((fatGetcluster v fs c).1, (entry v fs c : Int))
      else if c = start then some ((fatGetcluster v fs c).1, 0)
      else searchFree v start fuel (fatGetcluster v fs c).1 c := by
    simp only [searchFree]
    rw [if_neg hgo, ← hnext, hvalue]
  rw [hround]
  by_cases hfree : entry v fs c = 0
  · rw [if_pos (by omega)]
    exact ⟨_, _, rfl, hsame, .inl ⟨c, ⟨hlow, hc, hfree⟩, rfl⟩⟩
  · have hused : ∀ d, seen d ∨ d = c → ¬Free v fs d := by
      rintro d (hd | rfl) h
      · exact hseen d hd h
      · exact hfree h.2.2
    rw [if_neg (by omega)]
    by_cases hlast : c = start
    · rw [if_pos hlast]
      exact ⟨_, _, rfl, hsame, .inr ⟨fun d hd => hused d (hend hlast d hd) hd, rfl⟩⟩
    · rw [if_neg hlast]
      obtain ⟨fs', r, hrun, hfound⟩ := hrest hlast _ hsame.ok fun d hd => by
        rw [hsame.free_iff]
        exact hused d hd
      exact ⟨fs', r, hrun, hfound.of_same hsame⟩

theorem searchFree_below (hstart : start < v.nclusters) (fuel : Nat) :
    ∀ fs cur, CacheOk v fs → 1 ≤ cur → cur < start → start ≤ cur + fuel →
      (∀ c, start < c ∨ c ≤ cur → ¬Free v fs c) →
      ∃ fs' r, searchFree v start fuel fs cur = some (fs', r) ∧ Found v fs fs' r := by
  induction fuel with
  | zero => omega
  | succ fuel ih =>
    intro fs cur ok hcur hbelow hfuel hseen
    apply searchFree_round area ok (cur + 1) (by rw [if_neg (by omega)]) (by omega) (by omega)
      (by omega) hseen
    · omega
    · intro hne fs₁ ok₁ hused
      exact ih fs₁ (cur + 1) ok₁ (by omega) (by omega) (by omega) fun d hd => hused d (by omega)

theorem searchFree_above (hone : 1 ≤ start) (hstart : start < v.nclusters) (fuel : Nat) :
    ∀ fs cur, CacheOk v fs → start ≤ cur → cur < v.nclusters → v.nclusters + start ≤ cur + fuel →
      (∀ c, start < c ∧ c ≤ cur → ¬Free v fs c) →
      ∃ fs' r, searchFree v start fuel fs cur = some (fs', r) ∧ Found v fs fs' r := by
  induction fuel with
  | zero => omega
  | succ fuel ih =>
    intro fs cur ok habove hcur hfuel hseen
    by_cases hwrap : cur + 1 ≥ v.nclusters
    · have hall : ∀ c, start < c → ¬Free v fs c := by
        intro c hc hfree
        exact hseen c ⟨hc, by have := hfree.2.1; omega⟩ hfree
      by_cases hfirst : 2 > start
      · refine ⟨fs, 0, ?_, SameFat.refl ok, .inr ⟨fun c hfree => ?_, rfl⟩⟩
        · simp only [searchFree]
          rw [if_pos ⟨hwrap, hfirst⟩]
        · exact hall c (by have := hfree.1; omega) hfree
      · apply searchFree_round area ok 2 (by rw [if_pos hwrap]) (by omega) le_rfl (by omega) hall
        · intro hlast d hfree
          have := hfree.1
          omega
        · intro hne fs₁ ok₁ hused
          apply searchFree_below area hstart fuel fs₁ 2 ok₁ (by omega) (by omega) (by omega)
          intro d hd hfree
          have := hfree.1
          exact hused d (by omega) hfree
    · apply searchFree_round area ok (cur + 1) (by rw [if_neg hwrap]) (by omega) (by omega)
        (by omega) hseen
      · omega
      · intro _ fs₁ ok₁ hused
        exact ih fs₁ (cur + 1) ok₁ (by omega) (by omega) (by omega) fun d hd => hused d (by omega)

/-- The entries after a cluster has been put behind another one, or at the start of a chain. -/
def Linked (v : Volume) (fs fs' : Fs) (cluster new : Nat) : Prop :=
  Touched v fs fs' ∧ ∀ c, 2 ≤ c → c < v.nclusters + 2 →
    entry v fs' c = if c = cluster then new else if c = new then endMark v else entry v fs c

theorem putcluster_entries (ok : CacheOk v fs) (hlow : 2 ≤ c) (hc : c < v.nclusters) (n : Nat) :
    Touched v fs (fatPutcluster v fs c n).1 ∧ (fatPutcluster v fs c n).2 = 0 ∧
      ∀ d < v.nclusters + 2, entry v (fatPutcluster v fs c n).1 d =
        if d = c then n % 2 ^ v.fatType.bits else entry v fs d := by
  have hone : c ≠ 1 := by omega
  refine ⟨area.putcluster_touched ok hone hc n, ?_, fun d hd => ?_⟩
  · rw [putcluster_stores ok area.toWellFormed hone hc]
  · exact entry_putcluster ok area.toWellFormed hone hc (entryEnd_le area.allFit hd) n

end

section freecount

theorem mirror_freecount (v : Volume) (n : Nat) :
    ∀ fs : Fs, (mirror v n fs).fsifreecount = fs.fsifreecount := by
  induction n with
  | zero => exact fun _ => rfl
  | succ n ih => exact fun fs => ih _

theorem read_freecount (v : Volume) (fs : Fs) (s : Int) :
    (fatFscacheread v fs s).fsifreecount = fs.fsifreecount := by
  have hflush : (fatFscacheflush v fs).fsifreecount = fs.fsifreecount := by
    simp only [fatFscacheflush]
    split
    · split
      · exact mirror_freecount v _ _
      · rfl
    · rfl
  unfold fatFscacheread
  split
  · exact hflush
  · rfl

theorem getcluster_freecount (v : Volume) (fs : Fs) (c : Nat) :
    (fatGetcluster v fs c).1.fsifreecount = fs.fsifreecount := by
  simp only [fatGetcluster]
  split
  · cases v.fatType with
    | fat12 =>
      simp only [nextByte]
      split
      · simp only [read_freecount]
      · exact read_freecount v fs _
    | fat16 => exact read_freecount v fs _
    | fat32 => exact read_freecount v fs _
  · rfl

theorem putcluster_freecount (v : Volume) (fs : Fs) (c n : Nat) :
    (fatPutcluster v fs c n).1.fsifreecount = fs.fsifreecount := by
  simp only [fatPutcluster]
  split
  · cases v.fatType with
    | fat12 =>
      simp only
      split
      · simp only [read_freecount]
      · exact read_freecount v fs _
    | fat16 => exact read_freecount v fs _
    | fat32 => exact read_freecount v fs _
  · rfl

theorem searchFree_freecount (fuel : Nat) : ∀ {fs fs' : Fs} {cur : Nat} {r : Int},
    searchFree v start fuel fs cur = some (fs', r) → fs'.fsifreecount = fs.fsifreecount := by
  induction fuel with
  | zero => exact fun h => nomatch h
  | succ fuel ih =>
    intro fs fs' cur r h
    simp only [searchFree] at h
    split at h
    · cases h
      rfl
    · generalize (if cur + 1 ≥ v.nclusters then 2 else cur + 1) = c at h
      have hget := getcluster_freecount v fs c
      split_ifs at h
      · cases h
        exact hget
      · cases h
        exact hget
      · cases h
        exact hget
      · exact (ih h).trans hget

end freecount

/-- The cluster `new` has become the end of a chain, behind `cluster` if that is not zero, and a known
number of free clusters has been lowered. -/
structure Allocated (v : Volume) (fs fs' : Fs) (cluster new : Nat) : Prop where
  touched : Touched v fs fs'
  entries : ∀ c < v.nclusters + 2, entry v fs' c =
    if c = cluster ∧ cluster ≠ 0 then new else if c = new then endMark v else entry v fs c
  freecount : fs.fsifreecount ≠ 0xffffffff → fs'.fsifreecount = uint32 (fs.fsifreecount + (2 ^ 32 - 1))

theorem Allocated.linked (h : Allocated v fs fs' cluster new) : Linked v fs fs' cluster new := by
  refine ⟨h.touched, fun c hlow hc => ?_⟩
  have hiff : (c = cluster ∧ cluster ≠ 0) ↔ c = cluster := ⟨And.left, fun h => ⟨h, by omega⟩⟩
  rw [h.entries c hc]
  simp only [hiff]

theorem Allocated.of_same (hsame : SameFat v fs fs₁) (hcount : fs₁.fsifreecount = fs.fsifreecount)
    (h : Allocated v fs₁ fs' cluster new) : Allocated v fs fs' cluster new := by
  refine ⟨hsame.toTouched.trans h.touched, fun c hc => ?_, fun hknown => ?_⟩
  · rw [h.entries c hc, hsame.entries c hc]
  · rw [h.freecount (hcount ▸ hknown), hcount]

/-- The notes for FSINFO are not part of what is touched. -/
theorem Touched.noted (h : Touched v fs fs') (next count : Nat) (dirty : Bool) :
    Touched v fs { fs' with fsinextfree := next, fsifreecount := count, fsidirty := dirty } :=
  ⟨⟨h.ok.clean, h.ok.dirty, h.ok.copies⟩, h.label, h.view⟩

theorem putclusters_entries (area : DataArea v) (ok : CacheOk v fs) (hlow : 2 ≤ new)
    (hnew : new < v.nclusters) (hcluster : cluster = 0 ∨ 2 ≤ cluster ∧ cluster < v.nclusters) :
    ∃ fs₂, (if cluster ≠ 0 then fatPutcluster v (fatPutcluster v fs new 0x0fffffff).1 cluster new
        else ((fatPutcluster v fs new 0x0fffffff).1, 0)) = (fs₂, 0) ∧
      Touched v fs fs₂ ∧ fs₂.fsifreecount = fs.fsifreecount ∧
      ∀ c < v.nclusters + 2, entry v fs₂ c =
        if c = cluster ∧ cluster ≠ 0 then new else if c = new then endMark v else entry v fs c := by
  obtain ⟨htouched, -, hentries⟩ := putcluster_entries area ok hlow hnew 0x0fffffff
  have hcount := putcluster_freecount v fs new 0x0fffffff
  have hfit : new % 2 ^ v.fatType.bits = new :=
    Nat.mod_eq_of_lt (Nat.lt_of_lt_of_le hnew area.numbersFit)
  rcases hcluster with rfl | ⟨hclow, hc⟩
  · refine ⟨_, rfl, htouched, hcount, fun c hc => ?_⟩
    have hnot : ¬(c = 0 ∧ (0 : Nat) ≠ 0) := fun h => h.2 rfl
    rw [hentries c hc, if_neg hnot, endMark]
  · rw [if_pos (by omega)]
    obtain ⟨htouched', hret', hentries'⟩ := putcluster_entries area htouched.ok hclow hc new
    have hcount' := putcluster_freecount v (fatPutcluster v fs new 0x0fffffff).1 cluster new
    refine ⟨_, Prod.ext rfl hret', htouched.trans htouched', hcount'.trans hcount, fun c hc' => ?_⟩
    have hiff : (c = cluster ∧ cluster ≠ 0) ↔ c = cluster := ⟨And.left, fun h => ⟨h, by omega⟩⟩
    rw [hentries' c hc', hentries c hc', hfit, endMark]
    simp only [hiff]

theorem linkCluster_spec (area : DataArea v) (ok : CacheOk v fs) (hlow : 2 ≤ new)
    (hnew : new < v.nclusters) (hcluster : cluster = 0 ∨ 2 ≤ cluster ∧ cluster < v.nclusters) :
    ∃ fs', linkCluster v fs cluster new = (fs', (new : Int)) ∧ Allocated v fs fs' cluster new := by
  obtain ⟨-, hret, -⟩ := putcluster_entries area ok hlow hnew 0x0fffffff
  obtain ⟨fs₂, hlink, htouched, hcount, hentries⟩ := putclusters_entries area ok hlow hnew hcluster
  simp only [linkCluster, hret, hlink]
  refine ⟨_, rfl, ?_⟩
  rw [hcount]
  split
  · exact ⟨htouched.noted _ _ _, hentries, fun _ => rfl⟩
  · next hunknown => exact ⟨htouched.noted _ _ _, hentries, fun hknown => absurd hknown hunknown⟩

/-- The result of an extension: a free cluster has been linked, or none is free. -/
def Extended (v : Volume) (fs fs' : Fs) (cluster : Nat) (r : Int) : Prop :=
  (∃ new, Free v fs new ∧ r = new ∧ Linked v fs fs' cluster new) ∨
    ((∀ c, ¬Free v fs c) ∧ r = 0 ∧ SameFat v fs fs')

/-- The result of an allocation. -/
def AllocatedOrFull (v : Volume) (fs fs' : Fs) (cluster : Nat) (r : Int) : Prop :=
  (∃ new, Free v fs new ∧ r = new ∧ Allocated v fs fs' cluster new) ∨
    ((∀ c, ¬Free v fs c) ∧ r = 0 ∧ SameFat v fs fs')

theorem AllocatedOrFull.extended (h : AllocatedOrFull v fs fs' cluster r) :
    Extended v fs fs' cluster r := by
  rcases h with ⟨new, hfree, hr, halloc⟩ | hfull
  · exact .inl ⟨new, hfree, hr, halloc.linked⟩
  · exact .inr hfull

theorem AllocatedOrFull.of_same (hsame : SameFat v fs fs₁)
    (hcount : fs₁.fsifreecount = fs.fsifreecount) (h : AllocatedOrFull v fs₁ fs' cluster r) :
    AllocatedOrFull v fs fs' cluster r := by
  rcases h with ⟨new, hfree, hr, halloc⟩ | ⟨hnone, hr, hsame'⟩
  · exact .inl ⟨new, (hsame.free_iff new).mp hfree, hr, halloc.of_same hsame hcount⟩
  · exact .inr ⟨fun c hfree => hnone c ((hsame.free_iff c).mpr hfree), hr, hsame.trans hsame'⟩

section

variable (area : DataArea v) (ok : CacheOk v fs)
include area ok

theorem allocCluster_spec (cluster start : Nat) (hone : 1 ≤ start) (hstart : start < v.nclusters)
    (hcluster : cluster = 0 ∨ 2 ≤ cluster ∧ cluster < v.nclusters) :
    ∃ fs' r, allocCluster v fs cluster start = some (fs', r) ∧ AllocatedOrFull v fs fs' cluster r := by
  obtain ⟨fs₁, r, hsearch, hsame, hfound⟩ := searchFree_above area hone hstart (v.nclusters + 1) fs
    start ok le_rfl hstart (by omega) (fun c hc => by omega)
  simp only [allocCluster, hsearch]
  rcases hfound with ⟨new, hfree, rfl⟩ | ⟨hnone, rfl⟩
  · have hlow := hfree.1
    obtain ⟨fs', hlink, halloc⟩ := linkCluster_spec area hsame.ok hlow hfree.2.1 hcluster
    rw [if_neg (by omega), Int.toNat_natCast, hlink]
    exact ⟨fs', _, rfl, .inl ⟨new, hfree, rfl, halloc.of_same hsame (searchFree_freecount _ hsearch)⟩⟩
  · exact ⟨fs₁, 0, rfl, .inr ⟨hnone, rfl, hsame⟩⟩

theorem extendchain_alloc (hlow : 2 ≤ cluster) (hc : cluster < v.nclusters)
    (hend : v.nclusters ≤ entry v fs cluster) :
    ∃ fs' r, fatExtendchain v fs cluster = some (fs', r) ∧ AllocatedOrFull v fs fs' cluster r := by
  obtain ⟨hsame, hvalue⟩ := getcluster_same area ok hlow hc
  obtain ⟨fs', r, halloc, hresult⟩ := allocCluster_spec area hsame.ok cluster
    cluster (by omega) hc (.inr ⟨hlow, hc⟩)
  refine ⟨fs', r, ?_, hresult.of_same hsame (getcluster_freecount v fs cluster)⟩
  simp only [fatExtendchain]
  rw [if_neg (by omega), if_neg (by omega), if_neg (by omega), if_neg (by omega)]
  exact halloc

theorem createchain_alloc :
    ∃ fs' r, fatCreatechain v fs = some (fs', r) ∧ AllocatedOrFull v fs fs' 0 r := by
  have hreserved := area.reserved
  simp only [fatCreatechain, fatExtendchain, if_true]
  split
  · exact allocCluster_spec area ok 0 1 le_rfl (by omega) (.inl rfl)
  · exact allocCluster_spec area ok 0 _ (by omega) (by omega) (.inl rfl)

/-- At the end of a chain, `fat_extendchain` links a free cluster if there is one. -/
theorem extendchain_end (hlow : 2 ≤ cluster) (hc : cluster < v.nclusters)
    (hend : v.nclusters ≤ entry v fs cluster) :
    ∃ fs' r, fatExtendchain v fs cluster = some (fs', r) ∧ Extended v fs fs' cluster r := by
  obtain ⟨fs', r, hcall, hresult⟩ := extendchain_alloc area ok hlow hc hend
  exact ⟨fs', r, hcall, hresult.extended⟩

theorem createchain_spec :
    ∃ fs' r, fatCreatechain v fs = some (fs', r) ∧ Extended v fs fs' 0 r := by
  obtain ⟨fs', r, hcall, hresult⟩ := createchain_alloc area ok
  exact ⟨fs', r, hcall, hresult.extended⟩

theorem extendchain_next (hlow : 2 ≤ cluster) (hc : cluster < v.nclusters)
    (hnext : 2 ≤ entry v fs cluster) (hnext' : entry v fs cluster < v.nclusters) :
    ∃ fs', fatExtendchain v fs cluster = some (fs', (entry v fs cluster : Int)) ∧ SameFat v fs fs' := by
  obtain ⟨hsame, hvalue⟩ := getcluster_same area ok hlow hc
  refine ⟨_, ?_, hsame⟩
  simp only [fatExtendchain, hvalue]
  rw [if_neg (by omega), if_neg (by omega), if_neg (by omega), if_pos (by omega)]

end

section removal

/-- A known number of free clusters is raised. -/
def raised (freecount : Nat) : Nat :=
  if freecount ≠ 0xffffffff then uint32 (freecount + 1) else freecount

/-- `fat_removechain`. -/
def fatRemovechain (v : Volume) : Nat → Fs → Nat → Option (Fs × Int)
  | 0, _, _ => none
  | fuel + 1, fs, cluster =>
    if cluster ≥ 2 ∧ cluster < v.nclusters then
      let (fs, nextcluster) := fatGetcluster v fs cluster
      if nextcluster < 0 then some (fs, nextcluster)
      else
        let (fs, ret) := fatPutcluster v fs cluster 0
        if ret < 0 then some (fs, ret)
        else
          let fs :=
            if fs.fsifreecount ≠ 0xffffffff then
              { fs with fsifreecount := uint32 (fs.fsifreecount + 1), fsidirty := true }
            else fs
          fatRemovechain v fuel fs nextcluster.toNat
    else some (fs, 0)

theorem raised_iterate (n : Nat) {freecount : Nat} (h : freecount ≤ 0xffffffff) :
    raised^[n] freecount = min (freecount + n) 0xffffffff := by
  induction n generalizing freecount with
  | zero => exact (Nat.min_eq_left h).symm
  | succ n ih =>
    have hraised : raised freecount = min (freecount + 1) 0xffffffff := by
      unfold raised uint32
      split <;> omega
    rw [Function.iterate_succ_apply, ih (by omega)]
    omega

/-- The clusters `freed` have become free, and no other entry has been changed. -/
structure Freed (v : Volume) (fs fs' : Fs) (freed : List Nat) : Prop extends Touched v fs fs' where
  entries : ∀ d < v.nclusters + 2, entry v fs' d = if d ∈ freed then 0 else entry v fs d
  freecount : fs'.fsifreecount = raised^[freed.length] fs.fsifreecount

/-- One round of the loop. -/
theorem removechain_round (area : DataArea v) (ok : CacheOk v fs) {c : Nat} (hlow : 2 ≤ c)
    (hc : c < v.nclusters) (fuel : Nat) :
    ∃ fs₁, fatRemovechain v (fuel + 1) fs c = fatRemovechain v fuel fs₁ (entry v fs c) ∧
      Freed v fs fs₁ [c] := by
  obtain ⟨hsame, hvalue⟩ := getcluster_same area ok hlow hc
  obtain ⟨htouched, hret, hentries⟩ := putcluster_entries area hsame.ok hlow hc 0
  have hcount := (putcluster_freecount v _ c 0).trans (getcluster_freecount v fs c)
  simp only [fatRemovechain, hvalue, hret]
  rw [if_pos ⟨hlow, hc⟩, if_neg (by omega)]
  refine ⟨_, rfl, ?_, ?_, ?_⟩
  · split
    · exact (hsame.toTouched.trans htouched).noted _ _ _
    · exact hsame.toTouched.trans htouched
  · intro d hd
    have hentry := (hentries d hd).trans (by rw [Nat.zero_mod, hsame.entries d hd])
    simp only [mem_singleton, ← hentry]
    split <;> rfl
  · rw [length_singleton, Function.iterate_one, raised, ← hcount]
    split <;> rfl

/-- The clusters that are not free. -/
def used (v : Volume) (fs : Fs) : Nat := (List.range v.nclusters).countP fun c => entry v fs c ≠ 0

/-- A cluster that the walk comes to again is free by then, and ends it. -/
theorem removechain_stops (area : DataArea v) (fuel : Nat) : ∀ fs cluster, CacheOk v fs →
    used v fs + 2 ≤ fuel → ∃ fs', fatRemovechain v fuel fs cluster = some (fs', 0) := by
  induction fuel with
  | zero => omega
  | succ fuel ih =>
    intro fs c ok hfuel
    by_cases hrange : c ≥ 2 ∧ c < v.nclusters
    · obtain ⟨fs₁, hround, hfreed⟩ := removechain_round area ok hrange.1 hrange.2 fuel
      rw [hround]
      by_cases hzero : entry v fs c = 0
      · obtain ⟨n, rfl⟩ := Nat.exists_eq_add_of_le' (show 1 ≤ fuel by omega)
        refine ⟨fs₁, ?_⟩
        rw [fatRemovechain, if_neg (by omega)]
      · refine ih fs₁ _ hfreed.ok ?_
        have hentry : ∀ d < v.nclusters, entry v fs₁ d = if d = c then 0 else entry v fs d := by
          intro d hd
          simpa using hfreed.entries d (by omega)
        have hcount := Lib.Counting.countP_agree_off (p := fun d => decide (entry v fs₁ d ≠ 0))
          (q := fun d => decide (entry v fs d ≠ 0)) nodup_range (mem_range.mpr hrange.2)
          fun d hd hne => by rw [hentry d (mem_range.mp hd), if_neg hne]
        simp only [hentry c hrange.2, hzero, ne_eq, not_true_eq_false, not_false_eq_true, decide_true,
          decide_false, if_true, Bool.false_eq_true, if_false] at hcount
        unfold used at hfuel ⊢
        simp only [ne_eq] at hfuel ⊢
        omega
    · exact ⟨fs, by rw [fatRemovechain, if_neg hrange]⟩

/-- The clusters of a chain from its first one on, up to an end mark. -/
def Chained (v : Volume) (fs : Fs) : Nat → List Nat → Prop
  | cluster, [] => v.nclusters ≤ cluster
  | cluster, c :: chain => cluster = c ∧ 2 ≤ c ∧ c < v.nclusters ∧ Chained v fs (entry v fs c) chain

theorem Chained.lt {chain : List Nat} : ∀ {cluster}, Chained v fs cluster chain →
    ∀ c ∈ chain, c < v.nclusters := by
  induction chain with
  | nil => simp
  | cons c chain ih =>
    rintro cluster ⟨rfl, -, hc, hrest⟩
    exact forall_mem_cons.mpr ⟨hc, ih hrest⟩

theorem Chained.congr {chain : List Nat}
    (h : ∀ c ∈ chain, c < v.nclusters → entry v fs' c = entry v fs c) :
    ∀ {cluster}, Chained v fs cluster chain → Chained v fs' cluster chain := by
  induction chain with
  | nil => exact id
  | cons c chain ih =>
    rintro cluster ⟨rfl, hlow, hc, hrest⟩
    rw [forall_mem_cons] at h
    exact ⟨rfl, hlow, hc, h.1 hc ▸ ih h.2 hrest⟩

theorem removechain_frees (area : DataArea v) (chain : List Nat) : ∀ fs cluster fuel, CacheOk v fs →
    chain.Nodup → Chained v fs cluster chain → chain.length < fuel →
    ∃ fs', fatRemovechain v fuel fs cluster = some (fs', 0) ∧ Freed v fs fs' chain := by
  induction chain with
  | nil =>
    intro fs cluster fuel ok _ hend hfuel
    obtain ⟨n, rfl⟩ := Nat.exists_eq_add_of_lt hfuel
    refine ⟨fs, ?_, Touched.refl ok, by simp, rfl⟩
    rw [fatRemovechain, if_neg fun h => by have : v.nclusters ≤ cluster := hend; omega]
  | cons _ chain ih =>
    rintro fs c fuel ok hnodup ⟨rfl, hlow, hc, hrest⟩ hfuel
    obtain ⟨hnew, hnodup⟩ := nodup_cons.mp hnodup
    obtain ⟨n, rfl⟩ := Nat.exists_eq_add_of_lt hfuel
    obtain ⟨fs₁, hround, hfreed⟩ := removechain_round area ok hlow hc (chain.length + 1 + n)
    have hkeep : ∀ d ∈ chain, d < v.nclusters → entry v fs₁ d = entry v fs d := by
      intro d hmem hd
      have hne : d ∉ [c] := fun h => hnew (mem_singleton.mp h ▸ hmem)
      rw [hfreed.entries d (by omega), if_neg hne]
    obtain ⟨fs', hrun, hfreed'⟩ := ih fs₁ _ (chain.length + 1 + n) hfreed.ok hnodup
      (hrest.congr hkeep) (by omega)
    refine ⟨fs', hround.trans hrun, hfreed.toTouched.trans hfreed'.toTouched, fun d hd => ?_, ?_⟩
    · rw [hfreed'.entries d hd, hfreed.entries d hd]
      by_cases hd : d ∈ chain <;> simp [hd]
    · rw [hfreed'.freecount, hfreed.freecount, length_cons]
      rfl

end removal

end NbLot.Source.Fat
