import NbLot.Lib.Transition
import NbLot.Source.Fat.Entries

/-!
# Storage of the FAT entries

From a mounted volume whose copies of the FAT agree, in every sequence of accesses through the
sector cache: `fat_putcluster` changes the entry of its cluster and no other, it keeps the top four
bits of a FAT32 entry, and after a flush all copies of the FAT hold the same bytes.
-/
namespace NbLot.Guarantees.FatEntries
open Lib.Transition Source.Fat Function

variable {v : Volume} {fs fs' : Fs}

/-- A sector that is in no FAT. -/
def OutsideFat (v : Volume) (sector : Int) : Prop :=
  sector < v.fatbase ∨ (v.fatbase : Int) + v.nfatsects ≤ sector ∧ ¬InCopies v sector

instance (v : Volume) (sector : Int) : Decidable (OutsideFat v sector) :=
  inferInstanceAs (Decidable (_ ∨ _))

/-- What the file system does with the cache and the medium: besides the accesses to the FAT it
changes directory and FSINFO sectors in the cache and writes file data past it. -/
inductive FatAct where
  | get (clusterno : Nat)
  | put (clusterno nextcluster : Nat)
  | flush
  | read (sector : Int)
  | update (sector : Int) (buffer : Nat → UInt8)
  | data (sector : Int) (buffer : Nat → UInt8)

def step (v : Volume) (fs : Fs) : FatAct → Option Fs
  | .get clusterno => some (fatGetcluster v fs clusterno).1
  | .put clusterno nextcluster => some (fatPutcluster v fs clusterno nextcluster).1
  | .flush => some (fatFscacheflush v fs)
  | .read sector => some (fatFscacheread v fs sector)
  | .update sector buffer =>
    if OutsideFat v sector then
      some { fatFscacheread v fs sector with buffer := buffer, dirty := true }
    else none
  | .data sector buffer =>
    if OutsideFat v sector ∧ fs.currentsector ≠ sector then some (fs.hwwrite buffer sector)
    else none

/-- The state after the mount of a volume whose copies of the FAT agree: what is in the buffer
may be mislabelled, as long as the label is not in the FATs. -/
structure Mounted (v : Volume) (fs : Fs) : Prop where
  clean : fs.dirty = false
  labelled : (v.fatbase : Int) ≤ fs.currentsector → fs.buffer = fs.dev fs.currentsector
  copies : CopiesAgree v fs.dev

theorem Mounted.cacheOk (m : Mounted v fs) : CacheOk v fs :=
  ⟨fun _ => m.labelled, fun h => by simp [m.clean] at h, fun k hk j hj _ => m.copies k hk j hj⟩

theorem getcluster_ok (ok : CacheOk v fs) (wf : WellFormed v) (c : Nat) :
    CacheOk v (fatGetcluster v fs c).1 := by
  by_cases h : c ≥ 2 ∧ c < v.nclusters
  · exact (getcluster_spec ok wf h.1 h.2).1.ok
  · rwa [fatGetcluster, if_neg h]

theorem putcluster_ok (ok : CacheOk v fs) (wf : WellFormed v) (c n : Nat) :
    CacheOk v (fatPutcluster v fs c n).1 := by
  by_cases h : c = 0 ∨ c ≥ 2 ∧ c < v.nclusters
  · have hc : c < v.nclusters := by
      have := wf.reserved
      omega
    rw [putcluster_stores ok wf (by omega) hc]
    exact ok.storeBytes_ok wf (entryBytes_in_fat wf hc fs n)
  · rwa [fatPutcluster, if_neg h]

theorem copySector_not_outside {k j : Nat} (hk : k < v.fatnumfats) (hj : j < v.nfatsects) :
    ¬OutsideFat v (copySector v k j) := by
  rcases Nat.eq_zero_or_pos k with rfl | hpos
  · rw [copySector_zero]
    unfold OutsideFat InCopies
    omega
  · intro h
    have hcopy := inCopies_copySector hpos hk hj
    rcases h with h | h
    · exact absurd hcopy.1 (by omega)
    · exact h.2 hcopy

theorem hwwrite_ok (ok : CacheOk v fs) {s : Int} (hs : OutsideFat v s) (hne : fs.currentsector ≠ s)
    (buffer : Nat → UInt8) : CacheOk v (fs.hwwrite buffer s) := by
  refine ⟨fun hclean hbase => ?_, ok.dirty, fun k hk j hj hother => ?_⟩
  · exact (ok.clean hclean hbase).trans (update_of_ne hne _ _).symm
  · have hkept : ∀ l < v.fatnumfats, copySector v l j ≠ s := fun l hl h =>
      copySector_not_outside hl hj (h ▸ hs)
    show update fs.dev s buffer _ = update fs.dev s buffer _
    rw [update_of_ne (hkept k hk), update_of_ne (hkept 0 (by omega))]
    exact ok.copies k hk j hj hother

theorem step_ok (wf : WellFormed v) (ok : CacheOk v fs) {act : FatAct}
    (h : step v fs act = some fs') : CacheOk v fs' := by
  cases act with
  | get c =>
    cases h
    exact getcluster_ok ok wf c
  | put c n =>
    cases h
    exact putcluster_ok ok wf c n
  | flush =>
    cases h
    exact ok.flush
  | read s =>
    cases h
    exact ok.read s
  | update s buffer =>
    rw [step] at h
    split at h
    · next hout =>
      cases h
      refine (ok.read s).change ?_ buffer
      rw [CacheOk.read_current]
      rcases hout with hout | hout
      · exact fun hcopy => absurd hcopy.1 (by omega)
      · exact hout.2
    · cases h
  | data s buffer =>
    rw [step] at h
    split at h
    · next hout =>
      cases h
      exact hwwrite_ok ok hout.1 hout.2 buffer
    · cases h

theorem run_ok (wf : WellFormed v) (m : Mounted v fs) (acts : List FatAct)
    (h : run (step v) fs acts = some fs') : CacheOk v fs' :=
  invariant_run (fun _ _ _ hok _ hstep => step_ok wf hok hstep) m.cacheOk
    (stepsMeet_of_forall fs acts fun _ _ => trivial) h

/-- After any accesses, `fat_putcluster` stores the number in the entry of its cluster, reduced to
the bits an entry has, and leaves the other entries and the top bits of all FAT32 entries as they
are. A flush then leaves all copies of the FAT with the same bytes. -/
theorem entries_stored (wf : WellFormed v) (m : Mounted v fs) (acts : List FatAct)
    (hrun : run (step v) fs acts = some fs') (c n : Nat) (hlow : 2 ≤ c) (hc : c < v.nclusters) :
    (fatPutcluster v fs' c n).2 = 0 ∧
      (fatGetcluster v (fatPutcluster v fs' c n).1 c).2 = (n % 2 ^ v.fatType.bits : Nat) ∧
      (∀ d, 2 ≤ d → d < v.nclusters → d ≠ c →
        (fatGetcluster v (fatPutcluster v fs' c n).1 d).2 = (fatGetcluster v fs' d).2) ∧
      (v.fatType = .fat32 → ∀ d < v.nclusters,
        rawEntry v (fatPutcluster v fs' c n).1 d / 2 ^ 28 = rawEntry v fs' d / 2 ^ 28) ∧
      CopiesAgree v (fatFscacheflush v (fatPutcluster v fs' c n).1).dev := by
  have ok := run_ok wf m acts hrun
  have hput := putcluster_ok ok wf c n
  have hone : c ≠ 1 := by omega
  refine ⟨?_, ?_, ?_, ?_, hput.flush_copies⟩
  · rw [putcluster_stores ok wf hone hc]
  · rw [(getcluster_spec hput wf hlow hc).2, entry_putcluster ok wf hone hc (entryEnd_le wf.entriesFit hc), if_pos rfl]
  · intro d hdlow hd hne
    rw [(getcluster_spec hput wf hdlow hd).2, entry_putcluster ok wf hone hc (entryEnd_le wf.entriesFit hd), if_neg hne,
      (getcluster_spec ok wf hdlow hd).2]
  · intro htype d hd
    rw [rawEntry_fat32 ok wf hone hc htype (entryEnd_le wf.entriesFit hd)]
    split
    · next h =>
      subst h
      omega
    · rfl

/-- A FAT12 volume with two copies of the FAT of two sectors each. -/
def floppy : Volume where
  fatType := .fat12
  hwsectorsize := 512
  fatbase := 1
  nfatsects := 2
  fatnumfats := 2
  fatsecperclus := 1
  database := 19
  nclusters := 400

def blank : Fs where
  dev := fun _ _ => 0
  buffer := fun _ => 0
  currentsector := 0
  dirty := false
  fsinextfree := 0
  fsifreecount := 0
  fsidirty := false

theorem floppy_wellFormed : WellFormed floppy :=
  ⟨⟨9, by decide⟩, by decide, by decide, by decide⟩

theorem blank_mounted : Mounted floppy blank :=
  ⟨rfl, fun _ => rfl, fun _ _ _ _ => rfl⟩

/-- The entry of cluster 341 lies in both sectors of the FAT and shares a byte with the one of
cluster 340, which keeps its number. -/
theorem entries_stored_straddling :
    ∃ fs', run (step floppy) blank [.put 340 0x123, .flush, .put 342 0x456] = some fs' ∧
      (fatGetcluster floppy (fatPutcluster floppy fs' 341 0xffabc).1 341).2 = 0xabc ∧
      (fatGetcluster floppy (fatPutcluster floppy fs' 341 0xffabc).1 340).2 = 0x123 ∧
      CopiesAgree floppy (fatFscacheflush floppy (fatPutcluster floppy fs' 341 0xffabc).1).dev := by
  refine ⟨_, rfl, ?_⟩
  obtain ⟨-, hsame, hother, -, hcopies⟩ := entries_stored floppy_wellFormed blank_mounted
    [.put 340 0x123, .flush, .put 342 0x456] rfl 341 0xffabc (by decide) (by decide)
  refine ⟨hsame, (hother 340 (by decide) (by decide) (by decide)).trans ?_, hcopies⟩
  decide +kernel

end NbLot.Guarantees.FatEntries
