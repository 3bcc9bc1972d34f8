import NbLot.Source.Fat.Cache

/-!
# FAT: what the sector cache and the medium hold together

Source: nuttx/fs/fat/fs_fat32util.c:1483-1572.

`view` is the content of a sector with what the cache holds for it. Flushing and reading keep it
outside the copies of the FAT; `CacheOk` is what they keep of the copies and of the label of the
buffer, which a flush moves to the last copy.
-/
namespace NbLot.Source.Fat
open Function

variable {v : Volume} {fs : Fs} {j : Nat}

/-- Sector `j` of copy `k` of the FAT. -/
def copySector (v : Volume) (k j : Nat) : Int := v.fatbase + (k * v.nfatsects + j : Nat)

/-- The copies behind the first FAT. -/
def InCopies (v : Volume) (sector : Int) : Prop :=
  v.fatbase + v.nfatsects ≤ sector ∧ sector < v.fatbase + (v.fatnumfats * v.nfatsects : Nat)

instance (v : Volume) (sector : Int) : Decidable (InCopies v sector) :=
  inferInstanceAs (Decidable (_ ∧ _))

/-- All copies of the FAT on the medium hold the same bytes. -/
def CopiesAgree (v : Volume) (dev : Int → Nat → UInt8) : Prop :=
  ∀ k < v.fatnumfats, ∀ j < v.nfatsects, dev (copySector v k j) = dev (copySector v 0 j)

namespace Fs

def view (fs : Fs) (sector : Int) : Nat → UInt8 :=
  if fs.currentsector = sector then fs.buffer else fs.dev sector

theorem view_cached (fs : Fs) : fs.view fs.currentsector = fs.buffer := if_pos rfl

theorem view_other {sector : Int} (h : fs.currentsector ≠ sector) : fs.view sector = fs.dev sector :=
  if_neg h

end Fs

/-- Nothing is cached for a copy of the FAT that has still to be written, and the copies differ
from the first FAT only in the sector that has. -/
structure CacheOk (v : Volume) (fs : Fs) : Prop where
  clean : fs.dirty = false → (v.fatbase : Int) ≤ fs.currentsector → fs.buffer = fs.dev fs.currentsector
  dirty : fs.dirty = true → ¬InCopies v fs.currentsector
  copies : ∀ k < v.fatnumfats, ∀ j < v.nfatsects,
    ¬(fs.dirty = true ∧ fs.currentsector = copySector v 0 j) →
    fs.dev (copySector v k j) = fs.dev (copySector v 0 j)

/-- Sectors whose content the cache and the medium hold for good. -/
def Lasting (v : Volume) (sector : Int) : Prop := (v.fatbase : Int) ≤ sector ∧ ¬InCopies v sector

theorem copySector_zero (v : Volume) (j : Nat) : copySector v 0 j = v.fatbase + j := by
  simp [copySector]

theorem copySector_inj {k l i : Nat} (hi : i < v.nfatsects) (hj : j < v.nfatsects)
    (h : copySector v k i = copySector v l j) : k = l ∧ i = j := by
  have hsum : k * v.nfatsects + i = l * v.nfatsects + j := by
    unfold copySector at h
    omega
  have hpos : 0 < v.nfatsects := by omega
  have hk : (i + v.nfatsects * k) / v.nfatsects = k := by
    rw [Nat.add_mul_div_left _ _ hpos, Nat.div_eq_of_lt hi, Nat.zero_add]
  have hl : (j + v.nfatsects * l) / v.nfatsects = l := by
    rw [Nat.add_mul_div_left _ _ hpos, Nat.div_eq_of_lt hj, Nat.zero_add]
  have hkl : k = l := by
    rw [← hk, ← hl, Nat.mul_comm, Nat.add_comm, hsum, Nat.mul_comm, Nat.add_comm]
  subst hkl
  exact ⟨rfl, by omega⟩

theorem inCopies_copySector {k : Nat} (hk : 1 ≤ k) (hnum : k < v.fatnumfats)
    (hj : j < v.nfatsects) : InCopies v (copySector v k j) := by
  have hlow : 1 * v.nfatsects ≤ k * v.nfatsects := Nat.mul_le_mul_right _ hk
  have hhigh : (k + 1) * v.nfatsects ≤ v.fatnumfats * v.nfatsects := Nat.mul_le_mul_right _ hnum
  rw [Nat.add_mul] at hhigh
  unfold InCopies copySector
  constructor <;> omega

theorem lasting_first (hj : j < v.nfatsects) : Lasting v (copySector v 0 j) := by
  rw [copySector_zero]
  unfold Lasting InCopies
  omega

/-- What the mirroring writes: the buffer into each further copy. -/
theorem mirror_spec (v : Volume) (n : Nat) (fs : Fs) :
    (mirror v n fs).buffer = fs.buffer ∧
      (mirror v n fs).currentsector = fs.currentsector + (n * v.nfatsects : Nat) ∧
      (∀ i, 1 ≤ i → i ≤ n →
        (mirror v n fs).dev (fs.currentsector + (i * v.nfatsects : Nat)) = fs.buffer) ∧
      ∀ s, (∀ i, 1 ≤ i → i ≤ n → s ≠ fs.currentsector + (i * v.nfatsects : Nat)) →
        (mirror v n fs).dev s = fs.dev s := by
  induction n generalizing fs with
  | zero => exact ⟨rfl, by simp [mirror], by omega, fun _ _ => rfl⟩
  | succ n ih =>
    obtain ⟨hbuffer, hcurrent, hwritten, hother⟩ := ih
      (Fs.hwwrite { fs with currentsector := fs.currentsector + v.nfatsects } fs.buffer
        (fs.currentsector + v.nfatsects))
    have hshift : ∀ i : Nat, fs.currentsector + ((i + 1) * v.nfatsects : Nat) =
        fs.currentsector + v.nfatsects + (i * v.nfatsects : Nat) := by
      intro i
      rw [Nat.add_mul]
      omega
    refine ⟨hbuffer, ?_, ?_, ?_⟩
    · rw [hshift]
      exact hcurrent
    · intro i hi hin
      obtain ⟨i, rfl⟩ : ∃ k, i = k + 1 := ⟨i - 1, by omega⟩
      rw [hshift]
      -- the first copy written is not written again, unless all copies are one sector
      rcases Nat.eq_zero_or_pos i with rfl | hpos
      · by_cases hagain : ∀ m, 1 ≤ m → m ≤ n →
            fs.currentsector + v.nfatsects + (0 * v.nfatsects : Nat) ≠
              fs.currentsector + v.nfatsects + (m * v.nfatsects : Nat)
        · exact (hother _ hagain).trans (by simp [Fs.hwwrite])
        · push Not at hagain
          obtain ⟨m, hm, hmn, heq⟩ := hagain
          rw [heq]
          exact hwritten m hm hmn
      · exact hwritten i hpos (by omega)
    · intro s hs
      refine (hother s fun i hi hin => ?_).trans ?_
      · have := hs (i + 1) (by omega) (by omega)
        rwa [hshift] at this
      · have hfirst := hs 1 (by omega) (by omega)
        rw [Nat.one_mul] at hfirst
        exact update_of_ne hfirst _ _

theorem flush_of_clean (h : fs.dirty = false) : fatFscacheflush v fs = fs := by
  simp [fatFscacheflush, h]

theorem flush_dirty (v : Volume) (fs : Fs) : (fatFscacheflush v fs).dirty = false := by
  unfold fatFscacheflush
  split
  · rfl
  · next h => simpa using h

theorem flush_fat (hdirty : fs.dirty = true) (hj : j < v.nfatsects)
    (hcurrent : fs.currentsector = copySector v 0 j) :
    (fatFscacheflush v fs).buffer = fs.buffer ∧
      (fatFscacheflush v fs).currentsector = copySector v (v.fatnumfats - 1) j ∧
      (∀ k ≤ v.fatnumfats - 1, (fatFscacheflush v fs).dev (copySector v k j) = fs.buffer) ∧
      ∀ s, (∀ k ≤ v.fatnumfats - 1, s ≠ copySector v k j) →
        (fatFscacheflush v fs).dev s = fs.dev s := by
  have hfat : fs.currentsector ≥ v.fatbase ∧ fs.currentsector < v.fatbase + v.nfatsects := by
    rw [hcurrent, copySector_zero]
    omega
  have hflush : fatFscacheflush v fs =
      { mirror v (v.fatnumfats - 1) (fs.hwwrite fs.buffer fs.currentsector) with dirty := false } := by
    simp only [fatFscacheflush, hdirty, if_true]
    rw [if_pos (by exact hfat)]
  have hsector : ∀ k : Nat, copySector v k j =
      (fs.hwwrite fs.buffer fs.currentsector).currentsector + (k * v.nfatsects : Nat) := by
    intro k
    show copySector v k j = fs.currentsector + _
    rw [hcurrent]
    unfold copySector
    omega
  obtain ⟨hbuffer, hlast, hwritten, hother⟩ :=
    mirror_spec v (v.fatnumfats - 1) (fs.hwwrite fs.buffer fs.currentsector)
  rw [hflush]
  refine ⟨hbuffer, ?_, ?_, ?_⟩
  · rw [hsector]
    exact hlast
  · intro k hk
    rcases Nat.eq_zero_or_pos k with rfl | hpos
    · refine (hother _ fun i hi _ heq => ?_).trans (by rw [← hcurrent]; simp [Fs.hwwrite])
      rw [← hsector] at heq
      exact absurd (copySector_inj hj hj heq).1 (by omega)
    · rw [hsector]
      exact hwritten k hpos hk
  · intro s hs
    refine (hother s fun i _ hi => ?_).trans ?_
    · rw [← hsector]
      exact hs i hi
    · refine update_of_ne ?_ _ _
      rw [hcurrent]
      exact hs 0 (Nat.zero_le _)

theorem flush_other (hdirty : fs.dirty = true)
    (hother : ∀ j < v.nfatsects, fs.currentsector ≠ copySector v 0 j) :
    fatFscacheflush v fs = { fs.hwwrite fs.buffer fs.currentsector with dirty := false } := by
  have hfat : ¬(fs.currentsector ≥ v.fatbase ∧ fs.currentsector < v.fatbase + v.nfatsects) := by
    intro h
    refine hother (fs.currentsector - v.fatbase).toNat (by omega) ?_
    rw [copySector_zero]
    omega
  simp only [fatFscacheflush, hdirty, if_true]
  rw [if_neg (by exact hfat)]

namespace CacheOk

variable {s : Int}

section

variable (ok : CacheOk v fs)
include ok

theorem view_eq_dev (hclean : fs.dirty = false) (hs : (v.fatbase : Int) ≤ s) :
    fs.view s = fs.dev s := by
  unfold Fs.view
  split
  · next h => rw [ok.clean hclean (h ▸ hs), h]
  · rfl

/-- After a flush the medium holds the content of every lasting sector. -/
theorem flush_dev (hs : Lasting v s) : (fatFscacheflush v fs).dev s = fs.view s := by
  by_cases hdirty : fs.dirty = true
  · by_cases hfat : ∃ j < v.nfatsects, fs.currentsector = copySector v 0 j
    · obtain ⟨j, hj, hcurrent⟩ := hfat
      obtain ⟨-, -, hwritten, hother⟩ := flush_fat hdirty hj hcurrent
      by_cases hcached : fs.currentsector = s
      · rw [← hcached, Fs.view_cached, hcurrent]
        exact hwritten 0 (Nat.zero_le _)
      · rw [Fs.view_other hcached]
        refine hother s fun k hk heq => ?_
        rcases Nat.eq_zero_or_pos k with rfl | hpos
        · exact hcached (hcurrent.trans heq.symm)
        · rw [heq] at hs
          exact hs.2 (inCopies_copySector hpos (by omega) hj)
    · push Not at hfat
      rw [flush_other hdirty hfat]
      by_cases hcached : fs.currentsector = s
      · subst hcached
        simp [Fs.hwwrite, Fs.view]
      · rw [Fs.view_other hcached]
        exact update_of_ne (Ne.symm hcached) _ _
  · rw [Bool.not_eq_true] at hdirty
    rw [flush_of_clean hdirty, ok.view_eq_dev hdirty hs.1]

theorem flush : CacheOk v (fatFscacheflush v fs) := by
  by_cases hdirty : fs.dirty = true
  · by_cases hfat : ∃ j < v.nfatsects, fs.currentsector = copySector v 0 j
    · obtain ⟨j, hj, hcurrent⟩ := hfat
      obtain ⟨hbuffer, hlast, hwritten, hother⟩ := flush_fat hdirty hj hcurrent
      refine ⟨fun _ _ => ?_, fun h => absurd h (by simp [flush_dirty]), fun k hk i hi _ => ?_⟩
      · rw [hbuffer, hlast, hwritten _ le_rfl]
      · by_cases hij : i = j
        · subst hij
          rw [hwritten k (by omega), hwritten 0 (Nat.zero_le _)]
        · have hne : ∀ l m, copySector v l i ≠ copySector v m j := fun l m h =>
            hij (copySector_inj hi hj h).2
          rw [hother _ fun m _ => hne k m, hother _ fun m _ => hne 0 m]
          refine ok.copies k hk i hi fun h => hne 0 0 ?_
          rw [← h.2, hcurrent]
    · push Not at hfat
      rw [flush_other hdirty hfat]
      refine ⟨fun _ _ => by simp [Fs.hwwrite], fun h => by simp at h, fun k hk i hi _ => ?_⟩
      have hkept : ∀ l < v.fatnumfats, copySector v l i ≠ fs.currentsector := by
        intro l hl heq
        rcases Nat.eq_zero_or_pos l with rfl | hpos
        · exact hfat i hi heq.symm
        · exact ok.dirty hdirty (heq ▸ inCopies_copySector hpos hl hi)
      show update fs.dev fs.currentsector fs.buffer _ =
        update fs.dev fs.currentsector fs.buffer _
      rw [update_of_ne (hkept k hk), update_of_ne (hkept 0 (by omega))]
      exact ok.copies k hk i hi fun h => hfat i hi h.2
  · rw [Bool.not_eq_true] at hdirty
    rwa [flush_of_clean hdirty]

/-- After a flush all copies of the FAT hold the same bytes. -/
theorem flush_copies : CopiesAgree v (fatFscacheflush v fs).dev :=
  fun k hk j hj => ok.flush.copies k hk j hj fun h => by simp [flush_dirty] at h

theorem read (s : Int) : CacheOk v (fatFscacheread v fs s) := by
  unfold fatFscacheread
  split
  · have hclean := flush_dirty v fs
    refine ⟨fun _ _ => rfl, fun h => absurd h (by simp [hclean]), fun k hk j hj _ => ?_⟩
    exact ok.flush_copies k hk j hj
  · exact ok

theorem read_view (t : Int) (hs : Lasting v s) : (fatFscacheread v fs t).view s = fs.view s := by
  unfold fatFscacheread
  split
  · rw [← ok.flush_dev hs]
    unfold Fs.view
    split
    · next h => exact congrArg _ h
    · rfl
  · rfl

end

theorem read_current (fs : Fs) (s : Int) : (fatFscacheread v fs s).currentsector = s := by
  unfold fatFscacheread
  split
  · rfl
  · next h => exact not_not.mp h

theorem read_buffer (ok : CacheOk v fs) (hs : Lasting v s) :
    (fatFscacheread v fs s).buffer = fs.view s := by
  have hview := ok.read_view s hs
  rwa [Fs.view, if_pos (read_current fs s)] at hview

theorem read_again (h : fs.currentsector = s) : fatFscacheread v fs s = fs := by
  simp [fatFscacheread, h]

theorem change (ok : CacheOk v fs) (h : ¬InCopies v fs.currentsector) (buffer : Nat → UInt8) :
    CacheOk v { fs with buffer := buffer, dirty := true } := by
  refine ⟨fun h => by simp at h, fun _ => h, fun k hk j hj hother => ?_⟩
  exact ok.copies k hk j hj fun h => hother ⟨rfl, h.2⟩

end CacheOk
end NbLot.Source.Fat
