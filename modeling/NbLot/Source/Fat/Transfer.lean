import NbLot.Source.Fat.Layout

/-!
# FAT: one transfer of a read or a write

Source: nuttx/fs/fat/fs_fat32.c:555-690, 810-990, fs_fat32util.c:1575-1688.

What the functions of the file buffer and one round of the loops of `fat_read` and `fat_write`
do to the bytes of a file and to the place of its position.
-/
namespace NbLot.Source.Fat
open List

variable {v : Volume} {own : Nat → Prop} {old fs : Fs} {room k j buflen size : Nat}
  {chain : List Nat} {s : St} {ff ff' ff₁ : Ff} {sector : Int}

/-- A sector of the file with what the file buffer holds for it. -/
def fileView (s : St) (sector : Int) : Nat → UInt8 :=
  if s.ff.valid = true ∧ s.ff.cachesector = sector then s.ff.buffer else s.fs.dev sector

/-- A byte of the file. -/
def fileByte (v : Volume) (chain : List Nat) (s : St) (i : Nat) : UInt8 :=
  fileView s (fileSector v chain (i / v.hwsectorsize)) (i % v.hwsectorsize)

/-- An open file on its volume: its buffer holds a sector of the file, and only sectors of the
file have been handed to the device. -/
structure Layout (v : Volume) (own : Nat → Prop) (old : Fs) (room : Nat) (chain : List Nat)
    (s : St) : Prop where
  volume : OnVolume v own old room chain s.fs
  start : s.ff.startcluster = chain.getD 0 0
  cached : s.ff.valid = true → InFile v chain s.ff.cachesector
  clean : s.ff.valid = true → s.ff.dirty = false → s.ff.buffer = s.fs.dev s.ff.cachesector
  invalid : s.ff.valid = false → s.ff.dirty = false
  handed : ∀ sector ∈ s.handed, InFile v chain sector

/-- The parts of a file that the buffer functions do not change. -/
structure SamePlace (ff ff' : Ff) : Prop where
  rdok : ff'.rdok = ff.rdok
  wrok : ff'.wrok = ff.wrok
  fpos : ff'.fpos = ff.fpos
  size : ff'.size = ff.size
  startcluster : ff'.startcluster = ff.startcluster
  currentcluster : ff'.currentcluster = ff.currentcluster
  sectorsincluster : ff'.sectorsincluster = ff.sectorsincluster
  currentsector : ff'.currentsector = ff.currentsector

namespace Layout

theorem file_ne_zero (area : DataArea v) (h : InFile v chain sector) : sector ≠ 0 := by
  have := h.database_le
  have := area.database_pos
  omega

variable (h : Layout v own old room chain s) (area : DataArea v)
include h area

/-- A flush changes no byte of the file, and leaves the medium with all of them. -/
theorem flush :
    Layout v own old room chain (fatFfcacheflush s) ∧
      (fatFfcacheflush s).ff = { s.ff with dirty := false } ∧
      ∀ sector, (fatFfcacheflush s).fs.dev sector = fileView s sector := by
  unfold fatFfcacheflush
  split
  · next hwrite =>
    obtain ⟨-, hdirty, hvalid⟩ := hwrite
    have hin := h.cached hvalid
    have hdev : ∀ sector, Function.update s.fs.dev s.ff.cachesector s.ff.buffer sector =
        fileView s sector := by
      intro sector
      unfold fileView
      by_cases heq : s.ff.cachesector = sector
      · rw [if_pos ⟨hvalid, heq⟩, ← heq, Function.update_self]
      · rw [if_neg fun hc => heq hc.2, Function.update_of_ne (Ne.symm heq)]
    refine ⟨⟨h.volume.write area fun sector hout => ?_, h.start, h.cached, fun _ _ => ?_,
      fun _ => rfl, fun sector hmem => ?_⟩, rfl, hdev⟩
    · exact Function.update_of_ne (fun heq : sector = s.ff.cachesector => hout (heq ▸ hin)) _ _
    · exact (Function.update_self s.ff.cachesector s.ff.buffer s.fs.dev).symm
    · rcases mem_append.mp hmem with hmem | hmem
      · exact h.handed sector hmem
      · rw [mem_singleton] at hmem
        exact hmem ▸ hin
  · next hkeep =>
    have hdirty : s.ff.dirty = false := by
      cases hvalid : s.ff.valid with
      | false => exact h.invalid hvalid
      | true =>
        have hne := file_ne_zero area (h.cached hvalid)
        rw [← Bool.not_eq_true]
        exact fun hd => hkeep ⟨hne, hd, hvalid⟩
    refine ⟨h, by rw [← hdirty], fun sector => ?_⟩
    unfold fileView
    split
    · next hc => rw [h.clean hc.1 hdirty, hc.2]
    · rfl

theorem read (hin : InFile v chain sector) :
    Layout v own old room chain (fatFfcacheread s sector) ∧
      SamePlace s.ff (fatFfcacheread s sector).ff ∧ (fatFfcacheread s sector).ff.valid = true ∧
      (fatFfcacheread s sector).ff.cachesector = sector ∧
      (fatFfcacheread s sector).ff.buffer = fileView s sector ∧
      ∀ other ≠ sector, (fatFfcacheread s sector).fs.dev other = fileView s other := by
  unfold fatFfcacheread
  split
  · obtain ⟨hflush, hff, hdev⟩ := h.flush area
    refine ⟨⟨hflush.volume, hflush.start, fun _ => hin, fun _ _ => rfl, nofun,
      hflush.handed⟩, ?_, rfl, rfl, hdev sector, fun other _ => hdev other⟩
    simp only [hff]
    exact ⟨rfl, rfl, rfl, rfl, rfl, rfl, rfl, rfl⟩
  · next hkeep =>
    rw [not_or, not_not, Bool.not_eq_false] at hkeep
    obtain ⟨hcached, hvalid⟩ := hkeep
    refine ⟨h, ⟨rfl, rfl, rfl, rfl, rfl, rfl, rfl, rfl⟩, hvalid, hcached, ?_, fun other hne => ?_⟩
    · rw [fileView, if_pos ⟨hvalid, hcached⟩]
    · rw [fileView, if_neg fun hc => hne (hc.2.symm.trans hcached)]

/-- After the buffer has been invalidated, the medium has all bytes of the file. -/
theorem invalidate :
    Layout v own old room chain (fatFfcacheinvalidate s) ∧
      SamePlace s.ff (fatFfcacheinvalidate s).ff ∧ (fatFfcacheinvalidate s).ff.valid = false ∧
      ∀ sector, (fatFfcacheinvalidate s).fs.dev sector = fileView s sector := by
  unfold fatFfcacheinvalidate
  split
  · obtain ⟨hflush, hff, hdev⟩ := h.flush area
    refine ⟨⟨hflush.volume, hflush.start, nofun, nofun,
      fun _ => by simp only [hff], hflush.handed⟩, ?_, rfl, hdev⟩
    simp only [hff]
    exact ⟨rfl, rfl, rfl, rfl, rfl, rfl, rfl, rfl⟩
  · next hinvalid =>
    rw [Bool.not_eq_true] at hinvalid
    refine ⟨h, ⟨rfl, rfl, rfl, rfl, rfl, rfl, rfl, rfl⟩, hinvalid, fun sector => ?_⟩
    rw [fileView, if_neg fun hc => by simp [hinvalid] at hc]

end Layout

/-- The current cluster and sector are those of the position: sector `j` of the cluster with
index `k`, or the end of that cluster. -/
structure On (v : Volume) (chain : List Nat) (ff : Ff) (k j : Nat) : Prop where
  cluster_lt : k < chain.length
  sector_le : j ≤ v.fatsecperclus
  cluster : ff.currentcluster = chain.getD k 0
  sector : ff.currentsector = sectorOf v (chain.getD k 0) j
  left : ff.sectorsincluster = v.fatsecperclus - j
  position : ff.fpos / v.hwsectorsize = k * v.fatsecperclus + j
  boundary : j = v.fatsecperclus → ff.fpos % v.hwsectorsize = 0

namespace On

variable {ff : Ff} {k j i : Nat}

theorem fileSector_eq (hpos : 0 < v.fatsecperclus) (k j : Nat) (hj : j < v.fatsecperclus) :
    fileSector v chain (k * v.fatsecperclus + j) = sectorOf v (chain.getD k 0) j := by
  rw [fileSector, Nat.mul_comm, Nat.mul_add_div hpos, Nat.div_eq_of_lt hj, Nat.add_zero,
    Nat.mul_add_mod, Nat.mod_eq_of_lt hj]

section

variable (on : On v chain ff k j)
include on

theorem sector_lt (hi : j + i < v.fatsecperclus) :
    k * v.fatsecperclus + j + i < chain.length * v.fatsecperclus := by
  have hmul : (k + 1) * v.fatsecperclus ≤ chain.length * v.fatsecperclus :=
    Nat.mul_le_mul_right _ on.cluster_lt
  rw [Nat.add_mul] at hmul
  omega

theorem sector_add (hi : j + i < v.fatsecperclus) :
    ff.currentsector + i = fileSector v chain (ff.fpos / v.hwsectorsize + i) := by
  rw [on.position, Nat.add_assoc, fileSector_eq (by omega) k (j + i) hi, on.sector]
  unfold sectorOf
  omega

theorem inFile (hi : j + i < v.fatsecperclus) : InFile v chain (ff.currentsector + i) := by
  refine ⟨ff.fpos / v.hwsectorsize + i, ?_, on.sector_add hi⟩
  rw [on.position]
  exact on.sector_lt hi

end

end On

/-- The bytes of the file, the position and the size are the same. -/
structure Quiet (v : Volume) (chain : List Nat) (s s' : St) : Prop where
  views : ∀ sector, InFile v chain sector → fileView s' sector = fileView s sector
  rdok : s'.ff.rdok = s.ff.rdok
  wrok : s'.ff.wrok = s.ff.wrok
  fpos : s'.ff.fpos = s.ff.fpos
  size : s'.ff.size = s.ff.size

theorem Quiet.refl (v : Volume) (chain : List Nat) (s : St) : Quiet v chain s s :=
  ⟨fun _ _ => rfl, rfl, rfl, rfl, rfl⟩

/-- What the FATs' sectors do does not reach the file. -/
theorem Layout.touched (h : Layout v own old room chain s) (area : DataArea v)
    (htouched : Touched v s.fs fs) (hin : InFile v chain sector) :
    fs.dev sector = s.fs.dev sector :=
  (htouched.dev hin.database_le (h.volume.file_apart area hin)).1

/-- The parts of a file that do not belong to its place. -/
structure SameBuffer (ff ff' : Ff) : Prop where
  startcluster : ff'.startcluster = ff.startcluster
  buffer : ff'.buffer = ff.buffer
  cachesector : ff'.cachesector = ff.cachesector
  valid : ff'.valid = ff.valid
  dirty : ff'.dirty = ff.dirty

section

variable (h : Layout v own old room chain s)
include h

/-- The place of the file may be moved, and the volume and the chain may change, as long as the sectors of
the file stay. -/
theorem Layout.change {chain' : List Nat} (hvolume : OnVolume v own old room chain' fs)
    (hfirst : chain'.getD 0 0 = chain.getD 0 0)
    (hfile : ∀ {sector}, InFile v chain sector → InFile v chain' sector)
    (hdev : ∀ {sector}, InFile v chain sector → fs.dev sector = s.fs.dev sector)
    (hff : SameBuffer s.ff ff) :
    Layout v own old room chain' { s with fs := fs, ff := ff } ∧
      ∀ sector, InFile v chain sector →
        fileView { s with fs := fs, ff := ff } sector = fileView s sector := by
  obtain ⟨hstart, hbuffer, hsector, hvalid, hdirty⟩ := hff
  refine ⟨⟨hvolume, ?_, ?_, ?_, ?_, fun sector hmem => hfile (h.handed sector hmem)⟩, fun sector hin => ?_⟩
  · rw [hstart, h.start, hfirst]
  · rw [hvalid, hsector]
    exact fun hv => hfile (h.cached hv)
  · rw [hvalid, hdirty, hbuffer, hsector]
    exact fun hv hd => (h.clean hv hd).trans (hdev (h.cached hv)).symm
  · rw [hvalid, hdirty]
    exact h.invalid
  · unfold fileView
    rw [hvalid, hbuffer, hsector, hdev hin]

theorem Layout.move (hstart : ff.startcluster = s.ff.startcluster)
    (hbuffer : ff.buffer = s.ff.buffer) (hsector : ff.cachesector = s.ff.cachesector)
    (hvalid : ff.valid = s.ff.valid) (hdirty : ff.dirty = s.ff.dirty) :
    Layout v own old room chain { s with ff := ff } :=
  (h.change h.volume rfl id (fun _ => rfl) ⟨hstart, hbuffer, hsector, hvalid, hdirty⟩).1

theorem Layout.follow (area : DataArea v) (hsame : SameFat v s.fs fs) (ff : Ff)
    (hff : SameBuffer s.ff ff) :
    Layout v own old room chain { s with fs := fs, ff := ff } ∧
      ∀ sector, InFile v chain sector →
        fileView { s with fs := fs, ff := ff } sector = fileView s sector :=
  h.change (h.volume.sameFat hsame) rfl id (h.touched area hsame.toTouched) hff

theorem Layout.link (area : DataArea v) {new : Nat} (hfree : Free v s.fs new)
    (hlinked : Linked v s.fs fs (chain.getD (chain.length - 1) 0) new) (hff : SameBuffer s.ff ff) :
    Layout v own old room (chain ++ [new]) { s with fs := fs, ff := ff } ∧
      ∀ sector, InFile v chain sector →
        fileView { s with fs := fs, ff := ff } sector = fileView s sector :=
  h.change (h.volume.link area hfree hlinked) (getD_append _ _ _ _ h.volume.linked.nonempty)
    (fun hin => hin.extend area.secperclus_pos new) (h.touched area hlinked.1) hff

/-- The cluster behind the one with index `k`: the next of the chain, which may have been extended by
it, or zero if no cluster is free. -/
def Follows (v : Volume) (own : Nat → Prop) (old : Fs) (room : Nat) (chain : List Nat) (s : St)
    (k : Nat) (chain' : List Nat) (fs' : Fs) (r : Int) : Prop :=
  ((r = (chain'.getD (k + 1) 0 : Nat) ∧ k + 1 < chain'.length ∧
      (chain' = chain ∨ k + 1 = chain.length ∧ ∃ new, chain' = chain ++ [new])) ∨
    (r = 0 ∧ chain' = chain ∧ k + 1 = chain.length ∧ ∀ c, ¬Free v s.fs c)) ∧
  ∀ ff, SameBuffer s.ff ff → Layout v own old room chain' { s with fs := fs', ff := ff } ∧
    ∀ sector, InFile v chain sector →
      fileView { s with fs := fs', ff := ff } sector = fileView s sector

theorem Layout.extendchain (area : DataArea v) (hk : k < chain.length) :
    ∃ chain' fs' r, fatExtendchain v s.fs (chain.getD k 0) = some (fs', r) ∧
      Follows v own old room chain s k chain' fs' r := by
  obtain ⟨hlow, hrange⟩ := h.volume.linked.getD_range hk
  by_cases hnext : k + 1 < chain.length
  · have hentry := h.volume.linked.links k hnext
    obtain ⟨hnlow, hnrange⟩ := h.volume.linked.getD_range hnext
    obtain ⟨fs', hextend, hsame⟩ := extendchain_next area h.volume.cache hlow hrange
      (by rw [hentry]; exact hnlow) (by rw [hentry]; exact hnrange)
    rw [hentry] at hextend
    exact ⟨chain, fs', _, hextend, .inl ⟨rfl, hnext, .inl rfl⟩, h.follow area hsame⟩
  · have hlength : k + 1 = chain.length := by omega
    obtain rfl : k = chain.length - 1 := by omega
    obtain ⟨fs', r, hextend, hext⟩ := extendchain_end area h.volume.cache hlow hrange
      h.volume.linked.last
    rcases hext with ⟨new, hfree, rfl, hlinked⟩ | ⟨hnone, rfl, hsame⟩
    · refine ⟨chain ++ [new], fs', _, hextend, .inl ⟨?_, ?_, .inr ⟨hlength, new, rfl⟩⟩,
        fun ff hff => h.link area hfree hlinked hff⟩
      · rw [hlength]
        simp
      · rw [length_append, length_singleton]
        omega
    · exact ⟨chain, fs', 0, hextend, .inr ⟨rfl, rfl, hlength, hnone⟩, fun ff hff =>
        h.follow area hsame ff hff⟩

end

theorem On.next (on : On v chain ff k j) (hj : j = v.fatsecperclus) (hk : k + 1 < chain.length)
    (hfpos : ff'.fpos = ff.fpos) (hcluster : ff'.currentcluster = chain.getD (k + 1) 0)
    (hsector : ff'.currentsector = sectorOf v (chain.getD (k + 1) 0) 0)
    (hleft : ff'.sectorsincluster = v.fatsecperclus) : On v chain ff' (k + 1) 0 := by
  refine ⟨hk, Nat.zero_le _, hcluster, hsector, hleft, ?_, fun _ => ?_⟩
  · rw [hfpos, on.position, hj, Nat.add_mul, Nat.one_mul, Nat.add_zero]
  · rw [hfpos]
    exact on.boundary hj

theorem On.current_range (h : Layout v own old room chain s) (on : On v chain ff k j) :
    2 ≤ ff.currentcluster ∧ ff.currentcluster < v.nclusters := by
  rw [on.cluster]
  exact h.volume.linked.getD_range on.cluster_lt

/-- Before a transfer of a read: the current sector is one of the file, or the chain has ended. -/
theorem nextCluster_spec (h : Layout v own old room chain s) (area : DataArea v)
    (on : On v chain s.ff k j) :
    ∃ s' ret, nextCluster v s = (s', ret) ∧ Layout v own old room chain s' ∧ Quiet v chain s s' ∧
      ((ret = 0 ∧ ∃ k' j', On v chain s'.ff k' j' ∧ j' < v.fatsecperclus) ∨
        (ret = -einval ∧ On v chain s'.ff k j ∧ j = v.fatsecperclus ∧ k + 1 = chain.length)) := by
  have hleft := on.left
  have hpos := area.secperclus_pos
  unfold nextCluster
  by_cases hj : j = v.fatsecperclus
  · rw [if_pos (by omega)]
    obtain ⟨hlow, hrange⟩ := on.current_range h
    obtain ⟨hsame, hvalue⟩ := getcluster_same area h.volume.cache hlow hrange
    simp only [hvalue]
    by_cases hk : k + 1 < chain.length
    · have hnext : entry v s.fs s.ff.currentcluster = chain.getD (k + 1) 0 := by
        rw [on.cluster]
        exact h.volume.linked.links k hk
      obtain ⟨hnlow, hnrange⟩ := h.volume.linked.getD_range hk
      rw [hnext, if_neg (by omega)]
      obtain ⟨hlayout, hviews⟩ := h.follow area hsame
        { s.ff with
          currentcluster := chain.getD (k + 1) 0
          currentsector := fatCluster2sector v (chain.getD (k + 1) 0)
          sectorsincluster := v.fatsecperclus } ⟨rfl, rfl, rfl, rfl, rfl⟩
      exact ⟨_, _, rfl, hlayout, ⟨hviews, rfl, rfl, rfl, rfl⟩, .inl ⟨rfl, k + 1, 0, on.next hj hk rfl rfl
        (area.cluster2sector hnlow hnrange) rfl, hpos⟩⟩
    · have hlast : k = chain.length - 1 := by
        have := on.cluster_lt
        omega
      have hend := h.volume.linked.last
      rw [← hlast, ← on.cluster] at hend
      rw [if_pos (by omega)]
      obtain ⟨hlayout, hviews⟩ := h.follow area hsame s.ff ⟨rfl, rfl, rfl, rfl, rfl⟩
      exact ⟨_, _, rfl, hlayout, ⟨hviews, rfl, rfl, rfl, rfl⟩,
        .inr ⟨rfl, on, hj, by have := on.cluster_lt; omega⟩⟩
  · have hlt : j < v.fatsecperclus := by
      have := on.sector_le
      omega
    rw [if_neg (by omega)]
    exact ⟨s, 0, rfl, h, Quiet.refl v chain s, .inl ⟨rfl, k, j, on, hlt⟩⟩

theorem fileSector_extend (hpos : 0 < v.fatsecperclus) {q : Nat} (new : Nat)
    (hq : q < chain.length * v.fatsecperclus) :
    fileSector v (chain ++ [new]) q = fileSector v chain q := by
  have hlt : q / v.fatsecperclus < chain.length := (Nat.div_lt_iff_lt_mul hpos).mpr hq
  rw [fileSector, fileSector, getD_append _ _ _ _ hlt]

/-- Before a transfer of a write: the current sector is one of the file, whose chain has been
extended at its end, or no cluster is free. -/
theorem extendCluster_spec (h : Layout v own old room chain s) (area : DataArea v)
    (on : On v chain s.ff k j) :
    ∃ chain' s' ret, extendCluster v s = some (s', ret) ∧ Layout v own old room chain' s' ∧
      Quiet v chain s s' ∧
      ((ret = 0 ∧ (chain' = chain ∨ j = v.fatsecperclus ∧ k + 1 = chain.length ∧
            ∃ new, chain' = chain ++ [new]) ∧
          ∃ k' j', On v chain' s'.ff k' j' ∧ j' < v.fatsecperclus) ∨
        (ret = -enospc ∧ chain' = chain ∧ On v chain s'.ff k j ∧ j = v.fatsecperclus ∧
          k + 1 = chain.length ∧ ∀ c, ¬Free v s.fs c)) := by
  have hleft := on.left
  have hpos := area.secperclus_pos
  unfold extendCluster
  by_cases hj : j = v.fatsecperclus
  · rw [if_pos (by omega), on.cluster]
    obtain ⟨chain', fs', r, hextend, hresult, hstate⟩ := h.extendchain area on.cluster_lt
    simp only [hextend]
    rcases hresult with ⟨rfl, hnext, hchain⟩ | ⟨rfl, rfl, hlength, hnone⟩
    · obtain ⟨hlayout, hviews⟩ := hstate
        { s.ff with
          currentcluster := chain'.getD (k + 1) 0
          sectorsincluster := v.fatsecperclus
          currentsector := fatCluster2sector v (chain'.getD (k + 1) 0) } ⟨rfl, rfl, rfl, rfl, rfl⟩
      obtain ⟨hnlow, hnrange⟩ := hlayout.volume.linked.getD_range hnext
      rw [if_neg (by omega), if_neg (by omega)]
      refine ⟨chain', _, _, rfl, hlayout, ⟨hviews, rfl, rfl, rfl, rfl⟩,
        .inl ⟨rfl, ?_, k + 1, 0, ?_, hpos⟩⟩
      · rcases hchain with rfl | ⟨hlength, hnew⟩
        · exact .inl rfl
        · exact .inr ⟨hj, hlength, hnew⟩
      · refine ⟨hnext, Nat.zero_le _, rfl, area.cluster2sector hnlow hnrange, rfl, ?_,
          fun _ => on.boundary hj⟩
        rw [on.position, hj, Nat.add_mul, Nat.one_mul, Nat.add_zero]
    · obtain ⟨hlayout, hviews⟩ := hstate s.ff ⟨rfl, rfl, rfl, rfl, rfl⟩
      exact ⟨chain', _, _, rfl, hlayout, ⟨hviews, rfl, rfl, rfl, rfl⟩,
        .inr ⟨rfl, rfl, on, hj, hlength, hnone⟩⟩
  · have hlt : j < v.fatsecperclus := by
      have := on.sector_le
      omega
    rw [if_neg (by omega)]
    exact ⟨chain, s, 0, rfl, h, Quiet.refl v chain s, .inl ⟨rfl, .inl rfl, k, j, on, hlt⟩⟩

theorem On.forward {n b : Nat} (area : DataArea v) (on : On v chain ff k j)
    (hplace : SamePlace ff ff₁) (hn : j + n ≤ v.fatsecperclus)
    (hindex : (ff.fpos + b) % v.hwsectorsize = 0)
    (hposition : (ff.fpos + b) / v.hwsectorsize = ff.fpos / v.hwsectorsize + n)
    (hfpos : ff'.fpos = ff₁.fpos + b) (hcluster : ff'.currentcluster = ff₁.currentcluster)
    (hsector : ff'.currentsector = ff₁.currentsector + n)
    (hleft : ff'.sectorsincluster = (ff₁.sectorsincluster + 256 - n) % 256) :
    On v chain ff' k (j + n) := by
  have hbound := area.secperclus_le
  have hold := on.left
  rw [hplace.fpos] at hfpos
  rw [hplace.sectorsincluster] at hleft
  refine ⟨on.cluster_lt, hn, hcluster.trans (hplace.currentcluster.trans on.cluster), ?_, by omega, ?_,
    fun _ => by rw [hfpos, hindex]⟩
  · rw [hsector, hplace.currentsector, on.sector]
    unfold sectorOf
    omega
  · rw [hfpos, hposition, on.position, Nat.add_assoc]

theorem On.within {b : Nat} (on : On v chain ff k j) (hplace : SamePlace ff ff₁)
    (hj : j < v.fatsecperclus)
    (hposition : (ff.fpos + b) / v.hwsectorsize = ff.fpos / v.hwsectorsize)
    (hfpos : ff'.fpos = ff₁.fpos + b) (hcluster : ff'.currentcluster = ff₁.currentcluster)
    (hsector : ff'.currentsector = ff₁.currentsector)
    (hleft : ff'.sectorsincluster = ff₁.sectorsincluster) : On v chain ff' k j := by
  refine ⟨on.cluster_lt, on.sector_le, hcluster.trans (hplace.currentcluster.trans on.cluster),
    hsector.trans (hplace.currentsector.trans on.sector),
    hleft.trans (hplace.sectorsincluster.trans on.left), ?_, fun h => by omega⟩
  rw [hfpos, hplace.fpos, hposition, on.position]

theorem add_at_boundary {a : Nat} (hsize : 0 < size) (ha : a % size = 0) (i : Nat) :
    (a + i) / size = a / size + i / size ∧ (a + i) % size = i % size := by
  obtain ⟨b, rfl⟩ := Nat.dvd_of_mod_eq_zero ha
  rw [Nat.mul_add_div hsize, Nat.mul_div_cancel_left _ hsize, Nat.mul_add_mod]
  exact ⟨rfl, rfl⟩

theorem add_to_boundary (hsize : 0 < size) (a : Nat) :
    (a + (size - a % size)) / size = a / size + 1 ∧ (a + (size - a % size)) % size = 0 := by
  have hlt := Nat.mod_lt a hsize
  have hnext : a + (size - a % size) = size * (a / size + 1) := by
    have := Nat.div_add_mod a size
    rw [Nat.mul_add]
    omega
  rw [hnext, Nat.mul_div_cancel_left _ hsize, Nat.mul_mod_right]
  exact ⟨rfl, rfl⟩

/-- The bytes of the file from a position on. -/
def fileBytes (v : Volume) (chain : List Nat) (s : St) (pos n : Nat) : List UInt8 :=
  (List.range n).map fun i => fileByte v chain s (pos + i)

theorem fileBytes_add (v : Volume) (chain : List Nat) (s : St) (pos m n : Nat) :
    fileBytes v chain s pos (m + n) =
      fileBytes v chain s pos m ++ fileBytes v chain s (pos + m) n := by
  simp only [fileBytes, range_add, map_append, map_map]
  congr 1
  refine map_congr_left fun i _ => ?_
  rw [Function.comp, Nat.add_assoc]

/-- The state after a transfer of `n` bytes. -/
def advanced (s : St) (n : Nat) : St := { s with ff := { s.ff with fpos := s.ff.fpos + n } }

/-- What stays in a transfer apart from the place. -/
structure SameFile (ff ff' : Ff) : Prop where
  rdok : ff'.rdok = ff.rdok
  wrok : ff'.wrok = ff.wrok
  size : ff'.size = ff.size

/-- One transfer of a read returns at least one byte, and the bytes of the file. -/
theorem readChunk_spec (h : Layout v own old room chain s) (area : DataArea v)
    (on : On v chain s.ff k j) (hj : j < v.fatsecperclus) (hbuflen : 0 < buflen) :
    ∃ s' n j', readChunk v s buflen = (s', fileBytes v chain s s.ff.fpos n) ∧ 0 < n ∧ n ≤ buflen ∧
      Layout v own old room chain (advanced s' n) ∧ On v chain (advanced s' n).ff k j' ∧
      (∀ sector, InFile v chain sector → fileView s' sector = fileView s sector) ∧
      s'.ff.fpos = s.ff.fpos ∧ SameFile s.ff s'.ff := by
  have hsize := area.toWellFormed.sectorSize_pos
  have hleft := on.left
  simp only [readChunk, area.toWellFormed.and_secNdxmask]
  by_cases hdirect : buflen / v.hwsectorsize > 0 ∧ s.ff.fpos % v.hwsectorsize = 0
  · -- whole sectors, straight from the medium
    rw [if_pos hdirect]
    obtain ⟨hlayout, hplace, hinvalid, hdev⟩ := h.invalidate area
    generalize hm : min (buflen / v.hwsectorsize) s.ff.sectorsincluster = m
    have hm' : 0 < m ∧ m ≤ buflen / v.hwsectorsize ∧ j + m ≤ v.fatsecperclus := by omega
    have hbytes : m * v.hwsectorsize ≤ buflen :=
      (Nat.mul_le_mul_right _ hm'.2.1).trans (Nat.div_mul_le_self _ _)
    obtain ⟨hdiv, hmod⟩ := add_at_boundary hsize hdirect.2 (m * v.hwsectorsize)
    rw [Nat.mul_div_cancel _ hsize] at hdiv
    rw [Nat.mul_mod_left] at hmod
    refine ⟨_, m * v.hwsectorsize, j + m, Prod.ext rfl ?_, Nat.mul_pos hm'.1 hsize, hbytes,
      hlayout.move rfl rfl rfl rfl rfl, ?_, fun sector hin => ?_, hplace.fpos,
      hplace.rdok, hplace.wrok, hplace.size⟩
    · show Fs.hwreadData v _ _ m = _
      refine map_congr_left fun i hi => ?_
      have hi' : i / v.hwsectorsize < m := (Nat.div_lt_iff_lt_mul hsize).mpr (mem_range.mp hi)
      obtain ⟨hdiv, hmod⟩ := add_at_boundary hsize hdirect.2 i
      rw [hdev, hplace.currentsector, on.sector_add (by omega), fileByte, hdiv, hmod]
    · exact on.forward area hplace hm'.2.2 hmod hdiv rfl rfl rfl rfl
    · show fileView (fatFfcacheinvalidate s) sector = _
      rw [← hdev, fileView, if_neg fun hc => by simp [hinvalid] at hc]
  · -- a part of a sector, through the buffer
    rw [if_neg hdirect]
    have hin := on.inFile (i := 0) (by omega)
    have hcurrent := on.sector_add (i := 0) (by omega)
    rw [Int.natCast_zero, Int.add_zero, Nat.add_zero] at hcurrent
    rw [Int.natCast_zero, Int.add_zero] at hin
    obtain ⟨hlayout, hplace, hvalid, hcached, hbuffer, hdev⟩ := h.read area hin
    have hviews : ∀ sector, InFile v chain sector →
        fileView (fatFfcacheread s s.ff.currentsector) sector = fileView s sector := by
      intro sector _
      by_cases heq : sector = s.ff.currentsector
      · rw [fileView, if_pos ⟨hvalid, hcached.trans heq.symm⟩, hbuffer, heq]
      · rw [fileView, if_neg fun hc => heq (hc.2.symm.trans hcached), hdev sector heq]
    have hdata : ∀ n, s.ff.fpos % v.hwsectorsize + n ≤ v.hwsectorsize →
        ((List.range n).map fun i => fileView s s.ff.currentsector (s.ff.fpos % v.hwsectorsize + i)) =
          fileBytes v chain s s.ff.fpos n := by
      intro n hn
      refine map_congr_left fun i hi => ?_
      have hi' := mem_range.mp hi
      obtain ⟨hdiv, hmod⟩ := add_within s.ff.fpos v.hwsectorsize i (by omega)
      rw [fileByte, hdiv, hmod, ← hcurrent]
    have hindex := Nat.mod_lt s.ff.fpos hsize
    by_cases hpart : v.hwsectorsize - s.ff.fpos % v.hwsectorsize > buflen
    · simp only [if_pos hpart, hbuffer]
      obtain ⟨hdiv, -⟩ := add_within s.ff.fpos v.hwsectorsize buflen (by omega)
      refine ⟨_, buflen, j, by rw [hdata buflen (by omega)], hbuflen, le_rfl,
        hlayout.move rfl rfl rfl rfl rfl, ?_, hviews, hplace.fpos, hplace.rdok, hplace.wrok, hplace.size⟩
      exact on.within hplace hj hdiv rfl rfl rfl rfl
    · simp only [if_neg hpart]
      obtain ⟨hdiv, hmod⟩ := add_to_boundary hsize s.ff.fpos
      refine ⟨_, v.hwsectorsize - s.ff.fpos % v.hwsectorsize, j + 1, Prod.ext rfl ?_, by omega, by omega,
        hlayout.move rfl rfl rfl rfl rfl, ?_, hviews, hplace.fpos, hplace.rdok, hplace.wrok, hplace.size⟩
      · show (List.range _).map (fun i => (fatFfcacheread s s.ff.currentsector).ff.buffer _) = _
        rw [hbuffer]
        exact hdata _ (by omega)
      · exact on.forward area hplace hj hmod hdiv rfl rfl rfl rfl

/-- The bytes of a file after `n` bytes have been written at a position. What is behind them may be
anything, unless it was in the file. -/
def Written (v : Volume) (chain : List Nat) (s s' : St) (bytes : List UInt8) (n : Nat) : Prop :=
  ∀ i < chain.length * v.fatsecperclus * v.hwsectorsize, i < s.ff.size ∨ i < s.ff.fpos + n →
    fileByte v chain s' i =
      if s.ff.fpos ≤ i ∧ i < s.ff.fpos + n then bytes.getD (i - s.ff.fpos) 0
      else fileByte v chain s i

section

variable (h : Layout v own old room chain s) (area : DataArea v) {bytes : List UInt8}
include h area

theorem writeSectors_spec {m : Nat} (on : On v chain s.ff k j) (hm : j + m ≤ v.fatsecperclus)
    (hinvalid : s.ff.valid = false) (hindex : s.ff.fpos % v.hwsectorsize = 0) (bytes : List UInt8)
    (ff : Ff) (hstart : ff.startcluster = s.ff.startcluster) (hvalid : ff.valid = s.ff.valid)
    (hdirty : ff.dirty = s.ff.dirty) :
    Layout v own old room chain
        { fs := s.fs.hwwriteData v bytes s.ff.currentsector m
          ff := ff
          handed := s.handed ++ (List.range m).map fun i : Nat => s.ff.currentsector + i } ∧
      Written v chain s
        { fs := s.fs.hwwriteData v bytes s.ff.currentsector m
          ff := ff
          handed := s.handed ++ (List.range m).map fun i : Nat => s.ff.currentsector + i }
        bytes (m * v.hwsectorsize) := by
  have hsize := area.toWellFormed.sectorSize_pos
  have hpos := area.secperclus_pos
  rw [hinvalid] at hvalid
  rw [h.invalid hinvalid] at hdirty
  refine ⟨⟨h.volume.write area fun sector hout => ?_, hstart.trans h.start,
    fun hv => absurd hv (by simp [hvalid]), fun hv => absurd hv (by simp [hvalid]), fun _ => hdirty,
    fun sector hmem => ?_⟩, fun i hi _ => ?_⟩
  · refine if_neg fun hc => hout ?_
    have hsector := on.inFile (i := (sector - s.ff.currentsector).toNat) (by omega)
    rwa [show s.ff.currentsector + ((sector - s.ff.currentsector).toNat : Nat) = sector by omega] at hsector
  · rcases mem_append.mp hmem with hmem | hmem
    · exact h.handed sector hmem
    · obtain ⟨i, hi, rfl⟩ := mem_map.mp hmem
      have := mem_range.mp hi
      exact on.inFile (by omega)
  · have hq : i / v.hwsectorsize < chain.length * v.fatsecperclus := (Nat.div_lt_iff_lt_mul hsize).mpr hi
    have hview : ∀ sector, fileView s sector = s.fs.dev sector := by
      intro sector
      rw [fileView, if_neg fun hc => by simp [hinvalid] at hc]
    have hfpos : s.ff.fpos = s.ff.fpos / v.hwsectorsize * v.hwsectorsize := by
      have := Nat.div_add_mod s.ff.fpos v.hwsectorsize
      rw [Nat.mul_comm]
      omega
    have hrange : (s.ff.fpos ≤ i ∧ i < s.ff.fpos + m * v.hwsectorsize) ↔
        s.ff.fpos / v.hwsectorsize ≤ i / v.hwsectorsize ∧
          i / v.hwsectorsize < s.ff.fpos / v.hwsectorsize + m := by
      rw [Nat.le_div_iff_mul_le hsize, Nat.div_lt_iff_lt_mul hsize, Nat.add_mul, ← hfpos]
    rw [fileByte, fileView, if_neg fun hc => by simp [hvalid] at hc, fileByte, hview]
    simp only [Fs.hwwriteData, hrange]
    by_cases hin : s.ff.fpos / v.hwsectorsize ≤ i / v.hwsectorsize ∧
        i / v.hwsectorsize < s.ff.fpos / v.hwsectorsize + m
    · have hsector := on.sector_add (i := i / v.hwsectorsize - s.ff.fpos / v.hwsectorsize) (by omega)
      rw [show s.ff.fpos / v.hwsectorsize + (i / v.hwsectorsize - s.ff.fpos / v.hwsectorsize) =
        i / v.hwsectorsize by omega] at hsector
      rw [if_pos hin, ← hsector, if_pos (by omega)]
      congr 1
      have hsplit := Nat.div_add_mod i v.hwsectorsize
      rw [add_sub_cancel_left, Int.toNat_natCast, Nat.sub_mul, Nat.mul_comm (i / _)]
      have hbelow := Nat.mul_le_mul_right v.hwsectorsize hin.1
      rw [← hfpos, Nat.mul_comm] at hbelow
      omega
    · rw [if_neg hin, if_neg]
      intro hc
      have hsector := on.sector_add
        (i := (fileSector v chain (i / v.hwsectorsize) - s.ff.currentsector).toNat) (by omega)
      have hinside := on.sector_lt
        (i := (fileSector v chain (i / v.hwsectorsize) - s.ff.currentsector).toNat) (by omega)
      rw [← on.position] at hinside
      have heq := h.volume.linked.fileSector_inj hpos hq hinside (by rw [← hsector]; omega)
      omega

/-- The buffer before a part of a sector is written: it holds the sector, unless the bytes of the
sector behind the written ones are not in the file. -/
theorem cacheForWrite_spec (hin : InFile v chain s.ff.currentsector)
    (hpart : s.ff.fpos % v.hwsectorsize = 0 → buflen < v.hwsectorsize) :
    OnVolume v own old room chain (cacheForWrite v s buflen).fs ∧
      SamePlace s.ff (cacheForWrite v s buflen).ff ∧
      (∀ sector ∈ (cacheForWrite v s buflen).handed, InFile v chain sector) ∧
      (cacheForWrite v s buflen).ff.cachesector = s.ff.currentsector ∧
      (∀ sector ≠ s.ff.currentsector, (cacheForWrite v s buflen).fs.dev sector = fileView s sector) ∧
      (s.ff.fpos + buflen < 2 ^ 32 →
        (cacheForWrite v s buflen).ff.buffer = fileView s s.ff.currentsector ∨
          s.ff.fpos % v.hwsectorsize = 0 ∧ s.ff.size ≤ s.ff.fpos + buflen) := by
  simp only [cacheForWrite, area.toWellFormed.and_secNdxmask]
  split
  · next hskip =>
    obtain ⟨hlayout, hff, hdev⟩ := h.flush area
    refine ⟨hlayout.volume, ?_, hlayout.handed, ?_, fun sector _ => hdev sector,
      fun hwrap => .inr ⟨hskip.1, ?_⟩⟩
    · simp only [hff]
      exact ⟨rfl, rfl, rfl, rfl, rfl, rfl, rfl, rfl⟩
    · simp only [hff]
    · rcases hskip.2 with hlarge | hend
      · omega
      · rwa [uint32, Nat.mod_eq_of_lt hwrap] at hend
  · obtain ⟨hlayout, hplace, -, hcached, hbuffer, hdev⟩ := h.read area hin
    exact ⟨hlayout.volume, hplace, hlayout.handed, hcached, hdev, fun _ => .inl hbuffer⟩

theorem writePart_spec {n : Nat} (on : On v chain s.ff k j) (hj : j < v.fatsecperclus)
    (hpart : s.ff.fpos % v.hwsectorsize = 0 → bytes.length < v.hwsectorsize)
    (hn : n = min (v.hwsectorsize - s.ff.fpos % v.hwsectorsize) bytes.length) (ff : Ff)
    (hstart : ff.startcluster = s.ff.startcluster) (hsector : ff.cachesector = s.ff.currentsector)
    (hvalid : ff.valid = true) (hdirty : ff.dirty = true)
    (hbuffer : ff.buffer = copyInto (cacheForWrite v s bytes.length).ff.buffer (s.ff.fpos % v.hwsectorsize) (bytes.take n)) :
    Layout v own old room chain { cacheForWrite v s bytes.length with ff := ff } ∧
      (s.ff.fpos + bytes.length < 2 ^ 32 →
        Written v chain s { cacheForWrite v s bytes.length with ff := ff } bytes n) := by
  have hsize := area.toWellFormed.sectorSize_pos
  have hpos := area.secperclus_pos
  have hin := on.inFile (i := 0) (by omega)
  have hcurrent := on.sector_add (i := 0) (by omega)
  have hinside := on.sector_lt (i := 0) (by omega)
  rw [← on.position] at hinside
  rw [Int.natCast_zero, Int.add_zero] at hin hcurrent
  rw [Nat.add_zero] at hcurrent hinside
  obtain ⟨hvolume, -, hhanded, -, hdev, hheld⟩ := cacheForWrite_spec h area hin hpart
  refine ⟨⟨hvolume, hstart.trans h.start, fun _ => hsector ▸ hin, fun _ hd => absurd hd (by simp [hdirty]),
    fun hv => absurd hv (by simp [hvalid]), hhanded⟩, fun hwrap i hi hfile => ?_⟩
  have hq : i / v.hwsectorsize < chain.length * v.fatsecperclus := (Nat.div_lt_iff_lt_mul hsize).mpr hi
  have hsplit := Nat.div_add_mod i v.hwsectorsize
  have hsplit' := Nat.div_add_mod s.ff.fpos v.hwsectorsize
  have hlength : (bytes.take n).length = n := by
    rw [length_take]
    omega
  by_cases hsame : i / v.hwsectorsize = s.ff.fpos / v.hwsectorsize
  · have hview : fileByte v chain { cacheForWrite v s bytes.length with ff := ff } i =
        copyInto (cacheForWrite v s bytes.length).ff.buffer (s.ff.fpos % v.hwsectorsize) (bytes.take n)
          (i % v.hwsectorsize) := by
      rw [fileByte, hsame, ← hcurrent, fileView, if_pos ⟨hvalid, hsector⟩, hbuffer]
    rw [hview, copyInto]
    rw [hsame] at hsplit
    by_cases hwritten : s.ff.fpos ≤ i ∧ i < s.ff.fpos + n
    · rw [if_pos (by omega), if_pos hwritten,
        show i % v.hwsectorsize - s.ff.fpos % v.hwsectorsize = i - s.ff.fpos by omega]
      rw [getD_eq_getElem?_getD, getElem?_take_of_lt (by omega), ← getD_eq_getElem?_getD]
    · rw [if_neg (by omega), if_neg hwritten]
      rcases hheld hwrap with hheld | ⟨haligned, hend⟩
      · rw [hheld, fileByte, hsame, ← hcurrent]
      · -- the sector starts at the position and the file ends in what is written
        have := hpart haligned
        omega
  · have hne : fileSector v chain (i / v.hwsectorsize) ≠ s.ff.currentsector := by
      rw [hcurrent]
      exact fun heq => hsame (h.volume.linked.fileSector_inj hpos hq hinside heq)
    have hview : fileByte v chain { cacheForWrite v s bytes.length with ff := ff } i =
        fileByte v chain s i := by
      rw [fileByte, fileView, if_neg fun hc => hne (hc.2.symm.trans hsector), hdev _ hne, fileByte]
    rw [hview, if_neg]
    -- the written bytes are in the current sector
    intro hwritten
    apply hsame
    have hbound : s.ff.fpos % v.hwsectorsize + (i - s.ff.fpos) < v.hwsectorsize := by omega
    have := (add_within _ _ _ hbound).1
    rwa [show s.ff.fpos + (i - s.ff.fpos) = i by omega] at this

/-- One transfer of a write takes at least one byte. -/
theorem writeChunk_spec (on : On v chain s.ff k j) (hj : j < v.fatsecperclus)
    (hbytes : 0 < bytes.length) :
    ∃ s' n j', writeChunk v s bytes = (s', n) ∧ 0 < n ∧ n ≤ bytes.length ∧
      Layout v own old room chain (advanced s' n) ∧ On v chain (advanced s' n).ff k j' ∧
      (s.ff.fpos + bytes.length < 2 ^ 32 → Written v chain s s' bytes n) ∧
      s'.ff.fpos = s.ff.fpos ∧ SameFile s.ff s'.ff := by
  have hsize := area.toWellFormed.sectorSize_pos
  have hleft := on.left
  simp only [writeChunk, area.toWellFormed.and_secNdxmask]
  by_cases hdirect : bytes.length / v.hwsectorsize > 0 ∧ s.ff.fpos % v.hwsectorsize = 0
  · rw [if_pos hdirect]
    obtain ⟨hlayout, hplace, hinvalid, hdev⟩ := h.invalidate area
    generalize hm : min (bytes.length / v.hwsectorsize) s.ff.sectorsincluster = m
    have hm' : 0 < m ∧ m ≤ bytes.length / v.hwsectorsize ∧ j + m ≤ v.fatsecperclus := by omega
    have hcount : m * v.hwsectorsize ≤ bytes.length :=
      (Nat.mul_le_mul_right _ hm'.2.1).trans (Nat.div_mul_le_self _ _)
    obtain ⟨hdiv, hmod⟩ := add_at_boundary hsize hdirect.2 (m * v.hwsectorsize)
    rw [Nat.mul_div_cancel _ hsize] at hdiv
    rw [Nat.mul_mod_left] at hmod
    have on' : On v chain (fatFfcacheinvalidate s).ff k j :=
      on.within hplace hj (b := 0) rfl rfl rfl rfl rfl
    obtain ⟨hwritten, hbytes'⟩ := writeSectors_spec hlayout area on' hm'.2.2 hinvalid
      (by rw [hplace.fpos]; exact hdirect.2) bytes
      { (fatFfcacheinvalidate s).ff.forward m with modified := true } rfl rfl rfl
    refine ⟨_, _, j + m, rfl, Nat.mul_pos hm'.1 hsize, hcount, hwritten.move rfl rfl rfl rfl rfl,
      on.forward area hplace hm'.2.2 hmod hdiv rfl rfl rfl rfl, fun _ i hi hfile => ?_, hplace.fpos,
      hplace.rdok, hplace.wrok, hplace.size⟩
    have hbyte := hbytes' i hi
    have hview : fileByte v chain (fatFfcacheinvalidate s) i = fileByte v chain s i := by
      rw [fileByte, fileView, if_neg fun hc => by simp [hinvalid] at hc, hdev, fileByte]
    rw [hplace.fpos, hplace.size, hview] at hbyte
    exact hbyte hfile
  · rw [if_neg hdirect]
    have hpart : s.ff.fpos % v.hwsectorsize = 0 → bytes.length < v.hwsectorsize := by
      intro hzero
      by_contra hlarge
      exact hdirect ⟨Nat.div_pos (by omega) hsize, hzero⟩
    have hin := on.inFile (i := 0) (by omega)
    rw [Int.natCast_zero, Int.add_zero] at hin
    obtain ⟨-, hplace, -, hcached, -⟩ := cacheForWrite_spec h area hin hpart
    have hindex := Nat.mod_lt s.ff.fpos hsize
    by_cases hlast : v.hwsectorsize - s.ff.fpos % v.hwsectorsize > bytes.length
    · simp only [if_pos hlast]
      obtain ⟨hlayout, hwritten⟩ := writePart_spec h area on hj hpart
        (by omega)
        { (cacheForWrite v s bytes.length).ff with
          buffer := copyInto (cacheForWrite v s bytes.length).ff.buffer (s.ff.fpos % v.hwsectorsize)
            (bytes.take bytes.length)
          dirty := true
          valid := true
          modified := true } hplace.startcluster hcached rfl rfl rfl
      obtain ⟨hdiv, -⟩ := add_within s.ff.fpos v.hwsectorsize bytes.length (by omega)
      exact ⟨_, _, j, rfl, hbytes, le_rfl, hlayout.move rfl rfl rfl rfl rfl,
        on.within hplace hj hdiv rfl rfl rfl rfl, hwritten, hplace.fpos, hplace.rdok, hplace.wrok,
        hplace.size⟩
    · simp only [if_neg hlast]
      obtain ⟨hlayout, hwritten⟩ := writePart_spec h area on hj hpart
        (by omega)
        { (cacheForWrite v s bytes.length).ff.forward 1 with
          buffer := copyInto (cacheForWrite v s bytes.length).ff.buffer (s.ff.fpos % v.hwsectorsize)
            (bytes.take (v.hwsectorsize - s.ff.fpos % v.hwsectorsize))
          dirty := true
          valid := true
          modified := true } hplace.startcluster hcached rfl rfl rfl
      obtain ⟨hdiv, hmod⟩ := add_to_boundary hsize s.ff.fpos
      exact ⟨_, _, j + 1, rfl, by omega, by omega, hlayout.move rfl rfl rfl rfl rfl,
        on.forward area hplace hj hmod hdiv rfl rfl rfl rfl, hwritten, hplace.fpos, hplace.rdok,
        hplace.wrok, hplace.size⟩

end

end NbLot.Source.Fat
