import NbLot.Source.Fat.Transfer

/-!
# FAT: whole calls of `fat_read`, `fat_write` and `fat_seek`

Source: nuttx/fs/fat/fs_fat32.c:470-1254.

The loops end, keep the layout of the file, and transfer the bytes of the file from its position
on. A read fails only behind the end of the chain, a write only when no cluster is free.
-/
namespace NbLot.Source.Fat
open List

variable {v : Volume} {own : Nat → Prop} {old : Fs} {room i : Nat} {chain chain' : List Nat}
  {s s' : St}

def Volume.clustersize (v : Volume) : Nat := v.fatsecperclus * v.hwsectorsize

/-- The bytes that the clusters of a chain have room for. -/
def capacity (v : Volume) (chain : List Nat) : Nat := chain.length * v.clustersize

theorem capacity_eq (v : Volume) (chain : List Nat) :
    capacity v chain = chain.length * v.fatsecperclus * v.hwsectorsize := by
  rw [capacity, Volume.clustersize, Nat.mul_assoc]

theorem capacity_mono (h : chain <+: chain') : capacity v chain ≤ capacity v chain' :=
  Nat.mul_le_mul_right _ h.length_le

/-- The current cluster and sector belong to the position. -/
def OnSome (v : Volume) (chain : List Nat) (ff : Ff) : Prop := ∃ k j, On v chain ff k j

namespace On

variable {ff : Ff} {k j : Nat}

theorem fpos_le (on : On v chain ff k j) (hsize : 0 < v.hwsectorsize) : ff.fpos ≤ capacity v chain := by
  have hsplit := Nat.div_add_mod ff.fpos v.hwsectorsize
  have hle := on.sector_le
  rw [on.position] at hsplit
  rw [capacity_eq]
  by_cases hj : j = v.fatsecperclus
  · have hboundary := on.boundary hj
    have hsectors : k * v.fatsecperclus + j ≤ chain.length * v.fatsecperclus := by
      have hmul : (k + 1) * v.fatsecperclus ≤ chain.length * v.fatsecperclus :=
        Nat.mul_le_mul_right _ on.cluster_lt
      rw [Nat.add_mul] at hmul
      omega
    have := Nat.mul_le_mul_right v.hwsectorsize hsectors
    rw [Nat.mul_comm] at this
    omega
  · have hlt := on.sector_lt (i := 0) (by omega)
    rw [Nat.add_zero] at hlt
    rw [← on.position, Nat.div_lt_iff_lt_mul hsize] at hlt
    omega

theorem fpos_end (on : On v chain ff k j) (hj : j = v.fatsecperclus) (hk : k + 1 = chain.length) :
    ff.fpos = capacity v chain := by
  have hsplit := Nat.div_add_mod ff.fpos v.hwsectorsize
  rw [on.position, on.boundary hj, hj, Nat.add_zero] at hsplit
  rw [capacity_eq, ← hk, Nat.add_mul, Nat.one_mul, ← hsplit, Nat.mul_comm]

end On

section

variable (area : DataArea v)
include area

theorem sector_of_lt_capacity (hi : i < capacity v chain) :
    InFile v chain (fileSector v chain (i / v.hwsectorsize)) := by
  refine ⟨_, ?_, rfl⟩
  rw [capacity_eq] at hi
  exact (Nat.div_lt_iff_lt_mul area.toWellFormed.sectorSize_pos).mpr hi

theorem fileByte_congr
    (h : ∀ sector, InFile v chain sector → fileView s' sector = fileView s sector)
    (hi : i < capacity v chain) : fileByte v chain s' i = fileByte v chain s i := by
  rw [fileByte, h _ (sector_of_lt_capacity area hi), fileByte]

theorem fileBytes_congr {pos n : Nat}
    (h : ∀ sector, InFile v chain sector → fileView s' sector = fileView s sector)
    (hn : pos + n ≤ capacity v chain) : fileBytes v chain s' pos n = fileBytes v chain s pos n := by
  refine map_congr_left fun i hi => ?_
  have := mem_range.mp hi
  exact fileByte_congr area h (by omega)

theorem fileByte_extend (new : Nat) (hi : i < capacity v chain) :
    fileByte v (chain ++ [new]) s i = fileByte v chain s i := by
  rw [capacity_eq] at hi
  rw [fileByte, fileSector_extend area.secperclus_pos new
    ((Nat.div_lt_iff_lt_mul area.toWellFormed.sectorSize_pos).mpr hi), fileByte]

end

theorem SameFile.trans {a b c : Ff} (h : SameFile a b) (h' : SameFile b c) : SameFile a c :=
  ⟨h'.rdok.trans h.rdok, h'.wrok.trans h.wrok, h'.size.trans h.size⟩

/-- The loop of `fat_read` reads all bytes, or it comes to the end of the chain. -/
theorem readLoop_spec (area : DataArea v) (fuel : Nat) : ∀ s buflen read, buflen ≤ fuel →
    Layout v own old room chain s → OnSome v chain s.ff →
    ∃ s' ret bytes, readLoop v fuel s buflen read = some (s', ret, bytes) ∧
      Layout v own old room chain s' ∧ OnSome v chain s'.ff ∧ SameFile s.ff s'.ff ∧
      (∀ sector, InFile v chain sector → fileView s' sector = fileView s sector) ∧
      ((ret = (read.length + buflen : Nat) ∧ bytes = read ++ fileBytes v chain s s.ff.fpos buflen ∧
          s'.ff.fpos = s.ff.fpos + buflen) ∨
        (ret = -einval ∧ capacity v chain < s.ff.fpos + buflen)) := by
  induction fuel with
  | zero =>
    intro s buflen read hfuel h on
    obtain rfl : buflen = 0 := by omega
    exact ⟨s, _, read, rfl, h, on, ⟨rfl, rfl, rfl⟩, fun _ _ => rfl,
      .inl ⟨rfl, by simp [fileBytes], rfl⟩⟩
  | succ fuel ih =>
    rintro s buflen read hfuel h ⟨k, j, on⟩
    rw [readLoop]
    by_cases hbuflen : buflen > 0
    · rw [if_pos hbuflen]
      obtain ⟨s₁, ret, hnext, h₁, hquiet, hresult⟩ := nextCluster_spec h area on
      simp only [hnext]
      rcases hresult with ⟨rfl, k₁, j₁, on₁, hj₁⟩ | ⟨rfl, on₁, hj, hk⟩
      · obtain ⟨s₂, n, j₂, hchunk, hpos, hle, h₂, on₂, hviews, hfpos, hfile⟩ :=
          readChunk_spec h₁ area on₁ hj₁ hbuflen
        have hlength : (fileBytes v chain s₁ s₁.ff.fpos n).length = n := by
          simp [fileBytes]
        simp only [hchunk, hlength]
        obtain ⟨s', ret, bytes, hloop, h', on', hfile', hviews', hresult⟩ := ih (advanced s₂ n)
          (buflen - n) (read ++ fileBytes v chain s₁ s₁.ff.fpos n) (by omega) h₂ ⟨k₁, j₂, on₂⟩
        have hall : ∀ sector, InFile v chain sector → fileView s₂ sector = fileView s sector :=
          fun sector hin => (hviews sector hin).trans (hquiet.views sector hin)
        have hsame : SameFile s.ff s₁.ff := ⟨hquiet.rdok, hquiet.wrok, hquiet.size⟩
        have hplace : (advanced s₂ n).ff.fpos = s.ff.fpos + n := by
          show s₂.ff.fpos + n = _
          rw [hfpos, hquiet.fpos]
        refine ⟨s', ret, bytes, hloop, h', on',
          (hsame.trans hfile).trans ⟨hfile'.rdok, hfile'.wrok, hfile'.size⟩,
          fun sector hin => (hviews' sector hin).trans (hall sector hin), ?_⟩
        rcases hresult with ⟨hret, hbytes, hend⟩ | ⟨hret, hend⟩
        · have hcap := on'.choose_spec.choose_spec.fpos_le area.toWellFormed.sectorSize_pos
          refine .inl ⟨?_, ?_, ?_⟩
          · rw [hret, length_append]
            congr 1
            omega
          · rw [hbytes, hplace, hquiet.fpos, append_assoc,
              fileBytes_congr area hquiet.views (by omega),
              show fileBytes v chain (advanced s₂ n) = fileBytes v chain s₂ from rfl,
              fileBytes_congr area hall (by omega), ← fileBytes_add,
              show n + (buflen - n) = buflen by omega]
          · omega
        · refine .inr ⟨hret, ?_⟩
          omega
      · have hend := on₁.fpos_end hj hk
        rw [hquiet.fpos] at hend
        exact ⟨s₁, _, read, rfl, h₁, ⟨k, j, on₁⟩, ⟨hquiet.rdok, hquiet.wrok, hquiet.size⟩,
          hquiet.views, .inr ⟨rfl, by omega⟩⟩
    · obtain rfl : buflen = 0 := by omega
      exact ⟨s, _, read, rfl, h, ⟨k, j, on⟩, ⟨rfl, rfl, rfl⟩, fun _ _ => rfl,
        .inl ⟨rfl, by simp [fileBytes], rfl⟩⟩

/-- All bytes have been written at the position, and the rest of the file is as it was. -/
def Stored (v : Volume) (chain chain' : List Nat) (s s' : St) (bytes : List UInt8) : Prop :=
  ∀ i < max s.ff.size (s.ff.fpos + bytes.length),
    fileByte v chain' s' i =
      if s.ff.fpos ≤ i ∧ i < s.ff.fpos + bytes.length then bytes.getD (i - s.ff.fpos) 0
      else fileByte v chain s i

/-- The loop of `fat_write` writes all bytes, or all clusters are in use. -/
theorem writeLoop_spec (area : DataArea v) (fuel : Nat) : ∀ chain s bytes written,
    bytes.length ≤ fuel → Layout v own old room chain s → OnSome v chain s.ff →
    ∃ chain' s' ret, writeLoop v fuel s bytes written = some (s', ret) ∧
      Layout v own old room chain' s' ∧ OnSome v chain' s'.ff ∧ chain <+: chain' ∧
      SameFile s.ff s'.ff ∧
      ((ret = (written + bytes.length : Nat) ∧ s'.ff.fpos = s.ff.fpos + bytes.length ∧
          (s.ff.fpos + bytes.length < 2 ^ 32 → s.ff.size ≤ capacity v chain →
            Stored v chain chain' s s' bytes)) ∨
        (ret = -enospc ∧ room * v.clustersize < s.ff.fpos + bytes.length)) := by
  have hsize := area.toWellFormed.sectorSize_pos
  induction fuel with
  | zero =>
    intro chain s bytes written hfuel h on
    obtain rfl : bytes = [] := length_eq_zero_iff.mp (by omega)
    refine ⟨chain, s, _, rfl, h, on, prefix_rfl, ⟨rfl, rfl, rfl⟩, .inl ⟨rfl, rfl, fun _ _ i _ => ?_⟩⟩
    rw [if_neg (by simp)]
  | succ fuel ih =>
    intro chain s bytes written hfuel h ⟨k, j, on⟩
    rw [writeLoop]
    by_cases hbytes : bytes.length > 0
    · rw [if_pos hbytes]
      obtain ⟨chain₁, s₁, ret, hnext, h₁, hquiet, hresult⟩ := extendCluster_spec h area on
      simp only [hnext]
      rcases hresult with ⟨rfl, hchain, k₁, j₁, on₁, hj₁⟩ | ⟨rfl, rfl, on₁, hj, hk, hnone⟩
      · obtain ⟨s₂, n, j₂, hchunk, hpos, hle, h₂, on₂, hwritten, hfpos, hfile⟩ :=
          writeChunk_spec h₁ area on₁ hj₁ hbytes
        simp only [hchunk]
        obtain ⟨chain', s', ret, hloop, h', on', hextends, hfile', hresult⟩ := ih chain₁
          (advanced s₂ n) (bytes.drop n) (written + n) (by rw [length_drop]; omega) h₂
          ⟨k₁, j₂, on₂⟩
        have hextends₁ : chain <+: chain₁ := by
          rcases hchain with rfl | ⟨-, -, new, rfl⟩
          · exact prefix_rfl
          · exact prefix_append _ _
        have hsame : SameFile s.ff s₁.ff := ⟨hquiet.rdok, hquiet.wrok, hquiet.size⟩
        have hplace : (advanced s₂ n).ff.fpos = s.ff.fpos + n := by
          show s₂.ff.fpos + n = _
          rw [hfpos, hquiet.fpos]
        have hsizes : (advanced s₂ n).ff.size = s.ff.size := hfile.size.trans hquiet.size
        refine ⟨chain', s', ret, hloop, h', on', hextends₁.trans hextends,
          (hsame.trans hfile).trans ⟨hfile'.rdok, hfile'.wrok, hfile'.size⟩, ?_⟩
        rw [length_drop] at hresult
        rcases hresult with ⟨hret, hend, hstored⟩ | ⟨hret, hfull⟩
        · refine .inl ⟨?_, by rw [hend]; omega, fun hwrap hfits => ?_⟩
          · omega
          · -- what is written now, what is written later, and what stays
            have hcap := capacity_mono (v := v) hextends₁
            have hcap₂ := on₂.fpos_le hsize
            have hbefore : ∀ i < capacity v chain, fileByte v chain₁ s₁ i = fileByte v chain s i := by
              intro i hi
              rcases hchain with rfl | ⟨-, -, new, rfl⟩
              · exact fileByte_congr area hquiet.views hi
              · rw [fileByte_extend area new hi]
                exact fileByte_congr area hquiet.views hi
            have hnow := hwritten (by rw [hquiet.fpos]; omega)
            have hlater := hstored (by omega) (by rw [hsizes]; omega)
            have hstart := on.fpos_le hsize
            intro i hi
            have hlater := hlater i (by rw [hsizes, length_drop]; omega)
            rw [hlater, hplace, length_drop]
            by_cases hin : s.ff.fpos + n ≤ i ∧ i < s.ff.fpos + n + (bytes.length - n)
            · rw [if_pos hin, if_pos (by omega), getD_eq_getElem?_getD, getElem?_drop,
                ← getD_eq_getElem?_getD, show n + (i - (s.ff.fpos + n)) = i - s.ff.fpos by omega]
            · have hnow := hnow i (by rw [← capacity_eq]; omega)
                (by rw [hquiet.fpos, hquiet.size]; omega)
              rw [hquiet.fpos] at hnow
              rw [if_neg hin, show fileByte v chain₁ (advanced s₂ n) i = fileByte v chain₁ s₂ i from rfl,
                hnow]
              by_cases hin' : s.ff.fpos ≤ i ∧ i < s.ff.fpos + n
              · rw [if_pos hin', if_pos (by omega)]
              · rw [if_neg hin', if_neg (by omega), hbefore i (by omega)]
        · exact .inr ⟨hret, by omega⟩
      · have hend := on.fpos_end hj hk
        have hfull : (freeClusters v s.fs).card = 0 := by
          rw [Finset.card_eq_zero, Finset.eq_empty_iff_forall_notMem]
          exact fun c hc => hnone c (mem_freeClusters.mp hc)
        have hroom := h.volume.count
        rw [hfull, Nat.add_zero] at hroom
        refine ⟨chain₁, s₁, _, rfl, h₁, ⟨k, j, on₁⟩, prefix_rfl,
          ⟨hquiet.rdok, hquiet.wrok, hquiet.size⟩, .inr ⟨rfl, ?_⟩⟩
        rw [← hroom, ← capacity]
        omega
    · obtain rfl : bytes = [] := length_eq_zero_iff.mp (by omega)
      refine ⟨chain, s, _, rfl, h, ⟨k, j, on⟩, prefix_rfl, ⟨rfl, rfl, rfl⟩,
        .inl ⟨rfl, rfl, fun _ _ i _ => ?_⟩⟩
      rw [if_neg (by simp)]

/-- The place of a file between two calls: it has just been opened, or the current cluster and
sector belong to the position. -/
def Placed (v : Volume) (chain : List Nat) (ff : Ff) : Prop :=
  (ff.currentsector = 0 ∧ ff.fpos = 0 ∧ ff.currentcluster = chain.getD 0 0) ∨ OnSome v chain ff

theorem OnSome.currentsector_ne_zero (area : DataArea v) {ff : Ff} (on : OnSome v chain ff) :
    ff.currentsector ≠ 0 := by
  obtain ⟨k, j, on⟩ := on
  have hlow := database_le_sectorOf v (chain.getD k 0) j
  have hpos := area.database_pos
  rw [on.sector]
  omega

section

variable (h : Layout v own old room chain s) (area : DataArea v)
include h area

theorem currentsector_spec {k r : Nat} (hk : k < chain.length)
    (hcluster : s.ff.currentcluster = chain.getD k 0) (hfpos : s.ff.fpos = k * v.clustersize + r)
    (hr : r < v.clustersize) (hsize : s.ff.fpos ≤ s.ff.size) :
    ∃ ff, fatCurrentsector v s s.ff.fpos = ({ s with ff := ff }, 0) ∧ SameBuffer s.ff ff ∧
      SameFile s.ff ff ∧ ff.fpos = s.ff.fpos ∧ On v chain ff k (r / v.hwsectorsize) := by
  have hss := area.toWellFormed.sectorSize_pos
  have hbound := area.secperclus_le
  obtain ⟨hlow, hrange⟩ := h.volume.linked.getD_range hk
  have hj : r / v.hwsectorsize < v.fatsecperclus := (Nat.div_lt_iff_lt_mul hss).mpr hr
  have hsectors : s.ff.fpos / v.hwsectorsize = k * v.fatsecperclus + r / v.hwsectorsize := by
    rw [hfpos, Volume.clustersize, ← Nat.mul_assoc, Nat.mul_comm _ v.hwsectorsize,
      Nat.mul_add_div hss]
  have hoffset : s.ff.fpos / v.hwsectorsize &&& v.clusNdxmask = r / v.hwsectorsize := by
    rw [area.and_clusNdxmask, hsectors, Nat.mul_comm, Nat.mul_add_mod, Nat.mod_eq_of_lt hj]
  rw [fatCurrentsector, if_pos hsize]
  refine ⟨_, rfl, ⟨rfl, rfl, rfl, rfl, rfl⟩, ⟨rfl, rfl, rfl⟩, rfl, hk, hj.le, hcluster, ?_, ?_, hsectors, fun heq => absurd heq (by omega)⟩
  · show fatCluster2sector v s.ff.currentcluster + ((_ : Nat) : Int) = _
    rw [hcluster, area.cluster2sector hlow hrange]
    unfold sectorOf
    omega
  · show (v.fatsecperclus + 256 - _) % 256 = _
    omega

section

variable (placed : Placed v chain s.ff)
include placed

/-- The first access to a file after it has been opened. -/
theorem placed_start :
    ∃ s', (if s.ff.currentsector = 0 then fatCurrentsector v s s.ff.fpos else (s, 0)) = (s', 0) ∧
      Layout v own old room chain s' ∧ OnSome v chain s'.ff ∧ Quiet v chain s s' := by
  rcases placed with ⟨hzero, hfpos, hcluster⟩ | on
  · have hpos : 0 < v.clustersize := Nat.mul_pos area.secperclus_pos area.toWellFormed.sectorSize_pos
    obtain ⟨ff, hcurrent, hbuffer, hfile, hsame, on⟩ := currentsector_spec h area
      h.volume.linked.nonempty hcluster (by rw [hfpos]; omega) hpos (by omega)
    rw [if_pos hzero, hcurrent]
    refine ⟨_, rfl, h.move hbuffer.1 hbuffer.2 hbuffer.3 hbuffer.4 hbuffer.5, ⟨0, _, on⟩,
      fun sector _ => ?_, hfile.rdok, hfile.wrok, hsame, hfile.size⟩
    unfold fileView
    rw [hbuffer.valid, hbuffer.cachesector, hbuffer.buffer]
  · rw [if_neg (on.currentsector_ne_zero area)]
    exact ⟨s, rfl, h, on, Quiet.refl v chain s⟩

/-- `fat_read` returns, and what it returns is in the file as far as the file goes. -/
theorem fatRead_spec (hrdok : s.ff.rdok = true) (buflen : Nat) :
    ∃ s' ret bytes, fatRead v s buflen = some (s', ret, bytes) ∧
      Layout v own old room chain s' ∧ Placed v chain s'.ff ∧ SameFile s.ff s'.ff ∧
      (∀ sector, InFile v chain sector → fileView s' sector = fileView s sector) ∧
      (s.ff.fpos ≤ s.ff.size → s.ff.size ≤ capacity v chain → s.ff.size < 2 ^ 32 →
        ret = (min buflen (s.ff.size - s.ff.fpos) : Nat) ∧
        bytes = fileBytes v chain s s.ff.fpos (min buflen (s.ff.size - s.ff.fpos)) ∧
        s'.ff.fpos = s.ff.fpos + min buflen (s.ff.size - s.ff.fpos)) := by
  obtain ⟨s₁, hstart, h₁, on₁, hquiet⟩ := placed_start h area placed
  simp only [fatRead, hrdok]
  rw [hstart]
  generalize hn : min buflen ((s.ff.size - s.ff.fpos : Int) % 2 ^ 32).toNat = n
  obtain ⟨s', ret, bytes, hloop, h', on', hfile, hviews, hresult⟩ :=
    readLoop_spec area n s₁ n [] le_rfl h₁ on₁
  refine ⟨s', ret, bytes, hloop, h', .inr on', ?_, fun sector hin => ?_, fun hpos hfits hwrap => ?_⟩
  · exact ⟨hfile.rdok.trans hquiet.rdok, hfile.wrok.trans hquiet.wrok, hfile.size.trans hquiet.size⟩
  · exact (hviews sector hin).trans (hquiet.views sector hin)
  · have hleft : n = min buflen (s.ff.size - s.ff.fpos) := by omega
    rw [← hleft]
    rw [hquiet.fpos] at hresult
    rcases hresult with ⟨hret, hbytes, hend⟩ | ⟨-, hbehind⟩
    · refine ⟨by simpa using hret, ?_, hend⟩
      rw [hbytes]
      exact fileBytes_congr area hquiet.views (by omega)
    · omega

theorem writeStart_spec :
    ∃ s', writeStart v s = some (s', 0) ∧ Layout v own old room chain s' ∧ OnSome v chain s'.ff ∧
      Quiet v chain s s' := by
  obtain ⟨s', hstart, h', on', hquiet⟩ := placed_start h area placed
  refine ⟨s', ?_, h', on', hquiet⟩
  have hchain : s.ff.startcluster ≠ 0 := by
    have := (h.volume.linked.getD_range h.volume.linked.nonempty).1
    rw [h.start]
    omega
  unfold writeStart
  split at hstart
  · next hzero => rw [if_pos hzero, if_neg hchain, hstart]
  · next hzero => rw [if_neg hzero, hstart]

end

end

/-- How `fat_write` may end: the size would not fit, all bytes have been written, or all clusters
are in use. -/
def WriteResult (v : Volume) (room : Nat) (chain chain' : List Nat) (s s' : St) (bytes : List UInt8)
    (ret : Int) : Prop :=
  (ret = -efbig ∧ chain' = chain ∧ s' = s ∧ 2 ^ 32 ≤ s.ff.size + bytes.length) ∨
  (ret = (bytes.length : Nat) ∧ s'.ff.fpos = s.ff.fpos + bytes.length ∧
    (s.ff.fpos + bytes.length < 2 ^ 31 → s.ff.size ≤ capacity v chain →
      s'.ff.size = max s.ff.size (s.ff.fpos + bytes.length) ∧ Stored v chain chain' s s' bytes)) ∨
  (ret = -enospc ∧ room * v.clustersize < s.ff.fpos + bytes.length)

theorem offT_eq {n : Nat} (h : n < 2 ^ 31) : offT n = n := by
  unfold offT
  omega

theorem updateSize_spec (s : St) :
    ∃ n, updateSize s = { s with ff := { s.ff with size := n } } ∧
      (s.ff.fpos < 2 ^ 31 → n = max s.ff.size s.ff.fpos) := by
  unfold updateSize
  by_cases hgrown : offT s.ff.fpos > s.ff.size
  · rw [if_pos hgrown]
    refine ⟨_, rfl, fun hwrap => ?_⟩
    rw [offT_eq hwrap] at hgrown ⊢
    omega
  · rw [if_neg hgrown]
    refine ⟨s.ff.size, rfl, fun hwrap => ?_⟩
    rw [offT_eq hwrap] at hgrown
    omega

theorem fatWrite_spec (h : Layout v own old room chain s) (area : DataArea v)
    (placed : Placed v chain s.ff) (hwrok : s.ff.wrok = true) (bytes : List UInt8) :
    ∃ chain' s' ret, fatWrite v s bytes = some (s', ret) ∧ Layout v own old room chain' s' ∧
      Placed v chain' s'.ff ∧ chain <+: chain' ∧ s'.ff.rdok = s.ff.rdok ∧ s'.ff.wrok = s.ff.wrok ∧
      WriteResult v room chain chain' s s' bytes ret := by
  have hnot : ¬s.ff.wrok = false := by simp [hwrok]
  rw [fatWrite, if_neg hnot]
  by_cases hbig : uint32 (s.ff.size + bytes.length) < s.ff.size
  · rw [if_pos hbig]
    refine ⟨chain, s, _, rfl, h, placed, prefix_rfl, rfl, rfl, .inl ⟨rfl, rfl, rfl, ?_⟩⟩
    unfold uint32 at hbig
    omega
  · rw [if_neg hbig]
    obtain ⟨s₁, hstart, h₁, on₁, hquiet⟩ := writeStart_spec h area placed
    obtain ⟨chain', s₂, ret, hloop, h₂, on₂, hextends, hfile, hresult⟩ :=
      writeLoop_spec area bytes.length chain s₁ bytes 0 le_rfl h₁ on₁
    have hrdok := hfile.rdok.trans hquiet.rdok
    have hwrok' := hfile.wrok.trans hquiet.wrok
    have hsize := hfile.size.trans hquiet.size
    rw [hquiet.fpos, hquiet.size, Nat.zero_add] at hresult
    simp only [hstart, hloop]
    rcases hresult with ⟨rfl, hend, hstored⟩ | ⟨rfl, hfull⟩
    · obtain ⟨n, hupdate, hn⟩ := updateSize_spec s₂
      rw [hupdate]
      refine ⟨chain', _, _, rfl, h₂.move rfl rfl rfl rfl rfl, .inr ?_, hextends, hrdok, hwrok',
        .inr (.inl ⟨rfl, hend, fun hwrap hfits => ⟨?_, fun i hi => ?_⟩⟩)⟩
      · obtain ⟨k, j, on⟩ := on₂
        exact ⟨k, j, on.1, on.2, on.3, on.4, on.5, on.6, on.7⟩
      · rw [hend, hsize] at hn
        exact hn hwrap
      · have hbyte := hstored (by omega) hfits i (by rw [hquiet.size, hquiet.fpos]; exact hi)
        have hplace := on₁.choose_spec.choose_spec.fpos_le area.toWellFormed.sectorSize_pos
        rw [hquiet.fpos] at hbyte hplace
        refine Eq.trans rfl (hbyte.trans ?_)
        by_cases hin : s.ff.fpos ≤ i ∧ i < s.ff.fpos + bytes.length
        · rw [if_pos hin, if_pos hin]
        · rw [if_neg hin, if_neg hin, fileByte_congr area hquiet.views (by omega)]
    · exact ⟨chain', s₂, -enospc, rfl, h₂, .inr on₂, hextends, hrdok, hwrok', .inr (.inr ⟨rfl, hfull⟩)⟩

/-- The bytes of the file stay when its chain grows. -/
def SameBytes (v : Volume) (chain chain' : List Nat) (s s' : St) : Prop :=
  ∀ i < capacity v chain, fileByte v chain' s' i = fileByte v chain s i

theorem SameBytes.trans {chain₁ chain₂ : List Nat} {s₁ s₂ : St}
    (h : SameBytes v chain chain₁ s s₁) (hextends : chain <+: chain₁)
    (h' : SameBytes v chain₁ chain₂ s₁ s₂) : SameBytes v chain chain₂ s s₂ := by
  intro i hi
  have := capacity_mono (v := v) hextends
  rw [h' i (by omega), h i hi]

/-- The bytes after `fat_extendchain` has put a cluster behind the chain, or has followed it. -/
theorem sameBytes_extend (area : DataArea v)
    (hchain : chain' = chain ∨ ∃ new, chain' = chain ++ [new])
    (hviews : ∀ sector, InFile v chain sector → fileView s' sector = fileView s sector) :
    SameBytes v chain chain' s s' := by
  intro i hi
  rcases hchain with rfl | ⟨new, rfl⟩
  · exact fileByte_congr area hviews hi
  · rw [fileByte_extend area new hi]
    exact fileByte_congr area hviews hi

/-- The cluster behind the one with index `k`; if the file cannot be written, there must be one. -/
theorem seekNext_spec (h : Layout v own old room chain s) (area : DataArea v) {k : Nat}
    (hk : k < chain.length) (hmode : s.ff.wrok = false → k + 1 < chain.length) :
    ∃ chain' fs' r, (if s.ff.wrok = true then fatExtendchain v s.fs (chain.getD k 0)
        else some (fatGetcluster v s.fs (chain.getD k 0))) = some (fs', r) ∧
      Follows v own old room chain s k chain' fs' r := by
  cases hwrok : s.ff.wrok with
  | true => exact h.extendchain area hk
  | false =>
    obtain ⟨hlow, hrange⟩ := h.volume.linked.getD_range hk
    obtain ⟨hsame, hvalue⟩ := getcluster_same area h.volume.cache hlow hrange
    rw [h.volume.linked.links k (hmode hwrok)] at hvalue
    exact ⟨chain, _, _, rfl, .inl ⟨hvalue, hmode hwrok, .inl rfl⟩, fun ff hff =>
      h.follow area hsame ff hff⟩

/-- The loop of `fat_seek` from the cluster with index `k` on: it stops at the cluster of the
position, with the chain extended up to there. -/
theorem seekLoop_spec (area : DataArea v) (fuel : Nat) : ∀ chain s k position,
    position < fuel → Layout v own old room chain s → k < chain.length →
    (s.ff.wrok = false → k + position / v.clustersize < chain.length) →
    s.ff.fpos = k * v.clustersize → k + position / v.clustersize + 1 ≤ room →
    ∃ chain' s' rest k', seekLoop v fuel s (chain.getD k 0) position = some (s', rest, 0) ∧
      Layout v own old room chain' s' ∧ chain <+: chain' ∧ SameBytes v chain chain' s s' ∧
      SameFile s.ff s'.ff ∧ k' < chain'.length ∧ s'.ff.currentcluster = chain'.getD k' 0 ∧
      s'.ff.fpos = k' * v.clustersize ∧ rest < v.clustersize ∧
      s'.ff.fpos + rest = s.ff.fpos + position := by
  have hsize := area.toWellFormed.sectorSize_pos
  have hpos : 0 < v.clustersize := Nat.mul_pos area.secperclus_pos hsize
  induction fuel with
  | zero => omega
  | succ fuel ih =>
    intro chain s k position hfuel h hk hmode hfpos hroom
    have hmoved : Layout v own old room chain
        { s with ff := { s.ff with currentcluster := chain.getD k 0 } } :=
      h.move rfl rfl rfl rfl rfl
    rw [seekLoop]
    simp only [show v.fatsecperclus * v.hwsectorsize = v.clustersize from rfl]
    by_cases hhere : position < v.clustersize
    · rw [if_pos hhere]
      exact ⟨chain, _, position, k, rfl, hmoved, prefix_rfl, fun _ _ => rfl,
        ⟨rfl, rfl, rfl⟩, hk, rfl, hfpos, hhere, rfl⟩
    · rw [if_neg hhere]
      have hstep : position / v.clustersize = (position - v.clustersize) / v.clustersize + 1 := by
        rw [← Nat.add_div_right _ hpos, Nat.sub_add_cancel (by omega)]
      have hmore := Nat.div_pos (Nat.le_of_not_lt hhere) hpos
      obtain ⟨chain₁, fs₁, r, hnext, hresult, hstate⟩ := seekNext_spec hmoved area hk
        fun hwrok => by
          have := hmode hwrok
          omega
      simp only [hnext]
      rcases hresult with ⟨rfl, hnext, hchain⟩ | ⟨rfl, -, hlength, hnone⟩
      · obtain ⟨h₁, hviews⟩ := hstate
          { s.ff with
            currentcluster := chain.getD k 0
            fpos := s.ff.fpos + v.clustersize } ⟨rfl, rfl, rfl, rfl, rfl⟩
        obtain ⟨hnlow, hnrange⟩ := h₁.volume.linked.getD_range hnext
        rw [if_neg (by omega), if_neg (by omega), if_neg (by omega)]
        have hextends₁ : chain <+: chain₁ := by
          rcases hchain with rfl | ⟨-, new, rfl⟩
          · exact prefix_rfl
          · exact prefix_append _ _
        have hbytes₁ : SameBytes v chain chain₁ s _ := sameBytes_extend area (hchain.imp_right And.right) hviews
        obtain ⟨chain', s', rest, k', hloop, h', hextends, hbytes, hfile, hk', hcluster, hfpos', hrest, hsum⟩ :=
          ih chain₁ _ (k + 1) (position - v.clustersize) (by omega) h₁ hnext
            (fun hwrok => by
              have := hmode hwrok
              have := hextends₁.length_le
              omega)
            (by show s.ff.fpos + _ = _; rw [hfpos, Nat.add_mul, Nat.one_mul]) (by omega)
        refine ⟨chain', s', rest, k', hloop, h', hextends₁.trans hextends, hbytes₁.trans hextends₁ hbytes,
          ⟨hfile.rdok, hfile.wrok, hfile.size⟩, hk', hcluster, hfpos', hrest, ?_⟩
        rw [hsum]
        show s.ff.fpos + v.clustersize + _ = _
        omega
      · -- there is room for the cluster, so one is free
        have hcount := h.volume.count
        have hfree : 0 < (freeClusters v s.fs).card := by omega
        obtain ⟨c, hc⟩ := Finset.card_pos.mp hfree
        exact absurd (mem_freeClusters.mp hc) (hnone c)

section

variable (h : Layout v own old room chain s)
include h

theorem Layout.flush_view (area : DataArea v) (sector : Int) :
    fileView (fatFfcacheflush s) sector = fileView s sector := by
  obtain ⟨-, hff, hdev⟩ := h.flush area
  rw [fileView, hff, hdev]
  simp only [fileView]
  split <;> rfl

/-- The current cluster, the current sector and the remaining sectors are those of the position. -/
def AtPlace (v : Volume) (chain : List Nat) (ff : Ff) : Prop :=
  On v chain ff (ff.fpos / v.clustersize) (ff.fpos % v.clustersize / v.hwsectorsize)

/-- `fat_seek` along the chain, from the start of the file. -/
theorem seekChain_spec (area : DataArea v) (hfpos : s.ff.fpos = 0) (position : Nat)
    (hmode : s.ff.wrok = false → position / v.clustersize < chain.length)
    (hend : position ≤ s.ff.size) (hroom : position / v.clustersize + 1 ≤ room) :
    ∃ chain' s', seekChain v s s.ff.startcluster position = some (s', 0) ∧
      Layout v own old room chain' s' ∧ AtPlace v chain' s'.ff ∧ chain <+: chain' ∧
      SameBytes v chain chain' s s' ∧ SameFile s.ff s'.ff ∧ s'.ff.fpos = position := by
  obtain ⟨chain', s₁, rest, k, hloop, h₁, hextends, hbytes, hfile, hk, hcluster, hfpos₁, hrest, hsum⟩ :=
    seekLoop_spec area (position + 1) chain s 0 position (Nat.lt_succ_self _) h
      h.volume.linked.nonempty (by rwa [Nat.zero_add]) (by rw [hfpos, Nat.zero_mul]) (by omega)
  rw [hfpos, Nat.zero_add] at hsum
  rw [seekChain, h.start, hloop]
  simp only [Int.lt_irrefl, if_false]
  have h₂ : Layout v own old room chain' { s₁ with ff := { s₁.ff with fpos := s₁.ff.fpos + rest } } :=
    h₁.move rfl rfl rfl rfl rfl
  obtain ⟨ff, hcurrent, hbuffer, hfile₂, hplace, on⟩ := currentsector_spec h₂ area hk hcluster
    (by show s₁.ff.fpos + rest = _; rw [hfpos₁]) hrest
    (by show s₁.ff.fpos + rest ≤ s₁.ff.size; rw [hsum, hfile.size]; exact hend)
  rw [hcurrent]
  have h₃ : Layout v own old room chain' { s₁ with ff := ff } :=
    h₂.move hbuffer.1 hbuffer.2 hbuffer.3 hbuffer.4 hbuffer.5
  have hviews₃ : ∀ sector, fileView { s₁ with ff := ff } sector = fileView s₁ sector := by
    intro sector
    unfold fileView
    rw [show ff.valid = s₁.ff.valid from hbuffer.valid,
      show ff.cachesector = s₁.ff.cachesector from hbuffer.cachesector,
      show ff.buffer = s₁.ff.buffer from hbuffer.buffer]
  have hfpos₃ : ff.fpos = position := hplace.trans hsum
  have hsize₃ : ff.size = s.ff.size := hfile₂.size.trans hfile.size
  -- the sector of the position is read into the buffer, unless the position is its start
  obtain ⟨s₄, hs₄, h₄, hplace₄, hviews₄⟩ : ∃ s₄,
      (if rest &&& v.secNdxmask ≠ 0 then fatFfcacheread { s₁ with ff := ff } ff.currentsector
        else { s₁ with ff := ff }) = s₄ ∧ Layout v own old room chain' s₄ ∧ SamePlace ff s₄.ff ∧
      ∀ sector, InFile v chain' sector → fileView s₄ sector = fileView s₁ sector := by
    split
    · have hin := on.inFile (i := 0) (by
        have := (Nat.div_lt_iff_lt_mul area.toWellFormed.sectorSize_pos).mpr hrest
        omega)
      rw [Int.natCast_zero, Int.add_zero] at hin
      obtain ⟨h₄, hplace₄, hvalid, hcached, hbuf, hdev⟩ := h₃.read area hin
      refine ⟨_, rfl, h₄, hplace₄, fun sector _ => ?_⟩
      rw [← hviews₃ sector]
      by_cases heq : sector = ff.currentsector
      · rw [fileView, if_pos ⟨hvalid, hcached.trans heq.symm⟩, hbuf, heq]
      · rw [fileView, if_neg fun hc => heq (hc.2.symm.trans hcached), hdev sector heq]
    · exact ⟨_, rfl, h₃, ⟨rfl, rfl, rfl, rfl, rfl, rfl, rfl, rfl⟩, fun sector _ => hviews₃ sector⟩
  rw [hs₄, if_neg (by rw [hplace₄.fpos, hplace₄.size]; omega)]
  have hfpos₄ : s₄.ff.fpos = position := hplace₄.fpos.trans hfpos₃
  obtain ⟨hindex, hoffset⟩ : position / v.clustersize = k ∧ position % v.clustersize = rest :=
    (Nat.div_mod_unique (by omega)).mpr
      ⟨by rw [← hsum, hfpos₁, Nat.mul_comm, Nat.add_comm], hrest⟩
  refine ⟨chain', s₄, rfl, h₄, ?_, hextends,
    hbytes.trans hextends fun i hi => fileByte_congr area hviews₄ hi, ?_, hfpos₄⟩
  · rw [AtPlace, hfpos₄, hindex, hoffset]
    exact on.within hplace₄ ((Nat.div_lt_iff_lt_mul area.toWellFormed.sectorSize_pos).mpr hrest)
      (b := 0) rfl rfl rfl rfl rfl
  · exact ⟨hplace₄.rdok.trans (hfile₂.rdok.trans hfile.rdok),
      hplace₄.wrok.trans (hfile₂.wrok.trans hfile.wrok), hplace₄.size.trans hsize₃⟩

/-- `fat_seek`, not past the end of a file that can be written, nor to the end of a full chain that
cannot be extended. -/
theorem fatSeek_spec (area : DataArea v) (placed : Placed v chain s.ff)
    (hfpos : s.ff.fpos ≤ s.ff.size) {offset : Int} {whence : Whence} {position : Nat}
    (hposition : seekPosition s offset whence = position)
    (hend : s.ff.wrok = true → position ≤ s.ff.size)
    (hroom : position ≠ s.ff.fpos → min position s.ff.size / v.clustersize <
      if s.ff.wrok = true then room else chain.length) :
    ∃ chain' s', fatSeek v s offset whence = some (s', 0) ∧ Layout v own old room chain' s' ∧
      Placed v chain' s'.ff ∧ (position ≠ s.ff.fpos → AtPlace v chain' s'.ff) ∧ chain <+: chain' ∧
      SameBytes v chain chain' s s' ∧ SameFile s.ff s'.ff ∧
      s'.ff.fpos = min position s.ff.size := by
  rw [fatSeek]
  simp only [hposition]
  by_cases hsame : position = s.ff.fpos
  · rw [if_pos (by omega)]
    exact ⟨chain, s, rfl, h, placed, absurd hsame, prefix_rfl, fun _ _ => rfl,
      ⟨rfl, rfl, rfl⟩, by omega⟩
  · rw [if_neg (by omega)]
    obtain ⟨hflush, hff, -⟩ := h.flush area
    have hstart : s.ff.startcluster ≠ 0 := by
      have := (h.volume.linked.getD_range h.volume.linked.nonempty).1
      rw [h.start]
      omega
    have hwrok₁ : (fatFfcacheflush s).ff.wrok = s.ff.wrok := by rw [hff]
    have hstart₁ : (fatFfcacheflush s).ff.startcluster ≠ 0 := by rw [hff]; exact hstart
    have hsize₁ : (fatFfcacheflush s).ff.size = s.ff.size := by rw [hff]
    have htarget : (if (position : Int) > (fatFfcacheflush s).ff.size ∧
        (fatFfcacheflush s).ff.wrok = false then ((fatFfcacheflush s).ff.size : Int)
        else position) = (min position s.ff.size : Nat) := by
      rw [hwrok₁]
      by_cases hpast : position ≤ s.ff.size
      · rw [if_neg (by omega)]
        omega
      · rw [if_pos ⟨by omega, Bool.eq_false_iff.mpr fun hwrok => hpast (hend hwrok)⟩]
        omega
    have hcount := h.volume.count
    have hroom := hroom hsame
    rw [if_neg hstart₁, htarget]
    have h₁ : Layout v own old room chain
        { fatFfcacheflush s with
          ff := { (fatFfcacheflush s).ff with fpos := 0, sectorsincluster := v.fatsecperclus } } :=
      hflush.move rfl rfl rfl rfl rfl
    obtain ⟨chain', s', hseek, h', on', hextends, hbytes, hfile, hfpos⟩ :=
      seekChain_spec h₁ area rfl (min position s.ff.size)
        (fun hwrok => by simpa [hwrok₁.symm.trans hwrok] using hroom)
        ((Nat.min_le_right _ _).trans_eq hsize₁.symm) (by split at hroom <;> omega)
    refine ⟨chain', s', hseek, h', .inr ⟨_, _, on'⟩, fun _ => on', hextends, fun i hi => ?_, ?_, hfpos⟩
    · rw [hbytes i hi]
      exact fileByte_congr area (fun sector _ => h.flush_view area sector) hi
    · refine ⟨hfile.rdok.trans ?_, hfile.wrok.trans ?_, hfile.size.trans hsize₁⟩
      · show (fatFfcacheflush s).ff.rdok = _
        rw [hff]
      · show (fatFfcacheflush s).ff.wrok = _
        rw [hff]

end

end NbLot.Source.Fat
