import NbLot.Guarantees.FatContents
import NbLot.Lib.Transition

/-!
# Where `fat_write` writes

In every sequence of reads and writes on a file, the sectors of data that are handed to the device
lie in the clusters of the file, and a write for which there are not enough clusters fails, provided
that the numbers of the file's clusters are below `fs_nclusters` and that a file without a cluster
is written before it is read, while a cluster is free.

Without a cluster, `fat_currentsector` adds to the error of `fat_cluster2sector`: the current sector
becomes negative, which is taken for a sector that has been set. This happens in `fat_write` when
`fat_createchain` finds no free cluster, and in `fat_read` of an empty file (`outside_written`).
-/
namespace NbLot.Guarantees.FatPlaces
open Lib.Transition Source.Fat List
open FatContents (tiny tiny_area tinyRecord tinyFs openFile tinyFs_cacheOk)

inductive Access where
  | read (buflen : Nat)
  | write (bytes : List UInt8)

def step (v : Volume) (s : St) : Access → Option St
  | .read buflen => (fatRead v s buflen).map fun r => r.1
  | .write bytes => (fatWrite v s bytes).map fun r => r.1

/-- A file without a cluster is written, while a cluster is free. -/
def Started (v : Volume) (s : St) (access : Access) : Prop :=
  s.ff.startcluster = 0 →
    (freeClusters v s.fs).Nonempty ∧ match access with
      | .read _ => False
      | .write _ => True

instance (v : Volume) (s : St) : ∀ access, Decidable (Started v s access)
  | .read _ => inferInstanceAs (Decidable (_ → _ ∧ False))
  | .write _ => inferInstanceAs (Decidable (_ → _ ∧ True))

/-- The chain of a file; an empty file may have none. -/
def FileChain (v : Volume) (s : St) (chain : List Nat) : Prop :=
  (s.ff.startcluster = 0 ∧ chain = []) ∨
    (Chain v s.fs chain ∧ s.ff.startcluster = chain.getD 0 0)

/-- A file that has just been opened on a well-formed volume, with its chain. The sector cache holds
no sector of the file or of a free cluster. -/
structure Opened (v : Volume) (chain : List Nat) (s : St) : Prop where
  cache : CacheOk v s.fs
  nodup : chain.Nodup
  numbers : ∀ c ∈ chain, 2 ≤ c ∧ c < v.nclusters + 2
  links : ∀ i, i + 1 < chain.length → entry v s.fs (chain.getD i 0) = chain.getD (i + 1) 0
  last : 0 < chain.length → v.nclusters + 2 ≤ entry v s.fs (chain.getD (chain.length - 1) 0)
  apart : ¬InClusters v (fun c => c ∈ chain ∨ Free v s.fs c) s.fs.currentsector
  size_le : s.ff.size ≤ capacity v chain
  fpos : s.ff.fpos = 0
  startcluster : s.ff.startcluster = chain.getD 0 0
  currentcluster : s.ff.currentcluster = chain.getD 0 0
  currentsector : s.ff.currentsector = 0
  dirty : s.ff.dirty = false
  valid : s.ff.valid = false
  handed : s.handed = []

variable {v : Volume} {own : Nat → Prop} {old : Fs} {room : Nat} {chain : List Nat} {s s' : St}

/-- A file that has no cluster yet. -/
structure Unstarted (v : Volume) (own : Nat → Prop) (s : St) : Prop where
  cache : CacheOk v s.fs
  freeOurs : ∀ c, Free v s.fs c → own c
  apart : ¬InClusters v own s.fs.currentsector
  startcluster : s.ff.startcluster = 0
  currentsector : s.ff.currentsector = 0
  fpos : s.ff.fpos = 0
  size : s.ff.size = 0
  dirty : s.ff.dirty = false
  valid : s.ff.valid = false
  handed : s.handed = []

section

variable (area : DataArea v)
include area

theorem onVolume_start (h : Unstarted v own s) {new : Nat} {fs' : Fs} (hfree : Free v s.fs new)
    (hlinked : Linked v s.fs fs' 0 new) :
    OnVolume v own fs' ([new].length + (freeClusters v fs').card) [new] fs' := by
  obtain ⟨hlow, hnew, -⟩ := id hfree
  have hmark := lt_endMark area
  have hzero : ¬Free v s.fs 0 := fun h => absurd h.1 (by decide)
  have hentry : entry v fs' new = endMark v := by
    rw [hlinked.2 new hlow (Nat.lt_add_right 2 hnew), if_neg (by omega), if_pos rfl]
  refine ⟨hlinked.1.ok, ⟨Nat.one_pos, nodup_singleton new, ?_, fun i hi => ?_, ?_⟩, ?_,
    fun c hc => ?_, ?_, fun _ _ _ _ => rfl, fun _ _ _ => rfl, rfl⟩
  · intro c hc
    rw [mem_singleton] at hc
    exact hc ▸ ⟨hlow, hnew⟩
  · simp at hi
  · show v.nclusters ≤ entry v fs' new
    omega
  · intro c hc
    rw [mem_singleton] at hc
    exact hc ▸ h.freeOurs new hfree
  · exact h.freeOurs c ((hlinked.free_iff area hfree hzero c).mp hc).1
  · rcases hlinked.1.label with hlabel | hlabel
    · rw [hlabel]
      exact h.apart
    · rintro ⟨c, -, j, -, hsector⟩
      have := database_le_sectorOf v c j
      omega

/-- The first write to a file without a cluster is the first write to a file of one cluster. -/
theorem fatWrite_start (h : Unstarted v own s) (hfree : (freeClusters v s.fs).Nonempty)
    (hwrok : s.ff.wrok = true) :
    ∃ s₁ new, (∀ bytes, fatWrite v s bytes = fatWrite v s₁ bytes) ∧
      Layout v own s₁.fs ([new].length + (freeClusters v s₁.fs).card) [new] s₁ ∧
      Placed v [new] s₁.ff ∧ s₁.ff.wrok = true ∧ s₁.ff.fpos = 0 ∧
      [new].length + (freeClusters v s₁.fs).card = (freeClusters v s.fs).card := by
  obtain ⟨c, hc⟩ := hfree
  obtain ⟨fs', r, hcreate, hext⟩ := createchain_spec area h.cache
  rcases hext with ⟨new, hnew, rfl, hlinked⟩ | ⟨hnone, -⟩
  · obtain ⟨hlow, hrange, -⟩ := id hnew
    have hbits : 2 ^ v.fatType.bits ≤ 2 ^ 28 := by
      cases v.fatType <;> simp [FatType.bits]
    have hfit := area.numbersFit
    have hcluster : ((new : Int) % 2 ^ 32).toNat = new := by omega
    have hvolume := onVolume_start area h hnew hlinked
    refine ⟨{ s with
        fs := fs'
        ff := { s.ff with
          startcluster := new
          currentcluster := new
          sectorsincluster := v.fatsecperclus } }, new, fun bytes => ?_,
      ⟨hvolume, rfl, fun hv => ?_, fun hv => ?_, fun _ => h.dirty, fun sector hs => ?_⟩,
      .inl ⟨h.currentsector, h.fpos, rfl⟩, hwrok, h.fpos, ?_⟩
    · have hnot : ¬s.ff.wrok = false := by simp [hwrok]
      have hsmall : ¬uint32 (s.ff.size + bytes.length) < s.ff.size := by
        rw [h.size]
        exact Nat.not_lt_zero _
      rw [fatWrite, if_neg hnot, if_neg hsmall, fatWrite, if_neg (by exact hnot),
        if_neg (by exact hsmall)]
      simp only [writeStart, h.currentsector, h.startcluster, hcreate, hcluster, if_true,
        if_neg (show ¬new = 0 by omega)]
    · simp [h.valid] at hv
    · simp [h.valid] at hv
    · simp [h.handed] at hs
    · have hcard := hlinked.card area hnew fun h => absurd h.1 (by decide)
      show 1 + (freeClusters v fs').card = _
      omega
  · exact absurd (mem_freeClusters.mp hc) (hnone c)

/-- Between two accesses the file has a chain and its place, or it has no cluster and nothing has
been written. -/
def Inv (v : Volume) (s : St) : Prop :=
  (∃ own old room chain, Layout v own old room chain s ∧ Placed v chain s.ff) ∨
    ∃ own, Unstarted v own s

theorem fatRead_inv (h : Layout v own old room chain s) (hplaced : Placed v chain s.ff)
    (buflen : Nat) : ∃ s' ret bytes, fatRead v s buflen = some (s', ret, bytes) ∧ Inv v s' := by
  cases hrdok : s.ff.rdok with
  | false => exact ⟨s, _, _, by rw [fatRead, if_pos hrdok], .inl ⟨own, old, room, chain, h, hplaced⟩⟩
  | true =>
    obtain ⟨s', ret, bytes, hread, h', hplaced', -⟩ := fatRead_spec h area hplaced hrdok buflen
    exact ⟨s', ret, bytes, hread, .inl ⟨own, old, room, chain, h', hplaced'⟩⟩

/-- A write fails if the clusters of the file and the free ones are too few for it. -/
theorem fatWrite_inv (h : Layout v own old room chain s) (hplaced : Placed v chain s.ff)
    (bytes : List UInt8) :
    ∃ s' ret, fatWrite v s bytes = some (s', ret) ∧ Inv v s' ∧
      (room * v.clustersize < s.ff.fpos + bytes.length → ret < 0) := by
  cases hwrok : s.ff.wrok with
  | false =>
    exact ⟨s, -eacces, by rw [fatWrite, if_pos hwrok], .inl ⟨own, old, room, chain, h, hplaced⟩,
      fun _ => by decide⟩
  | true =>
    obtain ⟨chain', s', ret, hwrite, h', hplaced', -, -, -, hresult⟩ :=
      fatWrite_spec h area hplaced hwrok bytes
    refine ⟨s', ret, hwrite, .inl ⟨own, old, room, chain', h', hplaced'⟩, fun hroom => ?_⟩
    rcases hresult with ⟨rfl, -⟩ | ⟨-, hfpos, -⟩ | ⟨rfl, -⟩
    · decide
    · -- the position is within the chain, and the chain within the room
      have hpos : s'.ff.fpos ≤ capacity v chain' := by
        rcases hplaced' with ⟨-, hzero, -⟩ | ⟨k, j, on⟩
        · omega
        · exact on.fpos_le area.toWellFormed.sectorSize_pos
      have hcount := h'.volume.count
      have hcap : capacity v chain' ≤ room * v.clustersize := Nat.mul_le_mul_right _ (by omega)
      omega
    · decide

theorem fatWrite_unstarted (h : Unstarted v own s) (hfree : (freeClusters v s.fs).Nonempty)
    (bytes : List UInt8) :
    ∃ s' ret, fatWrite v s bytes = some (s', ret) ∧ Inv v s' ∧
      ((freeClusters v s.fs).card * v.clustersize < s.ff.fpos + bytes.length → ret < 0) := by
  cases hwrok : s.ff.wrok with
  | false =>
    exact ⟨s, -eacces, by rw [fatWrite, if_pos hwrok], .inr ⟨own, h⟩, fun _ => by decide⟩
  | true =>
    obtain ⟨s₁, new, hsame, h₁, hplaced, -, hfpos, hcount⟩ := fatWrite_start area h hfree hwrok
    obtain ⟨s', ret, hwrite, hinv, hfails⟩ := fatWrite_inv area h₁ hplaced bytes
    refine ⟨s', ret, by rw [hsame, hwrite], hinv, fun hroom => hfails ?_⟩
    rw [hcount, hfpos]
    rwa [h.fpos] at hroom

theorem step_inv (hinv : Inv v s) (access : Access) (hok : Started v s access) :
    ∃ s', step v s access = some s' ∧ Inv v s' := by
  rcases hinv with ⟨own, old, room, chain, h, hplaced⟩ | ⟨own, h⟩
  · cases access with
    | read buflen =>
      obtain ⟨s', ret, bytes, hread, hinv⟩ := fatRead_inv area h hplaced buflen
      exact ⟨s', by rw [step, hread, Option.map_some], hinv⟩
    | write bytes =>
      obtain ⟨s', ret, hwrite, hinv, -⟩ := fatWrite_inv area h hplaced bytes
      exact ⟨s', by rw [step, hwrite, Option.map_some], hinv⟩
  · obtain ⟨hfree, hwrite⟩ := hok h.startcluster
    cases access with
    | read buflen => exact hwrite.elim
    | write bytes =>
      obtain ⟨s', ret, hwrite, hinv, -⟩ := fatWrite_unstarted area h hfree bytes
      exact ⟨s', by rw [step, hwrite, Option.map_some], hinv⟩

end

theorem Opened.inv (h : Opened v chain s) (hrange : ∀ c ∈ chain, c < v.nclusters) : Inv v s := by
  rcases Nat.eq_zero_or_pos chain.length with hempty | hpos
  · obtain rfl := length_eq_zero_iff.mp hempty
    have hsize : s.ff.size = 0 := by
      have hle := h.size_le
      rw [capacity, length_nil] at hle
      omega
    exact .inr ⟨_, h.cache, fun c hc => .inr hc, h.apart, h.startcluster, h.currentsector, h.fpos,
      hsize, h.dirty, h.valid, h.handed⟩
  · have hlast := h.last hpos
    refine .inl ⟨fun c => c ∈ chain ∨ Free v s.fs c, s.fs, _, chain,
      ⟨⟨h.cache, ⟨hpos, h.nodup, fun c hc => ⟨(h.numbers c hc).1, hrange c hc⟩, h.links, by omega⟩,
        fun c hc => .inl hc, fun c hc => .inr hc, h.apart, fun _ _ _ _ => rfl, fun _ _ _ => rfl, rfl⟩,
        h.startcluster, fun hv => ?_, fun hv => ?_, fun _ => h.dirty, fun sector hs => ?_⟩,
      .inl ⟨h.currentsector, h.fpos, h.currentcluster⟩⟩
    · simp [h.valid] at hv
    · simp [h.valid] at hv
    · simp [h.handed] at hs

/-- A file whose clusters have numbers below `fs_nclusters`, in every sequence of reads and writes
that do not find it without a cluster, except for a write while a cluster is free: all calls
return, the sectors of data handed to the device are in the clusters of the file, and a write that
the clusters of the file and the free ones have no room for fails. -/
theorem written_in_chain (area : DataArea v) (opened : Opened v chain s)
    (hrange : ∀ c ∈ chain, c < v.nclusters) (accesses : List Access)
    (hok : StepsMeet (step v) (Started v) s accesses) :
    ∃ s' chain', run (step v) s accesses = some s' ∧ FileChain v s' chain' ∧
      (∀ sector ∈ s'.handed, ∃ c ∈ chain', ∃ j < v.fatsecperclus, sector = sectorOf v c j) ∧
      ∀ bytes, Started v s' (.write bytes) →
        (chain'.length + (freeClusters v s'.fs).card) * v.clustersize < s'.ff.fpos + bytes.length →
        ∃ s'' ret, fatWrite v s' bytes = some (s'', ret) ∧ ret < 0 := by
  obtain ⟨s', hrun, hinv⟩ := progress_run (fun _ access hinv hok => step_inv area hinv access hok) s
    accesses (opened.inv hrange) hok
  rcases hinv with ⟨own, old, room, chain', h, hplaced⟩ | ⟨own, h⟩
  · refine ⟨s', chain', hrun, .inr ⟨h.volume.linked, h.start⟩, fun sector hs => ?_,
      fun bytes _ hroom => ?_⟩
    · obtain ⟨q, hq, rfl⟩ := h.handed sector hs
      have hpos := area.secperclus_pos
      exact ⟨_, getD_mem ((Nat.div_lt_iff_lt_mul hpos).mpr hq), _, Nat.mod_lt _ hpos, rfl⟩
    · obtain ⟨s'', ret, hwrite, -, hfails⟩ := fatWrite_inv area h hplaced bytes
      exact ⟨s'', ret, hwrite, hfails (by rwa [h.volume.count] at hroom)⟩
  · refine ⟨s', [], hrun, .inl ⟨h.startcluster, rfl⟩, fun sector hs => ?_, fun bytes hfirst hroom => ?_⟩
    · simp [h.handed] at hs
    · obtain ⟨s'', ret, hwrite, -, hfails⟩ :=
        fatWrite_unstarted area h (hfirst h.startcluster).1 bytes
      refine ⟨s'', ret, hwrite, hfails ?_⟩
      rwa [length_nil, Nat.zero_add] at hroom

/-- An empty file on the tiny volume. -/
def emptyFile (fat : List UInt8) : St where
  fs := tinyFs fat
  ff := openFile 0 0
  handed := []

theorem emptyFile_opened (fat : List UInt8) : Opened tiny [] (emptyFile fat) where
  cache := tinyFs_cacheOk fat
  nodup := nodup_nil
  numbers := nofun
  links := nofun
  last := nofun
  apart := by
    rintro ⟨c, -, j, -, heq⟩
    have hle : (3 : Int) ≤ sectorOf tiny c j := database_le_sectorOf tiny c j
    have hlabel : (emptyFile fat).fs.currentsector = 0 := rfl
    omega
  size_le := Nat.zero_le _
  fpos := rfl
  startcluster := rfl
  currentcluster := rfl
  currentsector := rfl
  dirty := rfl
  valid := rfl
  handed := rfl

/-- An empty file that is written and read while clusters are free. -/
theorem written_in_chain_first :
    ∃ s' chain', run (step tiny) (emptyFile [0xf8, 0xff, 0xff])
        [.write (List.replicate 600 1), .read 5] = some s' ∧ FileChain tiny s' chain' ∧
      ∀ sector ∈ s'.handed, ∃ c ∈ chain', ∃ j < tiny.fatsecperclus, sector = sectorOf tiny c j := by
  obtain ⟨s', chain', hrun, hchain, hhanded, -⟩ := written_in_chain tiny_area
    (emptyFile_opened [0xf8, 0xff, 0xff]) nofun [.write (List.replicate 600 1), .read 5]
    (by decide +kernel)
  exact ⟨s', chain', hrun, hchain, hhanded⟩

/-- The tiny volume with all clusters in use, and an empty file: a write of a sector succeeds and
hands the sector -22 to the device. With free clusters the same write does so after a read. -/
theorem outside_written :
    fatCheckbootrecord 512 7 0 tinyRecord = some tiny ∧
      (Opened tiny [] (emptyFile (0xf8 :: List.replicate 8 0xff)) ∧
        freeClusters tiny (emptyFile (0xf8 :: List.replicate 8 0xff)).fs = ∅ ∧
        (fatWrite tiny (emptyFile (0xf8 :: List.replicate 8 0xff)) (List.replicate 512 1)).map
          (fun r => (r.1.ff.startcluster, r.1.handed, r.2)) = some (0, [-einval], 512)) ∧
      Opened tiny [] (emptyFile [0xf8, 0xff, 0xff]) ∧
      freeClusters tiny (emptyFile [0xf8, 0xff, 0xff]).fs = {2, 3} ∧
      (run (step tiny) (emptyFile [0xf8, 0xff, 0xff]) [.read 1, .write (List.replicate 512 1)]).map
        (fun s => (s.ff.startcluster, s.handed)) = some (0, [-einval]) :=
  ⟨by decide, ⟨emptyFile_opened _, by decide +kernel, by decide +kernel⟩, emptyFile_opened _,
    by decide +kernel, by decide +kernel⟩

end NbLot.Guarantees.FatPlaces
