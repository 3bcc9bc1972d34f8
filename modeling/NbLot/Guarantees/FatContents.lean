import NbLot.Lib.ByteFile
import NbLot.Source.Fat.Calls
import NbLot.Source.Fat.Mount

/-!
# Contents of a FAT file

A file that is open for reading and writing behaves as an array of bytes with a position, in every
sequence of `fat_read`, `fat_write` and `fat_seek`, as long as there is a cluster when one is
needed, and no other file is changed. This holds for the files whose clusters all have numbers
below `fs_nclusters`.

`fs_nclusters` is the number of clusters, and their numbers start at 2. The driver takes a number
that is not below `fs_nclusters` for the end of the chain or for an error, so that a file that has
one of the last two clusters cannot be read (`last_cluster_refused`).
-/
namespace NbLot.Guarantees.FatContents
open Lib.ByteFile Source.Fat List

inductive FileCall where
  | read (buflen : Nat)
  | write (bytes : List UInt8)
  | seek (offset : Int) (whence : Whence)

/-- An array of bytes with a position. -/
structure Contents where
  data : List UInt8
  pos : Nat
  deriving DecidableEq, Repr

def Contents.seekTo (f : Contents) (offset : Int) : Whence → Int
  | .set => offset
  | .cur => offset + f.pos
  | .end => offset + f.data.length

/-- The value a call returns, and the bytes that have been read. -/
abbrev Result := Int × List UInt8

/-- A call on the array. -/
def onContents (f : Contents) : FileCall → Contents × Result
  | .read buflen =>
    let bytes := readAt f.data f.pos buflen
    ({ f with pos := f.pos + bytes.length }, bytes.length, bytes)
  | .write bytes =>
    ({ data := writeAt f.data f.pos bytes, pos := f.pos + bytes.length }, bytes.length, [])
  | .seek offset whence => ({ f with pos := (f.seekTo offset whence).toNat }, 0, [])

/-- A call of the driver. -/
def onFile (v : Volume) (s : St) : FileCall → Option (St × Result)
  | .read buflen => fatRead v s buflen
  | .write bytes => (fatWrite v s bytes).map fun r => (r.1, r.2, [])
  | .seek offset whence => (fatSeek v s offset whence).map fun r => (r.1, r.2, [])

def contentsCalls : Contents → List FileCall → Contents × List Result
  | f, [] => (f, [])
  | f, call :: calls =>
    let (f, result) := onContents f call
    let (f, results) := contentsCalls f calls
    (f, result :: results)

def fileCalls (v : Volume) : St → List FileCall → Option (St × List Result)
  | s, [] => some (s, [])
  | s, call :: calls =>
    match onFile v s call with
    | none => none
    | some (s, result) =>
      match fileCalls v s calls with
      | none => none
      | some (s, results) => some (s, result :: results)

/-- The calls that are considered: the size stays below 2^31, a seek goes to a position in the file
or to its end, and the file finds room in `room` clusters. A seek that moves the position takes the
cluster of the new position, also at the end of the file. -/
def Admissible (v : Volume) (room : Nat) (f : Contents) : FileCall → Prop
  | .read _ => True
  | .write bytes =>
    f.pos + bytes.length < 2 ^ 31 ∧ f.pos + bytes.length ≤ room * v.clustersize
  | .seek offset whence =>
    0 ≤ f.seekTo offset whence ∧ f.seekTo offset whence ≤ f.data.length ∧
      (f.seekTo offset whence ≠ f.pos → (f.seekTo offset whence).toNat / v.clustersize + 1 ≤ room)

def AllAdmissible (v : Volume) (room : Nat) : Contents → List FileCall → Prop
  | _, [] => True
  | f, call :: calls =>
    Admissible v room f call ∧ AllAdmissible v room (onContents f call).1 calls

/-- A file that has just been opened on a well-formed volume, with its chain and its contents. The
sector cache holds no sector of the file or of a free cluster. -/
structure Opened (v : Volume) (chain : List Nat) (data : List UInt8) (s : St) : Prop where
  cache : CacheOk v s.fs
  nonempty : 0 < chain.length
  nodup : chain.Nodup
  numbers : ∀ c ∈ chain, 2 ≤ c ∧ c < v.nclusters + 2
  links : ∀ i, i + 1 < chain.length → entry v s.fs (chain.getD i 0) = chain.getD (i + 1) 0
  last : v.nclusters + 2 ≤ entry v s.fs (chain.getD (chain.length - 1) 0)
  apart : ¬InClusters v (fun c => c ∈ chain ∨ Free v s.fs c) s.fs.currentsector
  size : s.ff.size = data.length
  size_lt : data.length < 2 ^ 31
  fits : data.length ≤ capacity v chain
  bytes : ∀ i < data.length, s.fs.dev (fileSector v chain (i / v.hwsectorsize)) (i % v.hwsectorsize) =
    data.getD i 0
  rdok : s.ff.rdok = true
  wrok : s.ff.wrok = true
  fpos : s.ff.fpos = 0
  startcluster : s.ff.startcluster = chain.getD 0 0
  currentcluster : s.ff.currentcluster = chain.getD 0 0
  currentsector : s.ff.currentsector = 0
  dirty : s.ff.dirty = false
  valid : s.ff.valid = false
  handed : s.handed = []

variable {v : Volume} {own : Nat → Prop} {old : Fs} {room : Nat} {chain : List Nat} {s : St}
  {f : Contents} {data : List UInt8}

/-- The file holds the array. -/
structure Holds (v : Volume) (own : Nat → Prop) (old : Fs) (room : Nat) (chain : List Nat)
    (f : Contents) (s : St) : Prop where
  layout : Layout v own old room chain s
  placed : Placed v chain s.ff
  rdok : s.ff.rdok = true
  wrok : s.ff.wrok = true
  size : s.ff.size = f.data.length
  size_lt : f.data.length < 2 ^ 31
  fits : f.data.length ≤ capacity v chain
  bytes : ∀ i < f.data.length, fileByte v chain s i = f.data.getD i 0
  fpos : s.ff.fpos = f.pos
  pos_le : f.pos ≤ f.data.length

theorem fileBytes_readAt (h : Holds v own old room chain f s) {n : Nat}
    (hn : f.pos + n ≤ f.data.length) : fileBytes v chain s f.pos n = readAt f.data f.pos n := by
  refine ext_getElem (by simp [fileBytes, readAt]; omega) fun i hi _ => ?_
  have hin : f.pos + i < f.data.length := by
    simp [fileBytes] at hi
    omega
  have hbyte := h.bytes (f.pos + i) hin
  rw [getD_eq_getElem _ _ hin] at hbyte
  simp only [fileBytes, readAt, getElem_map, getElem_range, getElem_take, getElem_drop, hbyte]

theorem Holds.read (h : Holds v own old room chain f s) (area : DataArea v) (buflen : Nat) :
    ∃ s', onFile v s (.read buflen) = some (s', (onContents f (.read buflen)).2) ∧
      Holds v own old room chain (onContents f (.read buflen)).1 s' := by
  obtain ⟨s', ret, bytes, hread, hlayout, hplaced, hfile, hviews, hresult⟩ :=
    fatRead_spec h.layout area h.placed h.rdok buflen
  have hsize_lt := h.size_lt
  have hpos := h.pos_le
  rw [h.size, h.fpos] at hresult
  obtain ⟨hret, hbytes, hfpos⟩ := hresult hpos h.fits (by omega)
  rw [fileBytes_readAt h (by omega), ← length_readAt, readAt_length] at hbytes
  have hlength := length_readAt f.data f.pos buflen
  refine ⟨s', ?_, hlayout, hplaced, hfile.rdok.trans h.rdok, hfile.wrok.trans h.wrok,
    hfile.size.trans h.size, hsize_lt, h.fits, fun i hi => ?_, ?_, ?_⟩
  · simp only [onFile, onContents, hread, hlength, hret, hbytes]
  · rw [fileByte_congr area hviews (Nat.lt_of_lt_of_le hi h.fits)]
    exact h.bytes i hi
  · simp only [onContents, hlength]
    exact hfpos
  · simp only [onContents]
    omega

theorem getD_writeAt {pos : Nat} (bytes : List UInt8) (hpos : pos ≤ data.length) :
    (writeAt data pos bytes).length = max data.length (pos + bytes.length) ∧
      ∀ i, (writeAt data pos bytes).getD i 0 =
        if pos ≤ i ∧ i < pos + bytes.length then bytes.getD (i - pos) 0 else data.getD i 0 := by
  by_cases hempty : bytes = []
  · subst hempty
    refine ⟨?_, fun i => ?_⟩
    · rw [writeAt_nil, length_nil]
      omega
    · rw [writeAt_nil, if_neg (by rw [length_nil]; omega)]
  · refine ⟨length_writeAt data pos hempty, fun i => ?_⟩
    rw [getD_eq_getElem?_getD, getElem?_writeAt data pos hempty]
    by_cases hbefore : i < pos
    · rw [if_pos hbefore, if_pos (by omega), if_neg (by omega), getD_eq_getElem?_getD]
    · rw [if_neg hbefore]
      by_cases hin : i < pos + bytes.length
      · rw [if_pos hin, if_pos (by omega), getD_eq_getElem?_getD]
      · rw [if_neg hin, if_neg (by omega), getD_eq_getElem?_getD]

section

variable (h : Holds v own old room chain f s)
include h

theorem Holds.write (area : DataArea v) (bytes : List UInt8) (hsize : f.pos + bytes.length < 2 ^ 31)
    (hroom : f.pos + bytes.length ≤ room * v.clustersize) :
    ∃ chain' s', onFile v s (.write bytes) = some (s', (onContents f (.write bytes)).2) ∧
      chain <+: chain' ∧ Holds v own old room chain' (onContents f (.write bytes)).1 s' := by
  obtain ⟨chain', s', ret, hwrite, hlayout, hplaced, hextends, hrdok, hwrok, hresult⟩ :=
    fatWrite_spec h.layout area h.placed h.wrok bytes
  have hsize_lt := h.size_lt
  have hpos := h.pos_le
  have hfits := h.fits
  have hcap := capacity_mono (v := v) hextends
  rcases hresult with ⟨-, -, -, hbig⟩ | ⟨rfl, hfpos, hstored⟩ | ⟨-, hfull⟩
  · rw [h.size] at hbig
    omega
  · rw [h.fpos] at hfpos hstored
    obtain ⟨hsize', hbytes⟩ := hstored hsize (by rw [h.size]; exact hfits)
    rw [h.size] at hsize'
    obtain ⟨hlength, hdata⟩ := getD_writeAt bytes hpos
    have hend : s'.ff.fpos ≤ capacity v chain' := by
      rcases hplaced with ⟨-, hzero, -⟩ | ⟨k, j, on⟩
      · omega
      · exact on.fpos_le area.toWellFormed.sectorSize_pos
    refine ⟨chain', s', by simp only [onFile, onContents, hwrite, Option.map_some], hextends, hlayout,
      hplaced, hrdok.trans h.rdok, hwrok.trans h.wrok, ?_, ?_, ?_, fun i hi => ?_, hfpos, ?_⟩
    · rw [hsize']
      exact hlength.symm
    · show (writeAt f.data f.pos bytes).length < _
      omega
    · show (writeAt f.data f.pos bytes).length ≤ _
      omega
    · have hi' : i < (writeAt f.data f.pos bytes).length := hi
      rw [hlength] at hi'
      show _ = (writeAt f.data f.pos bytes).getD i 0
      rw [hbytes i (by rw [h.size, h.fpos]; exact hi'), hdata i, h.fpos]
      by_cases hin : f.pos ≤ i ∧ i < f.pos + bytes.length
      · rw [if_pos hin, if_pos hin]
      · rw [if_neg hin, if_neg hin]
        exact h.bytes i (by omega)
    · show f.pos + bytes.length ≤ (writeAt f.data f.pos bytes).length
      omega
  · rw [h.fpos] at hfull
    omega

theorem Holds.seek (area : DataArea v) (offset : Int) (whence : Whence)
    (hlow : 0 ≤ f.seekTo offset whence) (hend : f.seekTo offset whence ≤ f.data.length)
    (hroom : f.seekTo offset whence ≠ f.pos → (f.seekTo offset whence).toNat / v.clustersize + 1 ≤ room) :
    ∃ chain' s', onFile v s (.seek offset whence) =
        some (s', (onContents f (.seek offset whence)).2) ∧
      chain <+: chain' ∧ Holds v own old room chain' (onContents f (.seek offset whence)).1 s' := by
  have hposition : seekPosition s offset whence = ((f.seekTo offset whence).toNat : Int) := by
    rw [Int.toNat_of_nonneg hlow]
    cases whence
    · rfl
    · simp only [seekPosition, Contents.seekTo, h.fpos]
    · simp only [seekPosition, Contents.seekTo, h.size]
  have hmin : min (f.seekTo offset whence).toNat s.ff.size = (f.seekTo offset whence).toNat := by
    rw [h.size]
    omega
  obtain ⟨chain', s', hseek, hlayout, hplaced, -, hextends, hbytes, hfile, hfpos⟩ :=
    fatSeek_spec h.layout area h.placed (by rw [h.fpos, h.size]; exact h.pos_le) hposition
      (fun _ => by omega) fun hmoved => by
        rw [if_pos h.wrok, hmin]
        exact hroom (by rw [h.fpos] at hmoved; omega)
  rw [hmin] at hfpos
  have hcap := capacity_mono (v := v) hextends
  refine ⟨chain', s', by simp only [onFile, onContents, hseek, Option.map_some], hextends, hlayout,
    hplaced, hfile.rdok.trans h.rdok, hfile.wrok.trans h.wrok, hfile.size.trans h.size, h.size_lt,
    Nat.le_trans h.fits hcap, fun i hi => ?_, hfpos, ?_⟩
  · rw [hbytes i (Nat.lt_of_lt_of_le hi h.fits)]
    exact h.bytes i hi
  · show (f.seekTo offset whence).toNat ≤ f.data.length
    omega

/-- One call: the driver returns what the array returns, and the file holds the array. -/
theorem Holds.call (area : DataArea v) (call : FileCall) (hcall : Admissible v room f call) :
    ∃ chain' s', onFile v s call = some (s', (onContents f call).2) ∧ chain <+: chain' ∧
      Holds v own old room chain' (onContents f call).1 s' := by
  cases call with
  | read buflen =>
    obtain ⟨s', hread, h'⟩ := h.read area buflen
    exact ⟨chain, s', hread, prefix_rfl, h'⟩
  | write bytes => exact h.write area bytes hcall.1 hcall.2
  | seek offset whence => exact h.seek area offset whence hcall.1 hcall.2.1 hcall.2.2

end

theorem Holds.calls (area : DataArea v) (calls : List FileCall) : ∀ chain f s,
    Holds v own old room chain f s → AllAdmissible v room f calls →
    ∃ chain' s', fileCalls v s calls = some (s', (contentsCalls f calls).2) ∧ chain <+: chain' ∧
      Holds v own old room chain' (contentsCalls f calls).1 s' := by
  induction calls with
  | nil =>
    intro chain f s h _
    exact ⟨chain, s, rfl, prefix_rfl, h⟩
  | cons call calls ih =>
    intro chain f s h hall
    obtain ⟨chain₁, s₁, hfirst, hextends₁, h₁⟩ := h.call area call hall.1
    obtain ⟨chain', s', hrest, hextends, h'⟩ := ih chain₁ _ s₁ h₁ hall.2
    exact ⟨chain', s', by simp only [fileCalls, contentsCalls, hfirst, hrest], hextends₁.trans hextends, h'⟩

theorem Opened.holds (h : Opened v chain data s) (hrange : ∀ c ∈ chain, c < v.nclusters) :
    Holds v (fun c => c ∈ chain ∨ Free v s.fs c) s.fs (chain.length + (freeClusters v s.fs).card)
      chain ⟨data, 0⟩ s := by
  have hbyte : ∀ sector, fileView s sector = s.fs.dev sector := fun sector =>
    if_neg fun hc => by simp [h.valid] at hc
  have hlast := h.last
  refine ⟨⟨⟨h.cache, ⟨h.nonempty, h.nodup, fun c hc => ⟨(h.numbers c hc).1, hrange c hc⟩, h.links,
      by omega⟩, fun c hc => .inl hc, fun c hc => .inr hc, h.apart, fun _ _ _ _ => rfl,
      fun _ _ _ => rfl, rfl⟩, h.startcluster, fun hv => by simp [h.valid] at hv,
      fun hv => by simp [h.valid] at hv, fun _ => h.dirty, fun sector hs => by simp [h.handed] at hs⟩,
    .inl ⟨h.currentsector, h.fpos, h.currentcluster⟩, h.rdok, h.wrok, h.size, h.size_lt, h.fits,
    fun i hi => ?_, h.fpos, Nat.zero_le _⟩
  rw [fileByte, hbyte]
  exact h.bytes i hi

/-- A file whose clusters all have numbers below `fs_nclusters` behaves as an array of bytes with a
position: every admissible sequence of calls returns what it returns on the array, the file then
holds the array, and the entries and the sectors of the clusters of other files are as before. -/
theorem file_is_array (area : DataArea v) {data : List UInt8} (opened : Opened v chain data s)
    (hrange : ∀ c ∈ chain, c < v.nclusters) (calls : List FileCall)
    (hcalls : AllAdmissible v (chain.length + (freeClusters v s.fs).card) ⟨data, 0⟩ calls) :
    ∃ chain' s', fileCalls v s calls = some (s', (contentsCalls ⟨data, 0⟩ calls).2) ∧
      chain <+: chain' ∧ Chain v s'.fs chain' ∧
      s'.ff.size = (contentsCalls ⟨data, 0⟩ calls).1.data.length ∧
      s'.ff.fpos = (contentsCalls ⟨data, 0⟩ calls).1.pos ∧
      (∀ i < s'.ff.size, fileByte v chain' s' i = (contentsCalls ⟨data, 0⟩ calls).1.data.getD i 0) ∧
      ∀ c, 2 ≤ c → c < v.nclusters + 2 → c ∉ chain → entry v s.fs c ≠ 0 →
        entry v s'.fs c = entry v s.fs c ∧
        ∀ j < v.fatsecperclus, s'.fs.view (sectorOf v c j) = s.fs.view (sectorOf v c j) := by
  obtain ⟨chain', s', hrun, hextends, h⟩ := Holds.calls area calls chain ⟨data, 0⟩ s
    (opened.holds hrange) hcalls
  refine ⟨chain', s', hrun, hextends, h.layout.volume.linked, h.size, h.fpos,
    fun i hi => h.bytes i (by rw [← h.size]; exact hi), fun c hlow hc hother hused => ?_⟩
  have hnot : ¬(c ∈ chain ∨ Free v s.fs c) := by
    rintro (hin | hfree)
    · exact hother hin
    · exact hused hfree.2.2
  refine ⟨h.layout.volume.entries c hlow hc hnot, fun j hj => ?_⟩
  refine h.layout.volume.sectors _ (database_le_sectorOf v c j) ?_
  rintro ⟨d, hd, i, hi, heq⟩
  have hdlow : 2 ≤ d := by
    rcases hd with hin | hfree
    · exact (opened.numbers d hin).1
    · exact hfree.1
  obtain ⟨rfl, -⟩ := sectorOf_inj hlow hdlow hj hi heq
  exact hnot hd

/-- A volume of seven sectors: the boot record, the FAT, the root directory and four clusters of one
sector. -/
def tinyRecord : BootRecord where
  bytespersec := 512
  secperclus := 1
  resvdseccount := 1
  numfats := 1
  rootentcnt := 16
  totsec16 := 7
  fatsz16 := 1
  totsec32 := 0
  fatsz32 := 0

def tiny : Volume where
  fatType := .fat12
  hwsectorsize := 512
  fatbase := 1
  nfatsects := 1
  fatnumfats := 1
  fatsecperclus := 1
  database := 3
  nclusters := 4

theorem tiny_area : DataArea tiny where
  sectorSize := ⟨9, by decide⟩
  entriesFit := by decide
  numbersFit := by decide
  reserved := by decide
  allFit := by decide
  secperclus := ⟨0, by decide⟩
  behindFat := by decide
  behindCopies := by decide
  endMark := by decide

/-- The volume with the first bytes of its FAT, and zeros elsewhere. -/
def tinyFs (fat : List UInt8) : Fs where
  dev := fun sector i => if sector = 1 then fat.getD i 0 else 0
  buffer := fun _ => 0
  currentsector := 0
  dirty := false
  fsinextfree := 0
  fsifreecount := 0xffffffff
  fsidirty := false

/-- A file that has just been opened. -/
def openFile (startcluster size : Nat) : Ff where
  rdok := true
  wrok := true
  fpos := 0
  size := size
  startcluster := startcluster
  currentcluster := startcluster
  sectorsincluster := 1
  currentsector := 0
  cachesector := 0
  buffer := fun _ => 0
  dirty := false
  valid := false
  modified := false

theorem tinyFs_cacheOk (fat : List UInt8) : CacheOk tiny (tinyFs fat) := by
  have hlabel : ¬((1 : Int) ≤ 0) := by decide
  refine ⟨fun _ hbase => absurd hbase hlabel, nofun, fun k hk j _ _ => ?_⟩
  obtain rfl : k = 0 := by
    have : k < 1 := hk
    omega
  rfl

theorem tiny_opened {fat : List UInt8} (chain : List Nat) {n : Nat} (hne : 0 < chain.length)
    (hnodup : chain.Nodup) (hnumbers : ∀ c ∈ chain, 2 ≤ c ∧ c < tiny.nclusters + 2)
    (hlinks : ∀ i, i + 1 < chain.length →
      entry tiny (tinyFs fat) (chain.getD i 0) = chain.getD (i + 1) 0)
    (hlast : tiny.nclusters + 2 ≤ entry tiny (tinyFs fat) (chain.getD (chain.length - 1) 0))
    (hn : n < 2 ^ 31) (hfits : n ≤ capacity tiny chain) :
    Opened tiny chain (List.replicate n 0)
      { fs := tinyFs fat, ff := openFile (chain.getD 0 0) n, handed := [] } := by
  have hhigh : ∀ c j, sectorOf tiny c j ≠ 0 ∧ sectorOf tiny c j ≠ 1 := by
    intro c j
    have hle : (3 : Int) ≤ sectorOf tiny c j := database_le_sectorOf tiny c j
    omega
  refine ⟨tinyFs_cacheOk fat, hne, hnodup, hnumbers, hlinks, hlast, ?_, by simp [openFile], by simpa using hn,
    by simpa using hfits, fun i hi => ?_, rfl, rfl, rfl, rfl, rfl, rfl, rfl, rfl, rfl⟩
  · rintro ⟨c, -, j, -, heq⟩
    exact (hhigh c j).1 heq.symm
  · rw [length_replicate] at hi
    rw [getD_replicate _ hi]
    exact if_neg (hhigh _ _).2

/-- Writing, seeking back and reading in a file of one cluster. -/
theorem file_is_array_rewritten :
    ∃ s', fileCalls tiny
        { fs := tinyFs [0xf8, 0xff, 0xff, 0xff, 0x0f], ff := openFile 2 2, handed := [] }
        [.write [1, 2, 3], .seek (-2) .cur, .read 5] =
          some (s', [(3, []), (0, []), (2, [2, 3])]) := by
  have hopened : Opened tiny [2] (List.replicate 2 0)
      { fs := tinyFs [0xf8, 0xff, 0xff, 0xff, 0x0f], ff := openFile 2 2, handed := [] } :=
    tiny_opened [2] (by decide) (by decide) (by decide) (fun i hi => by simp at hi)
      (by decide +kernel) (by decide) (by decide)
  obtain ⟨-, s', hrun, -⟩ := file_is_array tiny_area hopened (by decide)
    [.write [1, 2, 3], .seek (-2) .cur, .read 5] (by
      refine ⟨⟨by decide, ?_⟩, ⟨by decide, by decide, fun _ => ?_⟩, trivial, trivial⟩
      · show 3 ≤ (1 + _) * 512
        omega
      · show 1 / 512 + 1 ≤ 1 + _
        omega)
  exact ⟨s', hrun⟩

/-- A file of 513 bytes in the clusters 2 and 4 of a volume with four clusters, whose numbers are 2
to 5: reading it fails. -/
theorem last_cluster_refused :
    fatCheckbootrecord 512 7 0 tinyRecord = some tiny ∧
      Opened tiny [2, 4] (List.replicate 513 0)
        { fs := tinyFs [0xf8, 0xff, 0xff, 0x04, 0x00, 0x00, 0xff, 0x0f]
          ff := openFile 2 513
          handed := [] } ∧
      (fatRead tiny
        { fs := tinyFs [0xf8, 0xff, 0xff, 0x04, 0x00, 0x00, 0xff, 0x0f]
          ff := openFile 2 513
          handed := [] } 513).map (fun r => r.2.1) = some (-einval) := by
  refine ⟨by decide, ?_, by decide +kernel⟩
  refine tiny_opened [2, 4] (by decide) (by decide) (by decide) (fun i hi => ?_)
    (by decide +kernel) (by decide) (by decide)
  obtain rfl : i = 0 := by
    simp at hi
    omega
  decide +kernel

end NbLot.Guarantees.FatContents
