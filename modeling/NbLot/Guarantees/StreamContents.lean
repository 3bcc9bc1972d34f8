import NbLot.Source.Stdio.Model

/-!
# Buffered streams behave as the file

For every buffer of at least one byte, every acceptance of writes and every sequence of
calls on a stream that has just been opened, the calls return what the same calls made
directly on the file return, and a flush brings the file to the same contents.

The relation `Sim` has the two modes of the buffer. Reading: the part of the buffer behind
`bufpos` is what the file holds at the position, and the file is ahead by its length.
Writing: what is in the buffer up to `bufpos` is to be written where the file is.
-/
namespace NbLot.Guarantees.StreamContents
open Lib.ByteFile Source.Stdio List

/-- The file as the calls see it when they are made directly. -/
structure DirectFile where
  data : List UInt8
  pos : Nat
  deriving DecidableEq, Repr

/-- A call made directly on the file. -/
def direct (a : DirectFile) : Call → DirectFile × Result
  | .fread count =>
    let bytes := readAt a.data a.pos count
    ({ a with pos := a.pos + bytes.length }, .bytes bytes)
  | .fwrite src => (⟨writeAt a.data a.pos src, a.pos + src.length⟩, .count src.length)
  | .fflush => (a, .ok true)
  | .fseek offset whence =>
    let position := Fd.target a.data a.pos offset whence
    if position < 0 then (a, .ok false) else ({ a with pos := position.toNat }, .ok true)

/-- Calls made directly on the file, with their results. -/
def directCalls (a : DirectFile) : List Call → DirectFile × List Result
  | [] => (a, [])
  | c :: cs =>
    let (a, r) := direct a c
    let (a, rs) := directCalls a cs
    (a, r :: rs)

variable {accepts : Nat → Nat} {s : Stream} {f : Fd} {data : List UInt8} {pos : Nat} {a : DirectFile}

/-- The buffer holds what was read ahead. -/
structure Reading (s : Stream) (f : Fd) (data : List UInt8) (pos : Nat) : Prop where
  pos_le : s.bufpos ≤ s.bufread
  read_le : s.bufread ≤ s.buf.length
  same : f.data = data
  at_ : f.pos = pos + (s.bufread - s.bufpos)
  ahead : (s.buf.drop s.bufpos).take (s.bufread - s.bufpos) =
    readAt data pos (s.bufread - s.bufpos)

/-- The buffer holds what is to be written. -/
structure Writing (s : Stream) (f : Fd) (data : List UInt8) (pos : Nat) : Prop where
  bufread : s.bufread = 0
  pos_le : s.bufpos ≤ s.buf.length
  at_ : f.pos + s.bufpos = pos
  pending : data = writeAt f.data f.pos (s.buf.take s.bufpos)

/-- The stream and the file stand for the contents and the position. -/
structure Sim (s : Stream) (f : Fd) (data : List UInt8) (pos : Nat) : Prop where
  size : s.buf.length = s.bufsize
  room : s.bufread = 0 → s.bufpos < s.bufsize
  mode : s.bufread ≠ 0 ∧ Reading s f data pos ∨ Writing s f data pos

/-- Nothing is to be written. -/
def Settled (s : Stream) : Prop := s.bufread = 0 → s.bufpos = 0

theorem length_store (buf : List UInt8) (at_ : Nat) (bytes : List UInt8)
    (h : at_ + bytes.length ≤ buf.length) : (store buf at_ bytes).length = buf.length := by
  simp only [store, length_append, length_take, length_drop]
  omega

theorem take_store (buf : List UInt8) (at_ : Nat) (bytes : List UInt8) (h : at_ ≤ buf.length) :
    (store buf at_ bytes).take (at_ + bytes.length) = buf.take at_ ++ bytes := by
  have hlen : (buf.take at_ ++ bytes).length = at_ + bytes.length := by
    rw [length_append, length_take]
    omega
  rw [store, take_left' hlen]

theorem Writing.empty (hread : s.bufread = 0) (hpos : s.bufpos = 0) :
    Writing s f f.data f.pos where
  bufread := hread
  pos_le := by omega
  at_ := by omega
  pending := by rw [hpos, take_zero, writeAt_nil]

theorem Sim.empty (hsize : s.buf.length = s.bufsize) (hroom : 0 < s.bufsize) (hread : s.bufread = 0)
    (hpos : s.bufpos = 0) : Sim s f f.data f.pos :=
  ⟨hsize, fun _ => by omega, .inr (.empty hread hpos)⟩

variable (accepts)

/-- With the flag set the loop of `lib_fflush` writes everything. -/
theorem flushLoop_force (fuel : Nat) (f : Fd) (src : List UInt8) (hne : src ≠ [])
    (hfuel : src.length ≤ fuel) :
    ∃ g, flushLoop accepts true fuel f src = some (g, []) ∧
      g.data = writeAt f.data f.pos src ∧ g.pos = f.pos + src.length := by
  induction fuel generalizing f src with
  | zero => exact absurd (length_eq_zero_iff.mp (by omega)) hne
  | succ fuel ih =>
    unfold flushLoop Fd.write
    dsimp only
    generalize hcount : min src.length (accepts f.writes + 1) = count
    by_cases hrest : src.drop count = []
    · have hall : src.length ≤ count := drop_eq_nil_iff.mp hrest
      rw [hrest, take_of_length_le hall]
      exact ⟨_, rfl, rfl, by dsimp only; omega⟩
    · have hlen : (src.drop count).length = src.length - count := length_drop ..
      obtain ⟨g, hloop, hdata, hgpos⟩ :=
        ih ⟨writeAt f.data f.pos (src.take count), f.pos + count, f.writes + 1⟩ (src.drop count)
          hrest (by omega)
      rw [if_pos ⟨rfl, hrest⟩]
      refine ⟨g, hloop, ?_, ?_⟩
      · have htake : (src.take count).length = count := by
          rw [length_take]
          omega
        have happend := writeAt_append f.data f.pos (src.take count) (src.drop count)
        rw [htake, take_append_drop] at happend
        exact hdata.trans happend
      · rw [hgpos]
        dsimp only
        omega

/-- Without it the loop writes once, at least one byte. -/
theorem flushLoop_once (fuel : Nat) (f : Fd) (src : List UInt8) (hne : src ≠ [])
    (hfuel : src.length ≤ fuel) :
    ∃ g count, flushLoop accepts false fuel f src = some (g, src.drop count) ∧ 0 < count ∧
      count ≤ src.length ∧ g.data = writeAt f.data f.pos (src.take count) ∧
      g.pos = f.pos + count := by
  have hpos : 0 < src.length := length_pos_of_ne_nil hne
  cases fuel with
  | zero => omega
  | succ fuel =>
    unfold flushLoop Fd.write
    dsimp only
    exact ⟨_, min src.length (accepts f.writes + 1), rfl, by omega, by omega, rfl, rfl⟩

theorem libFflush_writing (bforce : Bool) (hw : Writing s f data pos) (hsize : s.buf.length = s.bufsize)
    (hpos : 0 < s.bufpos) :
    ∃ t g, libFflush accepts s f bforce = some (t, g) ∧ Sim t g data pos ∧ t.bufread = 0 ∧
      t.bufsize = s.bufsize ∧ (bforce = true → t.bufpos = 0) := by
  have hlen : (s.buf.take s.bufpos).length = s.bufpos := by
    rw [length_take]
    exact Nat.min_eq_left hw.pos_le
  have hne : s.buf.take s.bufpos ≠ [] := ne_nil_of_length_pos (by omega)
  unfold libFflush
  rw [if_pos (by omega), if_neg (not_not_intro hw.bufread)]
  cases bforce with
  | true =>
    obtain ⟨g, hloop, hdata, hgpos⟩ := flushLoop_force accepts s.bufpos f _ hne (by omega)
    rw [hloop]
    refine ⟨_, g, rfl, ⟨?_, ?_, .inr ⟨hw.bufread, ?_, ?_, ?_⟩⟩, hw.bufread, rfl, fun _ => rfl⟩
    · exact (length_store _ _ _ (by simp)).trans hsize
    · intro _
      dsimp only [length_nil]
      have := hw.pos_le
      omega
    · exact Nat.zero_le _
    · dsimp only [length_nil]
      have := hw.at_
      omega
    · dsimp only [length_nil]
      rw [take_zero, writeAt_nil, hdata, hw.pending]
  | false =>
    obtain ⟨g, count, hloop, hcount, hle, hdata, hgpos⟩ :=
      flushLoop_once accepts s.bufpos f _ hne (by omega)
    rw [hloop]
    have hrest : ((s.buf.take s.bufpos).drop count).length = s.bufpos - count := by
      rw [length_drop, hlen]
    have hposle := hw.pos_le
    have hlength := length_store s.buf 0 ((s.buf.take s.bufpos).drop count) (by omega)
    refine ⟨_, g, rfl, ⟨?_, ?_, .inr ⟨hw.bufread, ?_, ?_, ?_⟩⟩, hw.bufread, rfl, nofun⟩
    · exact hlength.trans hsize
    · intro _
      dsimp only
      omega
    · dsimp only
      omega
    · dsimp only
      have := hw.at_
      omega
    · have htake := take_store s.buf 0 ((s.buf.take s.bufpos).drop count) (Nat.zero_le _)
      rw [Nat.zero_add, take_zero, nil_append] at htake
      have hfirst : ((s.buf.take s.bufpos).take count).length = count := by
        rw [length_take]
        omega
      have happend := writeAt_append f.data f.pos ((s.buf.take s.bufpos).take count)
        ((s.buf.take s.bufpos).drop count)
      rw [hfirst, take_append_drop] at happend
      rw [htake, hdata, hgpos, happend, hw.pending]

/-- `lib_fflush` with the flag set: nothing is left to write. -/
theorem libFflush_spec (hs : Sim s f data pos) :
    ∃ t g, libFflush accepts s f true = some (t, g) ∧ Sim t g data pos ∧ Settled t ∧
      g.data = data ∧ t.bufread = s.bufread ∧ t.bufsize = s.bufsize := by
  rcases hs.mode with ⟨hread, hr⟩ | hw
  · refine ⟨s, f, ?_, hs, fun h => absurd h hread, hr.same, rfl, rfl⟩
    unfold libFflush
    rw [if_pos hread, ite_self]
  · by_cases hpos : s.bufpos = 0
    · refine ⟨s, f, ?_, hs, fun _ => hpos, ?_, rfl, rfl⟩
      · unfold libFflush
        rw [if_neg (not_not_intro hpos)]
      · rw [hw.pending, hpos, take_zero, writeAt_nil]
    · obtain ⟨t, g, hflush, hsim, hread, hsize, hempty⟩ :=
        libFflush_writing accepts true hw hs.size (by omega)
      refine ⟨t, g, hflush, hsim, fun _ => hempty rfl, ?_, hread.trans hw.bufread.symm, hsize⟩
      rcases hsim.mode with ⟨hne, -⟩ | hw'
      · exact absurd hread hne
      · rw [hw'.pending, hempty rfl, take_zero, writeAt_nil]

/-- `lib_rdflush`: the file goes back to the position. -/
theorem libRdflush_spec (hs : Sim s f data pos) (hroom : 0 < s.bufsize) :
    ∃ t g, libRdflush s f = (t, g, true) ∧ Sim t g data pos ∧ t.bufread = 0 ∧
      t.bufsize = s.bufsize := by
  unfold libRdflush
  rcases hs.mode with ⟨hread, hr⟩ | hw
  · have hpos : Fd.target f.data f.pos (-((s.bufread : Int) - s.bufpos)) .cur = pos := by
      have := hr.pos_le
      have := hr.at_
      dsimp only [Fd.target]
      omega
    rw [if_pos hread]
    unfold Fd.lseek
    dsimp only
    rw [hpos]
    rw [← hr.same]
    exact ⟨_, _, rfl, Sim.empty hs.size hroom rfl rfl, rfl, rfl⟩
  · rw [if_neg (not_not_intro hw.bufread)]
    exact ⟨s, f, rfl, hs, hw.bufread, rfl⟩

theorem Sim.reading (hs : Sim s f data pos) (hset : Settled s) : Reading s f data pos := by
  rcases hs.mode with ⟨-, hr⟩ | hw
  · exact hr
  · have hpos := hset hw.bufread
    have hread := hw.bufread
    refine ⟨by omega, by omega, ?_, ?_, ?_⟩
    · rw [hw.pending, hpos, take_zero, writeAt_nil]
    · have := hw.at_
      omega
    · rw [hread, hpos]
      rfl

theorem freadLoop_spec (fuel count : Nat) (hs : Sim s f data pos) (hset : Settled s)
    (hroom : 0 < s.bufsize) (hfuel : count + (if s.bufread - s.bufpos = 0 then 2 else 1) ≤ fuel) :
    ∃ t g, freadLoop fuel count s f = some (t, g, readAt data pos count) ∧
      Sim t g data (pos + (readAt data pos count).length) ∧ t.bufsize = s.bufsize := by
  induction fuel generalizing count s f pos with
  | zero =>
    split at hfuel <;> omega
  | succ fuel ih =>
    have hr := hs.reading hset
    have hposle := hr.pos_le
    have hreadle := hr.read_le
    unfold freadLoop
    dsimp only
    generalize hn : min count (s.bufread - s.bufpos) = n
    have hahead : readAt data pos (s.bufread - s.bufpos) =
        readAt data pos n ++ readAt data (pos + n) (s.bufread - s.bufpos - n) := by
      rw [← readAt_append]
      congr 1
      omega
    have hlength : (readAt data pos (s.bufread - s.bufpos)).length = s.bufread - s.bufpos := by
      rw [← hr.ahead, length_take, length_drop]
      omega
    have hgotlen : (readAt data pos n).length = n := by
      rw [length_readAt] at hlength ⊢
      omega
    have hgot : (s.buf.drop s.bufpos).take n = readAt data pos n := by
      have htake := congrArg (List.take n) (hr.ahead.trans hahead)
      rw [take_take, take_left' hgotlen, Nat.min_eq_left (by omega)] at htake
      exact htake
    rw [hgot]
    by_cases hdone : count - n = 0
    · rw [if_pos hdone]
      have hcount : n = count := by omega
      rw [← hcount, hgotlen]
      refine ⟨_, _, rfl, ⟨hs.size, ?_, ?_⟩, rfl⟩
      · intro hzero
        dsimp only at hzero ⊢
        omega
      · by_cases hzero : s.bufread = 0
        · have hn0 : n = 0 := by omega
          rw [hn0]
          exact hs.mode
        · refine .inl ⟨hzero, ?_, hreadle, hr.same, ?_, ?_⟩
          · dsimp only
            omega
          · dsimp only
            have := hr.at_
            omega
          · have hdrop := congrArg (List.drop n) (hr.ahead.trans hahead)
            rw [drop_left' hgotlen, drop_take, drop_drop] at hdrop
            rw [← Nat.sub_sub]
            exact hdrop
    · rw [if_neg hdone]
      have hnall : n = s.bufread - s.bufpos := by omega
      have hfpos : f.pos = pos + n := by
        rw [hr.at_, hnall]
      have hsplit : readAt data pos count = readAt data pos n ++ readAt data (pos + n) (count - n) := by
        rw [← readAt_append]
        congr 1
        omega
      unfold Fd.read
      rw [hr.same, hfpos]
      by_cases hbig : count - n > s.bufsize
      · -- the rest is read past the buffer
        rw [if_pos hbig, hsplit, length_append, hgotlen, ← Nat.add_assoc]
        exact ⟨_, _, rfl, Sim.empty hs.size hroom rfl rfl, rfl⟩
      · rw [if_neg hbig]
        by_cases heof : readAt data (pos + n) s.bufsize = []
        · have hrest : readAt data (pos + n) (count - n) = [] := by
            rw [← length_eq_zero_iff, length_readAt] at heof ⊢
            omega
          rw [hsplit, hrest, heof, append_nil, hgotlen]
          exact ⟨_, _, rfl, Sim.empty hs.size hroom rfl rfl, rfl⟩
        · rw [if_neg heof]
          have hfill : (readAt data (pos + n) s.bufsize).length ≤ s.buf.length := by
            rw [length_readAt, hs.size]
            omega
          have hne : 0 < (readAt data (pos + n) s.bufsize).length := length_pos_of_ne_nil heof
          generalize hbytes : readAt data (pos + n) s.bufsize = bytes at *
          have hfilled : Sim ⟨s.bufsize, store s.buf 0 bytes, 0, bytes.length⟩
              ⟨data, pos + n + bytes.length, f.writes⟩ data (pos + n) := by
            refine ⟨(length_store _ _ _ (by omega)).trans hs.size, fun h => ?_, .inl ⟨?_, ?_⟩⟩
            · exact absurd h (by dsimp only; omega)
            · dsimp only
              omega
            · refine ⟨Nat.zero_le _, ?_, rfl, rfl, ?_⟩
              · rw [length_store _ _ _ (by omega)]
                omega
              · have htake := take_store s.buf 0 bytes (Nat.zero_le _)
                rw [Nat.zero_add, take_zero, nil_append] at htake
                rw [drop_zero, Nat.sub_zero, htake, ← hbytes, readAt_length]
          obtain ⟨t, g, hloop, hsim, hsize⟩ := ih (count - n) hfilled
            (fun h => absurd h (by dsimp only; omega)) hroom (by
              dsimp only
              rw [if_neg (by omega)]
              split at hfuel <;> omega)
          rw [hloop]
          refine ⟨t, g, ?_, ?_, hsize⟩
          · rw [hsplit]
          · rw [hsplit, length_append, hgotlen, ← Nat.add_assoc]
            exact hsim

theorem libFread_spec (count : Nat) (hs : Sim s f data pos) (hroom : 0 < s.bufsize) :
    ∃ t g, libFread accepts s f count = some (t, g, readAt data pos count) ∧
      Sim t g data (pos + (readAt data pos count).length) ∧ t.bufsize = s.bufsize := by
  obtain ⟨t, g, hflush, hsim, hset, -, -, hsize⟩ := libFflush_spec accepts hs
  obtain ⟨u, k, hloop, hsim', hsize'⟩ := freadLoop_spec (count + 2) count hsim hset
    (by omega) (by split <;> omega)
  refine ⟨u, k, ?_, hsim', hsize'.trans hsize⟩
  unfold libFread libWrflush
  rw [hflush]
  exact hloop

theorem fwriteLoop_spec (fuel : Nat) (src : List UInt8) (hs : Sim s f data pos)
    (hread : s.bufread = 0) (hfuel : src.length < fuel) :
    ∃ t g, fwriteLoop accepts fuel src s f = some (t, g) ∧
      Sim t g (writeAt data pos src) (pos + src.length) ∧ t.bufsize = s.bufsize := by
  induction fuel generalizing src s f data pos with
  | zero => omega
  | succ fuel ih =>
    unfold fwriteLoop
    by_cases hsrc : src = []
    · rw [hsrc]
      exact ⟨s, f, rfl, hs, rfl⟩
    · rw [if_neg hsrc]
      have hlen : 0 < src.length := length_pos_of_ne_nil hsrc
      have hroom := hs.room hread
      have hsize := hs.size
      obtain hw : Writing s f data pos := hs.mode.resolve_left fun h => h.1 hread
      generalize hgulp : min (s.bufsize - s.bufpos) src.length = gulp
      have htake : (src.take gulp).length = gulp := by
        rw [length_take]
        omega
      have hdrop : (src.drop gulp).length = src.length - gulp := length_drop ..
      have hdata := writeAt_append data pos (src.take gulp) (src.drop gulp)
      rw [htake, take_append_drop] at hdata
      have hstored : (store s.buf s.bufpos (src.take gulp)).length = s.bufsize :=
        (length_store _ _ _ (by omega)).trans hsize
      have hw' : Writing ⟨s.bufsize, store s.buf s.bufpos (src.take gulp), s.bufpos + gulp, s.bufread⟩ f
          (writeAt data pos (src.take gulp)) (pos + gulp) := by
        refine ⟨hread, ?_, ?_, ?_⟩
        · dsimp only
          omega
        · dsimp only
          have := hw.at_
          omega
        · have hbuf := take_store s.buf s.bufpos (src.take gulp) (by omega)
          have hextends : (s.buf.take s.bufpos).length = s.bufpos := by
            rw [length_take]
            omega
          have happend := writeAt_append f.data f.pos (s.buf.take s.bufpos) (src.take gulp)
          rw [hextends, hw.at_, ← hw.pending] at happend
          rw [htake] at hbuf
          rw [hbuf, happend]
      by_cases hfull : s.bufpos + gulp ≥ s.bufsize
      · rw [if_pos hfull]
        obtain ⟨t, g, hflush, hsim, htread, htsize, -⟩ :=
          libFflush_writing accepts false hw' hstored (by dsimp only; omega)
        obtain ⟨u, k, hloop, hsim', husize⟩ := ih (src.drop gulp) hsim htread (by omega)
        rw [hflush]
        refine ⟨u, k, hloop, ?_, husize.trans htsize⟩
        rw [← hdata, ← show pos + gulp + (src.drop gulp).length = pos + src.length by omega]
        exact hsim'
      · rw [if_neg hfull]
        obtain ⟨u, k, hloop, hsim', husize⟩ := ih (src.drop gulp)
          ⟨hstored, fun _ => by dsimp only; omega, .inr hw'⟩ hread (by omega)
        refine ⟨u, k, hloop, ?_, husize⟩
        rw [← hdata, ← show pos + gulp + (src.drop gulp).length = pos + src.length by omega]
        exact hsim'

theorem libFwrite_spec (src : List UInt8) (hs : Sim s f data pos) (hroom : 0 < s.bufsize) :
    ∃ t g, libFwrite accepts s f src = some (t, g, (src.length : Int)) ∧
      Sim t g (writeAt data pos src) (pos + src.length) ∧ t.bufsize = s.bufsize := by
  obtain ⟨t, g, hflush, hsim, hread, hsize⟩ := libRdflush_spec hs hroom
  obtain ⟨u, k, hloop, hsim', hsize'⟩ :=
    fwriteLoop_spec accepts (src.length + 1) src hsim hread (Nat.lt_succ_self _)
  refine ⟨u, k, ?_, hsim', hsize'.trans hsize⟩
  unfold libFwrite
  rw [hflush]
  dsimp only
  rw [hloop]

theorem fseek_spec (offset : Int) (whence : Whence) (hs : Sim s f data pos)
    (hroom : 0 < s.bufsize) :
    ∃ t g, t.bufsize = s.bufsize ∧
      if Fd.target data pos offset whence < 0 then
        fseek accepts s f offset whence = some (t, g, false) ∧ Sim t g data pos
      else fseek accepts s f offset whence = some (t, g, true) ∧
        Sim t g data (Fd.target data pos offset whence).toNat := by
  obtain ⟨t, g, hrd, hsim, hread, hsize⟩ := libRdflush_spec hs hroom
  obtain ⟨u, k, hwr, hsim', hset, hdata, hread', hsize'⟩ := libFflush_spec accepts hsim
  have hclean : u.bufread = 0 := hread'.trans hread
  have hpos : k.pos = pos := by
    have hr := hsim'.reading hset
    rw [hr.at_, hclean, hset hclean, Nat.add_zero]
  have hseek : fseek accepts s f offset whence =
      some (u, (k.lseek offset whence).1, (k.lseek offset whence).2) := by
    unfold fseek libWrflush
    rw [hrd]
    dsimp only
    rw [hwr]
  refine ⟨u, (k.lseek offset whence).1, hsize'.trans hsize, ?_⟩
  rw [hseek]
  unfold Fd.lseek
  dsimp only
  rw [hdata, hpos]
  split
  · exact ⟨rfl, hsim'⟩
  · refine ⟨rfl, ?_⟩
    have hempty := Sim.empty (f := { k with pos := (Fd.target data pos offset whence).toNat })
      hsim'.size (by omega) hclean (hset hclean)
    rw [hdata] at hempty
    exact hempty

/-- A call on the stream returns what it returns on the file. -/
theorem call_spec (c : Call) (hs : Sim s f a.data a.pos)
    (hroom : 0 < s.bufsize) :
    ∃ t g, call accepts s f c = some (t, g, (direct a c).2) ∧
      Sim t g (direct a c).1.data (direct a c).1.pos ∧ t.bufsize = s.bufsize := by
  cases c with
  | fread count =>
    obtain ⟨t, g, hread, hsim, hsize⟩ := libFread_spec accepts count hs hroom
    refine ⟨t, g, ?_, hsim, hsize⟩
    rw [call, hread]
    rfl
  | fwrite src =>
    obtain ⟨t, g, hwrite, hsim, hsize⟩ := libFwrite_spec accepts src hs hroom
    refine ⟨t, g, ?_, hsim, hsize⟩
    rw [call, hwrite]
    rfl
  | fflush =>
    obtain ⟨t, g, hflush, hsim, -, -, -, hsize⟩ := libFflush_spec accepts hs
    refine ⟨t, g, ?_, hsim, hsize⟩
    rw [call, hflush]
    rfl
  | fseek offset whence =>
    obtain ⟨t, g, hsize, hseek⟩ := fseek_spec accepts offset whence hs hroom
    refine ⟨t, g, ?_⟩
    dsimp only [call, direct]
    split at hseek
    · next hneg =>
      rw [if_pos hneg, hseek.1]
      exact ⟨rfl, hseek.2, hsize⟩
    · next hneg =>
      rw [if_neg hneg, hseek.1]
      exact ⟨rfl, hseek.2, hsize⟩

theorem calls_spec (cs : List Call) (hs : Sim s f a.data a.pos)
    (hroom : 0 < s.bufsize) :
    ∃ t g, calls accepts s f cs = some (t, g, (directCalls a cs).2) ∧
      Sim t g (directCalls a cs).1.data (directCalls a cs).1.pos := by
  induction cs generalizing s f a with
  | nil => exact ⟨s, f, rfl, hs⟩
  | cons c cs ih =>
    obtain ⟨t, g, hcall, hsim, hsize⟩ := call_spec accepts c hs hroom
    obtain ⟨u, k, hcalls, hsim'⟩ := ih hsim (by omega)
    refine ⟨u, k, ?_, hsim'⟩
    rw [calls, hcall]
    dsimp only
    rw [hcalls]
    rfl

/-- Calls on a stream return what they return on the file, and after a flush the file holds
what it then holds. -/
theorem stream_is_file (bufsize : Nat) (hbuf : 1 ≤ bufsize) (accepts : Nat → Nat)
    (data : List UInt8) (pos : Nat) (cs : List Call) :
    ∃ s f t g, calls accepts (opened bufsize) ⟨data, pos, 0⟩ cs =
        some (s, f, (directCalls ⟨data, pos⟩ cs).2) ∧
      libFflush accepts s f true = some (t, g) ∧ g.data = (directCalls ⟨data, pos⟩ cs).1.data := by
  have hopened : Sim (opened bufsize) ⟨data, pos, 0⟩ data pos :=
    Sim.empty (length_replicate ..) hbuf rfl rfl
  obtain ⟨s, f, hcalls, hsim⟩ := calls_spec accepts cs (a := ⟨data, pos⟩) hopened hbuf
  obtain ⟨t, g, hflush, -, -, hdata, -⟩ := libFflush_spec accepts hsim
  exact ⟨s, f, t, g, hcalls, hflush, hdata⟩

/-- Reading ahead, overwriting behind what was read, and a write that is accepted in parts. -/
theorem stream_is_file_mixed :
    ∃ s f t g, calls (fun _ => 1) (opened 4) ⟨[1, 2, 3, 4, 5, 6], 0, 0⟩
        [.fread 1, .fwrite [7, 8, 9, 10, 11], .fseek 0 .set, .fread 9] =
        some (s, f, [.bytes [1], .count 5, .ok true, .bytes [1, 7, 8, 9, 10, 11]]) ∧
      libFflush (fun _ => 1) s f true = some (t, g) ∧ g.data = [1, 7, 8, 9, 10, 11] :=
  stream_is_file 4 (by decide) (fun _ => 1) [1, 2, 3, 4, 5, 6] 0
    [.fread 1, .fwrite [7, 8, 9, 10, 11], .fseek 0 .set, .fread 9]

end NbLot.Guarantees.StreamContents
