import NbLot.Source.Rs485.Progress

/-!
# RS-485 safety: array stores and frame integrity over every byte stream

Source: apps/examples/NB_Iot/485.c:233-295.

* `stores_in_bounds_iff` - `Date` is never overrun; `a_byRxBuf` is overrun
  exactly by the streams that carry an accepted length byte whose frame does not
  fit the 128 bytes, and that go on until index 128 is reached;
* `deliveries_intact_iff` - the machine accepts every checksum byte (`if (1)` in
  `STATUS_CS`), so the delivered frames are intact exactly when the stream
  carries the right sum in front of every tail byte that completes a frame.
-/
namespace NbLot.Guarantees.Rs485Safety
open Source.Rs485 CommTrmStatus List

variable (s : CommTrmData)

/-! ### Array stores -/

theorem mem_stores (stream : List UInt8) (a : ArrayStore) :
    a ∈ stores s stream ↔ ∃ before b after, stream = before ++ b :: after ∧
      a ∈ (comm2trmRxUartData (rxRun s before) b).stores := by
  induction stream generalizing s with
  | nil => simp [stores]
  | cons b rest ih =>
    simp only [stores, mem_append, ih]
    constructor
    · rintro (h | ⟨before, c, after, rfl, h⟩)
      · exact ⟨[], b, rest, rfl, h⟩
      · exact ⟨b :: before, c, after, rfl, h⟩
    · rintro ⟨before, c, after, heq, h⟩
      cases before with
      | nil =>
        obtain ⟨rfl, rfl⟩ := List.cons.inj heq
        exact Or.inl h
      | cons x before =>
        obtain ⟨rfl, rfl⟩ := List.cons.inj heq
        exact Or.inr ⟨before, c, after, rfl, h⟩

theorem rx_stores (b : UInt8) (a : ArrayStore) (h : a ∈ (comm2trmRxUartData s b).stores) :
    (a = .rxBuf s.byFrameLen.toNat ∧ s.eRxStatus ≠ statusTail) ∨ a = .rxBuf 0 ∨
      (a = .date s.byCnt.toNat ∧ s.eRxStatus = statusData) := by
  cases hst : s.eRxStatus
  case statusData =>
    rw [rx_data b hst] at h
    simp only [mem_cons, not_mem_nil, or_false] at h
    rcases h with rfl | rfl
    · exact Or.inr (Or.inr ⟨rfl, rfl⟩)
    · exact Or.inl ⟨rfl, by simp⟩
  case statusTail =>
    simp only [comm2trmRxUartData, rxSwitch, hst] at h
    split_ifs at h
    · exact Or.inr (Or.inl (by simpa [clearCommFrame] using h))
    · simp at h
  all_goals
    simp only [comm2trmRxUartData, rxSwitch, hst] at h
    try split_ifs at h
    all_goals simp_all

/-- Data bytes fed in `STATUS_DATA` move the side buffer on by one each, until
the checksum is due. -/
theorem rxRun_data (bytes : List UInt8) (hst : s.eRxStatus = statusData)
    (hlen : s.byDataLen.toNat ≤ 128) (hfit : s.byCnt.toNat + bytes.length ≤ max 1 s.byDataLen.toNat)
    (hbuf : s.byFrameLen.toNat + bytes.length ≤ 255) :
    ((rxRun s bytes).eRxStatus = statusData ∨ (rxRun s bytes).eRxStatus = statusCs) ∧
      (rxRun s bytes).byFrameLen.toNat = s.byFrameLen.toNat + bytes.length := by
  induction bytes generalizing s with
  | nil => exact ⟨Or.inl hst, rfl⟩
  | cons b rest ih =>
    have hcnt := uint8_add_one_toNat s.byCnt (by simp only [length_cons] at hfit; omega)
    have hflen := uint8_add_one_toNat s.byFrameLen (by simp only [length_cons] at hbuf; omega)
    simp only [length_cons] at hfit hbuf ⊢
    have hnext := rx_data b hst
    by_cases hmore : s.byCnt + 1 < s.byDataLen
    · obtain ⟨hstatus, hend⟩ := ih (comm2trmRxUartData s b).state
        (by rw [hnext]; exact if_pos hmore) (by rw [hnext]; exact hlen)
        (by rw [hnext]; show (s.byCnt + 1).toNat + rest.length ≤ max 1 s.byDataLen.toNat; omega)
        (by rw [hnext]; show (s.byFrameLen + 1).toNat + rest.length ≤ 255; omega)
      refine ⟨hstatus, hend.trans ?_⟩
      rw [hnext]
      show (s.byFrameLen + 1).toNat + rest.length = _
      omega
    · have hlast : rest = [] := by
        rw [UInt8.lt_iff_toNat_lt] at hmore
        apply eq_nil_of_length_eq_zero
        omega
      subst hlast
      simp only [rxRun, hnext]
      exact ⟨Or.inr (if_neg hmore), by simpa using hflen⟩

/-- Every accepted length byte announces a frame that the side buffer holds, or
the stream ends before the buffer is full. -/
def SideBufferHolds (stream : List UInt8) : Prop :=
  ∀ before len after, stream = before ++ len :: after →
    (rxRun clearCommFrame before).eRxStatus = statusCon1 → len.toNat ≤ maxLenCommTrmData →
    (rxRun clearCommFrame before).byFrameLen.toNat + len.toNat + 1 < maxLenCommTrmData ∨
      (rxRun clearCommFrame before).byFrameLen.toNat + after.length < maxLenCommTrmData

theorem rx_con1 (len : UInt8) (h : s.eRxStatus = statusCon1)
    (hlen : len.toNat ≤ maxLenCommTrmData) :
    (comm2trmRxUartData s len).state =
      { storeRxBuf { s with eRxStatus := statusData, byDataLen := len, byCnt := 0 }
          s.byFrameLen.toNat len with byFrameLen := s.byFrameLen + 1 } := by
  simp only [comm2trmRxUartData, rxSwitch, h, if_pos hlen]

theorem rxBuf_mem_stores (b : UInt8) (h : s.eRxStatus = statusData ∨ s.eRxStatus = statusCs) :
    .rxBuf s.byFrameLen.toNat ∈ (comm2trmRxUartData s b).stores := by
  rcases h with h | h
  · simp [rx_data b h]
  · simp [rx_cs b h]

/-- A frame that does not fit reaches index 128 if the stream goes on. -/
theorem overrun (before after : List UInt8) (len : UInt8)
    (hst : (rxRun clearCommFrame before).eRxStatus = statusCon1)
    (hlen : len.toNat ≤ maxLenCommTrmData)
    (hlong : maxLenCommTrmData ≤ (rxRun clearCommFrame before).byFrameLen.toNat + len.toNat + 1)
    (hafter : maxLenCommTrmData ≤ (rxRun clearCommFrame before).byFrameLen.toNat + after.length) :
    .rxBuf 128 ∈ stores clearCommFrame (before ++ len :: after) := by
  have hprogress := progress_run before
  generalize hs : rxRun clearCommFrame before = s at *
  have hbuf : s.byFrameLen.toNat ≤ 10 := by
    simp only [Progress, hst] at hprogress
    exact hprogress.2
  unfold maxLenCommTrmData at hlong hafter
  have hrx := rx_con1 s len hst hlen
  -- the byte that is saved at index 128 is the first one behind `head`
  obtain ⟨head, b, tail, rfl, hhead⟩ :
      ∃ head b tail, after = head ++ b :: tail ∧ head.length = 127 - s.byFrameLen.toNat := by
    refine ⟨after.take (127 - s.byFrameLen.toNat), after[127 - s.byFrameLen.toNat],
      after.drop (127 - s.byFrameLen.toNat + 1), ?_, ?_⟩
    · rw [getElem_cons_drop, take_append_drop]
    · rw [length_take]
      omega
  have hflen := uint8_add_one_toNat s.byFrameLen (by omega)
  have hdata := rxRun_data (comm2trmRxUartData s len).state head (by rw [hrx]; rfl)
    (by rw [hrx]; exact hlen)
    (by rw [hrx]; show 0 + head.length ≤ max 1 len.toNat; omega)
    (by rw [hrx]; show (s.byFrameLen + 1).toNat + head.length ≤ 255; omega)
  obtain ⟨hstatus, hindex⟩ := hdata
  rw [mem_stores]
  refine ⟨before ++ len :: head, b, tail, by simp, ?_⟩
  have hrun : rxRun clearCommFrame (before ++ len :: head) =
      rxRun (comm2trmRxUartData s len).state head := by
    rw [rxRun_append, hs]
    rfl
  have hmem := rxBuf_mem_stores _ b hstatus
  rw [hindex, hrx] at hmem
  rw [hrun, show 128 = (s.byFrameLen + 1).toNat + head.length by omega]
  rw [hrx]
  exact hmem

/-- Where a store of the stream can fall: inside its array, or at the index the
data bytes behind a length byte have reached. -/
theorem store_cases {before : List UInt8} {b : UInt8} {a : ArrayStore}
    (h : a ∈ (comm2trmRxUartData (rxRun clearCommFrame before) b).stores) :
    a.inBounds ∨ ∃ front len data, before = front ++ len :: data ∧
      (rxRun clearCommFrame front).eRxStatus = statusCon1 ∧ len.toNat ≤ maxLenCommTrmData ∧
      (rxRun clearCommFrame front).byFrameLen.toNat ≤ 10 ∧ data.length ≤ max 1 len.toNat ∧
      a = .rxBuf ((rxRun clearCommFrame front).byFrameLen.toNat + 1 + data.length) := by
  have hprogress := progress_run before
  generalize hs : rxRun clearCommFrame before = s at h hprogress
  rcases rx_stores s b a h with ⟨rfl, htail⟩ | rfl | ⟨rfl, hdata⟩
  · unfold Progress at hprogress
    cases hst : s.eRxStatus <;> simp only [hst] at hprogress htail
    case statusData =>
      obtain ⟨⟨front, len, data, rfl, hcon1, -, hbuf, hlen, hdl, hcnt, hfl⟩, hlt⟩ := hprogress
      exact Or.inr ⟨front, len, data, rfl, hcon1, hlen, hbuf, by rw [hdl] at hlt; omega,
        by rw [hfl, hcnt]⟩
    case statusCs =>
      obtain ⟨⟨front, len, data, rfl, hcon1, -, hbuf, hlen, hdl, hcnt, hfl⟩, heq⟩ := hprogress
      exact Or.inr ⟨front, len, data, rfl, hcon1, hlen, hbuf, by rw [hdl] at heq; omega,
        by rw [hfl, hcnt]⟩
    case statusCmd1 =>
      left
      obtain ⟨hcnt, -, hbuf⟩ := hprogress
      show s.byFrameLen.toNat < 128
      omega
    case statusTail => exact absurd rfl htail
    all_goals
      left
      obtain ⟨-, hbuf⟩ := hprogress
      show s.byFrameLen.toNat < 128
      omega
  · left
    show 0 < 128
    omega
  · left
    simp only [Progress, hdata] at hprogress
    obtain ⟨⟨-, len, -, -, -, -, -, hlen, hdl, -⟩, hlt⟩ := hprogress
    unfold maxLenCommTrmData at hlen
    rw [hdl] at hlt
    show s.byCnt.toNat < 128
    omega

/-- Every store into `Date` is inside the array, and the stores into `a_byRxBuf`
are exactly when the side buffer holds every announced frame. -/
theorem stores_in_bounds_iff (stream : List UInt8) :
    (∀ i, .date i ∈ stores clearCommFrame stream → i < 128) ∧
      ((∀ a ∈ stores clearCommFrame stream, a.inBounds) ↔ SideBufferHolds stream) := by
  refine ⟨?_, ?_, ?_⟩
  · intro i hmem
    obtain ⟨before, b, after, -, hstore⟩ := (mem_stores _ _ _).mp hmem
    rcases store_cases hstore with hin | ⟨_, _, _, _, _, _, _, _, heq⟩
    · exact hin
    · cases heq
  · intro hall before len after heq hcon1 hlen
    by_contra hneither
    rw [not_or, Nat.not_lt, Nat.not_lt] at hneither
    have hover := overrun before after len hcon1 hlen hneither.1 hneither.2
    rw [← heq] at hover
    exact absurd (hall _ hover) (by decide)
  · intro hholds a hmem
    obtain ⟨before, b, after, rfl, hstore⟩ := (mem_stores _ _ _).mp hmem
    rcases store_cases hstore with
      hin | ⟨front, len, data, rfl, hcon1, hlen, hbuf, hdata, rfl⟩
    · exact hin
    · have hfit := hholds front len (data ++ b :: after) (by simp) hcon1 hlen
      rw [length_append, length_cons] at hfit
      unfold maxLenCommTrmData at hfit
      show _ < 128
      omega

/-- A frame with length byte 118, up to its checksum byte. -/
def overlongStream : List UInt8 :=
  [0x68, 0x45, 0x00, 0x20, 0x08, 0xC0, 0x00, 0x13, 0x10, 118] ++ List.replicate 119 0

theorem overlong_stream_overruns :
    ¬ ∀ a ∈ stores clearCommFrame overlongStream, a.inBounds := by
  intro hall
  have hover := overrun [0x68, 0x45, 0x00, 0x20, 0x08, 0xC0, 0x00, 0x13, 0x10]
    (List.replicate 119 0) 118 (by decide +kernel) (by decide) (by decide +kernel)
    (by decide +kernel)
  exact absurd (hall _ hover) (by decide)

/-! ### Frame integrity -/

/-- The bytes of the frame being received, from its head on; none while idle. -/
def frameBytes (s : CommTrmData) (frame : List UInt8) : List UInt8 → List UInt8
  | [] => frame
  | b :: rest =>
    let next := (comm2trmRxUartData s b).state
    frameBytes next (if next.eRxStatus = statusIdle then [] else frame ++ [b]) rest

/-- Each call of `process_poll` with the frame bytes in front of the tail byte. -/
def deliveries (s : CommTrmData) (frame : List UInt8) :
    List UInt8 → List (List UInt8 × CommTrmData)
  | [] => []
  | b :: rest =>
    let next := (comm2trmRxUartData s b).state
    (comm2trmRxUartData s b).poll.toList.map (frame, ·) ++
      deliveries next (if next.eRxStatus = statusIdle then [] else frame ++ [b]) rest

theorem deliveries_polls (frame stream : List UInt8) :
    (deliveries s frame stream).map Prod.snd = polls s stream := by
  induction stream generalizing s frame with
  | nil => rfl
  | cons b rest ih => simp [deliveries, polls, ih, Function.comp_def]

theorem frameBytes_snoc (frame stream : List UInt8) (b : UInt8) :
    frameBytes s frame (stream ++ [b]) =
      if (rxRun s (stream ++ [b])).eRxStatus = statusIdle then []
      else frameBytes s frame stream ++ [b] := by
  induction stream generalizing s frame with
  | nil => rfl
  | cons c rest ih => exact ih _ _

/-- A call of `process_poll` is a tail byte taken in `STATUS_TAIL`. -/
theorem mem_deliveries (frame stream : List UInt8) (p : List UInt8 × CommTrmData) :
    p ∈ deliveries s frame stream ↔ ∃ before after, stream = before ++ commTrmTail :: after ∧
      (rxRun s before).eRxStatus = statusTail ∧ p = (frameBytes s frame before, rxRun s before) := by
  induction stream generalizing s frame with
  | nil => simp [deliveries]
  | cons b rest ih =>
    simp only [deliveries, mem_append, ih, mem_map, Option.mem_toList]
    constructor
    · rintro (⟨d, hd, rfl⟩ | ⟨before, after, rfl, hst, rfl⟩)
      · obtain ⟨hst, rfl, rfl⟩ := rx_poll hd
        exact ⟨[], rest, rfl, hst, rfl⟩
      · exact ⟨b :: before, after, rfl, hst, rfl⟩
    · rintro ⟨before, after, heq, hst, rfl⟩
      cases before with
      | nil =>
        obtain ⟨rfl, rfl⟩ := List.cons.inj heq
        exact Or.inl ⟨s, by rw [rx_tail (s := s) hst], rfl⟩
      | cons c before =>
        obtain ⟨rfl, rfl⟩ := List.cons.inj heq
        exact Or.inr ⟨before, after, rfl, hst, rfl⟩

/-- `STATUS_TAIL` is entered from `STATUS_CS` only, and the byte taken there is
the checksum handed over. -/
theorem rx_to_tail (b : UInt8) (h : (comm2trmRxUartData s b).state.eRxStatus = statusTail) :
    s.eRxStatus = statusCs ∧ (comm2trmRxUartData s b).state.cs = b := by
  cases hst : s.eRxStatus
  case statusCs =>
    refine ⟨rfl, ?_⟩
    rw [rx_cs b hst]
    exact ite_self b
  all_goals
    simp only [comm2trmRxUartData, rxSwitch, hst] at h
    try split_ifs at h
    all_goals simp_all [storeRxBuf, clearCommFrame]

/-- The frame in front of a tail byte ends with the checksum byte, which was
taken in `STATUS_CS`. -/
theorem tail_split {stream : List UInt8}
    (h : (rxRun clearCommFrame stream).eRxStatus = statusTail) :
    ∃ before b, stream = before ++ [b] ∧ (rxRun clearCommFrame before).eRxStatus = statusCs ∧
      (rxRun clearCommFrame stream).cs = b ∧
      frameBytes clearCommFrame [] stream = frameBytes clearCommFrame [] before ++ [b] := by
  rcases eq_nil_or_concat' stream with rfl | ⟨before, b, rfl⟩
  · cases h
  · have hrun := rxRun_snoc clearCommFrame before b
    obtain ⟨hcs, hb⟩ := rx_to_tail _ b (by rw [← hrun]; exact h)
    refine ⟨before, b, rfl, hcs, by rw [hrun, hb], ?_⟩
    rw [frameBytes_snoc, h, if_neg (by decide)]

/-- Outside `STATUS_IDLE` the frame bytes start with the head. -/
theorem frameBytes_head (stream : List UInt8) :
    (rxRun clearCommFrame stream).eRxStatus = statusIdle ∧
        frameBytes clearCommFrame [] stream = [] ∨
      (frameBytes clearCommFrame [] stream).head? = some commTrmHead := by
  induction stream using List.reverseRecOn with
  | nil => exact Or.inl ⟨rfl, rfl⟩
  | append_singleton stream b ih =>
    rw [frameBytes_snoc]
    by_cases hidle : (rxRun clearCommFrame (stream ++ [b])).eRxStatus = statusIdle
    · exact Or.inl ⟨hidle, if_pos hidle⟩
    · right
      rw [if_neg hidle]
      rcases ih with ⟨hst, hnil⟩ | hhead
      · have hb : b = commTrmHead := by
          by_contra hne
          apply hidle
          rw [rxRun_snoc, rx_idle_noise b hst hne]
          rfl
        rw [hnil, hb]
        rfl
      · rw [head?_append, hhead]
        rfl

/-- Every byte taken as a checksum and followed by the tail byte is the 8-bit
sum of the frame bytes in front of it. -/
def ChecksumsRight (stream : List UInt8) : Prop :=
  ∀ before b after, stream = before ++ b :: commTrmTail :: after →
    (rxRun clearCommFrame before).eRxStatus = statusCs →
    b = (frameBytes clearCommFrame [] before).sum

/-- The frames handed over run from their head to their checksum byte, and their
checksum bytes are right exactly when the ones in the stream are. -/
theorem deliveries_intact_iff (stream : List UInt8) :
    (∀ p ∈ deliveries clearCommFrame [] stream,
      p.1.head? = some commTrmHead ∧ p.1.getLast? = some p.2.cs) ∧
    ((∀ p ∈ deliveries clearCommFrame [] stream, p.2.cs = p.1.dropLast.sum) ↔
      ChecksumsRight stream) := by
  refine ⟨?_, ?_, ?_⟩
  · rintro p hp
    obtain ⟨before, after, -, hst, rfl⟩ := (mem_deliveries _ _ _ _).mp hp
    obtain ⟨front, b, -, -, hcs, hframe⟩ := tail_split hst
    refine ⟨?_, ?_⟩
    · rcases frameBytes_head before with ⟨hidle, -⟩ | hhead
      · rw [hidle] at hst
        cases hst
      · exact hhead
    · show (frameBytes clearCommFrame [] before).getLast? = some (rxRun clearCommFrame before).cs
      rw [hframe, hcs, getLast?_concat]
  · intro hall before b after heq hst
    have hrun := rxRun_snoc clearCommFrame before b
    have htail : (rxRun clearCommFrame (before ++ [b])).eRxStatus = statusTail := by
      rw [hrun, rx_cs b hst]
      rfl
    have hcs := (rx_to_tail _ b (by rw [← hrun]; exact htail)).2
    have hright := hall _ ((mem_deliveries _ _ _ _).mpr
      ⟨before ++ [b], after, by rw [heq]; simp, htail, rfl⟩)
    rw [frameBytes_snoc, htail, if_neg (by decide), dropLast_concat, hrun, hcs] at hright
    exact hright
  · rintro hright p hp
    obtain ⟨before, after, heq, hst, rfl⟩ := (mem_deliveries _ _ _ _).mp hp
    obtain ⟨front, b, rfl, hst', hcs, hframe⟩ := tail_split hst
    show (rxRun clearCommFrame (front ++ [b])).cs = _
    rw [hcs, hframe, dropLast_concat]
    exact hright front b after (by rw [heq]; simp) hst'

/-- A complete frame whose checksum byte is `00` instead of `BE`. -/
def corruptedStream : List UInt8 :=
  [0x68, 0x45, 0x00, 0x20, 0x08, 0xC0, 0x00, 0x13, 0x10, 0x01, 0x05, 0x00, 0x16]

theorem corrupted_frame_delivered :
    ¬ ∀ p ∈ deliveries clearCommFrame [] corruptedStream, p.2.cs = p.1.dropLast.sum := by
  intro hall
  have hright : ((deliveries clearCommFrame [] corruptedStream).all
      fun p => p.2.cs == p.1.dropLast.sum) = false := by decide +kernel
  rw [all_eq_false] at hright
  obtain ⟨p, hp, hne⟩ := hright
  exact hne (beq_iff_eq.mpr (hall p hp))

end NbLot.Guarantees.Rs485Safety
