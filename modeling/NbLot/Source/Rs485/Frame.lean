import Mathlib.Data.UInt
import NbLot.Source.Rs485.Receiver

/-!
# RS-485 frames and what the receive machine makes of one

Source: apps/examples/NB_Iot/485.c:59-75, 159-295.

A frame is `68 45 00 CMD0 CMD1 G0 G1 CON0 CON1 L d1..dL CS 16`. The machine is
followed through the ten header bytes, the data field and the checksum byte,
from any idle structure whose side buffer already holds `r` bytes (`r = 1`
directly behind a delivered frame, see `delivered`). The side buffer is written
on every byte, so from buffer index 128 on the decoded members are overwritten;
`Collecting` and `Received` state the decoded members with that effect.
-/
namespace NbLot.Source.Rs485
open CommTrmStatus List

structure Frame where
  cmd0 : UInt8
  cmd1 : UInt8
  g0 : UInt8
  g1 : UInt8
  con0 : UInt8
  con1 : UInt8
  data : List UInt8
  cs : UInt8
  length_le : data.length ≤ maxLenCommTrmData

namespace Frame

def len (f : Frame) : UInt8 := UInt8.ofNat f.data.length

def header (f : Frame) : List UInt8 :=
  [commTrmHead, commTrmFixed, 0x00, f.cmd0, f.cmd1, f.g0, f.g1, f.con0, f.con1, f.len]

/-- The frame up to its checksum byte. -/
def body (f : Frame) : List UInt8 := f.header ++ f.data ++ [f.cs]

def bytes (f : Frame) : List UInt8 := f.body ++ [commTrmTail]

theorem len_toNat (f : Frame) : f.len.toNat = f.data.length := by
  have h := f.length_le
  unfold maxLenCommTrmData at h
  simp only [len, UInt8.toNat_ofNat']
  omega

/-- The value sent for the member that lies `i` bytes behind the start of the
side buffer; offset 138 is `Date[0]`. -/
def sentAt (f : Frame) : Nat → Option UInt8
  | 129 => some f.cmd0
  | 130 => some f.cmd1
  | 132 => some f.g1
  | 133 => some f.g0
  | 135 => some f.con0
  | 136 => some f.con1
  | 138 => f.data.head?
  | _ => none

end Frame

/-- The structure holds the fields of the frame as they were sent. -/
structure Matches (f : Frame) (d : CommTrmData) : Prop where
  cmd0 : d.cmd0 = f.cmd0
  cmd1 : d.cmd1 = f.cmd1
  guid : d.guid.toNat = f.g0.toNat * 256 + f.g1.toNat
  con0 : d.con0 = f.con0
  con1 : d.con1 = f.con1
  byDataLen : d.byDataLen.toNat = f.data.length
  date : ∀ i, i < f.data.length → d.date[i]? = f.data[i]?
  cs : d.cs = f.cs

/-! ### The decoded members as bytes behind the side buffer -/

/-- The decoded member `i` bytes behind the start of the side buffer. -/
def fieldAt (s : CommTrmData) : Nat → UInt8
  | 129 => s.cmd0
  | 130 => s.cmd1
  | 132 => UInt8.ofNat s.guid.toNat
  | 133 => UInt8.ofNat (s.guid.toNat / 256)
  | 135 => s.con0
  | 136 => s.con1
  | _ => 0

/-- The offsets `fieldAt` describes. -/
def fieldOffsets : List Nat := [129, 130, 132, 133, 135, 136]

theorem sentAt_offset (f : Frame) {i : Nat} {v : UInt8} (h : f.sentAt i = some v)
    (hi : i < 138) : i ∈ fieldOffsets := by
  unfold Frame.sentAt at h
  split at h <;> simp_all [fieldOffsets]

variable {s : CommTrmData}

theorem storeRxBuf_date (i : Nat) (b : UInt8) (h : i < 138) :
    (storeRxBuf s i b).date = s.date := by
  simp only [storeRxBuf, if_neg (Nat.not_le.mpr h)]

theorem uint8_ofNat_congr (m n : Nat) (h : m % 256 = n % 256) : UInt8.ofNat m = UInt8.ofNat n := by
  apply UInt8.toNat.inj
  simpa only [UInt8.toNat_ofNat'] using h

theorem setLowByte_toNat (w : UInt16) (b : UInt8) :
    (setLowByte w b).toNat = w.toNat / 256 * 256 + b.toNat := by
  have hw := w.toNat_lt
  have hb := b.toNat_lt
  simp only [setLowByte, UInt16.toNat_ofNat']
  omega

theorem setHighByte_toNat (w : UInt16) (b : UInt8) :
    (setHighByte w b).toNat = b.toNat * 256 + w.toNat % 256 := by
  have hb := b.toNat_lt
  simp only [setHighByte, UInt16.toNat_ofNat']
  omega

/-- A store past the side buffer replaces exactly the member at its offset. -/
theorem fieldAt_storeRxBuf (i j : Nat) (b : UInt8) (hi : i ∈ fieldOffsets) :
    fieldAt (storeRxBuf s j b) i = if j = i then b else fieldAt s i := by
  have hlow := setLowByte_toNat s.guid b
  have hhigh := setHighByte_toNat s.guid b
  have hb := b.toNat_lt
  simp only [fieldOffsets, mem_cons, not_mem_nil, or_false] at hi
  rcases hi with rfl | rfl | rfl | rfl | rfl | rfl
  · rfl
  · rfl
  · show UInt8.ofNat (if j = 132 then _ else _ : UInt16).toNat = if j = 132 then b else _
    split_ifs with h1 h2
    · rw [uint8_ofNat_congr _ b.toNat (by omega), UInt8.ofNat_toNat]
    · exact uint8_ofNat_congr _ _ (by omega)
    · rfl
  · show UInt8.ofNat ((if j = 132 then _ else _ : UInt16).toNat / 256) = if j = 133 then b else _
    split_ifs with h1 h2 h3
    · omega
    · exact uint8_ofNat_congr _ _ (by omega)
    · rw [uint8_ofNat_congr _ b.toNat (by omega), UInt8.ofNat_toNat]
    · rfl
  · rfl
  · rfl

/-! ### One byte of each kind -/

theorem rx_data (b : UInt8) (h : s.eRxStatus = statusData) :
    comm2trmRxUartData s b =
      ⟨{ storeRxBuf { s with
            date := s.date.setIfInBounds s.byCnt.toNat b, byCnt := s.byCnt + 1,
            eRxStatus := if s.byCnt + 1 < s.byDataLen then statusData else statusCs }
          s.byFrameLen.toNat b with byFrameLen := s.byFrameLen + 1 },
        none, [.date s.byCnt.toNat, .rxBuf s.byFrameLen.toNat]⟩ := by
  simp only [comm2trmRxUartData, rxSwitch, h]
  by_cases hlt : s.byCnt + 1 < s.byDataLen
  · simp [hlt]
  · simp [hlt]

theorem rx_cs (b : UInt8) (h : s.eRxStatus = statusCs) :
    comm2trmRxUartData s b =
      ⟨{ storeRxBuf { s with eRxStatus := statusTail, cs := b } s.byFrameLen.toNat b with
          byFrameLen := s.byFrameLen + 1 },
        none, [.rxBuf s.byFrameLen.toNat]⟩ := by
  simp only [comm2trmRxUartData, rxSwitch, h, nil_append]

/-- The structure behind every delivered frame: cleared, then the tail byte is
still saved. -/
def delivered : CommTrmData :=
  { clearCommFrame with
    aByRxBuf := (Vector.replicate 128 0).setIfInBounds 0 commTrmTail, byFrameLen := 1 }

theorem rx_tail (h : s.eRxStatus = statusTail) :
    comm2trmRxUartData s commTrmTail = ⟨delivered, some s, [.rxBuf 0]⟩ := by
  simp [comm2trmRxUartData, rxSwitch, h, delivered, clearCommFrame, storeRxBuf]

/-- `process_poll` is called only on the tail byte in `STATUS_TAIL`, with the
structure as it stands. -/
theorem rx_poll {s d : CommTrmData} {b : UInt8} (h : (comm2trmRxUartData s b).poll = some d) :
    s.eRxStatus = statusTail ∧ b = commTrmTail ∧ d = s := by
  cases hst : s.eRxStatus <;> simp only [comm2trmRxUartData, rxSwitch, hst] at h
  case statusTail =>
    split_ifs at h with htail
    exact ⟨rfl, htail.symm, (Option.some.inj h).symm⟩
  all_goals
    first
    | cases h
    | split_ifs at h

theorem rx_idle_noise (b : UInt8) (h : s.eRxStatus = statusIdle)
    (hb : b ≠ commTrmHead) : comm2trmRxUartData s b = ⟨clearCommFrame, none, []⟩ := by
  simp only [comm2trmRxUartData, rxSwitch, h, if_neg (Ne.symm hb)]

/-! ### The frame up to its checksum byte -/

/-- The machine has taken the header and `k` data bytes of `f`, the first byte
at buffer index `r`. -/
structure Collecting (f : Frame) (r k : Nat) (s : CommTrmData) : Prop where
  status : s.eRxStatus = if k = 0 ∨ k < f.data.length then statusData else statusCs
  byCnt : s.byCnt.toNat = k
  byDataLen : s.byDataLen.toNat = f.data.length
  byFrameLen : s.byFrameLen.toNat = r + 10 + k
  fields : ∀ i v, f.sentAt i = some v → i < 138 →
    some (fieldAt s i) = if i < r + 10 + k then f.body[i - r]? else some v
  date : ∀ i, i < k → s.date[i]? = f.data[i]?

theorem guid_toNat (a b : UInt8) :
    ((a.toUInt16 <<< 8) ||| b.toUInt16).toNat = a.toNat * 256 + b.toNat := by
  have ha := a.toNat_lt
  have hb := b.toNat_lt
  have hs : (a.toUInt16 <<< 8).toNat = a.toNat <<< 8 := by
    simp only [UInt16.toNat_shiftLeft]
    rw [Nat.mod_eq_of_lt]
    · rfl
    · show a.toNat <<< 8 < 65536
      omega
  rw [UInt16.toNat_or, hs, UInt8.toNat_toUInt16, ← Nat.shiftLeft_add_eq_or_of_lt hb,
    Nat.shiftLeft_eq]

section

variable (f : Frame) (r : Nat) (s : CommTrmData)
include f

theorem rxRun_header (hs : s.eRxStatus = statusIdle)
    (hr : s.byFrameLen.toNat = r) (hr1 : r ≤ 1) :
    polls s f.header = [] ∧ ∃ buf, rxRun s f.header = { s with
      byCnt := 0, byDataLen := f.len, byFrameLen := UInt8.ofNat (r + 10), eRxStatus := statusData
      aByRxBuf := buf, fg := 0, cmd0 := f.cmd0, cmd1 := f.cmd1
      guid := (f.g0.toUInt16 <<< 8) ||| f.g1.toUInt16, guidCnt := 1
      con0 := f.con0, con1 := f.con1 } := by
  have hl := f.len_toNat
  have hle := f.length_le
  have hlen : s.byFrameLen = UInt8.ofNat r := by rw [← hr, UInt8.ofNat_toNat]
  rcases Nat.le_one_iff_eq_zero_or_eq_one.mp hr1 with rfl | rfl <;>
    simp [Frame.header, rxRun, polls, comm2trmRxUartData, rxSwitch, hs, hlen, storeRxBuf, hl, hle]

theorem collecting_header (hs : s.eRxStatus = statusIdle)
    (hr : s.byFrameLen.toNat = r) (hr1 : r ≤ 1) :
    polls s f.header = [] ∧ Collecting f r 0 (rxRun s f.header) := by
  obtain ⟨hpolls, buf, hrun⟩ := rxRun_header f r s hs hr hr1
  refine ⟨hpolls, ?_⟩
  rw [hrun]
  have hguid := guid_toNat f.g0 f.g1
  have hg1 := f.g1.toNat_lt
  refine ⟨by simp, rfl, f.len_toNat, ?_, ?_, fun i hi => absurd hi (Nat.not_lt_zero i)⟩
  · simp only [UInt8.toNat_ofNat']
    omega
  · intro i v hv hi
    have hoff := sentAt_offset f hv hi
    simp only [fieldOffsets, mem_cons, not_mem_nil, or_false] at hoff
    have hbeyond : ¬ i < r + 10 + 0 := by omega
    rw [if_neg hbeyond, ← hv]
    rcases hoff with rfl | rfl | rfl | rfl | rfl | rfl <;>
      simp only [fieldAt, Frame.sentAt]
    · rw [uint8_ofNat_congr _ f.g1.toNat (by omega), UInt8.ofNat_toNat]
    · rw [uint8_ofNat_congr _ f.g0.toNat (by omega), UInt8.ofNat_toNat]

theorem body_getElem_data (k : Nat) (d : UInt8) (h : f.data[k]? = some d) :
    f.body[10 + k]? = some d := by
  have hk : k < f.data.length := (List.getElem?_eq_some_iff.mp h).1
  have hh : f.header.length = 10 := rfl
  unfold Frame.body
  rw [append_assoc, getElem?_append_right (by omega), hh, Nat.add_sub_cancel_left,
    getElem?_append_left hk, h]

theorem body_getElem_cs : f.body[10 + f.data.length]? = some f.cs := by
  have hh : f.header.length = 10 := rfl
  unfold Frame.body
  simp [hh]

/-- One data byte. The bound keeps the side buffer out of `Date`. -/
theorem collecting_step (k : Nat) (d : UInt8) (hc : Collecting f r k s)
    (hd : f.data[k]? = some d) (hfit : r + 10 + k < 138) :
    (comm2trmRxUartData s d).poll = none ∧
      Collecting f r (k + 1) (comm2trmRxUartData s d).state := by
  have hk : k < f.data.length := (List.getElem?_eq_some_iff.mp hd).1
  have hstatus : s.eRxStatus = statusData := by rw [hc.status, if_pos (Or.inr hk)]
  have hcnt : (s.byCnt + 1).toNat = k + 1 := by
    rw [UInt8.toNat_add, hc.byCnt]
    simp only [UInt8.reduceToNat]
    omega
  rw [rx_data d hstatus]
  refine ⟨rfl, ?_, hcnt, hc.byDataLen, ?_, ?_, ?_⟩
  · show (if s.byCnt + 1 < s.byDataLen then statusData else statusCs) = _
    have hlt : s.byCnt + 1 < s.byDataLen ↔ k + 1 = 0 ∨ k + 1 < f.data.length := by
      rw [UInt8.lt_iff_toNat_lt, hc.byDataLen]
      omega
    simp only [hlt]
  · show (s.byFrameLen + 1).toNat = _
    rw [UInt8.toNat_add, hc.byFrameLen]
    simp only [UInt8.reduceToNat]
    omega
  · intro i v hv hi
    have hoff := sentAt_offset f hv hi
    have hold := hc.fields i v hv hi
    show some (fieldAt (storeRxBuf _ s.byFrameLen.toNat d) i) = _
    rw [fieldAt_storeRxBuf _ _ _ hoff, hc.byFrameLen]
    by_cases heq : r + 10 + k = i
    · rw [if_pos heq, if_pos (by omega), show i - r = 10 + k by omega, body_getElem_data f k d hd]
    · have hsame : fieldAt { s with
          date := s.date.setIfInBounds s.byCnt.toNat d, byCnt := s.byCnt + 1,
          eRxStatus := if s.byCnt + 1 < s.byDataLen then statusData else statusCs } i =
          fieldAt s i := rfl
      rw [if_neg heq, hsame, hold]
      by_cases hlt : i < r + 10 + k
      · rw [if_pos hlt, if_pos (by omega)]
      · rw [if_neg hlt, if_neg (by omega)]
  · intro i hi
    have hdate : (storeRxBuf { s with
        date := s.date.setIfInBounds s.byCnt.toNat d, byCnt := s.byCnt + 1,
        eRxStatus := if s.byCnt + 1 < s.byDataLen then statusData else statusCs }
        s.byFrameLen.toNat d).date = s.date.setIfInBounds k d := by
      rw [storeRxBuf_date _ _ (by rw [hc.byFrameLen]; exact hfit), hc.byCnt]
    show (storeRxBuf _ _ _).date[i]? = _
    rw [hdate, Vector.getElem?_setIfInBounds]
    by_cases heq : k = i
    · subst heq
      rw [if_pos rfl, if_pos (by omega), hd]
    · rw [if_neg heq]
      exact hc.date i (by omega)

/-- The data field, by induction on the bytes still to come: `Collecting` is the
loop invariant. -/
theorem collecting_data (rest : List UInt8) (k : Nat) (hrest : f.data.drop k = rest) (hc : Collecting f r k s) (hk : k ≤ f.data.length)
    (hfit : r + 10 + f.data.length ≤ 138) :
    polls s rest = [] ∧ Collecting f r f.data.length (rxRun s rest) := by
  induction rest generalizing k s with
  | nil =>
    have hend : k = f.data.length := by
      have := drop_eq_nil_iff.mp hrest
      omega
    subst hend
    exact ⟨rfl, hc⟩
  | cons d tail ih =>
    have hd : f.data[k]? = some d := by
      rw [← head?_drop, hrest, head?_cons]
    have hlt : k < f.data.length := (List.getElem?_eq_some_iff.mp hd).1
    obtain ⟨hpoll, hnext⟩ := collecting_step f r s k d hc hd (by omega)
    have htail : f.data.drop (k + 1) = tail := by
      rw [← tail_drop, hrest, tail_cons]
    obtain ⟨hpolls, hend⟩ := ih _ (k + 1) htail hnext (by omega)
    exact ⟨by simp only [polls, hpoll, Option.toList_none, nil_append, hpolls], hend⟩

/-- The machine has taken everything but the tail byte of `f`. A decoded member
holds what was sent for it unless the side buffer has grown over it. -/
structure Received (f : Frame) (r : Nat) (s : CommTrmData) : Prop where
  status : s.eRxStatus = statusTail
  byDataLen : s.byDataLen.toNat = f.data.length
  byFrameLen : s.byFrameLen.toNat = r + 11 + f.data.length
  cs : s.cs = f.cs
  fields : ∀ i v, f.sentAt i = some v → i < 138 →
    some (fieldAt s i) = if i < r + 11 + f.data.length then f.body[i - r]? else some v
  date : ∀ i, i < f.data.length →
    s.date[i]? = if r + 10 + f.data.length = 138 + i then some f.cs else f.data[i]?

theorem received_cs (hc : Collecting f r f.data.length s)
    (hne : f.data ≠ []) (hfit : r + 10 + f.data.length ≤ 138) :
    (comm2trmRxUartData s f.cs).poll = none ∧
      Received f r (comm2trmRxUartData s f.cs).state := by
  have hpos := length_pos_iff.mpr hne
  have hstatus : s.eRxStatus = statusCs := by
    rw [hc.status, if_neg (by omega)]
  rw [rx_cs f.cs hstatus]
  refine ⟨rfl, rfl, hc.byDataLen, ?_, ?_, ?_, ?_⟩
  · show (s.byFrameLen + 1).toNat = _
    rw [UInt8.toNat_add, hc.byFrameLen]
    simp only [UInt8.reduceToNat]
    omega
  -- a store at the offset of `CS` writes the checksum byte itself
  · show (if s.byFrameLen.toNat = 137 then f.cs else f.cs) = f.cs
    exact ite_self f.cs
  · intro i v hv hi
    have hoff := sentAt_offset f hv hi
    show some (fieldAt (storeRxBuf _ s.byFrameLen.toNat f.cs) i) = _
    rw [fieldAt_storeRxBuf _ _ _ hoff, hc.byFrameLen]
    by_cases heq : r + 10 + f.data.length = i
    · rw [if_pos heq, if_pos (by omega), show i - r = 10 + f.data.length by omega,
        body_getElem_cs f]
    · have hsame : fieldAt { s with eRxStatus := statusTail, cs := f.cs } i = fieldAt s i := rfl
      rw [if_neg heq, hsame, hc.fields i v hv hi]
      by_cases hlt : i < r + 10 + f.data.length
      · rw [if_pos hlt, if_pos (by omega)]
      · rw [if_neg hlt, if_neg (by omega)]
  · intro i hi
    have hold := hc.date i hi
    by_cases hspill : r + 10 + f.data.length = 138
    · have hdate : (storeRxBuf { s with eRxStatus := statusTail, cs := f.cs }
          s.byFrameLen.toNat f.cs).date = s.date.setIfInBounds 0 f.cs := by
        simp [storeRxBuf, hc.byFrameLen, hspill]
      show (storeRxBuf _ _ _).date[i]? = _
      rw [hdate, Vector.getElem?_setIfInBounds]
      by_cases hzero : i = 0
      · subst hzero
        rw [if_pos rfl, if_pos (by omega), if_pos (by omega)]
      · rw [if_neg (Ne.symm hzero), if_neg (by omega), hold]
    · show (storeRxBuf _ _ _).date[i]? = _
      rw [storeRxBuf_date _ _ (by rw [hc.byFrameLen]; omega), if_neg (by omega)]
      exact hold

/-- Everything but the tail byte of a frame with a data field: no call of
`process_poll`, and the structure the tail byte will hand over. -/
theorem received_body (hs : s.eRxStatus = statusIdle)
    (hr : s.byFrameLen.toNat = r) (hr1 : r ≤ 1) (hne : f.data ≠ [])
    (hfit : r + 10 + f.data.length ≤ 138) :
    polls s f.body = [] ∧ Received f r (rxRun s f.body) := by
  obtain ⟨hp1, hc0⟩ := collecting_header f r s hs hr hr1
  obtain ⟨hp2, hcn⟩ := collecting_data f r (rxRun s f.header) f.data 0 drop_zero hc0
    (Nat.zero_le _) hfit
  obtain ⟨hp3, hrec⟩ := received_cs f r _ hcn hne hfit
  unfold Frame.body
  refine ⟨?_, ?_⟩
  · rw [polls_append, polls_append, rxRun_append, hp1, hp2]
    simp only [polls, hp3, Option.toList_none, append_nil]
  · rw [rxRun_append]
    exact hrec

/-- A frame with a data field calls `process_poll` once, on the tail byte, and
leaves the `delivered` structure. -/
theorem polls_frame (hs : s.eRxStatus = statusIdle)
    (hr : s.byFrameLen.toNat = r) (hr1 : r ≤ 1) (hne : f.data ≠ [])
    (hfit : r + 10 + f.data.length ≤ 138) :
    polls s f.bytes = [rxRun s f.body] ∧ rxRun s f.bytes = delivered := by
  obtain ⟨hpolls, hrec⟩ := received_body f r s hs hr hr1 hne hfit
  have htail := rx_tail hrec.status
  unfold Frame.bytes
  rw [polls_append, rxRun_append, hpolls]
  simp only [polls, rxRun, htail, Option.toList_some, append_nil, nil_append, and_self]

end

/-! ### When the decoded members are the ones sent -/

theorem guid_bytes_iff (w : UInt16) (hi lo : UInt8) :
    w.toNat = hi.toNat * 256 + lo.toNat ↔
      UInt8.ofNat w.toNat = lo ∧ UInt8.ofNat (w.toNat / 256) = hi := by
  have hw := w.toNat_lt
  have hl := lo.toNat_lt
  simp only [← UInt8.toNat_inj, UInt8.toNat_ofNat']
  omega

theorem sentAt_cases (f : Frame) (i : Nat) (v : UInt8) (h : f.sentAt i = some v) :
    i < 138 ∨ (i = 138 ∧ f.data[0]? = some v) := by
  unfold Frame.sentAt at h
  split at h
  all_goals simp_all [head?_eq_getElem?]

/-- Every frame byte that the side buffer puts onto a decoded member is the byte
sent for that member. -/
def SpillHarmless (f : Frame) (r : Nat) : Prop :=
  ∀ i v, f.sentAt i = some v → i < r + 11 + f.data.length → f.body[i - r]? = some v

/-- The structure handed over is the frame as it was sent exactly when the spill
of the side buffer does no harm. -/
theorem Received.matches_iff (f : Frame) (r : Nat) (s : CommTrmData) (h : Received f r s)
    (hfit : r + 10 + f.data.length ≤ 138) : Matches f s ↔ SpillHarmless f r := by
  constructor
  · intro hm i v hv hi
    rcases sentAt_cases f i v hv with hlt | ⟨rfl, hhead⟩
    · have hfield := h.fields i v hv hlt
      rw [if_pos hi] at hfield
      rw [← hfield, ← hv]
      have hguid := (guid_bytes_iff _ _ _).mp hm.guid
      have hoff := sentAt_offset f hv hlt
      simp only [fieldOffsets, mem_cons, not_mem_nil, or_false] at hoff
      rcases hoff with rfl | rfl | rfl | rfl | rfl | rfl <;>
        simp only [fieldAt, Frame.sentAt, hm.cmd0, hm.cmd1, hm.con0, hm.con1, hguid.1, hguid.2]
    · have hpos : 0 < f.data.length := (List.getElem?_eq_some_iff.mp hhead).1
      have hspill := h.date 0 hpos
      rw [if_pos (by omega), hm.date 0 hpos, hhead] at hspill
      rw [show 138 - r = 10 + f.data.length by omega, body_getElem_cs f, ← hspill]
  · intro hs
    have hkept : ∀ i v, f.sentAt i = some v → i < 138 → fieldAt s i = v := by
      intro i v hv hi
      have hfield := h.fields i v hv hi
      by_cases hlt : i < r + 11 + f.data.length
      · rw [if_pos hlt, hs i v hv hlt] at hfield
        exact Option.some.inj hfield
      · rw [if_neg hlt] at hfield
        exact Option.some.inj hfield
    have hguid := (guid_bytes_iff s.guid f.g0 f.g1).mpr
      ⟨hkept 132 f.g1 rfl (by omega), hkept 133 f.g0 rfl (by omega)⟩
    refine ⟨hkept 129 f.cmd0 rfl (by omega), hkept 130 f.cmd1 rfl (by omega), hguid,
      hkept 135 f.con0 rfl (by omega), hkept 136 f.con1 rfl (by omega), h.byDataLen, ?_, h.cs⟩
    intro i hi
    rw [h.date i hi]
    by_cases hspill : r + 10 + f.data.length = 138 + i
    · have hzero : i = 0 := by omega
      subst hzero
      have hhead : f.sentAt 138 = some (f.data[0]) := by
        simp only [Frame.sentAt, head?_eq_getElem?, getElem?_eq_getElem hi]
      have hbyte := hs 138 _ hhead (by omega)
      rw [show 138 - r = 10 + f.data.length by omega, body_getElem_cs f] at hbyte
      rw [if_pos hspill, getElem?_eq_getElem hi, hbyte]
    · rw [if_neg hspill]

/-- The lowest decoded member of interest lies at offset 129. -/
theorem spillHarmless_of_fits (f : Frame) (r : Nat) (hfit : r + 11 + f.data.length ≤ 129) :
    SpillHarmless f r := by
  intro i v hv hi
  rcases sentAt_cases f i v hv with hlt | ⟨rfl, _⟩
  · have hoff := sentAt_offset f hv hlt
    simp only [fieldOffsets, mem_cons, not_mem_nil, or_false] at hoff
    omega
  · omega

theorem Received.matches (f : Frame) (r : Nat) (s : CommTrmData) (h : Received f r s)
    (hfit : r + 11 + f.data.length ≤ 129) : Matches f s :=
  (h.matches_iff f r s (by omega)).mpr (spillHarmless_of_fits f r hfit)

end NbLot.Source.Rs485
