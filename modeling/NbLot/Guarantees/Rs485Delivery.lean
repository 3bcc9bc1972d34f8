import Mathlib.Algebra.Order.Group.Nat
import Mathlib.Data.Nat.Cast.Order.Basic
import NbLot.Source.Rs485.Transmit

/-!
# RS-485 delivery: what `process_poll` is handed

Source: apps/examples/NB_Iot/485.c:159-295 (receive machine), 301-597 (transmit
functions).

* `frame_decoded_iff` - a single frame from the cleared structure is handed over
  as it was sent exactly when its data field is not empty and the part of the
  frame that does not fit the side buffer repeats the members it falls on;
* `transmitted_frames_delivered` - each of the seven transmit functions is
  understood by the receive machine, for every argument and every `SRB`;
* `frames_independent_iff` - the tail byte saved behind `ClearCommFrame` is
  carried into the next frame, so a sequence of frames is handed over as its
  frames alone would be exactly when it has at most one frame.
-/
namespace NbLot.Guarantees.Rs485Delivery
open Source.Rs485 CommTrmStatus List

/-! ### One frame from the cleared structure -/

/-- Feeding the frame from the cleared structure calls `process_poll` once, on
the last byte, with the fields as they were sent. -/
def DecodesAlone (f : Frame) : Prop :=
  polls clearCommFrame f.body = [] ∧ ∃ d, polls clearCommFrame f.bytes = [d] ∧ Matches f d

/-- An empty data field is not recognised: the checksum byte is taken as data
and the tail byte as the checksum. -/
theorem polls_empty_frame (f : Frame) (h : f.data = []) : polls clearCommFrame f.bytes = [] := by
  obtain ⟨hpolls, hc⟩ := collecting_header f 0 clearCommFrame rfl rfl (Nat.zero_le 1)
  have hdata := hc.status
  have hlen : (rxRun clearCommFrame f.header).byDataLen.toNat = 0 := by rw [hc.byDataLen, h]; rfl
  have hbytes : f.bytes = f.header ++ [f.cs, commTrmTail] := by
    simp [Frame.bytes, Frame.body, h]
  have hshort : ¬ (rxRun clearCommFrame f.header).byCnt + 1 <
      (rxRun clearCommFrame f.header).byDataLen := by
    rw [UInt8.lt_iff_toNat_lt, hlen]
    exact Nat.not_lt_zero _
  have hcs : (comm2trmRxUartData (rxRun clearCommFrame f.header) f.cs).state.eRxStatus =
      statusCs := by
    rw [rx_data _ hdata, if_neg hshort]
    rfl
  rw [hbytes, polls_append, hpolls]
  simp only [polls, rx_cs _ hcs]
  rw [rx_data _ hdata]
  rfl

theorem frame_decoded_iff (f : Frame) :
    DecodesAlone f ↔ 1 ≤ f.data.length ∧ SpillHarmless f 0 := by
  have hle := f.length_le
  unfold maxLenCommTrmData at hle
  by_cases hempty : f.data = []
  · constructor
    · rintro ⟨-, d, hd, -⟩
      rw [polls_empty_frame f hempty] at hd
      cases hd
    · rintro ⟨hlen, -⟩
      rw [hempty] at hlen
      cases hlen
  · have hpos := length_pos_iff.mpr hempty
    obtain ⟨hbody, hrec⟩ := received_body f 0 clearCommFrame rfl rfl (Nat.zero_le 1) hempty (by omega)
    obtain ⟨hbytes, -⟩ := polls_frame f 0 clearCommFrame rfl rfl (Nat.zero_le 1) hempty (by omega)
    have hiff := hrec.matches_iff f 0 _ (by omega)
    constructor
    · rintro ⟨-, d, hd, hm⟩
      rw [hbytes] at hd
      cases hd
      exact ⟨hpos, hiff.mp hm⟩
    · rintro ⟨-, hs⟩
      exact ⟨hbody, _, hbytes, hiff.mpr hs⟩

/-- A frame without data bytes. -/
def emptyFrame : Frame where
  cmd0 := 0x20
  cmd1 := 0x08
  g0 := 0xC0
  g1 := 0x00
  con0 := 0x13
  con1 := 0x10
  data := []
  cs := 0xB8
  length_le := by decide

/-- 119 zero data bytes: the checksum byte lands on `CMD0`. -/
def longFrame : Frame where
  cmd0 := 0x20
  cmd1 := 0x08
  g0 := 0xC0
  g1 := 0x00
  con0 := 0x13
  con1 := 0x10
  data := List.replicate 119 0
  cs := 0x2F
  length_le := by decide

theorem empty_and_long_frame_not_decoded :
    ¬ DecodesAlone emptyFrame ∧ ¬ DecodesAlone longFrame := by
  constructor
  · rintro ⟨-, d, hd, -⟩
    cases hd
  · rintro ⟨-, d, hd, hm⟩
    have hne : longFrame.data ≠ [] := by decide
    have hfit : 0 + 10 + longFrame.data.length ≤ 138 := by decide
    obtain ⟨-, hrec⟩ := received_body longFrame 0 clearCommFrame rfl rfl (Nat.zero_le 1) hne hfit
    obtain ⟨hbytes, -⟩ := polls_frame longFrame 0 clearCommFrame rfl rfl (Nat.zero_le 1) hne hfit
    have hpolled := singleton_inj.mp (hbytes.symm.trans hd)
    rw [← hpolled] at hm
    have hspill := (hrec.matches_iff longFrame 0 _ hfit).mp hm 129 longFrame.cmd0 rfl (by decide)
    exact absurd hspill (by decide)

/-! ### The transmit functions -/

/-- The structure is cleared, or was left by a byte that completed a frame. -/
def Ready (s : CommTrmData) : Prop :=
  s = clearCommFrame ∨ ∃ stream b,
    (comm2trmRxUartData (rxRun clearCommFrame stream) b).poll ≠ none ∧
    s = (comm2trmRxUartData (rxRun clearCommFrame stream) b).state

variable (s : CommTrmData)

theorem state_of_poll (b : UInt8) (h : (comm2trmRxUartData s b).poll ≠ none) :
    (comm2trmRxUartData s b).state = delivered := by
  obtain ⟨d, hd⟩ := Option.ne_none_iff_exists'.mp h
  obtain ⟨hstatus, rfl, -⟩ := rx_poll hd
  rw [rx_tail hstatus]

theorem Ready.idle (h : Ready s) : s.eRxStatus = statusIdle := by
  rcases h with rfl | ⟨stream, b, hpoll, rfl⟩
  · rfl
  · rw [state_of_poll _ b hpoll]
    rfl

/-- The stream is handed over as this frame and nothing else. -/
def Delivers (s : CommTrmData) (stream : List UInt8) (f : Frame) : Prop :=
  ∃ d, polls s stream = [d] ∧ Matches f d

/-- A frame of the transmit functions: `CMD1 = 08`, second `GUID` byte `00`, and
the 8-bit sum of everything from the head on as its checksum. -/
def sealedFrame (cmd0 g0 con0 con1 : UInt8) (data : List UInt8)
    (h : data.length ≤ maxLenCommTrmData) : Frame where
  cmd0 := cmd0
  cmd1 := 0x08
  g0 := g0
  g1 := 0x00
  con0 := con0
  con1 := con1
  data := data
  cs := ([0x68, 0x45, 0x00, cmd0, 0x08, g0, 0x00, con0, con1, UInt8.ofNat data.length] ++ data).sum
  length_le := h

theorem polls_preamble (h : s.eRxStatus = statusIdle) (stream : List UInt8) :
    polls s ([0xfe, 0xfe, 0xfe] ++ stream) = polls clearCommFrame stream := by
  have hne : (0xfe : UInt8) ≠ commTrmHead := by decide
  simp only [cons_append, nil_append, polls, rx_idle_noise 0xfe h hne,
    rx_idle_noise (s := clearCommFrame) 0xfe rfl hne, Option.toList_none]

theorem sealedFrame_delivered (hs : s.eRxStatus = statusIdle) (cmd0 g0 con0 con1 acc srb : UInt8)
    (data senddate : List UInt8) (h : data.length ≤ maxLenCommTrmData) (hne : data ≠ [])
    (hshort : data.length ≤ 100)
    (hsend : senddate = [0xfe, 0xfe, 0xfe] ++ ((sealedFrame cmd0 g0 con0 con1 data h).header ++ data) ++ [acc, commTrmTail]) :
    Delivers s (transmit senddate srb).1 (sealedFrame cmd0 g0 con0 con1 data h) := by
  have hbytes : (sealedFrame cmd0 g0 con0 con1 data h).header ++ data ++
      [((sealedFrame cmd0 g0 con0 con1 data h).header ++ data).sum, commTrmTail] =
      (sealedFrame cmd0 g0 con0 con1 data h).bytes := by
    simp only [Frame.bytes, Frame.body, append_assoc]
    rfl
  have hfit : 0 + 10 + (sealedFrame cmd0 g0 con0 con1 data h).data.length ≤ 138 := by
    show 0 + 10 + data.length ≤ 138
    omega
  obtain ⟨-, hrec⟩ := received_body (sealedFrame cmd0 g0 con0 con1 data h) 0 clearCommFrame rfl rfl
    (Nat.zero_le 1) hne hfit
  obtain ⟨hpolls, -⟩ := polls_frame (sealedFrame cmd0 g0 con0 con1 data h) 0 clearCommFrame rfl rfl
    (Nat.zero_le 1) hne hfit
  refine ⟨_, ?_, hrec.matches _ 0 _ ?_⟩
  · rw [transmit, hsend, checksumLoop_eq _ _ _ _ rfl, append_assoc, polls_preamble s hs, hbytes,
      hpolls]
  · show 0 + 11 + data.length ≤ 129
    omega

/-- Each transmitted array, preamble included, is handed over as exactly one
frame: its constant fields, its data bytes and the sum of the bytes from the
head on, from the cleared structure as well as behind any delivered frame. -/
theorem transmitted_frames_delivered (s : CommTrmData) (hs : Ready s)
    (led1 led2 led3 led4 ledonoff : Int) (srb : UInt8) :
    Delivers s (setColorTemperatureBrightness led1 led2 led3 led4 srb).1
      (sealedFrame 0x40 0xC0 0x43 0x00
        [UInt8.ofInt led1, UInt8.ofInt led2, UInt8.ofInt led3, UInt8.ofInt led4] (by simp [maxLenCommTrmData])) ∧
    Delivers s (getLedTemperature srb).1
      (sealedFrame 0x20 0xC0 0x15 0x30 [srb] (by simp [maxLenCommTrmData])) ∧
    Delivers s (getBaseTemperature srb).1
      (sealedFrame 0x20 0xB0 0x11 0x30 [srb] (by simp [maxLenCommTrmData])) ∧
    Delivers s (getVoltage srb).1
      (sealedFrame 0x20 0xC0 0x13 0x10 [srb] (by simp [maxLenCommTrmData])) ∧
    Delivers s (getCurrent srb).1
      (sealedFrame 0x20 0xC0 0x14 0x20 [srb] (by simp [maxLenCommTrmData])) ∧
    Delivers s (setMainLEDSwitch ledonoff srb).1
      (sealedFrame 0x40 0xC0 (UInt8.ofInt ledonoff) 0x00 [srb] (by simp [maxLenCommTrmData])) ∧
    Delivers s (setBLEDSwitch ledonoff srb).1
      (sealedFrame 0x40 0xC0 (UInt8.ofInt ledonoff) 0x00 [srb] (by simp [maxLenCommTrmData])) := by
  refine ⟨?_, ?_, ?_, ?_, ?_, ?_, ?_⟩ <;>
    exact sealedFrame_delivered s hs.idle _ _ _ _ _ _ _ _ _ (by simp) (by simp) rfl

theorem transmitted_frames_delivered_cleared :
    Ready clearCommFrame ∧ Delivers clearCommFrame (getVoltage 5).1
      (sealedFrame 0x20 0xC0 0x13 0x10 [5] (by simp [maxLenCommTrmData])) :=
  ⟨Or.inl rfl, (transmitted_frames_delivered clearCommFrame (Or.inl rfl) 0 0 0 0 0 5).2.2.2.1⟩

/-! ### Sequences of frames -/

/-- A frame with 1 to 100 data bytes. -/
structure DataFrame extends Frame where
  nonempty : data ≠ []
  short : data.length ≤ 100

/-- The structure handed over for a frame that starts at buffer index `r`. -/
def handedOver (f : DataFrame) (s : CommTrmData) : CommTrmData := rxRun s f.body

theorem polls_dataFrame (f : DataFrame) (r : Nat) (s : CommTrmData)
    (hs : s.eRxStatus = statusIdle) (hr : s.byFrameLen.toNat = r) (hr1 : r ≤ 1) :
    polls s f.bytes = [handedOver f s] ∧ rxRun s f.bytes = delivered ∧
      Received f.toFrame r (handedOver f s) := by
  have hshort := f.short
  have hfit : r + 10 + f.data.length ≤ 138 := by omega
  obtain ⟨hpolls, hrun⟩ := polls_frame f.toFrame r s hs hr hr1 f.nonempty hfit
  exact ⟨hpolls, hrun, (received_body f.toFrame r s hs hr hr1 f.nonempty hfit).2⟩

/-- The frames fed one behind the other are handed over exactly as each of them
is when it is fed alone, whole structures compared. -/
def FramesIndependent (fs : List DataFrame) : Prop :=
  polls clearCommFrame (fs.flatMap fun f => f.bytes) =
    fs.flatMap fun f => polls clearCommFrame f.bytes

/-- `byFrameLen` of a frame behind another one is larger by the saved tail byte. -/
theorem handedOver_ne (f : DataFrame) : handedOver f delivered ≠ handedOver f clearCommFrame := by
  obtain ⟨-, -, hbehind⟩ := polls_dataFrame f 1 delivered rfl rfl (Nat.le_refl 1)
  obtain ⟨-, -, halone⟩ := polls_dataFrame f 0 clearCommFrame rfl rfl (Nat.zero_le 1)
  intro heq
  have hlen := hbehind.byFrameLen
  rw [heq, halone.byFrameLen] at hlen
  omega

/-- The second frame of a sequence is never handed over as it would be alone. -/
theorem second_frame_dependent (f g : DataFrame) (rest : List DataFrame) :
    ¬ FramesIndependent (f :: g :: rest) := by
  obtain ⟨hf, hfrun, -⟩ := polls_dataFrame f 0 clearCommFrame rfl rfl (Nat.zero_le 1)
  obtain ⟨hg, -⟩ := polls_dataFrame g 1 delivered rfl rfl (Nat.le_refl 1)
  obtain ⟨halone, -⟩ := polls_dataFrame g 0 clearCommFrame rfl rfl (Nat.zero_le 1)
  intro heq
  simp only [FramesIndependent, flatMap_cons, polls_append, hf, hfrun, hg, halone,
    cons_append, nil_append, List.cons.injEq] at heq
  exact handedOver_ne g heq.2.1

theorem frames_independent_iff (fs : List DataFrame) :
    FramesIndependent fs ↔ fs.length ≤ 1 := by
  match fs with
  | [] => simp [FramesIndependent, polls]
  | [f] => simp [FramesIndependent]
  | f :: g :: rest =>
    constructor
    · intro h
      exact absurd h (second_frame_dependent f g rest)
    · intro hlen
      simp at hlen

/-- A frame with one data byte. -/
def voltageFrame : DataFrame where
  toFrame := sealedFrame 0x20 0xC0 0x13 0x10 [0] (by simp [maxLenCommTrmData])
  nonempty := cons_ne_nil _ _
  short := by decide

theorem two_frames_not_independent : ¬ FramesIndependent [voltageFrame, voltageFrame] :=
  second_frame_dependent voltageFrame voltageFrame []

end NbLot.Guarantees.Rs485Delivery
