import NbLot.Source.Rs485.Frame

/-!
# RS-485 receive machine: the invariant of every byte stream

Source: apps/examples/NB_Iot/485.c:159-295.

`Progress stream s` relates the structure to the bytes that led to it from the
cleared structure: how many bytes the status has cost at least, how far the side
buffer has been filled, and, from the length byte on, where in the stream that
length byte stands.
-/
namespace NbLot.Source.Rs485
open CommTrmStatus List

/-- The stream ends with an accepted length byte and the `byCnt` data bytes
taken since. -/
def LengthTaken (stream : List UInt8) (s : CommTrmData) : Prop :=
  ∃ before len after, stream = before ++ len :: after ∧
    (rxRun clearCommFrame before).eRxStatus = statusCon1 ∧
    9 ≤ before.length ∧ (rxRun clearCommFrame before).byFrameLen.toNat ≤ 10 ∧
    len.toNat ≤ maxLenCommTrmData ∧ s.byDataLen = len ∧ after.length = s.byCnt.toNat ∧
    s.byFrameLen.toNat = (rxRun clearCommFrame before).byFrameLen.toNat + 1 + s.byCnt.toNat

/-- A header status: `n` bytes at least were taken, and the side buffer holds at
most one byte more. -/
def HeaderTaken (n : Nat) (stream : List UInt8) (s : CommTrmData) : Prop :=
  n ≤ stream.length ∧ s.byFrameLen.toNat ≤ n + 1

def Progress (stream : List UInt8) (s : CommTrmData) : Prop :=
  match s.eRxStatus with
  | .statusIdle => HeaderTaken 0 stream s
  | .statusHead => HeaderTaken 1 stream s
  | .statusFixed => HeaderTaken 2 stream s
  | .statusType => HeaderTaken 3 stream s
  | .statusCmd0 => HeaderTaken 4 stream s
  | .statusCmd1 => s.guidCnt.toNat ≤ 1 ∧ HeaderTaken (5 + s.guidCnt.toNat) stream s
  | .statusGuid => HeaderTaken 7 stream s
  | .statusCon0 => HeaderTaken 8 stream s
  | .statusCon1 => HeaderTaken 9 stream s
  | .statusData => LengthTaken stream s ∧ s.byCnt.toNat < max 1 s.byDataLen.toNat
  | .statusCs => LengthTaken stream s ∧ s.byCnt.toNat = max 1 s.byDataLen.toNat
  | .statusTail => 11 + s.byDataLen.toNat ≤ stream.length
  | .statusDataLen | .statusEnd => False

theorem progress_nil : Progress [] clearCommFrame := ⟨Nat.le_refl 0, Nat.zero_le 1⟩

variable (stream : List UInt8)

theorem progress_clear : Progress stream clearCommFrame :=
  ⟨Nat.zero_le _, Nat.zero_le 1⟩

theorem uint8_add_one_toNat (b : UInt8) (h : b.toNat < 255) : (b + 1).toNat = b.toNat + 1 := by
  rw [UInt8.toNat_add]
  simp only [UInt8.reduceToNat]
  omega

theorem HeaderTaken.next (n : Nat) (stream : List UInt8) (s t : CommTrmData) (b : UInt8)
    (h : HeaderTaken n stream s) (hn : n ≤ 9) (hlen : t.byFrameLen = s.byFrameLen + 1) :
    HeaderTaken (n + 1) (stream ++ [b]) t := by
  obtain ⟨htaken, hbuf⟩ := h
  refine ⟨?_, ?_⟩
  · simp only [length_append, length_singleton]
    omega
  · rw [hlen, uint8_add_one_toNat _ (by omega)]
    omega

theorem progress_cmd1 (s : CommTrmData) (n : UInt8) (hst : s.eRxStatus = statusCmd1)
    (hcnt : s.guidCnt = n) (hn : n.toNat ≤ 1) (h : HeaderTaken (5 + n.toNat) stream s) :
    Progress stream s := by
  subst hcnt
  simp only [Progress, hst]
  exact ⟨hn, h⟩

/-- One data byte: either more data is expected or the checksum comes next. -/
theorem progress_data (s : CommTrmData) (b : UInt8) (hst : s.eRxStatus = statusData)
    (h : LengthTaken stream s) (hlt : s.byCnt.toNat < max 1 s.byDataLen.toNat) :
    Progress (stream ++ [b]) (comm2trmRxUartData s b).state := by
  obtain ⟨before, len, after, rfl, hcon1, htaken, hbuf, hlen, hdl, hafter, hfl⟩ := h
  unfold maxLenCommTrmData at hlen
  rw [hdl] at hlt
  have hcnt := uint8_add_one_toNat s.byCnt (by omega)
  have hflen := uint8_add_one_toNat s.byFrameLen (by omega)
  rw [rx_data b hst]
  have htaken' : LengthTaken (before ++ len :: after ++ [b])
      { storeRxBuf { s with
          date := s.date.setIfInBounds s.byCnt.toNat b, byCnt := s.byCnt + 1,
          eRxStatus := if s.byCnt + 1 < s.byDataLen then statusData else statusCs }
        s.byFrameLen.toNat b with byFrameLen := s.byFrameLen + 1 } := by
    refine ⟨before, len, after ++ [b], by simp, hcon1, htaken, hbuf, hlen, hdl, ?_, ?_⟩
    · show (after ++ [b]).length = (s.byCnt + 1).toNat
      rw [length_append, length_singleton, hafter, hcnt]
    · show (s.byFrameLen + 1).toNat = _ + 1 + (s.byCnt + 1).toNat
      omega
  have hiff : s.byCnt + 1 < s.byDataLen ↔ s.byCnt.toNat + 1 < len.toNat := by
    rw [UInt8.lt_iff_toNat_lt, hcnt, hdl]
  by_cases hmore : s.byCnt + 1 < s.byDataLen
  · have hm := hiff.mp hmore
    simp only [if_pos hmore] at htaken' ⊢
    refine ⟨htaken', ?_⟩
    show (s.byCnt + 1).toNat < max 1 s.byDataLen.toNat
    rw [hdl]
    omega
  · have hm := mt hiff.mpr hmore
    simp only [if_neg hmore] at htaken' ⊢
    refine ⟨htaken', ?_⟩
    show (s.byCnt + 1).toNat = max 1 s.byDataLen.toNat
    rw [hdl]
    omega

theorem progress_step (b : UInt8) (h : Progress stream (rxRun clearCommFrame stream)) :
    Progress (stream ++ [b]) (comm2trmRxUartData (rxRun clearCommFrame stream) b).state := by
  generalize hs : rxRun clearCommFrame stream = s at h ⊢
  unfold Progress at h
  cases hst : s.eRxStatus <;> simp only [hst] at h
  case statusData => exact progress_data stream s b hst h.1 h.2
  case statusCs =>
    obtain ⟨⟨before, len, after, rfl, -, htaken, -, -, hdl, hafter, -⟩, hcnt⟩ := h
    rw [rx_cs b hst]
    show 11 + s.byDataLen.toNat ≤ (before ++ len :: after ++ [b]).length
    simp only [length_append, length_cons]
    omega
  case statusTail =>
    simp only [comm2trmRxUartData, rxSwitch, hst]
    split_ifs
    · exact ⟨Nat.zero_le _, Nat.le_refl 1⟩
    · exact progress_clear _
  case statusCon1 =>
    simp only [comm2trmRxUartData, rxSwitch, hst]
    split_ifs with hlen
    · have hbuf := uint8_add_one_toNat s.byFrameLen (by have := h.2; omega)
      refine ⟨⟨stream, b, [], rfl, ?_, h.1, ?_, hlen, rfl, rfl, ?_⟩, ?_⟩
      · rw [hs, hst]
      · rw [hs]
        exact h.2
      · rw [hs]
        exact hbuf
      · show 0 < max 1 b.toNat
        omega
    · exact progress_clear _
  case statusCmd1 =>
    obtain ⟨hcnt, htaken⟩ := h
    simp only [comm2trmRxUartData, rxSwitch, hst]
    have hcell : ¬ s.byFrameLen.toNat = 134 := by
      have := htaken.2
      omega
    split_ifs with h0 h1
    · have hz : s.guidCnt = 0 := h0.symm
      rw [hz] at htaken
      refine progress_cmd1 _ _ 1 rfl ?_ (Nat.le_refl 1) (htaken.next _ _ _ _ b (by decide) rfl)
      show (if s.byFrameLen.toNat = 134 then b else s.guidCnt + 1) = 1
      rw [if_neg hcell, hz]
      rfl
    · have hz : s.guidCnt = 1 := h1.symm
      rw [hz] at htaken
      exact htaken.next _ _ _ _ b (by decide) rfl
    · exact progress_clear _
  case statusCmd0 =>
    simp only [comm2trmRxUartData, rxSwitch, hst]
    have hcell : ¬ s.byFrameLen.toNat = 134 := by
      have := h.2
      omega
    exact progress_cmd1 _ _ 0 rfl (if_neg hcell) (Nat.zero_le 1) (h.next _ _ _ _ b (by decide) rfl)
  all_goals
    simp only [comm2trmRxUartData, rxSwitch, hst]
    first
    | exact h.next _ _ _ _ b (by decide) rfl
    | split_ifs
      · exact h.next _ _ _ _ b (by decide) rfl
      · exact progress_clear _

theorem progress_run : Progress stream (rxRun clearCommFrame stream) := by
  induction stream using List.reverseRecOn with
  | nil => exact progress_nil
  | append_singleton stream b ih =>
    rw [rxRun_snoc]
    exact progress_step stream b ih

end NbLot.Source.Rs485
