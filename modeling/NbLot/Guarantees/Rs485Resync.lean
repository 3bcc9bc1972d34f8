import NbLot.Guarantees.Rs485Delivery
import NbLot.Guarantees.Rs485Safety

/-!
# RS-485 resynchronisation behind line noise

Source: apps/examples/NB_Iot/485.c:162-197, 288-295.

`rx_exception` clears the structure and drops the byte that broke a header, so
that byte is not tried as the head of a new frame. A frame behind noise without
a header `68 45 00` is handed over exactly when the noise is a sequence of
complete broken headers, i.e. when it does not end inside a partial header as
the machine counts them (`frame_behind_noise_iff`).
-/
namespace NbLot.Guarantees.Rs485Resync
open Source.Rs485 Guarantees.Rs485Delivery CommTrmStatus List

/-- A sequence of bytes that are no head, heads with a wrong second byte, and
heads with a wrong third byte. -/
inductive BrokenHeaders : List UInt8 → Prop
  | nil : BrokenHeaders []
  | noHead (x : UInt8) (rest : List UInt8) (hx : x ≠ commTrmHead) (h : BrokenHeaders rest) :
      BrokenHeaders (x :: rest)
  | noFixed (x : UInt8) (rest : List UInt8) (hx : x ≠ commTrmFixed) (h : BrokenHeaders rest) :
      BrokenHeaders (commTrmHead :: x :: rest)
  | noType (x : UInt8) (rest : List UInt8) (hx : x ≠ 0x00) (h : BrokenHeaders rest) :
      BrokenHeaders (commTrmHead :: commTrmFixed :: x :: rest)

/-- No header starts in front of position `n`. -/
def NoHeaderBefore (n : Nat) (stream : List UInt8) : Prop :=
  ∀ i, i < n → ¬ [commTrmHead, commTrmFixed, 0x00] <+: stream.drop i

theorem NoHeaderBefore.tail (n : Nat) (x : UInt8) (rest : List UInt8)
    (h : NoHeaderBefore (n + 1) (x :: rest)) : NoHeaderBefore n rest := by
  intro i hi
  exact h (i + 1) (by omega)

variable (s : CommTrmData)

/-! ### The machine on broken headers -/

theorem rx_head_broken (b : UInt8) (h : s.eRxStatus = statusHead) (hb : b ≠ commTrmFixed) :
    comm2trmRxUartData s b = ⟨clearCommFrame, none, []⟩ := by
  simp only [comm2trmRxUartData, rxSwitch, h, if_neg (Ne.symm hb)]

theorem rx_fixed_broken (b : UInt8) (h : s.eRxStatus = statusFixed) (hb : b ≠ 0x00) :
    comm2trmRxUartData s b = ⟨clearCommFrame, none, []⟩ := by
  simp only [comm2trmRxUartData, rxSwitch, h, if_neg (Ne.symm hb)]

theorem rx_head (h : s.eRxStatus = statusIdle) :
    (comm2trmRxUartData s commTrmHead).poll = none ∧
      (comm2trmRxUartData s commTrmHead).state.eRxStatus = statusHead := by
  simp [comm2trmRxUartData, rxSwitch, h, storeRxBuf]

theorem rx_fixed (h : s.eRxStatus = statusHead) :
    (comm2trmRxUartData s commTrmFixed).poll = none ∧
      (comm2trmRxUartData s commTrmFixed).state.eRxStatus = statusFixed := by
  simp [comm2trmRxUartData, rxSwitch, h, storeRxBuf]

theorem brokenHeaders_polls (noise stream : List UInt8) (h : BrokenHeaders noise) :
    polls clearCommFrame (noise ++ stream) = polls clearCommFrame stream := by
  have hidle : clearCommFrame.eRxStatus = statusIdle := rfl
  induction h with
  | nil => rfl
  | noHead x rest hx _ ih =>
    simp only [cons_append, polls, rx_idle_noise x hidle hx]
    exact ih
  | noFixed x rest hx _ ih =>
    obtain ⟨hpoll, hst⟩ := rx_head clearCommFrame hidle
    simp only [cons_append, polls, rx_head_broken _ x hst hx]
    exact ih
  | noType x rest hx _ ih =>
    obtain ⟨hpoll, hst⟩ := rx_head clearCommFrame hidle
    obtain ⟨hpoll2, hst2⟩ := rx_fixed _ hst
    simp only [cons_append, polls, rx_fixed_broken _ x hst2 hx]
    exact ih

/-- Broken headers followed by the beginning of a header. -/
def EndsInHeader (noise : List UInt8) : Prop :=
  ∃ broken, BrokenHeaders broken ∧
    (noise = broken ++ [commTrmHead] ∨ noise = broken ++ [commTrmHead, commTrmFixed])

theorem EndsInHeader.prepend (piece noise : List UInt8)
    (hpiece : ∀ rest, BrokenHeaders rest → BrokenHeaders (piece ++ rest))
    (h : EndsInHeader noise) : EndsInHeader (piece ++ noise) := by
  obtain ⟨broken, hb, heq⟩ := h
  refine ⟨piece ++ broken, hpiece broken hb, ?_⟩
  rcases heq with rfl | rfl
  · exact Or.inl (append_assoc _ _ _).symm
  · exact Or.inr (append_assoc _ _ _).symm

/-- Noise without a header is a sequence of broken headers, possibly followed by
a partial one. The induction takes one broken header off the front. -/
theorem noise_cases (noise frame : List UInt8) (h : NoHeaderBefore noise.length (noise ++ frame)) :
    BrokenHeaders noise ∨ EndsInHeader noise := by
  induction hn : noise.length using Nat.strongRecOn generalizing noise with
  | _ n ih =>
    subst hn
    have hpiece : ∀ piece rest : List UInt8, noise = piece ++ rest → piece ≠ [] →
        NoHeaderBefore rest.length (rest ++ frame) →
        (∀ rest, BrokenHeaders rest → BrokenHeaders (piece ++ rest)) →
        BrokenHeaders noise ∨ EndsInHeader noise := by
      rintro piece rest rfl hne htail hbroken
      have hlt : rest.length < (piece ++ rest).length := by
        have := length_pos_iff.mpr hne
        rw [length_append]
        omega
      rcases ih _ hlt rest htail rfl with hb | hend
      · exact Or.inl (hbroken rest hb)
      · exact Or.inr (hend.prepend piece rest hbroken)
    match noise, h, hpiece with
    | [], _, _ => exact Or.inl .nil
    | x :: rest, h, hpiece =>
      by_cases hx : x = commTrmHead
      · subst hx
        match rest, h, hpiece with
        | [], _, _ => exact Or.inr ⟨[], .nil, Or.inl rfl⟩
        | y :: rest, h, hpiece =>
          by_cases hy : y = commTrmFixed
          · subst hy
            match rest, h, hpiece with
            | [], _, _ => exact Or.inr ⟨[], .nil, Or.inr rfl⟩
            | z :: rest, h, hpiece =>
              have hz : z ≠ 0x00 := by
                rintro rfl
                exact h 0 (by simp) ⟨rest ++ frame, rfl⟩
              exact hpiece [commTrmHead, commTrmFixed, z] rest rfl (cons_ne_nil _ _)
                (((h.tail _ _ _).tail _ _ _).tail _ _ _) (fun r hr => .noType z r hz hr)
          · exact hpiece [commTrmHead, y] rest rfl (cons_ne_nil _ _)
              ((h.tail _ _ _).tail _ _ _) (fun r hr => .noFixed y r hy hr)
      · exact hpiece [x] rest rfl (cons_ne_nil _ _) (h.tail _ _ _)
          (fun r hr => .noHead x r hx hr)

/-! ### A frame behind noise -/

theorem polls_length (stream : List UInt8) (d : CommTrmData)
    (h : d ∈ polls clearCommFrame stream) : d.byDataLen.toNat + 12 ≤ stream.length := by
  rw [← Rs485Safety.deliveries_polls clearCommFrame [] stream] at h
  obtain ⟨p, hp, rfl⟩ := mem_map.mp h
  obtain ⟨before, after, rfl, hst, rfl⟩ := (Rs485Safety.mem_deliveries _ _ _ _).mp hp
  have hprogress := progress_run before
  simp only [Progress, hst] at hprogress
  rw [length_append, length_cons]
  show (rxRun clearCommFrame before).byDataLen.toNat + 12 ≤ _
  omega

/-- Behind a partial header the head of the frame is dropped, and what is left
of the frame is too short to be handed over as this frame. -/
theorem frame_lost (noise : List UInt8) (f : DataFrame) (h : EndsInHeader noise) (d : CommTrmData)
    (hd : d ∈ polls clearCommFrame (noise ++ f.bytes)) : ¬ Matches f.toFrame d := by
  have hbytes : ∃ rest, f.bytes = commTrmHead :: rest ∧ rest.length = f.data.length + 11 := by
    refine ⟨f.bytes.tail, rfl, ?_⟩
    simp [Frame.bytes, Frame.body, Frame.header]
  obtain ⟨rest, hrest, hlen⟩ := hbytes
  have hdropped : polls clearCommFrame (noise ++ f.bytes) = polls clearCommFrame rest := by
    obtain ⟨hpoll, hst⟩ := rx_head clearCommFrame rfl
    obtain ⟨hpoll2, hst2⟩ := rx_fixed _ hst
    obtain ⟨broken, hb, rfl | rfl⟩ := h
    · rw [append_assoc, brokenHeaders_polls broken _ hb, hrest]
      simp only [cons_append, nil_append, polls, hpoll,
        rx_head_broken _ commTrmHead hst (by decide), Option.toList_none]
    · rw [append_assoc, brokenHeaders_polls broken _ hb, hrest]
      simp only [cons_append, nil_append, polls, hpoll, hpoll2,
        rx_fixed_broken _ commTrmHead hst2 (by decide), Option.toList_none]
  rw [hdropped] at hd
  have hcost := polls_length rest d hd
  intro hm
  rw [hm.byDataLen] at hcost
  omega

/-- A call of `process_poll` hands the frame over as it was sent. -/
def DeliveredBehind (noise : List UInt8) (f : DataFrame) : Prop :=
  ∃ d ∈ polls clearCommFrame (noise ++ f.bytes), Matches f.toFrame d

theorem brokenHeaders_delivers (noise : List UInt8) (f : DataFrame) (h : BrokenHeaders noise) :
    ∃ d, polls clearCommFrame (noise ++ f.bytes) = [d] ∧ Matches f.toFrame d := by
  obtain ⟨hpolls, -, hrec⟩ := polls_dataFrame f 0 clearCommFrame rfl rfl (Nat.zero_le 1)
  have hshort := f.short
  refine ⟨_, ?_, hrec.matches _ 0 _ (by omega)⟩
  rw [brokenHeaders_polls noise _ h, hpolls]

/-- A frame behind noise without a header is handed over exactly when the noise
does not end inside a header; it is then the only call of the stream. -/
theorem frame_behind_noise_iff (noise : List UInt8) (f : DataFrame)
    (h : NoHeaderBefore noise.length (noise ++ f.bytes)) :
    (DeliveredBehind noise f ↔ BrokenHeaders noise) ∧
      (BrokenHeaders noise →
        ∃ d, polls clearCommFrame (noise ++ f.bytes) = [d] ∧ Matches f.toFrame d) := by
  refine ⟨⟨?_, ?_⟩, brokenHeaders_delivers noise f⟩
  · rintro ⟨d, hd, hm⟩
    rcases noise_cases noise f.bytes h with hb | hend
    · exact hb
    · exact absurd hm (frame_lost noise f hend d hd)
  · intro hb
    obtain ⟨d, hpolls, hm⟩ := brokenHeaders_delivers noise f hb
    exact ⟨d, by rw [hpolls]; exact mem_singleton_self d, hm⟩

theorem frame_behind_idle_byte :
    NoHeaderBefore 1 ([0xfe] ++ voltageFrame.bytes) ∧ DeliveredBehind [0xfe] voltageFrame := by
  have hno : NoHeaderBefore 1 ([0xfe] ++ voltageFrame.bytes) := by
    unfold NoHeaderBefore
    decide
  exact ⟨hno, (frame_behind_noise_iff [0xfe] voltageFrame hno).1.mpr
    (.noHead 0xfe [] (by decide) .nil)⟩

/-- A single stray head byte in front of a frame loses the frame. -/
theorem frame_behind_stray_head_lost :
    NoHeaderBefore 1 ([0x68] ++ voltageFrame.bytes) ∧ ¬ DeliveredBehind [0x68] voltageFrame := by
  constructor
  · unfold NoHeaderBefore
    decide
  · rintro ⟨d, hd, hm⟩
    exact frame_lost [0x68] voltageFrame ⟨[], .nil, Or.inl rfl⟩ d hd hm

/-- Frames that each stand behind an idle byte, as the transmit functions send it, and broken headers
are all handed over in their order, once, and as each would be alone. -/
theorem frames_behind_noise (fs : List ({noise // BrokenHeaders noise} × DataFrame)) :
    polls clearCommFrame (fs.flatMap fun p => 0xfe :: p.1.1 ++ p.2.bytes) =
        fs.map (fun p => handedOver p.2 clearCommFrame) ∧
      ∀ p ∈ fs, Matches p.2.toFrame (handedOver p.2 clearCommFrame) := by
  have halone (f : DataFrame) := polls_dataFrame f 0 clearCommFrame rfl rfl (Nat.zero_le 1)
  refine ⟨?_, fun p _ => (halone p.2).2.2.matches _ 0 _ (by have := p.2.short; omega)⟩
  -- Behind a frame the machine is idle, but not cleared.
  suffices h : ∀ s : CommTrmData, s.eRxStatus = statusIdle →
      polls s (fs.flatMap fun p => 0xfe :: p.1.1 ++ p.2.bytes) =
        fs.map fun p => handedOver p.2 clearCommFrame from h clearCommFrame rfl
  induction fs with
  | nil => exact fun _ _ => rfl
  | cons p fs ih =>
    intro s hs
    obtain ⟨hpolls, hrun, -⟩ := halone p.2
    rw [flatMap_cons, cons_append, cons_append, append_assoc, polls, rx_idle_noise 0xfe hs (by decide),
      brokenHeaders_polls _ _ p.1.2, polls_append, hpolls, hrun, ih delivered rfl]
    rfl

end NbLot.Guarantees.Rs485Resync
