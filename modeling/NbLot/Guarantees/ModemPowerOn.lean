import NbLot.Source.Modem.Dialogue

/-!
# Power-on of the modem

Two retry loops of `BC95_power_on` test the value of `NB_Iot_send_cmd`, which is zero on success.

* The probing loop clears `ue_exist_flag` at every probe that is not answered and never sets it again:
  a modem that answers the second probe is taken for absent (`late_answer_missed`).
* The loop that sets the automatic mode leaves when the modem has *not* acknowledged, and repeats a
  command that was acknowledged (`autoconnect_repeated`).

`detection_iff` and `autoconnect_iff` say for which answers the two parts still do what they should.
-/
namespace NbLot.Guarantees.ModemPowerOn

open Source.Modem List

/-- The dialogue behind the probing loop, and `ue_exist_flag`. -/
def probed (answers : Nat → Answer) : Dialogue × UInt8 := probeLoop 10 (start answers) 1

/-- What has been said when `BC95_power_on` returns. -/
def powerOnLog (answers : Nat → Answer) (needReboot : UInt8) : List Exchange :=
  (bc95PowerOn (start answers) needReboot).1.log

/-- The last probe was answered. -/
def LastProbeOk (answers : Nat → Answer) : Prop := (probed answers).1.log.getLast? = some (.sent .at true)

/-- The mode and the band are asked for. -/
def ConfigurationChecked (log : List Exchange) : Prop :=
  (∃ acked, .sent .queryUeConnectMode acked ∈ log) ∧ ∃ acked, .sent .queryUeBand acked ∈ log

/-- The flag says whether the last probe was answered, and then the configuration is checked. -/
def Detection (answers : Nat → Answer) (needReboot : UInt8) : Prop :=
  ((probed answers).2 ≠ 0 ↔ LastProbeOk answers) ∧
    (LastProbeOk answers → ConfigurationChecked (powerOnLog answers needReboot))

variable (timeout : Nat)

/-! ### The probing loop -/

/-- `k` probes are not answered, and one more is answered or is the last. -/
theorem probeLoop_spec (d : Dialogue) (existFlag : UInt8) :
    ∃ k ≤ timeout, (∀ i < k, matched .at (d.answers (d.log.length + i)) = false) ∧
      (k < timeout → matched .at (d.answers (d.log.length + k)) = true) ∧
      (probeLoop timeout d existFlag).1 =
        ⟨d.answers, d.log ++ List.replicate k (.sent .at false) ++
          [.sent .at (matched .at (d.answers (d.log.length + k)))]⟩ ∧
      (probeLoop timeout d existFlag).2 = if k = 0 then existFlag else 0 := by
  induction timeout generalizing d existFlag with
  | zero =>
    refine ⟨0, Nat.le_refl 0, nofun, nofun, ?_, rfl⟩
    simp [probeLoop, Dialogue.send]
  | succ timeout ih =>
    unfold probeLoop
    split
    case isTrue hfailed =>
      have hfirst : matched .at (d.answers d.log.length) = false := by
        rw [ne_eq, Dialogue.send_eq_zero_iff] at hfailed
        simpa using hfailed
      obtain ⟨k, hk, hnone, hstop, hlog, hflag⟩ := ih (d.send .at).1 0
      simp only [Dialogue.send_log, Dialogue.send_answers, length_append, length_singleton,
        hfirst] at hnone hstop hlog
      refine ⟨k + 1, by omega, ?_, ?_, ?_, ?_⟩
      · intro i hi
        cases i with
        | zero => exact hfirst
        | succ i =>
          have hrest := hnone i (by omega)
          rwa [Nat.add_assoc, Nat.add_comm 1 i] at hrest
      · intro hlt
        have hlast := hstop (by omega)
        rwa [Nat.add_assoc, Nat.add_comm 1 k] at hlast
      · rw [hlog, Nat.add_assoc, Nat.add_comm 1 k, replicate_succ]
        simp only [append_assoc, cons_append, nil_append]
      · rw [hflag]
        simp
    case isFalse hdone =>
      have hfirst : matched .at (d.answers d.log.length) = true := by
        rw [← Dialogue.send_eq_zero_iff]
        exact not_not.1 hdone
      refine ⟨0, Nat.zero_le _, nofun, fun _ => hfirst, ?_, rfl⟩
      simp [Dialogue.send]

theorem existFlag_iff (answers : Nat → Answer) :
    (probed answers).2 ≠ 0 ↔ matched .at (answers 0) = true := by
  obtain ⟨k, -, hnone, hstop, -, hflag⟩ := probeLoop_spec 10 (start answers) 1
  simp only [start, length_nil] at hnone hstop
  rw [probed, hflag]
  cases k with
  | zero => simpa using hstop (by decide)
  | succ k => simp [hnone 0 (by omega)]

theorem lastProbeOk_iff (answers : Nat → Answer) :
    LastProbeOk answers ↔ ∃ i < 11, matched .at (answers i) = true := by
  obtain ⟨k, hk, hnone, hstop, hlog, -⟩ := probeLoop_spec 10 (start answers) 1
  simp only [start, length_nil, Nat.zero_add] at hnone hstop hlog
  have hlast : LastProbeOk answers ↔ matched .at (answers k) = true := by
    rw [LastProbeOk, probed, start, hlog, getLast?_concat, Option.some.injEq]
    simp
  rw [hlast]
  constructor
  · exact fun h => ⟨k, by omega, h⟩
  · rintro ⟨i, hi, hmatched⟩
    by_cases hlt : i < k
    · rw [hnone i hlt] at hmatched
      cases hmatched
    · by_cases hend : k < 10
      · exact hstop hend
      · obtain rfl : i = k := by omega
        exact hmatched

/-! ### The configuration -/

/-- Exchanges behind the check of the mode. -/
def Later : Exchange → Prop
  | .sent c _ => c = .queryUeBand ∨ c = .setUeDefaultBand ∨ c = .setUeReboot
  | .read _ => True

theorem adds_checkBand (d : Dialogue) (existFlag needReboot : UInt8) :
    Adds Later d (checkBand d existFlag needReboot).1 := by
  unfold checkBand
  split
  case isFalse => exact .refl _ _
  case isTrue =>
    have hquery : Adds Later d (d.send .queryUeBand).1 := .send fun _ => .inl rfl
    split
    · exact hquery.trans (.send fun _ => .inr (.inl rfl))
    · exact hquery

theorem adds_rebootLoop (d : Dialogue) : Adds Later d (rebootLoop timeout d) := by
  induction timeout generalizing d with
  | zero => exact .refl _ _
  | succ timeout ih =>
    have hread : ∀ (d : Dialogue) ack, Adds Later d (d.read ack).1 := fun _ _ => .read fun _ => trivial
    unfold rebootLoop
    dsimp only
    split
    · exact hread d _
    · split
      · exact (hread d _).trans (hread _ _)
      · exact ((hread d _).trans (hread _ _)).trans (ih _)

/-- The dialogue behind the check of the mode, and that behind the check of the band. -/
def modeChecked (d : Dialogue) (needReboot : UInt8) : Dialogue × UInt8 :=
  checkAutoconnect (probeLoop 10 d 1).1 (probeLoop 10 d 1).2 needReboot

def bandChecked (d : Dialogue) (needReboot : UInt8) : Dialogue × UInt8 :=
  checkBand (modeChecked d needReboot).1 (probeLoop 10 d 1).2 (modeChecked d needReboot).2

theorem adds_bandChecked (d : Dialogue) (needReboot : UInt8) :
    Adds Later (bandChecked d needReboot).1 (bc95PowerOn d needReboot).1 := by
  have hend : bc95PowerOn d needReboot =
      if (probeLoop 10 d 1).2 ≠ 0 ∧ (bandChecked d needReboot).2 ≠ 0 then
        (rebootLoop 10 ((bandChecked d needReboot).1.send .setUeReboot).1, (probeLoop 10 d 1).2, 0)
      else ((bandChecked d needReboot).1, (probeLoop 10 d 1).2, (bandChecked d needReboot).2) := rfl
  rw [hend]
  split
  · have hreboot : Adds Later (bandChecked d needReboot).1
        ((bandChecked d needReboot).1.send .setUeReboot).1 := .send fun _ => .inr (.inr rfl)
    exact hreboot.trans (adds_rebootLoop 10 _)
  · exact .refl _ _

theorem adds_modeChecked (d : Dialogue) (needReboot : UInt8) :
    Adds Later (modeChecked d needReboot).1 (bc95PowerOn d needReboot).1 :=
  (adds_checkBand _ _ _).trans (adds_bandChecked d needReboot)

variable {existFlag : UInt8} {d : Dialogue}

/-- The dialogue behind the check of the mode, for a modem that has answered the first probe. -/
theorem checkAutoconnect_of_exist (h : existFlag ≠ 0) (needReboot : UInt8) :
    (checkAutoconnect d existFlag needReboot).1 =
      if matched .queryUeConnectMode (d.answers d.log.length) then
        autoconnectLoop 3 (d.send .queryUeConnectMode).1
      else (d.send .queryUeConnectMode).1 := by
  unfold checkAutoconnect
  rw [if_pos h]
  by_cases hmode : matched .queryUeConnectMode (d.answers d.log.length) = true
  · rw [if_pos hmode, if_pos ((Dialogue.send_eq_zero_iff d _).2 hmode)]
  · rw [if_neg hmode, if_neg fun hzero => hmode ((Dialogue.send_eq_zero_iff d _).1 hzero)]

/-- `k` attempts are acknowledged, and one more is not or is the last. -/
theorem autoconnectLoop_spec (d : Dialogue) :
    ∃ k, ∃ last : List Bool,
      (autoconnectLoop timeout d).log =
        d.log ++ ((List.replicate k true ++ last).map fun acked => .sent .setUeAutoconnect acked) ∧
      (last = [] ∧ k = timeout ∨ last = [false] ∧ k < timeout) := by
  induction timeout generalizing d with
  | zero => exact ⟨0, [], by simp [autoconnectLoop], .inl ⟨rfl, rfl⟩⟩
  | succ timeout ih =>
    unfold autoconnectLoop
    split
    case isTrue hfailed =>
      have hfirst : matched .setUeAutoconnect (d.answers d.log.length) = false := by
        rw [ne_eq, Dialogue.send_eq_zero_iff] at hfailed
        simpa using hfailed
      exact ⟨0, [false], by simp [hfirst], .inr ⟨rfl, Nat.succ_pos _⟩⟩
    case isFalse hdone =>
      have hfirst : matched .setUeAutoconnect (d.answers d.log.length) = true := by
        rw [← Dialogue.send_eq_zero_iff]
        exact not_not.1 hdone
      obtain ⟨k, last, hlog, hcases⟩ := ih (d.send .setUeAutoconnect).1
      refine ⟨k + 1, last, ?_, hcases.imp (And.imp_right (by omega)) (And.imp_right (by omega))⟩
      rw [hlog, Dialogue.send_log, hfirst, replicate_succ]
      simp only [append_assoc, cons_append, nil_append, map_cons]

theorem mem_checkAutoconnect (h : existFlag ≠ 0) (needReboot : UInt8) :
    ∃ acked, .sent .queryUeConnectMode acked ∈ (checkAutoconnect d existFlag needReboot).1.log := by
  refine ⟨matched .queryUeConnectMode (d.answers d.log.length), ?_⟩
  rw [checkAutoconnect_of_exist h]
  split
  · obtain ⟨k, last, hlog, -⟩ := autoconnectLoop_spec 3 (d.send .queryUeConnectMode).1
    rw [hlog]
    simp
  · simp

theorem mem_checkBand (h : existFlag ≠ 0) (needReboot : UInt8) :
    ∃ acked, .sent .queryUeBand acked ∈ (checkBand d existFlag needReboot).1.log := by
  refine ⟨matched .queryUeBand (d.answers d.log.length), ?_⟩
  unfold checkBand
  rw [if_pos h]
  split <;> simp

variable {answers : Nat → Answer} {l : List Exchange}

theorem configurationChecked_of_exist (h : (probed answers).2 ≠ 0) (needReboot : UInt8) :
    ConfigurationChecked (powerOnLog answers needReboot) := by
  obtain ⟨mode, hmode⟩ := mem_checkAutoconnect (d := (probed answers).1) h needReboot
  obtain ⟨band, hband⟩ := mem_checkBand (d := (modeChecked (start answers) needReboot).1) h
    (modeChecked (start answers) needReboot).2
  exact ⟨⟨mode, (adds_modeChecked (start answers) needReboot).mem hmode⟩, band,
    (adds_bandChecked (start answers) needReboot).mem hband⟩

/-- The modem is detected as it should be exactly if it answers the first probe or none. -/
theorem detection_iff (answers : Nat → Answer) (needReboot : UInt8) :
    Detection answers needReboot ↔
      matched .at (answers 0) = true ∨ ∀ i < 11, matched .at (answers i) = false := by
  unfold Detection
  rw [existFlag_iff, lastProbeOk_iff]
  constructor
  · rintro ⟨hflag, -⟩
    by_cases hfirst : matched .at (answers 0) = true
    · exact .inl hfirst
    · refine .inr fun i hi => ?_
      by_contra hmatched
      exact hfirst (hflag.2 ⟨i, hi, by simpa using hmatched⟩)
  · rintro (hfirst | hnone)
    · refine ⟨⟨fun _ => ⟨0, by decide, hfirst⟩, fun _ => hfirst⟩, fun _ => ?_⟩
      exact configurationChecked_of_exist ((existFlag_iff answers).2 hfirst) needReboot
    · have hnever : ¬∃ i < 11, matched .at (answers i) = true := by
        rintro ⟨i, hi, hmatched⟩
        rw [hnone i hi] at hmatched
        cases hmatched
      have hfirst : ¬matched .at (answers 0) = true := fun h => hnever ⟨0, by decide, h⟩
      exact ⟨iff_of_false hfirst hnever, fun h => absurd h hnever⟩

/-- The bytes of a text, with nothing behind the buffer. -/
def reply (text : String) : Answer := .received (Source.Uplink.ascii text) []

/-- A modem that misses the first probe and answers the second. -/
def late (n : Nat) : Answer := if n = 0 then .timeout else reply "\r\nOK\r\n"

theorem late_answer_missed :
    (probed late).2 = 0 ∧ LastProbeOk late ∧ ¬Detection late 0 ∧
      powerOnLog late 0 = [.sent .at false, .sent .at true] := by
  have hflag : (probed late).2 = 0 := by decide +kernel
  have hlast : LastProbeOk late := by
    unfold LastProbeOk
    decide +kernel
  refine ⟨hflag, hlast, fun h => absurd hflag (h.1.2 hlast), by decide +kernel⟩

/-! ### The automatic mode -/

/-- How the attempts to set the automatic mode were answered. -/
def attempts (log : List Exchange) : List Bool :=
  log.filterMap fun
    | .sent .setUeAutoconnect acked => some acked
    | _ => none

/-- One to three attempts, of which only the last is acknowledged, and the last is if there are fewer. -/
def StopsAtAck (attempts : List Bool) : Prop :=
  1 ≤ attempts.length ∧ attempts.length ≤ 3 ∧ (∀ acked ∈ attempts.dropLast, acked = false) ∧
    (attempts.length < 3 → attempts.getLast? = some true)

/-- Where the automatic mode is found off, it is set. -/
def AutoconnectSet (answers : Nat → Answer) (needReboot : UInt8) : Prop :=
  .sent .queryUeConnectMode true ∈ powerOnLog answers needReboot →
    StopsAtAck (attempts (powerOnLog answers needReboot))

theorem attempts_append (l l' : List Exchange) : attempts (l ++ l') = attempts l ++ attempts l' :=
  filterMap_append

theorem attempts_eq_nil (h : ∀ e ∈ l, ∀ acked, e ≠ .sent .setUeAutoconnect acked) :
    attempts l = [] := by
  refine filterMap_eq_nil_iff.2 fun e he => ?_
  split
  · exact absurd rfl (h _ he _)
  · rfl

theorem attempts_sent (l : List Bool) :
    attempts (l.map fun acked => .sent .setUeAutoconnect acked) = l := by
  unfold attempts
  rw [filterMap_map]
  exact filterMap_some

theorem attempts_later (h : ∀ e ∈ l, Later e) : attempts l = [] := by
  refine attempts_eq_nil fun e he acked heq => ?_
  have hlater := h e he
  rw [heq] at hlater
  simp [Later] at hlater

theorem probed_of_first (h : matched .at (answers 0) = true) :
    probed answers = (⟨answers, [.sent .at true]⟩, 1) := by
  have hzero := (Dialogue.send_eq_zero_iff (start answers) .at).2 h
  simp only [probed, probeLoop, hzero, ne_eq, not_true, if_false]
  simp [Dialogue.send, start, h]

/-- Where the mode is not found off, the flag says so or the query does. -/
theorem mode_not_off {needReboot : UInt8}
    (h : ¬(matched .at (answers 0) = true ∧ matched .queryUeConnectMode (answers 1) = true)) :
    .sent .queryUeConnectMode true ∉ powerOnLog answers needReboot := by
  intro hmem
  have hmode := (adds_modeChecked (start answers) needReboot).of_mem hmem (by simp [Later])
  unfold modeChecked at hmode
  rw [← probed] at hmode
  by_cases hfirst : matched .at (answers 0) = true
  · have hquery : matched .queryUeConnectMode (answers 1) = false := by simpa [hfirst] using h
    rw [probed_of_first hfirst, checkAutoconnect_of_exist (by simp)] at hmode
    simp [hquery] at hmode
  · have hflag : (probed answers).2 = 0 := by
      by_contra hne
      exact hfirst ((existFlag_iff answers).1 hne)
    rw [checkAutoconnect, if_neg (by simp [hflag])] at hmode
    obtain ⟨k, -, -, -, hlog, -⟩ := probeLoop_spec 10 (start answers) 1
    rw [← probed] at hlog
    rw [hlog] at hmode
    simp [start] at hmode

/-- Where it is, acknowledged attempts are repeated. -/
theorem attempts_off (hfirst : matched .at (answers 0) = true)
    (hquery : matched .queryUeConnectMode (answers 1) = true) (needReboot : UInt8) :
    .sent .queryUeConnectMode true ∈ powerOnLog answers needReboot ∧
      ∃ k last, attempts (powerOnLog answers needReboot) = List.replicate k true ++ last ∧
        (last = [] ∧ k = 3 ∨ last = [false] ∧ k < 3) := by
  obtain ⟨-, later, hlog, hlater⟩ := adds_modeChecked (start answers) needReboot
  have hmode : (modeChecked (start answers) needReboot).1 =
      autoconnectLoop 3 ⟨answers, [.sent .at true, .sent .queryUeConnectMode true]⟩ := by
    unfold modeChecked
    rw [← probed, probed_of_first hfirst, checkAutoconnect_of_exist (by simp)]
    simp [hquery, Dialogue.send]
  obtain ⟨k, last, hloop, hcases⟩ :=
    autoconnectLoop_spec 3 ⟨answers, [.sent .at true, .sent .queryUeConnectMode true]⟩
  have hpower : powerOnLog answers needReboot = [.sent .at true, .sent .queryUeConnectMode true] ++
      ((List.replicate k true ++ last).map fun acked => .sent .setUeAutoconnect acked) ++ later := by
    rw [powerOnLog, hlog, hmode, hloop]
  refine ⟨by simp [hpower], k, last, ?_, hcases⟩
  rw [hpower, attempts_append, attempts_append, attempts_sent, attempts_later hlater, append_nil]
  rfl

theorem not_stopsAtAck {k : Nat} {last : List Bool} (h : last = [] ∧ k = 3 ∨ last = [false] ∧ k < 3) :
    ¬StopsAtAck (List.replicate k true ++ last) := by
  rintro ⟨-, -, hbefore, hlast⟩
  obtain ⟨rfl, rfl⟩ | ⟨rfl, hk⟩ := h
  · simpa using hbefore true (by decide)
  · rw [dropLast_concat] at hbefore
    rw [getLast?_concat, length_append, length_replicate, length_singleton] at hlast
    have hzero : k = 0 := by
      by_contra hne
      simpa using hbefore true (mem_replicate.2 ⟨hne, rfl⟩)
    simpa using hlast (by omega)

/-- The automatic mode is set as it should be exactly if nothing is to be set. -/
theorem autoconnect_iff (answers : Nat → Answer) (needReboot : UInt8) :
    AutoconnectSet answers needReboot ↔
      ¬(matched .at (answers 0) = true ∧ matched .queryUeConnectMode (answers 1) = true) := by
  constructor
  · rintro hset ⟨hfirst, hquery⟩
    obtain ⟨hoff, k, last, hattempts, hcases⟩ := attempts_off hfirst hquery needReboot
    have hstops := hset hoff
    rw [hattempts] at hstops
    exact not_stopsAtAck hcases hstops
  · exact fun h hoff => absurd hoff (mode_not_off h)

/-- A modem in manual mode that answers every command. -/
def manual (n : Nat) : Answer :=
  if n = 1 then reply "+NCONFIG:AUTOCONNECT,FALSE\r\nOK\r\n" else reply "+NBAND:5\r\nOK\r\n"

/-- The first attempt is acknowledged, and two more follow. -/
theorem autoconnect_repeated :
    attempts (powerOnLog manual 0) = [true, true, true] ∧ ¬AutoconnectSet manual 0 := by
  have hfirst : matched .at (manual 0) = true := by decide +kernel
  have hquery : matched .queryUeConnectMode (manual 1) = true := by decide +kernel
  obtain ⟨hoff, k, last, hattempts, hcases⟩ := attempts_off hfirst hquery 0
  refine ⟨by decide +kernel, fun hset => not_stopsAtAck hcases ?_⟩
  rw [← hattempts]
  exact hset hoff

/-! ### The reboot -/

/-- The modem is rebooted exactly if it answers the first probe and the flag is set, the automatic mode
is off or the band is another. -/
theorem reboot_iff (answers : Nat → Answer) (needReboot : UInt8) :
    (∃ acked, .sent .setUeReboot acked ∈ powerOnLog answers needReboot) ↔
      matched .at (answers 0) = true ∧ (needReboot ≠ 0 ∨
        matched .queryUeConnectMode (answers 1) = true ∨ matched .queryUeBand (answers 2) = false) := by
  rw [powerOnLog, bc95PowerOn, ← probed]
  by_cases hfirst : matched .at (answers 0) = true
  · have hreboot (d : Dialogue) : ∃ acked, .sent .setUeReboot acked ∈
        (rebootLoop 10 (d.send .setUeReboot).1).log :=
      ⟨_, (adds_rebootLoop 10 _).mem (mem_append_right d.log (mem_singleton_self _))⟩
    rw [probed_of_first hfirst]
    by_cases hmode : matched .queryUeConnectMode (answers 1) = true
    · have hkept (d : Dialogue) : (checkBand d 1 1).2 = 1 := by
        unfold checkBand
        split_ifs <;> rfl
      simp [checkAutoconnect, Dialogue.send_eq_zero_iff, hmode, hkept, hfirst, hreboot,
        -Bool.exists_bool]
    · by_cases hband : matched .queryUeBand (answers 2) = true <;> by_cases hflag : needReboot = 0 <;>
        simp [checkAutoconnect, checkBand, Dialogue.send_eq_zero_iff, hmode, hband, hfirst, hflag,
          hreboot, -Bool.exists_bool]
  · have hflag : (probed answers).2 = 0 := not_not.1 fun hne => hfirst ((existFlag_iff answers).1 hne)
    obtain ⟨k, -, -, -, hlog, -⟩ := probeLoop_spec 10 (start answers) 1
    rw [← probed] at hlog
    simp [hflag, checkAutoconnect, checkBand, hfirst, hlog, start]

end NbLot.Guarantees.ModemPowerOn
