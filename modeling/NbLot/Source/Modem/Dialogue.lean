import NbLot.Lib.Text
import NbLot.Source.Uplink.CJson

/-!
# The dialogue with the NB-IoT modem

Source: apps/examples/NB_Iot/NB_Iot.c:157-242 (`NB_Iot_check_ack`, `NB_Iot_send_cmd`), 246-306
(`BC95_power_on`), 313-367 (`query_net_status`), NB_Iot.h.

The answers of the modem are a sequence: each command, and each read of `NB_Iot_check_ack` alone, takes
the next one. What was sent and whether the expected text was in the answer is kept in a log. Delays and
`printf` lines are left out.
-/
namespace NbLot.Source.Modem
open List

open Lib (cstr)
open Lib.Text
open Source.Uplink (ascii)

/-- What `select` and `read` give: an error, a time-out, or bytes, with what lies behind the receive
buffer in memory, which is reached when all 256 bytes are used. -/
inductive Answer where
  | selectError
  | timeout
  | received (bytes behind : List UInt8)
  deriving DecidableEq, Repr

/-- `NB_Iot_rcvd_buf` after `memset` and `read`. -/
def rcvdBuf (bytes : List UInt8) : List UInt8 := (bytes ++ List.replicate 256 0).take 256

/-- `NB_Iot_check_ack`: whether the expected text is in what was received. -/
def nbIotCheckAck (ack : List UInt8) : Answer → Bool
  | .received bytes behind => (find ack (cstr (rcvdBuf bytes ++ behind))).isSome
  | .selectError | .timeout => (find ack (cstr (rcvdBuf []))).isSome

/-- `NB_Iot_send_cmd`, as far as its value depends on the answer. -/
def nbIotSendCmd (ack : List UInt8) : Answer → UInt8
  | .selectError | .timeout => 1
  | .received bytes behind => if nbIotCheckAck ack (.received bytes behind) then 0 else 1

inductive Command where
  | at
  | queryUeConnectMode
  | setUeAutoconnect
  | queryUeBand
  | setUeDefaultBand
  | setUeReboot
  | queryUeScconStats
  | queryUeAttachStats
  | queryUeEregStats
  deriving DecidableEq, Repr

/-- The text that is sent, in front of CR and LF. -/
def Command.text : Command → List UInt8
  | .at => ascii "AT"
  | .queryUeConnectMode => ascii "AT+NCONFIG?"
  | .setUeAutoconnect => ascii "AT+NCONFIG=AUTOCONNECT,TRUE"
  | .queryUeBand => ascii "AT+NBAND?"
  | .setUeDefaultBand => ascii "AT+NBAND=5"
  | .setUeReboot => ascii "AT+NRB"
  | .queryUeScconStats => ascii "AT+CSCON?"
  | .queryUeAttachStats => ascii "AT+CGATT?"
  | .queryUeEregStats => ascii "AT+CEREG?"

/-- The text that is expected in the answer. -/
def Command.ack : Command → List UInt8
  | .at => ascii "OK"
  | .queryUeConnectMode => ascii "AUTOCONNECT,FALSE"
  | .setUeAutoconnect => ascii "OK"
  | .queryUeBand => ascii "+NBAND:5"
  | .setUeDefaultBand => ascii "+NBAND:5"
  | .setUeReboot => ascii "REBOOT"
  | .queryUeScconStats => ascii "+CSCON:0,1"
  | .queryUeAttachStats => ascii "+CGATT:1"
  | .queryUeEregStats => ascii "+CEREG:0,1"

/-- The answer holds the text that the command expects. -/
def matched (c : Command) (a : Answer) : Bool := nbIotSendCmd c.ack a = 0

/-- A command, or a read without one; and whether the expected text was in the answer. -/
inductive Exchange where
  | sent (c : Command) (acked : Bool)
  | read (acked : Bool)
  deriving DecidableEq, Repr

/-- The answers of the modem, and what has been said. -/
structure Dialogue where
  answers : Nat → Answer
  log : List Exchange

/-- The dialogue before the first command. -/
def start (answers : Nat → Answer) : Dialogue := ⟨answers, []⟩

/-- `NB_Iot_send_cmd` with its command and the text it expects. -/
def Dialogue.send (d : Dialogue) (c : Command) : Dialogue × UInt8 :=
  let answer := d.answers d.log.length
  ({ d with log := d.log ++ [.sent c (matched c answer)] }, nbIotSendCmd c.ack answer)

/-- `NB_Iot_check_ack` alone. -/
def Dialogue.read (d : Dialogue) (ack : List UInt8) : Dialogue × Bool :=
  let acked := nbIotCheckAck ack (d.answers d.log.length)
  ({ d with log := d.log ++ [.read acked] }, acked)

section Log

variable (d : Dialogue) (c : Command)

@[simp] theorem Dialogue.send_log :
    (d.send c).1.log = d.log ++ [.sent c (matched c (d.answers d.log.length))] := rfl

@[simp] theorem Dialogue.send_answers : (d.send c).1.answers = d.answers := rfl

theorem Dialogue.send_eq_zero_iff : (d.send c).2 = 0 ↔ matched c (d.answers d.log.length) = true := by
  exact (decide_eq_true_iff).symm

end Log

/-- The dialogue has gone on with exchanges of a kind. -/
def Adds (kind : Exchange → Prop) (d d' : Dialogue) : Prop :=
  d'.answers = d.answers ∧ ∃ more, d'.log = d.log ++ more ∧ ∀ e ∈ more, kind e

namespace Adds

variable {kind : Exchange → Prop} {d d' d'' : Dialogue} {e : Exchange}

theorem refl (kind : Exchange → Prop) (d : Dialogue) : Adds kind d d := ⟨rfl, [], by simp, nofun⟩

theorem trans (h : Adds kind d d') (h' : Adds kind d' d'') : Adds kind d d'' := by
  obtain ⟨hans, more, hlog, hkind⟩ := h
  obtain ⟨hans', more', hlog', hkind'⟩ := h'
  refine ⟨hans'.trans hans, more ++ more', by rw [hlog', hlog, append_assoc], ?_⟩
  intro e he
  exact (mem_append.1 he).elim (hkind e) (hkind' e)

theorem send {c : Command} (h : ∀ acked, kind (.sent c acked)) : Adds kind d (d.send c).1 :=
  ⟨rfl, _, rfl, by simpa using h _⟩

theorem read {ack : List UInt8} (h : ∀ acked, kind (.read acked)) : Adds kind d (d.read ack).1 :=
  ⟨rfl, _, rfl, by simpa using h _⟩

theorem mem (h : Adds kind d d') (he : e ∈ d.log) : e ∈ d'.log := by
  obtain ⟨-, more, hlog, -⟩ := h
  rw [hlog]
  exact mem_append_left more he

/-- What is of another kind was there before. -/
theorem of_mem (h : Adds kind d d') (he : e ∈ d'.log) (hkind : ¬kind e) : e ∈ d.log := by
  obtain ⟨-, more, hlog, hmore⟩ := h
  rw [hlog] at he
  exact (mem_append.1 he).resolve_right fun hin => hkind (hmore e hin)

end Adds

/-! ### Power-on -/

/-- The probing loop: `check_ack_timeout`, `ue_exist_flag`. -/
def probeLoop : Nat → Dialogue → UInt8 → Dialogue × UInt8
  | 0, d, existFlag => ((d.send .at).1, existFlag)
  | timeout + 1, d, existFlag =>
    if (d.send .at).2 ≠ 0 then probeLoop timeout (d.send .at).1 0
    else ((d.send .at).1, existFlag)

/-- The attempts to set the automatic mode. -/
def autoconnectLoop : Nat → Dialogue → Dialogue
  | 0, d => d
  | timeout + 1, d =>
    if (d.send .setUeAutoconnect).2 ≠ 0 then (d.send .setUeAutoconnect).1
    else autoconnectLoop timeout (d.send .setUeAutoconnect).1

/-- The loop behind the reboot. -/
def rebootLoop : Nat → Dialogue → Dialogue
  | 0, d => d
  | timeout + 1, d =>
    let neul := ascii "Neul"
    if (d.read neul).2 then (d.read neul).1
    else if ((d.read neul).1.read neul).2 then ((d.read neul).1.read neul).1
    else rebootLoop timeout ((d.read neul).1.read neul).1

/-- The automatic mode is checked, and set where it is off; the flag is `ue_need_reboot_flag`. -/
def checkAutoconnect (d : Dialogue) (existFlag needReboot : UInt8) : Dialogue × UInt8 :=
  if existFlag ≠ 0 then
    if (d.send .queryUeConnectMode).2 = 0 then (autoconnectLoop 3 (d.send .queryUeConnectMode).1, 1)
    else ((d.send .queryUeConnectMode).1, needReboot)
  else (d, needReboot)

/-- The band is checked, and set where it is another. -/
def checkBand (d : Dialogue) (existFlag needReboot : UInt8) : Dialogue × UInt8 :=
  if existFlag ≠ 0 then
    if (d.send .queryUeBand).2 ≠ 0 then (((d.send .queryUeBand).1.send .setUeDefaultBand).1, 1)
    else ((d.send .queryUeBand).1, needReboot)
  else (d, needReboot)

/-- `BC95_power_on`: the dialogue, `ue_exist_flag` and `ue_need_reboot_flag`. -/
def bc95PowerOn (d : Dialogue) (needReboot : UInt8) : Dialogue × UInt8 × UInt8 :=
  let probed := probeLoop 10 d 1
  let existFlag := probed.2
  let mode := checkAutoconnect probed.1 existFlag needReboot
  let band := checkBand mode.1 existFlag mode.2
  if existFlag ≠ 0 ∧ band.2 ≠ 0 then (rebootLoop 10 (band.1.send .setUeReboot).1, existFlag, 0)
  else (band.1, existFlag, band.2)

/-! ### Network status -/

/-- What a round of `query_net_status` leaves: the flags and `res`, and whether it has ended by `break`. -/
structure NetState where
  attached : Bool
  registered : Bool
  res : UInt8
  deriving DecidableEq, Repr

/-- The query for the attachment. -/
def queryAttach (d : Dialogue) (s : NetState) : Dialogue × NetState :=
  if !s.attached then
    if (d.send .queryUeAttachStats).2 = 0 then
      ((d.send .queryUeAttachStats).1, { s with attached := true, res := 2 })
    else ((d.send .queryUeAttachStats).1, { s with attached := false })
  else (d, s)

/-- The query for the registration. -/
def queryEreg (d : Dialogue) (s : NetState) : Dialogue × NetState :=
  if s.attached && !s.registered then
    if (d.send .queryUeEregStats).2 = 0 then
      ((d.send .queryUeEregStats).1, { s with registered := true, res := 1 })
    else ((d.send .queryUeEregStats).1, { s with registered := false })
  else (d, s)

/-- The loop of `query_net_status`. -/
def netLoop : Nat → Dialogue → NetState → Dialogue × NetState
  | 0, d, s => (d, s)
  | timeout + 1, d, s =>
    if !(s.attached && s.registered) then
      if (d.send .queryUeScconStats).2 = 0 then
        ((d.send .queryUeScconStats).1, { attached := true, registered := true, res := 1 })
      else
        let r := queryAttach (d.send .queryUeScconStats).1 s
        let r := queryEreg r.1 r.2
        netLoop timeout r.1 r.2
    else (d, s)

/-- `query_net_status`: the dialogue and the value returned. -/
def queryNetStatus (d : Dialogue) : Dialogue × UInt8 :=
  let r := netLoop 20 d { attached := false, registered := false, res := 0 }
  (r.1, r.2.res)

end NbLot.Source.Modem
