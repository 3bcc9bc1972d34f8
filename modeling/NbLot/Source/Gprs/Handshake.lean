import NbLot.Lib.Transition
import NbLot.Source.Gprs.Reply

/-!
# GPRS bring-up: the two tasks and the modem

Source: apps/examples/lid_master/task_gprs.c:284-560 (the steps and `gprs_tcpinit`),
731-807 (`master_gprs`).

The monitor task runs the steps of `gprs_tcpinit` one after the other, the receive
task reads the serial line and sets `msgack`, and the modem answers a write with at
most one text, sent at any later time and in any order. `handshakeStep` takes one
statement of one of the three, so a list of actions is one interleaving.
-/
namespace NbLot.Source.Gprs

/-- The commands written before and by `gprs_tcpinit`. -/
inductive AtCommand where
  | ssync
  | creg
  | sconType
  | apn
  | srvType
  | conId
  | address
  | establish
  | transparent
  deriving DecidableEq, Repr

def AtCommand.text : AtCommand → String
  | ssync => "AT^SSYNC=1\r\n"
  | creg => "AT+CREG?\r\n"
  | sconType => "AT^SICS=0,conType,GPRS0\r\n"
  | apn => "AT^SICS=0,apn,cment\r\n"
  | srvType => "AT^SISS=0,srvType,Transparent\r\n"
  | conId => "AT^SISS=0,conId,0\r\n"
  | address => "AT^SISS=0,address,socktcp://220.249.21.130:1153\r\n"
  | establish => "AT^SISO=0\r\n"
  | transparent => "AT^SIST=0\r\n"

/-- One step function: it waits until `msgack` is `awaited` and gives up at the pass
whose counter exceeds `limit`. `writesOnce` tells a write before the loop from a
write in each pass. -/
structure HandshakeStep where
  command : AtCommand
  awaited : MsgAck
  limit : Nat
  writesOnce : Bool
  deriving DecidableEq, Repr

/-- The loop that writes its command in every pass and fails in the twelfth. -/
def retransmitting (command : AtCommand) (awaited : MsgAck) : HandshakeStep :=
  { command, awaited, limit := 10, writesOnce := false }

def setSconType : HandshakeStep := retransmitting .sconType .ack

def setApn : HandshakeStep := retransmitting .apn .ack

def setSrvType : HandshakeStep := retransmitting .srvType .ack

def setConId : HandshakeStep := retransmitting .conId .ack

def setAddress : HandshakeStep := retransmitting .address .ack

def intoEstablish : HandshakeStep :=
  { command := .establish, awaited := .ack, limit := 30, writesOnce := true }

def intoTransparent : HandshakeStep := retransmitting .transparent .connect

def gprsTcpinit : List HandshakeStep :=
  [setSconType, setApn, setSrvType, setConId, setAddress, intoEstablish, intoTransparent]

/-- The statement the monitor task executes next in the step at the head of `todo`. -/
inductive MonitorPc where
  | enter
  | test
  | write
  | count
  | leave
  | returned (success : Bool)
  deriving DecidableEq, Repr

/-- The receive task waits in `select`, or holds a read that is not dispatched yet.
A byte no reply brought has the tag `none`. -/
inductive RxTask where
  | waiting
  | holding (cArray : List (Option AtCommand × Char))
  | stopped
  deriving DecidableEq, Repr

def RxTask.cArray : RxTask → List (Option AtCommand × Char)
  | .holding cArray => cArray
  | .waiting | .stopped => []

/-- `keyword` and `matched` are ghosts: the tags of the keyword that set `msgack`
last, and for every step that saw its value the tags it was seen with. -/
structure HandshakeState where
  msgack : MsgAck
  keyword : List (Option AtCommand)
  pc : MonitorPc
  todo : List HandshakeStep
  cnt : Nat
  matched : List (AtCommand × List (Option AtCommand))
  sent : List String
  pending : List (AtCommand × List Char)
  line : List (AtCommand × Char)
  rx : RxTask

def HandshakeState.acknowledge (s : HandshakeState) (value : MsgAck)
    (keyword : List (Option AtCommand)) : HandshakeState :=
  { s with msgack := value, keyword }

def HandshakeState.reset (s : HandshakeState) : HandshakeState := s.acknowledge .noack []

/-- One statement of the monitor task in the step `cur`; `reply` is what the modem
will answer should the statement be a write. The count compares before it adds. -/
def monitorStatement (s : HandshakeState) (cur : HandshakeStep) (rest : List HandshakeStep)
    (reply : Option (List Char)) : Option HandshakeState :=
  match s.pc with
  | .enter =>
    some { s.reset with cnt := 0, pc := if cur.writesOnce then .write else .test }
  | .test =>
    if s.msgack = cur.awaited then
      some { s with pc := .leave, matched := s.matched ++ [(cur.command, s.keyword)] }
    else some { s with pc := if cur.writesOnce then .count else .write }
  | .write =>
    some { s with
      sent := s.sent ++ [cur.command.text]
      pending := s.pending ++ (reply.map (cur.command, ·)).toList
      pc := if cur.writesOnce then .test else .count }
  | .count =>
    if s.cnt > cur.limit then some { s.reset with pc := .returned false }
    else some { s with cnt := s.cnt + 1, pc := .test }
  | .leave =>
    some { s.reset with
      todo := rest
      pc := if rest = [] then .returned true else .enter }
  | .returned _ => none

/-- `read` gets the bytes that have arrived, at most `sizeof(cArray)` of them, and
`tcflush` drops what else is there, `flushed` later bytes included. A full array has
no terminator: a search goes on in the memory `behind` it. -/
def readLine (s : HandshakeState) (arrived flushed : Nat) (behind : List Char) :
    HandshakeState :=
  let got := ((s.line.take arrived).take 200).map fun x => (some x.1, x.2)
  { s with
    line := s.line.drop (arrived + flushed)
    rx := .holding (if got.length = 200 then got ++ behind.map (none, ·) else got) }

inductive HandshakeAct where
  | monitor (reply : Option (List Char))
  | transmit (index : Nat)
  | read (arrived flushed : Nat) (behind : List Char)
  | dispatch
  deriving DecidableEq, Repr

def handshakeStep (s : HandshakeState) : HandshakeAct → Option HandshakeState
  | .monitor reply =>
    match s.todo with
    | [] => none
    | cur :: rest => monitorStatement s cur rest reply
  | .transmit index =>
    match s.pending[index]? with
    | none => none
    | some reply =>
      some { s with
        pending := s.pending.eraseIdx index
        line := s.line ++ reply.2.map (reply.1, ·) }
  | .read arrived flushed behind =>
    match s.rx with
    | .waiting => some (readLine s arrived flushed behind)
    | .holding _ | .stopped => none
  | .dispatch =>
    match s.rx with
    | .waiting | .stopped => none
    | .holding cArray =>
      match NbLot.Source.Gprs.dispatch cArray with
      | .keep => some { s with rx := .waiting }
      | .set value keyword => some { s.acknowledge value keyword with rx := .waiting }
      | .fault => some { s with rx := .stopped }

end NbLot.Source.Gprs
