import Mathlib.Data.List.Basic

/-!
# RS-485 receive machine

Source: apps/examples/NB_Iot/485.c:27-75 (constants, status enumeration and
`COMM_TRM_DATA`), 118-121 (`ClearCommFrame`), 159-295 (`comm2trm_RxUartData`).

`comm2trm_RxUartData` is called once for every received byte. One call is
`comm2trmRxUartData`: it returns the next structure, the structure handed to
`process_poll` when this byte completes a frame, and the array stores made.
The `printf` lines are not modelled.

`a_byRxBuf` is 128 bytes long and is indexed by `byFrameLen` without a check.
A store past its end falls on the members the structure declares after it, so
`storeRxBuf` follows the C layout of `COMM_TRM_DATA` on the little-endian
target: one padding byte in front of the 16-bit `GUID`, none elsewhere.
-/
namespace NbLot.Source.Rs485

def commTrmHead : UInt8 := 0x68
def commTrmFixed : UInt8 := 0x45
def commTrmTail : UInt8 := 0x16
def maxLenCommTrmData : Nat := 128

inductive CommTrmStatus where
  | statusIdle | statusHead | statusFixed | statusType | statusCmd0 | statusCmd1
  | statusGuid | statusCon0 | statusCon1 | statusDataLen | statusData | statusCs
  | statusTail | statusEnd
  deriving DecidableEq, Repr

structure CommTrmData where
  byCnt : UInt8
  byDataLen : UInt8
  byFrameLen : UInt8
  eRxStatus : CommTrmStatus
  aByRxBuf : Vector UInt8 128
  fg : UInt8
  cmd0 : UInt8
  cmd1 : UInt8
  guid : UInt16
  guidCnt : UInt8
  con0 : UInt8
  con1 : UInt8
  cs : UInt8
  date : Vector UInt8 128
  deriving DecidableEq, Repr

/-- `ClearCommFrame`: the whole structure is zeroed. -/
def clearCommFrame : CommTrmData where
  byCnt := 0
  byDataLen := 0
  byFrameLen := 0
  eRxStatus := .statusIdle
  aByRxBuf := Vector.replicate 128 0
  fg := 0
  cmd0 := 0
  cmd1 := 0
  guid := 0
  guidCnt := 0
  con0 := 0
  con1 := 0
  cs := 0
  date := Vector.replicate 128 0

/-- An array store of the receive machine, with the index it uses. -/
inductive ArrayStore where
  | date (index : Nat)
  | rxBuf (index : Nat)
  deriving DecidableEq, Repr

def ArrayStore.inBounds : ArrayStore → Prop
  | .date index => index < 128
  | .rxBuf index => index < maxLenCommTrmData

instance : (a : ArrayStore) → Decidable a.inBounds
  | .date index => inferInstanceAs (Decidable (index < 128))
  | .rxBuf index => inferInstanceAs (Decidable (index < maxLenCommTrmData))

def setLowByte (w : UInt16) (b : UInt8) : UInt16 :=
  UInt16.ofNat (w.toNat / 256 * 256 + b.toNat)

def setHighByte (w : UInt16) (b : UInt8) : UInt16 :=
  UInt16.ofNat (b.toNat * 256 + w.toNat % 256)

/-- `s.a_byRxBuf[i] = b`, including the bytes of the structure that lie behind
the array: a member takes the byte when `i` is its offset from `a_byRxBuf`.
Offset 131 is the padding byte in front of `GUID`. -/
def storeRxBuf (s : CommTrmData) (i : Nat) (b : UInt8) : CommTrmData := { s with
  aByRxBuf := s.aByRxBuf.setIfInBounds i b
  fg := if i = 128 then b else s.fg
  cmd0 := if i = 129 then b else s.cmd0
  cmd1 := if i = 130 then b else s.cmd1
  guid :=
    if i = 132 then setLowByte s.guid b else if i = 133 then setHighByte s.guid b else s.guid
  guidCnt := if i = 134 then b else s.guidCnt
  con0 := if i = 135 then b else s.con0
  con1 := if i = 136 then b else s.con1
  cs := if i = 137 then b else s.cs
  date := if 138 ≤ i then s.date.setIfInBounds (i - 138) b else s.date }

/-- What the `switch` leaves behind when it does not jump to `rx_exception`:
the structure, the argument of `process_poll` if it was called, and the stores
into `Date`. -/
structure SwitchResult where
  state : CommTrmData
  poll : Option CommTrmData
  stores : List ArrayStore

/-- The `switch` on `eRxStatus`; `none` is `goto rx_exception`. -/
def rxSwitch (s : CommTrmData) (byData : UInt8) : Option SwitchResult :=
  match s.eRxStatus with
  | .statusIdle =>
    if commTrmHead = byData then some ⟨{ s with eRxStatus := .statusHead }, none, []⟩
    else none
  | .statusHead =>
    if commTrmFixed = byData then some ⟨{ s with eRxStatus := .statusFixed }, none, []⟩
    else none
  | .statusFixed =>
    if 0x00 = byData then some ⟨{ s with eRxStatus := .statusType, fg := byData }, none, []⟩
    else none
  | .statusType => some ⟨{ s with eRxStatus := .statusCmd0, cmd0 := byData }, none, []⟩
  | .statusCmd0 =>
    some ⟨{ s with eRxStatus := .statusCmd1, cmd1 := byData, guidCnt := 0 }, none, []⟩
  | .statusCmd1 =>
    if 0 = s.guidCnt then
      some ⟨{ s with guid := byData.toUInt16, guidCnt := s.guidCnt + 1 }, none, []⟩
    else if 1 = s.guidCnt then
      some ⟨{ s with guid := (s.guid <<< 8) ||| byData.toUInt16, eRxStatus := .statusGuid },
        none, []⟩
    else none
  | .statusGuid => some ⟨{ s with eRxStatus := .statusCon0, con0 := byData }, none, []⟩
  | .statusCon0 => some ⟨{ s with eRxStatus := .statusCon1, con1 := byData }, none, []⟩
  | .statusCon1 =>
    if byData.toNat ≤ maxLenCommTrmData then
      some ⟨{ s with eRxStatus := .statusData, byDataLen := byData, byCnt := 0 }, none, []⟩
    else none
  | .statusData =>
    let stored := { s with
      date := s.date.setIfInBounds s.byCnt.toNat byData, byCnt := s.byCnt + 1 }
    if stored.byCnt < stored.byDataLen then some ⟨stored, none, [.date s.byCnt.toNat]⟩
    else some ⟨{ stored with eRxStatus := .statusCs }, none, [.date s.byCnt.toNat]⟩
  -- the source tests `if (1)`: every byte is accepted as the checksum
  | .statusCs => some ⟨{ s with eRxStatus := .statusTail, cs := byData }, none, []⟩
  | .statusTail =>
    if commTrmTail = byData then some ⟨clearCommFrame, some s, []⟩ else none
  -- `default:` only prints
  | .statusDataLen | .statusEnd => some ⟨s, none, []⟩

/-- Result of one call of `comm2trm_RxUartData`. -/
structure RxResult where
  state : CommTrmData
  poll : Option CommTrmData
  stores : List ArrayStore

/-- The byte is saved behind the `switch`, also behind the `ClearCommFrame` of a
delivered frame; only `rx_exception` skips the save. -/
def comm2trmRxUartData (s : CommTrmData) (byData : UInt8) : RxResult :=
  match rxSwitch s byData with
  | none => ⟨clearCommFrame, none, []⟩
  | some r =>
    ⟨{ storeRxBuf r.state r.state.byFrameLen.toNat byData with
        byFrameLen := r.state.byFrameLen + 1 },
      r.poll, r.stores ++ [.rxBuf r.state.byFrameLen.toNat]⟩

/-- The structure after a byte stream. -/
def rxRun (s : CommTrmData) : List UInt8 → CommTrmData
  | [] => s
  | b :: rest => rxRun (comm2trmRxUartData s b).state rest

/-- The arguments of the `process_poll` calls of a byte stream, in order. -/
def polls (s : CommTrmData) : List UInt8 → List CommTrmData
  | [] => []
  | b :: rest =>
    (comm2trmRxUartData s b).poll.toList ++ polls (comm2trmRxUartData s b).state rest

/-- The array stores of a byte stream, in order. -/
def stores (s : CommTrmData) : List UInt8 → List ArrayStore
  | [] => []
  | b :: rest => (comm2trmRxUartData s b).stores ++ stores (comm2trmRxUartData s b).state rest

variable (s : CommTrmData)

theorem rxRun_append (p q : List UInt8) : rxRun s (p ++ q) = rxRun (rxRun s p) q := by
  induction p generalizing s with
  | nil => rfl
  | cons b rest ih => exact ih _

theorem rxRun_snoc (p : List UInt8) (b : UInt8) :
    rxRun s (p ++ [b]) = (comm2trmRxUartData (rxRun s p) b).state := by
  rw [rxRun_append]
  rfl

theorem polls_append (p q : List UInt8) : polls s (p ++ q) = polls s p ++ polls (rxRun s p) q := by
  induction p generalizing s with
  | nil => rfl
  | cons b rest ih => simp only [List.cons_append, polls, rxRun, ih, List.append_assoc]

end NbLot.Source.Rs485
