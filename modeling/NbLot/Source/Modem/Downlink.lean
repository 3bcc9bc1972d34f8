import NbLot.Source.Modem.Dialogue

/-!
# The notification of a downlink message

Source: apps/examples/NB_Iot/NB_Iot.c:400-405 (`get_str_data`), 509-537 (`NB_Iot`).

`cArray` and `NB_Iot_rcvd_buf` are given as the bytes from their first one on, what lies behind the
array included.
-/
namespace NbLot.Source.Modem

open Lib Lib.Text
open Source.Uplink (ascii)

/-- `get_str_data`: its two `char` arguments keep eight bits. -/
def getStrData (rcvdBuf des : List UInt8) (pos len : Nat) : List UInt8 :=
  (rcvdBuf.drop (pos % 256)).take (len % 256) ++ des.drop (len % 256)

def comma : UInt8 := 44

/-- `resultcount` after the `strtok` loop over the 256 bytes of `data`. -/
def resultcount (rcvdBuf : List UInt8) : Nat :=
  let data := getStrData rcvdBuf (List.replicate 256 0) 0 256
  (tokens comma [] (cstr data)).length

/-- The fields that are counted, when the command has an answer with an OK. -/
def counted : Answer → Option Nat
  | .selectError | .timeout => none
  | .received bytes behind =>
    if nbIotSendCmd (ascii "OK") (.received bytes behind) = 0 then some (resultcount (rcvdBuf bytes ++ behind))
    else none

inductive Downlink where
  | ignored
  /-- `sprintf` writes past the end of `temp`. -/
  | overrun
  /-- The command that is sent, and the fields that are counted in its answer. -/
  | asked (temp : CharArray 64) (count : Option Nat)

/-- What `NB_Iot` does with a text that it has read while it waits. -/
def notified (cArray : List UInt8) (answer : Answer) : Downlink :=
  if (find (ascii "+NSONMI:0,") (cstr cArray)).isSome then
    match store 64 (ascii "AT+NSORF=" ++ cstr (cArray.drop 10)) with
    | none => .overrun
    | some temp => .asked temp (counted answer)
  else .ignored

end NbLot.Source.Modem
