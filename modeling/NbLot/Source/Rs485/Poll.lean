import NbLot.Source.Rs485.Transmit
import NbLot.Source.Uplink.Report

/-!
# What a received frame does to the device record

Source: apps/examples/NB_Iot/485.c:123-151 (`process_poll`), 301-360, 423-484 (the requests),
DeviceInfo.c:36-59 (the setters).

The argument of `process_poll` is the structure it reads. The requests agree with it only in the code
they send as CON0.
-/
namespace NbLot.Source.Rs485

open Source.Uplink

/-- The number that the first two data bytes hold as four digits. -/
def dataValue (data : CommTrmData) : Int :=
  let d0 := data.date.get 0
  let d1 := data.date.get 1
  (d0 >>> 4).toNat * 1000 + (d0 &&& 0x0f).toNat * 100 + (d1 >>> 4).toNat * 10 + (d1 &&& 0x0f).toNat * 1

/-- The number as a `short`. -/
def dataShort (data : CommTrmData) : Int16 := Int16.ofInt (dataValue data)

/-- `process_poll`, without its `printf` lines. -/
def processPoll (data : CommTrmData) (info : DeviceInfo) : DeviceInfo :=
  if 0x11 = data.con0 then
    let nu := dataShort data
    setDeviceInfoLedTemperature info nu
  else info

/-- The requests for a measured value. -/
inductive Request where
  | baseTemperature | ledTemperature | voltage | current
  deriving DecidableEq, Repr

/-- The function that sends the request, with the value of `SRB`. -/
def Request.send : Request → UInt8 → List UInt8 × UInt8
  | .baseTemperature => getBaseTemperature
  | .ledTemperature => getLedTemperature
  | .voltage => getVoltage
  | .current => getCurrent

/-- The code the request has as CON0. -/
def Request.con0 : Request → UInt8
  | .baseTemperature => 0x11
  | .ledTemperature => 0x15
  | .voltage => 0x13
  | .current => 0x14

/-- The place of CON0 in `senddate[]`. -/
def con0Index : Nat := 10

theorem transmit_con0 (g0 con0 con1 acc srb : UInt8) (senddate : List UInt8)
    (h : senddate = [0xfe, 0xfe, 0xfe] ++ [0x68, 0x45, 0x00, 0x20, 0x08, g0, 0x00, con0, con1, 0x01, srb] ++
      [acc, 0x16]) : (transmit senddate srb).1.getD con0Index 0 = con0 := by
  rw [transmit, h, checksumLoop_eq _ _ _ _ rfl]
  rfl

/-- The code is the one that is sent, whatever the number of the frame. -/
theorem Request.con0_send (r : Request) (srb : UInt8) : (r.send srb).1.getD con0Index 0 = r.con0 := by
  cases r with
  | baseTemperature => exact transmit_con0 0xB0 0x11 0x30 0xC8 srb _ rfl
  | ledTemperature => exact transmit_con0 0xC0 0x15 0x30 0xC8 srb _ rfl
  | voltage => exact transmit_con0 0xC0 0x13 0x10 0xC8 srb _ rfl
  | current => exact transmit_con0 0xC0 0x14 0x20 0x00 srb _ rfl

end NbLot.Source.Rs485
