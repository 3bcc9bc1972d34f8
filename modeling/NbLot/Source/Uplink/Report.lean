import NbLot.Source.Uplink.CJson

/-!
# Uplink: the device record and one reporting round

Source: apps/examples/NB_Iot/DeviceInfo.c:22-88, DeviceInfo.h, NB_Iot.c:52-77
(`ByteToHexStr`), 171-242 (`NB_Iot_send_cmd`), 429-447 (`send_UDP_msg`), 482-494
(the round in `NB_Iot`), NB_Iot.h:6-7.

Every array the round fills is a `CharArray` of its declared size, so the round gives
`none` as soon as one of its stores leaves its array. The text handed to the modem is
the last one; its answer plays no part in the buffers.
-/
namespace NbLot.Source.Uplink
open Lib

structure DeviceInfo where
  baseName : CharArray 64
  guid : CharArray 36
  address : CharArray 128
  switch : CharArray 4
  baseTemperature : Int16
  ledTemperature : Int16
  brightness : Int16
  colorTemperature : Int16
  voltage : Int16
  current : Int16

/-- DeviceInfoInit. -/
def deviceInfoInit : Option DeviceInfo := do
  let baseName ← strcpy 64 (ascii "TESTBase")
  let address ← strcpy 128 (ascii "TESAddressT")
  let guid ← strcpy 36 (ascii "B123456789012345678901234567890B")
  let switch ← strcpy 4 (ascii "OFF")
  some { baseName, guid, address, switch, baseTemperature := 0, ledTemperature := 0
         brightness := 0, colorTemperature := 0, voltage := 0, current := 0 }

def setDeviceInfoBaseTemperature (info : DeviceInfo) (value : Int16) : DeviceInfo :=
  { info with baseTemperature := value }

def setDeviceInfoLedTemperature (info : DeviceInfo) (value : Int16) : DeviceInfo :=
  { info with ledTemperature := value }

def setDeviceInfoBrightness (info : DeviceInfo) (value : Int16) : DeviceInfo :=
  { info with brightness := value }

def setDeviceInfoColorTemperature (info : DeviceInfo) (value : Int16) : DeviceInfo :=
  { info with colorTemperature := value }

def setDeviceInfoVoltage (info : DeviceInfo) (value : Int16) : DeviceInfo :=
  { info with voltage := value }

def setDeviceInfoCurrent (info : DeviceInfo) (value : Int16) : DeviceInfo :=
  { info with current := value }

/-- One call of a numeric setter. -/
inductive SetCall where
  | baseTemperature (value : Int16)
  | ledTemperature (value : Int16)
  | brightness (value : Int16)
  | colorTemperature (value : Int16)
  | voltage (value : Int16)
  | current (value : Int16)
  deriving DecidableEq, Repr

def SetCall.apply (info : DeviceInfo) : SetCall → DeviceInfo
  | .baseTemperature value => setDeviceInfoBaseTemperature info value
  | .ledTemperature value => setDeviceInfoLedTemperature info value
  | .brightness value => setDeviceInfoBrightness info value
  | .colorTemperature value => setDeviceInfoColorTemperature info value
  | .voltage value => setDeviceInfoVoltage info value
  | .current value => setDeviceInfoCurrent info value

/-- The tree `DeviveInfotoJson` builds. -/
def deviceInfoTree (info : DeviceInfo) : CJson :=
  let object := cJsonAddItemToObject [] (ascii "BaseName") (.string info.baseName.text)
  let object := cJsonAddItemToObject object (ascii "GUID") (.string info.guid.text)
  let object := cJsonAddItemToObject object (ascii "Address") (.string info.address.text)
  let object := cJsonAddItemToObject object (ascii "Switch") (.string info.switch.text)
  let object := cJsonAddItemToObject object (ascii "BaseTemperature")
    (.number info.baseTemperature.toInt)
  let object := cJsonAddItemToObject object (ascii "LedTemperature")
    (.number info.ledTemperature.toInt)
  let object := cJsonAddItemToObject object (ascii "Brightness") (.number info.brightness.toInt)
  let object := cJsonAddItemToObject object (ascii "ColorTemperature")
    (.number info.colorTemperature.toInt)
  let object := cJsonAddItemToObject object (ascii "Voltage") (.number info.voltage.toInt)
  let object := cJsonAddItemToObject object (ascii "Current") (.number info.current.toInt)
  .object (cJsonAddItemToObject [] (ascii "DeviceInfo") (.object object))

/-- DeviveInfotoJson, into a `jsonbuff` of `cap` bytes. -/
def deviveInfotoJson (cap : Nat) (info : DeviceInfo) : Option (CharArray cap) :=
  strcpy cap (cJsonPrintUnformatted (deviceInfoTree info))

/-- A nibble as ByteToHexStr writes it. -/
def hexNibble (nibble : UInt8) : UInt8 :=
  let byte := nibble + 0x30
  if byte > 0x39 then byte + 0x07 else byte

def hexPair (byte : UInt8) : List UInt8 := [hexNibble (byte >>> 4), hexNibble (byte &&& 0x0f)]

/-- ByteToHexStr, into a `dest` of `cap` bytes. Its index is a `short`, which wraps to
a store before the array when the source is longer than 32767 bytes. -/
def byteToHexStr (cap : Nat) (source : List UInt8) : Option (CharArray cap) :=
  if source.length ≤ 32767 then store cap (source.flatMap hexPair) else none

def serverHostUdpIp : List UInt8 := ascii "111.198.38.70"

def serverHostUdpPort : List UInt8 := ascii "9999"

/-- NB_Iot_send_cmd as far as `sendcmd`, the text it writes to the modem. -/
def nbIotSendCmd (cmd : List UInt8) : Option (CharArray 600) := store 600 (cmd ++ ascii "\r\n")

/-- send_UDP_msg as far as the text of its command. -/
def sendUdpMsg (socket hostIP port dataLen data : List UInt8) : Option (CharArray 600) := do
  let ptr ← store 600 (ascii "AT+NSOST=")
  let ptr ← strcat ptr socket
  let ptr ← strcat ptr (ascii ",")
  let ptr ← strcat ptr hostIP
  let ptr ← strcat ptr (ascii ",")
  let ptr ← strcat ptr port
  let ptr ← strcat ptr (ascii ",")
  let ptr ← strcat ptr dataLen
  let ptr ← strcat ptr (ascii ",")
  strcat ptr data

/-- The arrays a reporting round leaves filled. -/
structure Round where
  date : CharArray 256
  senddate : CharArray 512
  sendlen : CharArray 32
  ptr : CharArray 600
  sendcmd : CharArray 600

/-- NB_Iot, lines 484-491. -/
def reportingRound (info : DeviceInfo) : Option Round := do
  let date ← deviveInfotoJson 256 info
  let senddate ← byteToHexStr 512 date.text
  let sendlen ← store 32 (decimal date.text.length)
  let ptr ← sendUdpMsg (ascii "0") serverHostUdpIp serverHostUdpPort sendlen.text senddate.text
  let sendcmd ← nbIotSendCmd ptr.text
  some { date, senddate, sendlen, ptr, sendcmd }

end NbLot.Source.Uplink
