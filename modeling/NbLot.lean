import NbLot.Guarantees.BrokenDownTime
import NbLot.Guarantees.Eeprom
import NbLot.Guarantees.Environment
import NbLot.Guarantees.FatAllocation
import NbLot.Guarantees.FatEntries
import NbLot.Guarantees.FatMount
import NbLot.Guarantees.FatPlaces
import NbLot.Guarantees.GprsDispatch
import NbLot.Guarantees.GprsHandshake
import NbLot.Guarantees.HeapAllocation
import NbLot.Guarantees.HeapRepresentation
import NbLot.Guarantees.IobChains
import NbLot.Guarantees.IobCounts
import NbLot.Guarantees.ModemDownlink
import NbLot.Guarantees.ModemNetStatus
import NbLot.Guarantees.ModemNumerals
import NbLot.Guarantees.ModemPowerOn
import NbLot.Guarantees.MqOrder
import NbLot.Guarantees.MqWakeup
import NbLot.Guarantees.PipeWakeup
import NbLot.Guarantees.Rs485Resync
import NbLot.Guarantees.RtcReading
import NbLot.Guarantees.SchedLists
import NbLot.Guarantees.SchedLock
import NbLot.Guarantees.SchedMerge
import NbLot.Guarantees.SemCounts
import NbLot.Guarantees.SemInheritance
import NbLot.Guarantees.SerialFlush
import NbLot.Guarantees.SerialReceive
import NbLot.Guarantees.SerialWakeup
import NbLot.Guarantees.SerialWrite
import NbLot.Guarantees.Sleep
import NbLot.Guarantees.TaskIds
import NbLot.Guarantees.TelemetryRouting
import NbLot.Guarantees.TimerSchedule
import NbLot.Guarantees.UplinkBuffers
import NbLot.Guarantees.WallClock
import NbLot.Guarantees.WdogQueue
import NbLot.Guarantees.WdogTickless
import NbLot.Guarantees.AbsoluteTime
import NbLot.Guarantees.FatSeek
import NbLot.Guarantees.StreamPosition
