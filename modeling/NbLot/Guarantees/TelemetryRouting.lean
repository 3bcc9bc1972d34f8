import NbLot.Source.Rs485.Poll

/-!
# Routing of measured values

`process_poll` handles one code only: an answer with CON0 = 0x11, which is what `getBaseTemperature`
asks for, is recorded as the temperature of the LED. Answers to the other requests change nothing.

`routed_iff` says for which frames and records the right field is set, and for which at most the right
one is changed.
-/
namespace NbLot.Guarantees.TelemetryRouting

open Source.Rs485 Source.Uplink

/-- The field a request asks for. -/
def field : Request → DeviceInfo → Int16
  | .baseTemperature, info => info.baseTemperature
  | .ledTemperature, info => info.ledTemperature
  | .voltage, info => info.voltage
  | .current, info => info.current

/-- The record with the field a request asks for set. -/
def answered : Request → DeviceInfo → Int16 → DeviceInfo
  | .baseTemperature => setDeviceInfoBaseTemperature
  | .ledTemperature => setDeviceInfoLedTemperature
  | .voltage => setDeviceInfoVoltage
  | .current => setDeviceInfoCurrent

/-- The frame sets the field that the request with its code asks for, and no other. -/
def Routed (data : CommTrmData) (info info' : DeviceInfo) : Prop :=
  (∀ r : Request, r.con0 = data.con0 → info' = answered r info (dataShort data)) ∧
    ((∀ r : Request, r.con0 ≠ data.con0) → info' = info)

/-- The frame changes at most that field. -/
def AtMostRouted (data : CommTrmData) (info info' : DeviceInfo) : Prop :=
  info' = info ∨ ∃ r : Request, r.con0 = data.con0 ∧ info' = answered r info (dataShort data)

theorem answered_eq_self_iff (r : Request) (info : DeviceInfo) (value : Int16) :
    info = answered r info value ↔ field r info = value := by
  cases r <;> cases info <;> simp [answered, field, setDeviceInfoBaseTemperature,
    setDeviceInfoLedTemperature, setDeviceInfoVoltage, setDeviceInfoCurrent]

theorem led_eq_base_iff (info : DeviceInfo) (value : Int16) :
    setDeviceInfoLedTemperature info value = answered .baseTemperature info value ↔
      info.baseTemperature = value ∧ info.ledTemperature = value := by
  cases info
  simp [answered, setDeviceInfoBaseTemperature, setDeviceInfoLedTemperature, eq_comm]

theorem con0_eq_base_iff (r : Request) : r.con0 = 0x11 ↔ r = .baseTemperature := by
  cases r <;> decide

variable {data : CommTrmData}

theorem processPoll_base (h : data.con0 = 0x11) (info : DeviceInfo) :
    processPoll data info = setDeviceInfoLedTemperature info (dataShort data) := if_pos h.symm

theorem processPoll_other (h : data.con0 ≠ 0x11) (info : DeviceInfo) :
    processPoll data info = info := if_neg (Ne.symm h)

variable (data : CommTrmData)

theorem led_unchanged_iff (info : DeviceInfo) :
    setDeviceInfoLedTemperature info (dataShort data) = info ↔ info.ledTemperature = dataShort data := by
  rw [eq_comm]
  exact answered_eq_self_iff .ledTemperature info (dataShort data)

theorem sets_asked_iff (info : DeviceInfo) :
    Routed data info (processPoll data info) ↔
      (∀ r : Request, r.con0 = data.con0 → field r info = dataShort data) ∧
        (data.con0 = 0x11 → info.ledTemperature = dataShort data) := by
  unfold Routed
  by_cases hbase : data.con0 = 0x11
  · simp only [processPoll_base hbase, hbase, con0_eq_base_iff, forall_eq, led_eq_base_iff]
    constructor
    · rintro ⟨hboth, -⟩
      exact ⟨hboth.1, fun _ => hboth.2⟩
    · rintro ⟨hfirst, hsecond⟩
      exact ⟨⟨hfirst, hsecond trivial⟩, fun hnone => absurd rfl (hnone .baseTemperature)⟩
  · simp only [processPoll_other hbase, answered_eq_self_iff, hbase, false_imp_iff, imp_true_iff]

theorem changes_asked_iff (info : DeviceInfo) :
    AtMostRouted data info (processPoll data info) ↔
      data.con0 ≠ 0x11 ∨ info.ledTemperature = dataShort data := by
  unfold AtMostRouted
  by_cases hbase : data.con0 = 0x11
  · simp only [processPoll_base hbase, hbase, con0_eq_base_iff, exists_eq_left, led_eq_base_iff,
      led_unchanged_iff]
    constructor
    · rintro (hsame | hboth)
      · exact .inr hsame
      · exact .inr hboth.2
    · rintro (hother | hsame)
      · exact absurd rfl hother
      · exact .inl hsame
  · simp only [processPoll_other hbase, true_or, ne_eq, hbase, not_false_eq_true]

/-- The right field is set where it holds the value already, as the temperature of the LED must for an
answer to `getBaseTemperature`; no other frame changes anything. -/
theorem routed_iff (data : CommTrmData) (info : DeviceInfo) :
    (Routed data info (processPoll data info) ↔
      (∀ r : Request, r.con0 = data.con0 → field r info = dataShort data) ∧
        (data.con0 = 0x11 → info.ledTemperature = dataShort data)) ∧
    (AtMostRouted data info (processPoll data info) ↔
      data.con0 ≠ 0x11 ∨ info.ledTemperature = dataShort data) :=
  ⟨sets_asked_iff data info, changes_asked_iff data info⟩

/-- An answer to `getBaseTemperature` with the data 25 30. -/
def baseAnswer : List UInt8 :=
  [0x68, 0x45, 0x00, 0x20, 0x08, 0xB0, 0x00, 0x11, 0x30, 0x02, 0x25, 0x30, 0x1D, 0x16]

/-- The temperature of the base is recorded as that of the LED. -/
theorem base_recorded_as_led :
    ∃ data info, polls clearCommFrame baseAnswer = [data] ∧ deviceInfoInit = some info ∧
      (processPoll data info).ledTemperature = 2530 ∧
      ¬AtMostRouted data info (processPoll data info) := by
  have hpolls : (polls clearCommFrame baseAnswer).map (fun d => (d.con0, dataShort d)) = [(0x11, 2530)] := by
    decide +kernel
  obtain ⟨data, hdata, hvalue⟩ := List.map_eq_singleton_iff.1 hpolls
  obtain ⟨hcon0, hshort⟩ := Prod.mk.inj hvalue
  have hinit : deviceInfoInit.map DeviceInfo.ledTemperature = some 0 := by decide +kernel
  obtain ⟨info, hinfo, hled⟩ := Option.map_eq_some_iff.1 hinit
  refine ⟨data, info, hdata, hinfo, ?_, ?_⟩
  · rw [processPoll_base hcon0, hshort]
    rfl
  · rw [changes_asked_iff, hcon0, hshort, hled]
    decide

end NbLot.Guarantees.TelemetryRouting
