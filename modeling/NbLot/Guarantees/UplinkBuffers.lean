import Mathlib.Data.List.Forall2
import NbLot.Source.Uplink.Report

/-!
# Uplink: the arrays of a reporting round are large enough

Source: apps/examples/NB_Iot/DeviceInfo.c:22-88, NB_Iot.c:171-242, 429-447, 482-494.

The setters change numbers only, a `short` takes at most six characters, and each
layer (JSON text, hex text, command) has a size that follows from the one below.
-/
namespace NbLot.Guarantees.UplinkBuffers
open Lib Source.Uplink List

/-- At most `n` bytes and no NUL among them. -/
structure Sized (bytes : List UInt8) (n : Nat) : Prop where
  length_le : bytes.length ≤ n
  nulFree : ∀ b ∈ bytes, b ≠ 0

instance (bytes : List UInt8) (n : Nat) : Decidable (Sized bytes n) :=
  decidable_of_iff (bytes.length ≤ n ∧ bytes.all (· != 0) = true)
    ⟨fun h => ⟨h.1, by simpa using h.2⟩, fun h => ⟨h.length_le, by simpa using h.nulFree⟩⟩

theorem Sized.append (a b : List UInt8) (m n : Nat) (ha : Sized a m) (hb : Sized b n) :
    Sized (a ++ b) (m + n) := by
  refine ⟨?_, nulFree_append a b ha.nulFree hb.nulFree⟩
  rw [length_append]
  exact Nat.add_le_add ha.length_le hb.length_le

theorem Sized.cstr_eq (bytes : List UInt8) (n : Nat) (h : Sized bytes n) : cstr bytes = bytes :=
  cstr_of_nulFree bytes h.nulFree

theorem digit_ne_nul (c : Char) (h : c.isDigit = true) : UInt8.ofNat c.toNat ≠ 0 := by
  rw [Char.isDigit, Bool.and_eq_true, decide_eq_true_iff, decide_eq_true_iff] at h
  have hlow : 48 ≤ c.toNat := UInt32.le_iff_toNat_le.mp h.1
  have hhigh : c.toNat ≤ 57 := UInt32.le_iff_toNat_le.mp h.2
  intro hzero
  have hmod : c.toNat % 256 = 0 := congrArg UInt8.toNat hzero
  omega

theorem digits_sized {n k : Nat} (hk : 0 < k) (h : n < 10 ^ k) :
    Sized ((Nat.toDigits 10 n).map fun c => UInt8.ofNat c.toNat) k := by
  refine ⟨?_, ?_⟩
  · rw [length_map]
    exact Nat.toDigits_length 10 n k hk h
  · intro b hb
    obtain ⟨c, hc, heq⟩ := mem_map.mp hb
    rw [← heq]
    exact digit_ne_nul c (Nat.isDigit_of_mem_toDigits (by decide) (by decide) hc)

/-- `%d` takes one character for the sign and one for each digit. -/
theorem decimal_sized (value : Int) (k : Nat) (hk : 0 < k) (h : value.natAbs < 10 ^ k) :
    Sized (decimal value) (k + 1) := by
  have hdigits := digits_sized hk h
  unfold decimal
  split
  · rw [Nat.add_comm]
    exact Sized.append _ _ 1 k (by decide) hdigits
  · exact ⟨Nat.le_succ_of_le hdigits.length_le, hdigits.nulFree⟩

theorem decimal_natCast_sized (n k : Nat) (hk : 0 < k) (h : n < 10 ^ k) : Sized (decimal n) k := by
  unfold decimal
  exact digits_sized hk h

theorem printNumber_short_sized (value : Int16) : Sized (printNumber value.toInt) 6 := by
  unfold printNumber
  split
  · decide
  · have hlow := value.le_toInt
    have hhigh := value.toInt_lt
    apply decimal_sized value.toInt 5 (by decide)
    omega

/-- One entry of an object: the name, a colon and the value. -/
def printMember (member : List UInt8 × CJson) : List UInt8 :=
  printStringPtr member.1 ++ ascii ":" ++ printValue member.2

/-- An object takes its entries, a comma between two of them and the two braces. -/
theorem printMembers_sized (members : List (List UInt8 × CJson)) (sizes : List Nat)
    (h : List.Forall₂ (fun member n => Sized (printMember member) n) members sizes) :
    Sized (printMembers members) (sizes.sum + (members.length - 1)) := by
  induction h with
  | nil => decide
  | @cons member n members sizes hfirst hrest ih =>
    cases members with
    | nil =>
      cases hrest
      simpa [printMembers, printMember] using hfirst
    | cons next rest =>
      have hcomma : Sized (ascii ",") 1 := by decide
      have hall := ((hfirst.append _ _ _ _ hcomma).append _ _ _ _ ih)
      refine ⟨?_, ?_⟩
      · refine Nat.le_trans hall.length_le ?_
        simp only [sum_cons, length_cons]
        omega
      · exact hall.nulFree

theorem printObject_sized (members : List (List UInt8 × CJson)) (sizes : List Nat)
    (h : List.Forall₂ (fun member n => Sized (printMember member) n) members sizes) :
    Sized (printValue (.object members)) (1 + (sizes.sum + (members.length - 1)) + 1) := by
  have hbody := printMembers_sized members sizes h
  exact Sized.append _ _ _ 1 (Sized.append _ _ 1 _ (by decide) hbody) (by decide)

/-- The strings `DeviceInfoInit` leaves in the record. -/
structure InitialStrings (info : DeviceInfo) : Prop where
  baseName : info.baseName.text = ascii "TESTBase"
  guid : info.guid.text = ascii "B123456789012345678901234567890B"
  address : info.address.text = ascii "TESAddressT"
  switch : info.switch.text = ascii "OFF"

theorem init_strings : ∃ info, deviceInfoInit = some info ∧ InitialStrings info :=
  ⟨_, rfl, ⟨rfl, rfl, rfl, rfl⟩⟩

variable (info : DeviceInfo)

theorem apply_strings (call : SetCall) (h : InitialStrings info) :
    InitialStrings (call.apply info) := by
  cases call <;> exact ⟨h.baseName, h.guid, h.address, h.switch⟩

theorem calls_strings (calls : List SetCall) (h : InitialStrings info) :
    InitialStrings (calls.foldl SetCall.apply info) := by
  induction calls generalizing info with
  | nil => exact h
  | cons call calls ih => exact ih (call.apply info) (apply_strings info call h)

theorem member_sized {name : List UInt8} {item : CJson} {m n : Nat}
    (hname : Sized (printStringPtr name) m) (hitem : Sized (printValue item) n) :
    Sized (printMember (name, item)) (m + 1 + n) :=
  (hname.append _ _ m 1 (by decide)).append _ _ _ n hitem

theorem printString_sized (text : List UInt8) (n : Nat) (h : Sized (printStringPtr text) n) :
    Sized (printValue (.string text)) n := by
  exact h

theorem printShort_sized (value : Int16) : Sized (printValue (.number value.toInt)) 6 := by
  exact printNumber_short_sized value

/-- The worst case: every number takes six characters. -/
theorem json_sized (h : InitialStrings info) :
    Sized (cJsonPrintUnformatted (deviceInfoTree info)) 248 := by
  apply printObject_sized _ [12 + 1 + 233]
  refine .cons (member_sized (by decide) ?_) .nil
  apply printObject_sized _ [10 + 1 + 10, 6 + 1 + 34, 9 + 1 + 13, 8 + 1 + 5, 17 + 1 + 6,
    16 + 1 + 6, 12 + 1 + 6, 18 + 1 + 6, 9 + 1 + 6, 9 + 1 + 6]
  refine .cons (member_sized (by decide) ?_) <|
    .cons (member_sized (by decide) ?_) <|
    .cons (member_sized (by decide) ?_) <|
    .cons (member_sized (by decide) ?_) <|
    .cons (member_sized (by decide) ?_) <|
    .cons (member_sized (by decide) ?_) <|
    .cons (member_sized (by decide) ?_) <|
    .cons (member_sized (by decide) ?_) <|
    .cons (member_sized (by decide) ?_) <|
    .cons (member_sized (by decide) ?_) .nil
  · rw [h.baseName]
    exact printString_sized _ 10 (by decide)
  · rw [h.guid]
    exact printString_sized _ 34 (by decide)
  · rw [h.address]
    exact printString_sized _ 13 (by decide)
  · rw [h.switch]
    exact printString_sized _ 5 (by decide)
  all_goals exact printShort_sized _

theorem hexNibble_ne_nul (nibble : UInt8) (h : nibble.toNat < 16) : hexNibble nibble ≠ 0 := by
  have hbyte : (nibble + 0x30).toNat = nibble.toNat + 48 := by
    rw [UInt8.toNat_add]
    have hconst : (0x30 : UInt8).toNat = 48 := rfl
    omega
  intro hzero
  unfold hexNibble at hzero
  dsimp only at hzero
  split at hzero
  · have hnat : ((nibble + 0x30).toNat + 7) % 256 = 0 := congrArg UInt8.toNat hzero
    omega
  · have hnat : (nibble + 0x30).toNat = 0 := congrArg UInt8.toNat hzero
    omega

theorem hexPair_ne_nul (byte : UInt8) : ∀ b ∈ hexPair byte, b ≠ 0 := by
  intro b hb
  obtain rfl | hlow := mem_cons.mp hb
  · apply hexNibble_ne_nul
    rw [UInt8.toNat_shiftRight]
    have hlt := byte.toNat_lt
    have hconst : (4 : UInt8).toNat % 8 = 4 := rfl
    rw [hconst]
    omega
  · rw [mem_singleton.mp hlow]
    apply hexNibble_ne_nul
    exact Nat.lt_succ_of_le Nat.and_le_right

theorem hex_sized (source : List UInt8) (n : Nat) (h : source.length ≤ n) :
    Sized (source.flatMap hexPair) (2 * n) := by
  refine ⟨?_, ?_⟩
  · have hlength : (source.flatMap hexPair).length = 2 * source.length := by
      simp [hexPair, Nat.mul_comm]
    omega
  · intro b hb
    obtain ⟨byte, _, hpair⟩ := mem_flatMap.mp hb
    exact hexPair_ne_nul byte b hpair

/-- The parts `send_UDP_msg` appends, in order. -/
def commandParts (socket hostIP port dataLen data : List UInt8) : List (List UInt8) :=
  [socket, ascii ",", hostIP, ascii ",", port, ascii ",", dataLen, ascii ",", data]

theorem sendUdpMsg_parts (socket hostIP port dataLen data : List UInt8) :
    sendUdpMsg socket hostIP port dataLen data = (store 600 (ascii "AT+NSOST=")).bind fun ptr =>
        (commandParts socket hostIP port dataLen data).foldlM strcat ptr := by
  simp only [commandParts, foldlM_cons, foldlM_nil, bind_pure]
  rfl

/-- The fixed parts of the command take 31 bytes. -/
theorem sendUdpMsg_sized {dataLen data : List UInt8} {m n : Nat} (hlen : Sized dataLen m)
    (hdata : Sized data n) (hroom : 31 + m + n < 600) :
    ∃ ptr, sendUdpMsg (ascii "0") serverHostUdpIp serverHostUdpPort dataLen data = some ptr ∧
      Sized ptr.text (31 + m + n) := by
  obtain ⟨start, hstart, htext⟩ := store_eq_some 600 (ascii "AT+NSOST=") (by decide)
  have hparts : ((commandParts (ascii "0") serverHostUdpIp serverHostUdpPort dataLen data).map
      cstr).flatten = ascii "0,111.198.38.70,9999," ++ dataLen ++ ascii "," ++ data := by
    simp only [commandParts, map_cons, map_nil, hlen.cstr_eq, hdata.cstr_eq,
      flatten_cons, flatten_nil, append_nil, append_assoc]
    rfl
  have hall : Sized (start.text ++ (ascii "0,111.198.38.70,9999," ++ dataLen ++ ascii "," ++ data))
      (9 + (21 + m + 1 + n)) := by
    rw [htext]
    apply Sized.append _ _ 9 _ (by decide)
    apply Sized.append _ _ _ n _ hdata
    apply Sized.append _ _ _ 1 _ (by decide)
    exact Sized.append _ _ 21 m (by decide) hlen
  have hlength := hall.length_le
  rw [length_append] at hlength
  obtain ⟨ptr, hptr, hptrText⟩ := strcats_eq_some
    (commandParts (ascii "0") serverHostUdpIp serverHostUdpPort dataLen data) start
    (by rw [hparts]; omega)
  refine ⟨ptr, ?_, ?_, ?_⟩
  · rw [sendUdpMsg_parts, hstart]
    exact hptr
  · rw [hptrText, hparts]
    exact Nat.le_trans hall.length_le (by omega)
  · rw [hptrText, hparts]
    exact hall.nulFree

/-- After `DeviceInfoInit` and any calls of the numeric setters, a reporting round
stores within its arrays. The JSON text is at most 248 bytes, and the command with its
CR LF at most 532. -/
theorem reporting_round_within_bounds (calls : List SetCall) :
    ∃ info round, deviceInfoInit = some info ∧
      reportingRound (calls.foldl SetCall.apply info) = some round ∧
      round.date.text = cJsonPrintUnformatted (deviceInfoTree (calls.foldl SetCall.apply info)) ∧
      round.date.text.length ≤ 248 ∧
      round.senddate.text = round.date.text.flatMap hexPair ∧
      round.senddate.text.length ≤ 496 ∧
      round.ptr.text.length ≤ 530 ∧
      round.sendcmd.text = round.ptr.text ++ ascii "\r\n" := by
  obtain ⟨info, hinit, hstrings⟩ := init_strings
  have hjson := json_sized _ (calls_strings info calls hstrings)
  obtain ⟨date, hdate, hdateText⟩ := strcpy_eq_some 256
    (cJsonPrintUnformatted (deviceInfoTree (calls.foldl SetCall.apply info)))
    (by rw [hjson.cstr_eq]; exact Nat.lt_of_le_of_lt hjson.length_le (by decide))
  rw [hjson.cstr_eq] at hdateText
  have hdateSized : Sized date.text 248 := by
    rw [hdateText]
    exact hjson
  have hhex := hex_sized date.text 248 hdateSized.length_le
  obtain ⟨senddate, hsend, hsendText⟩ := store_eq_some 512 (date.text.flatMap hexPair)
    (Nat.lt_of_le_of_lt hhex.length_le (by decide))
  rw [hhex.cstr_eq] at hsendText
  have hdecimal := decimal_natCast_sized date.text.length 3 (by decide)
    (Nat.lt_of_le_of_lt hdateSized.length_le (by decide))
  obtain ⟨sendlen, hlen, hlenText⟩ := store_eq_some 32 (decimal date.text.length)
    (Nat.lt_of_le_of_lt hdecimal.length_le (by decide))
  rw [hdecimal.cstr_eq] at hlenText
  obtain ⟨ptr, hptr, hptrSized⟩ := sendUdpMsg_sized
    (hlenText ▸ hdecimal) (hsendText ▸ hhex) (by decide)
  have hcommand : Sized (ptr.text ++ ascii "\r\n") 532 := hptrSized.append _ _ 530 2 (by decide)
  obtain ⟨sendcmd, hcmd, hcmdText⟩ := store_eq_some 600 (ptr.text ++ ascii "\r\n")
    (Nat.lt_of_le_of_lt hcommand.length_le (by decide))
  rw [hcommand.cstr_eq] at hcmdText
  refine ⟨info, ⟨date, senddate, sendlen, ptr, sendcmd⟩, hinit, ?_, hdateText,
    hdateSized.length_le, hsendText, ?_, hptrSized.length_le, hcmdText⟩
  · have hshort : date.text.length ≤ 32767 := Nat.le_trans hdateSized.length_le (by decide)
    simp only [reportingRound, deviveInfotoJson, byteToHexStr, nbIotSendCmd, hdate, if_pos hshort,
      hsend, hlen, hptr, hcmd, Option.bind_eq_bind, Option.bind_some]
  · rw [hsendText]
    exact hhex.length_le

end NbLot.Guarantees.UplinkBuffers
