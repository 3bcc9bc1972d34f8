import NbLot.Source.Rs485.Frame

/-!
# RS-485 transmit functions

Source: apps/examples/NB_Iot/485.c:34 (`SRB`), 301-328 (`getLedTemperature`),
333-360 (`getBaseTemperature`), 368-422 (`setColorTemperatureBrightness`),
423-484 (`getVoltage`, `getCurrent`), 493-597 (`setMainLEDSwitch`,
`setBLEDSwitch`).

Every function fills `senddate[]`, advances `SRB`, zeroes the last but one byte
and adds the bytes from index 3 on to it. `transmit` is that common part; its
result is the array given to `write` and the next value of `SRB`. An `int`
initialiser of a `UInt8` element keeps its low eight bits.
-/
namespace NbLot.Source.Rs485
open List

/-- `for (i = 3; i < sizeof(senddate)-2; i++) senddate[sizeof(senddate)-2] += senddate[i];` -/
def checksumLoop (senddate : List UInt8) : List UInt8 :=
  let n := senddate.length - 2
  (List.range' 3 (n - 3)).foldl (fun a i => a.set n (a.getD n 0 + a.getD i 0)) (senddate.set n 0)

def transmit (senddate : List UInt8) (srb : UInt8) : List UInt8 × UInt8 :=
  (checksumLoop senddate, (srb + 1) % 16)

def getLedTemperature (srb : UInt8) : List UInt8 × UInt8 :=
  transmit [0xfe, 0xfe, 0xfe, 0x68, 0x45, 0x00, 0x20, 0x08, 0xC0, 0x00, 0x15, 0x30, 0x01, srb,
    0xC8, 0x16] srb

def getBaseTemperature (srb : UInt8) : List UInt8 × UInt8 :=
  transmit [0xfe, 0xfe, 0xfe, 0x68, 0x45, 0x00, 0x20, 0x08, 0xB0, 0x00, 0x11, 0x30, 0x01, srb,
    0xC8, 0x16] srb

def setColorTemperatureBrightness (led1 led2 led3 led4 : Int) (srb : UInt8) : List UInt8 × UInt8 :=
  transmit [0xfe, 0xfe, 0xfe, 0x68, 0x45, 0x00, 0x40, 0x08, 0xC0, 0x00, 0x43, 0x00, 0x04,
    UInt8.ofInt led1, UInt8.ofInt led2, UInt8.ofInt led3, UInt8.ofInt led4, 0xC8, 0x16] srb

def getVoltage (srb : UInt8) : List UInt8 × UInt8 :=
  transmit [0xfe, 0xfe, 0xfe, 0x68, 0x45, 0x00, 0x20, 0x08, 0xC0, 0x00, 0x13, 0x10, 0x01, srb,
    0xC8, 0x16] srb

def getCurrent (srb : UInt8) : List UInt8 × UInt8 :=
  transmit [0xfe, 0xfe, 0xfe, 0x68, 0x45, 0x00, 0x20, 0x08, 0xC0, 0x00, 0x14, 0x20, 0x01, srb,
    0x00, 0x16] srb

def setMainLEDSwitch (ledonoff : Int) (srb : UInt8) : List UInt8 × UInt8 :=
  transmit [0xfe, 0xfe, 0xfe, 0x68, 0x45, 0x00, 0x40, 0x08, 0xC0, 0x00, UInt8.ofInt ledonoff, 0x00,
    0x01, srb, 0xC8, 0x16] srb

def setBLEDSwitch (ledonoff : Int) (srb : UInt8) : List UInt8 × UInt8 :=
  transmit [0xfe, 0xfe, 0xfe, 0x68, 0x45, 0x00, 0x40, 0x08, 0xC0, 0x00, UInt8.ofInt ledonoff, 0x00,
    0x01, srb, 0xC8, 0x16] srb

/-- The loop standing behind `done`: the bytes of `todo` are still to be added to
the checksum byte at index `n`. -/
theorem checksumLoop_fold (done todo : List UInt8) (n : Nat) (acc tail : UInt8)
    (hn : n = done.length + todo.length) :
    (List.range' done.length todo.length).foldl
      (fun a i => a.set n (a.getD n 0 + a.getD i 0)) (done ++ todo ++ [acc, tail]) =
      done ++ todo ++ [acc + todo.sum, tail] := by
  induction todo generalizing done acc with
  | nil => simp
  | cons b rest ih =>
    have hlen : (done ++ b :: rest).length = n := by simp [hn]
    have hset : (done ++ b :: rest ++ [acc, tail]).set n (acc + b) =
        done ++ [b] ++ rest ++ [acc + b, tail] := by
      rw [set_append_right _ _ (by omega), hlen]
      simp
    have hlast : (done ++ b :: rest ++ [acc, tail]).getD n 0 = acc := by
      rw [getD_eq_getElem?_getD, getElem?_append_right (by omega), hlen, Nat.sub_self]
      rfl
    have hbyte : (done ++ b :: rest ++ [acc, tail]).getD done.length 0 = b := by
      simp [getD_eq_getElem?_getD]
    have hstep := ih (done ++ [b]) (acc + b) (by simp [hn]; omega)
    rw [length_cons, range'_succ, foldl_cons, hlast, hbyte, hset]
    rw [length_append, length_singleton] at hstep
    rw [hstep]
    simp [UInt8.add_assoc]

/-- The transmitted array: preamble, frame bytes, their 8-bit sum, tail. -/
theorem checksumLoop_eq (pre frame : List UInt8) (acc tail : UInt8) (hpre : pre.length = 3) :
    checksumLoop (pre ++ frame ++ [acc, tail]) = pre ++ frame ++ [frame.sum, tail] := by
  have hn : (pre ++ frame ++ [acc, tail]).length - 2 = 3 + frame.length := by
    simp only [length_append, length_cons, length_nil]
    omega
  have hzero : (pre ++ frame ++ [acc, tail]).set (3 + frame.length) 0 =
      pre ++ frame ++ [0, tail] := by
    simp [hpre]
  have hfold := checksumLoop_fold pre frame (3 + frame.length) 0 tail (by rw [hpre])
  rw [hpre, UInt8.zero_add] at hfold
  simp only [checksumLoop, hn, hzero, Nat.add_sub_cancel_left]
  exact hfold

end NbLot.Source.Rs485
