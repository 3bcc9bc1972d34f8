import NbLot.Lib.BitField
import NbLot.Lib.Words
import NbLot.Source.Clock.Gmtime

/-!
# The real-time clock of the STM32L4

Source: nuttx/arch/arm/src/stm32l4/stm32l4_rtcc.c:428-473,1049-1256,1289-1297,
chip/stm32l4_rtcc.h:161-198.

`up_rtc_settime` writes a date and a time to the BCD registers, `up_rtc_getdatetime` reads them
until the date register has the same value before and after the time register. A read is a number
of a sequence, so that the calendar can advance between any two. What the hardware does is taken
from its documentation: the registers show a calendar of the years 00 to 99, every fourth of them a
leap year, in 24-hour format, which is loaded by a write in initialization mode. Whether that mode
is entered and whether the registers are synchronized in time are arguments. Left out are the
weekday, which the configuration does not set, and the backup register that records that a time has
been set.
-/
namespace NbLot.Source.Clock
open Lib Lib.BitField Lib.Calendar

inductive RtcRegister where
  | tr
  | dr
  | ssr
  | prer
  deriving DecidableEq, Repr

/-- `ETIMEDOUT`. -/
def rtcTimedOut : Int := 110

section hardware

/-- Two digits in BCD. -/
def bcd (n : Nat) : Nat := n / 10 * 16 + n % 10

def unbcd (w : Nat) : Nat := w / 16 * 10 + w % 16

/-- The calendar counts a second. Its years are 00 to 99. -/
def tick (c : DateTime) : DateTime :=
  let next := c.next fun year => year % 4 = 0
  { next with year := next.year % 100 }

def timeRegister (c : DateTime) : Nat := bcd c.second + bcd c.minute * 2 ^ 8 + bcd c.hour * 2 ^ 16

def dateRegister (c : DateTime) (weekday : Fin 8) : Nat :=
  bcd c.day + bcd c.month * 2 ^ 8 + weekday * 2 ^ 13 + bcd c.year * 2 ^ 16

/-- The calendar after a write of the two registers. -/
def load (tr dr : Nat) : DateTime where
  second := unbcd (field tr 0 7)
  minute := unbcd (field tr 8 7)
  hour := unbcd (field tr 16 6)
  day := unbcd (field dr 0 6)
  month := unbcd (field dr 8 5)
  year := unbcd (field dr 16 8)

/-- What the `i`-th read of a register returns, after `elapsed i` seconds. The day of the week and
the other registers are arbitrary. -/
def readings (c : DateTime) (weekday : Nat → Fin 8) (other : Nat → RtcRegister → Nat)
    (elapsed : Nat → Nat) (i : Nat) : RtcRegister → Nat
  | .tr => timeRegister (tick^[elapsed i] c)
  | .dr => dateRegister (tick^[elapsed i] c) (weekday (elapsed i))
  | register => other i register

end hardware

/-- The loop of `rtc_bin2bcd`. -/
def bin2bcdLoop (msbcd : Nat) (value : Int) : Nat × Int :=
  if 10 ≤ value then bin2bcdLoop (msbcd + 1) (value - 10) else (msbcd, value)
termination_by value.toNat
decreasing_by omega

def rtcBin2bcd (value : Int) : Nat :=
  let (msbcd, value) := bin2bcdLoop 0 value
  (msbcd <<< 4) ||| (value % 2 ^ 32).toNat

def rtcBcd2bin (value : Nat) : Int :=
  let tens := (value >>> 4) * 10
  ((tens + (value &&& 0x0f) : Nat) : Int).bmod (2 ^ 32)

/-- The words for the time and the date register. -/
def timeWord (tp : Tm) : Nat :=
  let tr := (rtcBin2bcd tp.sec <<< 0) ||| (rtcBin2bcd tp.min <<< 8) ||| (rtcBin2bcd tp.hour <<< 16)
  clear32 tr 0xff808080

def dateWord (tp : Tm) : Nat :=
  let dr := (rtcBin2bcd tp.mday <<< 0) ||| (rtcBin2bcd (tp.mon + 1) <<< 8) |||
    (rtcBin2bcd (tp.year - 100) <<< 16)
  clear32 dr 0xff0000c0

def stm32l4RtcSetdatetime (rtc : DateTime) (initMode synchronized : Bool) (tp : Tm) : DateTime × Int :=
  if initMode then (load (timeWord tp) (dateWord tp), if synchronized then 0 else -rtcTimedOut)
  else (rtc, -rtcTimedOut)

def upRtcSettime (rtc : DateTime) (initMode synchronized : Bool) (tvSec : Nat) : DateTime × Int :=
  stm32l4RtcSetdatetime rtc initMode synchronized (gmtimeR tvSec)

structure RtcSample where
  dr : Nat
  tr : Nat
  ssr : Nat
  deriving DecidableEq, Repr

/-- The sampling loop from the read `i` on; it also returns the number of the first read of the
sample. -/
def sampleLoop (getreg : Nat → RtcRegister → Nat) : Nat → Nat → Option (RtcSample × Nat)
  | 0, _ => none
  | fuel + 1, i =>
    let dr := getreg i .dr
    let tr := getreg (i + 1) .tr
    let ssr := getreg (i + 2) .ssr
    let tmp := getreg (i + 3) .dr
    if tmp ≠ dr then sampleLoop getreg fuel (i + 4) else some (⟨dr, tr, ssr⟩, i)

/-- The fields of a `struct tm` from the registers. -/
def sampleTm (sample : RtcSample) : Tm where
  sec := rtcBcd2bin ((sample.tr &&& (15 <<< 0 ||| 7 <<< 4)) >>> 0)
  min := rtcBcd2bin ((sample.tr &&& (15 <<< 8 ||| 7 <<< 12)) >>> 8)
  hour := rtcBcd2bin ((sample.tr &&& (15 <<< 16 ||| 3 <<< 20)) >>> 16)
  mday := rtcBcd2bin ((sample.dr &&& (15 <<< 0 ||| 3 <<< 4)) >>> 0)
  mon := rtcBcd2bin ((sample.dr &&& (15 <<< 8 ||| 1 <<< 12)) >>> 8) - 1
  year := rtcBcd2bin ((sample.dr &&& (15 <<< 16 ||| 15 <<< 20)) >>> 16) + 100

/-- The nanoseconds from the sub-second register. -/
def sampleNsec (prer ssr : Nat) : Nat :=
  let predivS := prer &&& 0x7fff
  let usecs := sub32 predivS (ssr &&& 0xffff) * 100000 % 2 ^ 32 / (predivS + 1) * 10 % 2 ^ 32
  usecs * 1000 % 2 ^ 32

def stm32l4RtcGetdatetimeWithSubseconds (getreg : Nat → RtcRegister → Nat) (nsec : Bool) (fuel : Nat) :
    Option (Tm × Option Nat) :=
  match sampleLoop getreg fuel 0 with
  | none => none
  | some (sample, i) =>
    some (sampleTm sample,
      if nsec then some (sampleNsec (getreg (i + 4) .prer) sample.ssr) else none)

def upRtcGetdatetime (getreg : Nat → RtcRegister → Nat) (fuel : Nat) : Option Tm :=
  (stm32l4RtcGetdatetimeWithSubseconds getreg false fuel).map Prod.fst

theorem unbcd_bcd (n : Nat) : unbcd (bcd n) = n := by
  unfold unbcd bcd
  omega

theorem bcd_lt {n : Nat} (tens : Nat) (h : n < 10 * tens) : bcd n < 16 * tens := by
  unfold bcd
  omega

theorem bin2bcdLoop_eq (n : Nat) : ∀ msbcd, bin2bcdLoop msbcd n = (msbcd + n / 10, ((n % 10 : Nat) : Int)) := by
  induction n using Nat.strong_induction_on with
  | _ n ih =>
    intro msbcd
    rw [bin2bcdLoop]
    by_cases h : 10 ≤ n
    · have hsub : (n : Int) - 10 = ((n - 10 : Nat) : Int) := by omega
      rw [if_pos (by omega), hsub, ih (n - 10) (by omega), Prod.mk.injEq]
      omega
    · rw [if_neg (by omega), Prod.mk.injEq]
      omega

theorem rtcBin2bcd_eq (n : Nat) : rtcBin2bcd n = bcd n := by
  have hdigit : (((n % 10 : Nat) : Int) % 2 ^ 32).toNat = n % 10 := by omega
  have hlt : n % 10 < 2 ^ 4 := by omega
  rw [rtcBin2bcd, bin2bcdLoop_eq]
  simp only [hdigit]
  rw [Nat.lor_comm, or_shiftLeft hlt, bcd]
  omega

theorem rtcBcd2bin_bcd {n : Nat} (h : n < 100) : rtcBcd2bin (bcd n) = n := by
  have hlow : bcd n &&& 0x0f = bcd n % 2 ^ 4 := Nat.and_two_pow_sub_one_eq_mod _ 4
  have hvalue : bcd n / 2 ^ 4 * 10 + bcd n % 2 ^ 4 = n := unbcd_bcd n
  unfold rtcBcd2bin
  simp only [hlow, Nat.shiftRight_eq_div_pow, hvalue]
  exact Int.bmod_eq_of_le (by omega) (by omega)

/-- The values that the fields of the registers have room for. -/
structure InFields (c : DateTime) : Prop where
  second : c.second < 60
  minute : c.minute < 60
  hour : c.hour < 24
  day : c.day < 32
  month : c.month < 13
  year : c.year < 100

variable {c : DateTime}

namespace InFields

section

variable (h : InFields c)
include h

theorem timeRegister_fields :
    field (timeRegister c) 0 7 = bcd c.second ∧ field (timeRegister c) 8 7 = bcd c.minute ∧
      field (timeRegister c) 16 6 = bcd c.hour := by
  have hsecond := bcd_lt 8 (show c.second < 10 * 8 by have := h.second; omega)
  have hminute := bcd_lt 8 (show c.minute < 10 * 8 by have := h.minute; omega)
  have hhour := bcd_lt 4 (show c.hour < 10 * 4 by have := h.hour; omega)
  unfold field timeRegister
  omega

theorem dateRegister_fields (weekday : Fin 8) :
    field (dateRegister c weekday) 0 6 = bcd c.day ∧ field (dateRegister c weekday) 8 5 = bcd c.month ∧
      field (dateRegister c weekday) 16 8 = bcd c.year := by
  have hday := bcd_lt 4 (show c.day < 10 * 4 by have := h.day; omega)
  have hmonth := bcd_lt 2 (show c.month < 10 * 2 by have := h.month; omega)
  have hyear := bcd_lt 16 (show c.year < 10 * 16 by have := h.year; omega)
  unfold field dateRegister
  omega

/-- The words that are written are those that the registers show, without the reserved bits. -/
theorem timeWord_eq {year : Nat} :
    timeWord (Tm.ofDateTime { c with year := year }) = clear32 (timeRegister c) 0xff808080 := by
  have hsecond := bcd_lt 8 (show c.second < 10 * 8 by have := h.second; omega)
  have hminute := bcd_lt 8 (show c.minute < 10 * 8 by have := h.minute; omega)
  have hlow := or_shiftLeft (show bcd c.second < 2 ^ 8 by omega) (bcd c.minute)
  simp only [timeWord, Tm.ofDateTime, rtcBin2bcd_eq, Nat.shiftLeft_zero]
  rw [hlow, or_shiftLeft (by omega), timeRegister]

theorem dateWord_eq :
    dateWord (Tm.ofDateTime { c with year := 2000 + c.year }) = clear32 (dateRegister c 0) 0xff0000c0 := by
  have hday := bcd_lt 4 (show c.day < 10 * 4 by have := h.day; omega)
  have hmonth := bcd_lt 2 (show c.month < 10 * 2 by have := h.month; omega)
  have hyear : ((2000 + c.year : Nat) : Int) - 1900 - 100 = (c.year : Nat) := by omega
  have hlow := or_shiftLeft (show bcd c.day < 2 ^ 8 by omega) (bcd c.month)
  simp only [dateWord, Tm.ofDateTime, Int.sub_add_cancel, hyear, rtcBin2bcd_eq, Nat.shiftLeft_zero]
  rw [hlow, or_shiftLeft (by omega), dateRegister, Fin.val_zero, Nat.zero_mul, Nat.add_zero]

/-- The calendar that is loaded is the one that has been converted. -/
theorem load_words : load (timeWord (Tm.ofDateTime { c with year := 2000 + c.year }))
      (dateWord (Tm.ofDateTime { c with year := 2000 + c.year })) = c := by
  obtain ⟨hsecond, hminute, hhour⟩ := h.timeRegister_fields
  obtain ⟨hday, hmonth, hyear⟩ := h.dateRegister_fields 0
  rw [h.timeWord_eq, h.dateWord_eq]
  unfold load clear32
  simp only [field_and (show field (0xffffffff ^^^ 0xff808080) 0 7 = 2 ^ 7 - 1 by decide),
    field_and (show field (0xffffffff ^^^ 0xff808080) 8 7 = 2 ^ 7 - 1 by decide),
    field_and (show field (0xffffffff ^^^ 0xff808080) 16 6 = 2 ^ 6 - 1 by decide),
    field_and (show field (0xffffffff ^^^ 0xff0000c0) 0 6 = 2 ^ 6 - 1 by decide),
    field_and (show field (0xffffffff ^^^ 0xff0000c0) 8 5 = 2 ^ 5 - 1 by decide),
    field_and (show field (0xffffffff ^^^ 0xff0000c0) 16 8 = 2 ^ 8 - 1 by decide),
    hsecond, hminute, hhour, hday, hmonth, hyear, unbcd_bcd]

theorem sampleTm_eq (weekday : Fin 8) (ssr : Nat) :
    sampleTm ⟨dateRegister c weekday, timeRegister c, ssr⟩ =
      Tm.ofDateTime { c with year := 2000 + c.year } := by
  obtain ⟨hsecond, hminute, hhour⟩ := h.timeRegister_fields
  obtain ⟨hday, hmonth, hyear⟩ := h.dateRegister_fields weekday
  have hfield : ∀ x s k n : Nat, field x s k = bcd n → n < 100 →
      rtcBcd2bin ((x &&& (2 ^ k - 1) <<< s) >>> s) = n := by
    intro x s k n hx hn
    rw [and_mask_shiftRight, hx, rtcBcd2bin_bcd hn]
  have hyear_eq : rtcBcd2bin ((dateRegister c weekday &&& (15 <<< 16 ||| 15 <<< 20)) >>> 16) = c.year :=
    hfield _ 16 8 _ hyear h.year
  unfold sampleTm Tm.ofDateTime
  simp only [Tm.mk.injEq]
  refine ⟨hfield _ 0 7 _ hsecond (Nat.lt_trans h.second (by decide)),
    hfield _ 8 7 _ hminute (Nat.lt_trans h.minute (by decide)),
    hfield _ 16 6 _ hhour (Nat.lt_trans h.hour (by decide)),
    hfield _ 0 6 _ hday (Nat.lt_trans h.day (by decide)),
    congrArg (· - 1) (hfield _ 8 5 _ hmonth (Nat.lt_trans h.month (by decide))), ?_⟩
  rw [hyear_eq]
  omega

end

end InFields

end NbLot.Source.Clock
